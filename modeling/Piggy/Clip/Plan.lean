import Piggy.Box.Wire

/-!
# The plan of a restore worker

A command that copies a secret starts a worker that puts the old content of the clipboard back
later. The worker reads what it has to do from its standard input: fields of raw bytes, each
with its length in front of it.
-/

namespace Piggy.Clip

open Piggy.Core Piggy.Box

/-- A program with its arguments, as raw bytes. -/
structure Invocation where
  program : Bytes
  args : List Bytes
  deriving DecidableEq

/-- A clipboard tool: how to copy, how to paste, and under which name workers are started. -/
structure ClipperTool where
  copy : Invocation
  paste : Invocation
  displayName : Bytes
  sleepArgv0 : String
  deriving DecidableEq

/-- What a worker has to do. -/
structure ClipPlan where
  copy : Invocation
  paste : Invocation
  sleepArgv0 : String
  /-- Seconds. -/
  clipTime : UInt64
  pushedBytes : Bytes
  restoreBytes : Bytes
  userMessage : String
  deriving DecidableEq

/-! ## Writing -/

/-- A field with its length in front. -/
def writeBytes (buf bytes : Bytes) : Bytes := buf ++ toBe 4 bytes.length ++ bytes

/-- A list of fields with its count in front. -/
def writeArgs (buf : Bytes) (args : List Bytes) : Bytes :=
  args.foldl writeBytes (buf ++ toBe 4 args.length)

/-- The bytes of a plan. -/
def serializePlan (plan : ClipPlan) : Bytes :=
  let buf := writeBytes [] plan.copy.program
  let buf := writeArgs buf plan.copy.args
  let buf := writeBytes buf plan.paste.program
  let buf := writeArgs buf plan.paste.args
  let buf := writeBytes buf (strBytes plan.sleepArgv0)
  let buf := buf ++ toBe 8 plan.clipTime.toNat
  let buf := writeBytes buf plan.pushedBytes
  writeBytes buf plan.restoreBytes

/-! ## Reading -/

/-- A word at the cursor. -/
def readU32Be (r : Cursor) : Except String (Nat × Cursor) :=
  if r.rest.length < 4 then .error "truncated u32 length prefix"
  else .ok (ofBe (r.rest.take 4), r.advance 4)

/-- A double word at the cursor. -/
def readU64Be (r : Cursor) : Except String (UInt64 × Cursor) :=
  if r.rest.length < 8 then .error "truncated u64 (clip_time)"
  else .ok (UInt64.ofNat (ofBe (r.rest.take 8)), r.advance 8)

/-- A field at the cursor. -/
def readBytes (r : Cursor) : Except String (Bytes × Cursor) := do
  let (len, r) ← readU32Be r
  if r.rest.length < len then
    .error s!"truncated bytes field (claimed {len}, remaining {r.rest.length})"
  else .ok (r.rest.take len, r.advance len)

/-- The loop over the arguments. -/
def readArgsFrom : Nat → Cursor → Except String (List Bytes × Cursor)
  | 0, r => .ok ([], r)
  | count + 1, r => do
    let (arg, r) ← readBytes r
    let (args, r) ← readArgsFrom count r
    .ok (arg :: args, r)

/-- A list of fields at the cursor. -/
def readArgs (r : Cursor) : Except String (List Bytes × Cursor) := do
  let (count, r) ← readU32Be r
  readArgsFrom count r

/-- Reads a plan. -/
def deserializePlan (bytes : Bytes) : Except String ClipPlan := do
  let r : Cursor := ⟨0, bytes⟩
  let (copyProgram, r) ← readBytes r
  let (copyArgs, r) ← readArgs r
  let (pasteProgram, r) ← readBytes r
  let (pasteArgs, r) ← readArgs r
  let (argv0, r) ← readBytes r
  let sleepArgv0 ← (fromUtf8 argv0).mapError fun err => s!"sleep_argv0 not UTF-8: {err}"
  let (clipTime, r) ← readU64Be r
  let (pushedBytes, r) ← readBytes r
  let (restoreBytes, r) ← readBytes r
  if r.rest ≠ [] then .error s!"trailing {r.rest.length} byte(s) after plan"
  else
    .ok
      { copy := ⟨copyProgram, copyArgs⟩
        paste := ⟨pasteProgram, pasteArgs⟩
        sleepArgv0
        clipTime
        pushedBytes
        restoreBytes
        userMessage := "" }

/-! ## What is written is read -/

/-- A field whose length fits its prefix. -/
def FitsField (bytes : Bytes) : Prop := bytes.length < 2 ^ 32

instance : DecidablePred FitsField := fun bytes => inferInstanceAs (Decidable (bytes.length < 2 ^ 32))

/-- The fields of an invocation have lengths that a word holds. -/
structure Invocation.Fits (i : Invocation) : Prop where
  program : FitsField i.program
  count : i.args.length < 2 ^ 32
  args : ∀ arg ∈ i.args, FitsField arg

/-- The fields of a plan have lengths that a word holds. -/
structure ClipPlan.Fits (plan : ClipPlan) : Prop where
  copy : plan.copy.Fits
  paste : plan.paste.Fits
  sleepArgv0 : FitsField (strBytes plan.sleepArgv0)
  pushedBytes : FitsField plan.pushedBytes
  restoreBytes : FitsField plan.restoreBytes

/-- A field with its length in front. -/
def field (bytes : Bytes) : Bytes := toBe 4 bytes.length ++ bytes

theorem writeBytes_eq (buf bytes : Bytes) : writeBytes buf bytes = buf ++ field bytes :=
  List.append_assoc ..

/-- The arguments follow each other behind their number. -/
theorem writeArgs_eq (buf : Bytes) (args : List Bytes) :
    writeArgs buf args = buf ++ (toBe 4 args.length ++ args.flatMap field) := by
  have hfold : ∀ (args : List Bytes) (buf : Bytes),
      args.foldl writeBytes buf = buf ++ args.flatMap field := by
    intro args
    induction args with
    | nil => exact fun buf => (List.append_nil buf).symm
    | cons arg args ih =>
      intro buf
      rw [List.foldl_cons, ih, writeBytes_eq, List.flatMap_cons, List.append_assoc]
  rw [writeArgs, hfold, List.append_assoc]

theorem readU32Be_reads {n : Nat} (h : n < 2 ^ 32) : Reads readU32Be (toBe 4 n) n := by
  intro pos tail
  have hlen : ¬ (toBe 4 n ++ tail).length < 4 := by
    rw [List.length_append, length_toBe]
    omega
  have htake : (toBe 4 n ++ tail).take 4 = toBe 4 n := List.take_left' (length_toBe 4 n)
  have hdrop : (toBe 4 n ++ tail).drop 4 = tail := List.drop_left' (length_toBe 4 n)
  rw [readU32Be, if_neg hlen]
  simp only [Cursor.advance, htake, hdrop, ofBe_toBe, length_toBe]
  rw [Nat.mod_eq_of_lt (by norm_num; exact h)]

theorem readU64Be_reads (n : UInt64) : Reads readU64Be (toBe 8 n.toNat) n := by
  intro pos tail
  have hlen : ¬ (toBe 8 n.toNat ++ tail).length < 8 := by
    rw [List.length_append, length_toBe]
    omega
  have htake : (toBe 8 n.toNat ++ tail).take 8 = toBe 8 n.toNat := List.take_left' (length_toBe 8 _)
  have hdrop : (toBe 8 n.toNat ++ tail).drop 8 = tail := List.drop_left' (length_toBe 8 _)
  have hlt : n.toNat < 256 ^ 8 := n.toNat_lt
  rw [readU64Be, if_neg hlen]
  simp only [Cursor.advance, htake, hdrop, ofBe_toBe, length_toBe, Nat.mod_eq_of_lt hlt,
    UInt64.ofNat_toNat]

theorem readBytes_reads {bytes : Bytes} (h : FitsField bytes) : Reads readBytes (field bytes) bytes := by
  intro pos tail
  rw [readBytes, field, List.append_assoc, readU32Be_reads h, ok_bind]
  have hlen : ¬ (bytes ++ tail).length < bytes.length := by
    rw [List.length_append]
    omega
  dsimp only
  rw [if_neg hlen]
  simp only [Cursor.advance, List.take_left, List.drop_left, List.length_append]
  rw [Nat.add_assoc]

theorem readArgs_reads {args : List Bytes} (hcount : args.length < 2 ^ 32)
    (hargs : ∀ arg ∈ args, FitsField arg) :
    Reads readArgs (toBe 4 args.length ++ args.flatMap field) args := by
  have hfrom : ∀ args : List Bytes, (∀ arg ∈ args, FitsField arg) →
      Reads (readArgsFrom args.length) (args.flatMap field) args := by
    intro args
    induction args with
    | nil => exact fun _ _ _ => rfl
    | cons arg args ih =>
      intro hargs pos tail
      rw [List.length_cons, readArgsFrom, List.flatMap_cons, List.append_assoc,
        readBytes_reads (hargs arg List.mem_cons_self), ok_bind]
      dsimp only
      rw [ih (fun arg h => hargs arg (List.mem_cons_of_mem _ h)), ok_bind, List.length_append,
        Nat.add_assoc]
  intro pos tail
  rw [readArgs, List.append_assoc, readU32Be_reads hcount, ok_bind]
  dsimp only
  rw [hfrom args hargs, List.length_append, Nat.add_assoc]

/-- The bytes of a plan, field by field. -/
theorem serializePlan_eq (plan : ClipPlan) :
    serializePlan plan =
      field plan.copy.program ++ (toBe 4 plan.copy.args.length ++ plan.copy.args.flatMap field) ++
        field plan.paste.program ++
        (toBe 4 plan.paste.args.length ++ plan.paste.args.flatMap field) ++
        field (strBytes plan.sleepArgv0) ++ toBe 8 plan.clipTime.toNat ++
        field plan.pushedBytes ++ field plan.restoreBytes := by
  simp only [serializePlan, writeBytes_eq, writeArgs_eq, List.nil_append]

/-- The worker reads the plan that the command made, but for the message to the user. -/
theorem deserializePlan_serializePlan {plan : ClipPlan} (h : plan.Fits) :
    deserializePlan (serializePlan plan) = .ok { plan with userMessage := "" } := by
  rw [deserializePlan, serializePlan_eq]
  simp only [List.append_assoc]
  rw [readBytes_reads h.copy.program, ok_bind]
  dsimp only
  rw [← List.append_assoc (toBe 4 _), readArgs_reads h.copy.count h.copy.args, ok_bind]
  dsimp only
  rw [readBytes_reads h.paste.program, ok_bind]
  dsimp only
  rw [← List.append_assoc (toBe 4 _), readArgs_reads h.paste.count h.paste.args, ok_bind]
  dsimp only
  rw [readBytes_reads h.sleepArgv0, ok_bind]
  dsimp only
  rw [mapError_ok.mpr (fromUtf8_ok.mpr rfl), ok_bind, readU64Be_reads, ok_bind]
  dsimp only
  rw [readBytes_reads h.pushedBytes, ok_bind]
  dsimp only
  rw [← List.append_nil (field plan.restoreBytes), readBytes_reads h.restoreBytes, ok_bind]
  rfl

end Piggy.Clip
