import Piggy.Pigpen.Document
import Mathlib.Data.List.Basic

/-!
# Pointer documents

A pointer names a resolver by its kind and hands it a locator, instead of carrying recipients.
Both stand between double quotes on lines of their own, in either order; there is no escape.
-/

namespace Piggy.Pigpen

open Piggy.Core
open Piggy.Box (Bytes)

/-- A pointer to a document elsewhere. -/
structure Pointer where
  kind : List Char
  locator : List Char
  deriving DecidableEq

def pointerTypeTag : List Char := "pigpen-pointer-v1".toList

/-- A kind names a program that is looked up, so it is no path. -/
def validatePointerKind (kind : List Char) : Except Error Unit :=
  if kind.isEmpty then .error (.malformed "pointer kind is empty")
  else if '/' ∈ kind ∨ '\x00' ∈ kind then
    .error (.malformed s!"pointer kind {debugText kind} contains a path separator or NUL")
  else .ok ()

/-- The value of a tag `key="value"`. -/
def parseQuotedKv (body key : List Char) : Option (List Char) := do
  let rest ← body.dropPrefix? key
  let rest ← rest.dropPrefix? ['=']
  let rest ← rest.dropPrefix? ['"']
  rest.dropSuffix? ['"']

namespace Pointer

/-! ## Writing -/

/-- Refuses a value that cannot stand between double quotes on a line. -/
def checkValue (field : String) (value : List Char) : Except Error Unit := do
  rejectControl field value
  if '"' ∈ value then .error (.malformed s!"pointer {field} must not contain a double quote")
  else .ok ()

/-- A tag with its value in quotes. -/
def quotedTag (key : String) (value : List Char) : List Char :=
  key.toList ++ '=' :: '"' :: (value ++ ['"'])

/-- The frame of a pointer. -/
def frame (p : Pointer) : HyphenceDoc :=
  ⟨[⟨.dash, quotedTag "kind" p.kind⟩, ⟨.dash, quotedTag "locator" p.locator⟩, ⟨.bang, pointerTypeTag⟩],
    []⟩

/-- Writes a pointer. -/
def toBytes (p : Pointer) : Except Error Bytes := do
  validatePointerKind p.kind
  checkValue "kind" p.kind
  checkValue "locator" p.locator
  p.frame.marshal

/-! ## Reading -/

/-- One turn of the loop that counts the type lines: each of them names a pointer. The source counts
in an `i32`, which is this count for fewer than 2 ^ 31 type lines. -/
def countType (types : Nat) (l : MetaLine) : Except Error Nat :=
  if l.body ≠ pointerTypeTag then
    .error (.malformed (s!"not a {String.ofList pointerTypeTag} document (type " ++ debugText l.body ++ ")"))
  else .ok (types + 1)

/-- How many type lines there are, each of them a pointer's. -/
def countTypes (lines : List MetaLine) : Except Error Nat :=
  (lines.filter (·.kind = .bang)).foldlM countType 0

/-- There is one type line, and it is a pointer's. -/
def checkType (lines : List MetaLine) : Except Error Unit := do
  let types ← countTypes lines
  if types = 0 then
    .error (.malformed s!"not a {String.ofList pointerTypeTag} document (no '!' type line)")
  else if types = 1 then .ok ()
  else .error (.malformed "more than one '!' type line")

/-- The tags that were read so far. -/
structure Tags where
  kind : Option (List Char) := none
  locator : Option (List Char) := none
  deriving DecidableEq

/-- A tag line is a kind or a locator that is not there yet. -/
def readTag (s : Tags) (l : MetaLine) : Except Error Tags :=
  if l.kind ≠ .dash then .ok s
  else
    match parseQuotedKv l.body "kind".toList, s.kind with
    | some v, none => .ok { s with kind := some v }
    | _, _ =>
      match parseQuotedKv l.body "locator".toList, s.locator with
      | some v, none => .ok { s with locator := some v }
      | _, _ => .error (.malformed
          (s!"unexpected '-' line in {String.ofList pointerTypeTag} document: " ++ debugText l.body))

/-- Both tags are there. -/
def ofTags (s : Tags) : Except Error Pointer :=
  match s.kind with
  | none => .error (.malformed "pointer missing kind tag")
  | some kind =>
    match s.locator with
    | none => .error (.malformed "pointer missing locator tag")
    | some locator => do
      validatePointerKind kind
      pure ⟨kind, locator⟩

/-- Reads a pointer. -/
def parse (raw : Bytes) : Except Error Pointer := do
  let h ← HyphenceDoc.parse raw
  checkType h.lines
  if !h.body.isEmpty then .error (.malformed "a pointer document carries no body")
  else do
    let s ← h.lines.foldlM readTag {}
    ofTags s

end Pointer

/-! ## Tags -/

theorem dropPrefix?_iff {α : Type} [BEq α] [LawfulBEq α] {l p s : List α} :
    l.dropPrefix? p = some s ↔ l = p ++ s := by
  simp [List.dropPrefix?_eq_some_iff]

theorem dropSuffix?_iff {α : Type} [BEq α] [LawfulBEq α] {l p s : List α} :
    l.dropSuffix? s = some p ↔ l = p ++ s := by
  simp [List.dropSuffix?_eq_some_iff]

/-- A tag is read exactly from its key and the quoted value. -/
theorem parseQuotedKv_iff {body value : List Char} {key : String} :
    parseQuotedKv body key.toList = some value ↔ body = Pointer.quotedTag key value := by
  simp only [parseQuotedKv, Option.bind_eq_bind, Option.bind_eq_some_iff, dropPrefix?_iff,
    dropSuffix?_iff, Pointer.quotedTag]
  constructor
  · rintro ⟨_, rfl, _, rfl, _, rfl, rfl⟩
    rfl
  · rintro rfl
    exact ⟨_, rfl, _, rfl, _, rfl, rfl⟩

theorem validatePointerKind_ok {kind : List Char} :
    validatePointerKind kind = .ok () ↔ kind ≠ [] ∧ '/' ∉ kind ∧ '\x00' ∉ kind := by
  rw [validatePointerKind, guard_ok, guard_ok, List.isEmpty_iff, not_or]
  simp

namespace Pointer

theorem countTypes_ok {lines : List MetaLine} {n : Nat} :
    countTypes lines = .ok n ↔
      (∀ l ∈ lines, l.kind = .bang → l.body = pointerTypeTag) ∧ n = lines.countP (·.kind = .bang) := by
  have hfold : ∀ (ls : List MetaLine) (start n : Nat), ls.foldlM countType start = .ok n ↔
      (∀ l ∈ ls, l.body = pointerTypeTag) ∧ n = start + ls.length := by
    intro ls
    induction ls with
    | nil =>
      intro start n
      show Except.ok start = Except.ok n ↔ _
      simp [eq_comm]
    | cons l ls ih =>
      intro start n
      rw [List.foldlM_cons, bind_ok]
      simp only [countType, guard_ok, not_not, Except.ok.injEq, List.forall_mem_cons, List.length_cons]
      constructor
      · rintro ⟨_, ⟨hl, rfl⟩, hrest⟩
        obtain ⟨hls, rfl⟩ := (ih _ _).mp hrest
        exact ⟨⟨hl, hls⟩, by omega⟩
      · rintro ⟨⟨hl, hls⟩, rfl⟩
        exact ⟨start + 1, ⟨hl, rfl⟩, (ih _ _).mpr ⟨hls, by omega⟩⟩
  rw [countTypes, hfold, List.countP_eq_length_filter, Nat.zero_add]
  simp only [List.mem_filter, decide_eq_true_eq, and_imp]

/-- A document has exactly one type line, and it names a pointer. -/
theorem checkType_ok {lines : List MetaLine} :
    checkType lines = .ok () ↔
      (∀ l ∈ lines, l.kind = .bang → l.body = pointerTypeTag) ∧ lines.countP (·.kind = .bang) = 1 := by
  rw [checkType, bind_ok]
  simp only [countTypes_ok, guard_ok]
  constructor
  · rintro ⟨_, ⟨hlines, rfl⟩, -, h⟩
    split at h
    · next hone => exact ⟨hlines, hone⟩
    · cases h
  · rintro ⟨hlines, hone⟩
    exact ⟨1, ⟨hlines, hone.symm⟩, by decide, rfl⟩

/-- The tag lines that were read. -/
def Tags.bodies (s : Tags) : List (List Char) :=
  (s.kind.map (quotedTag "kind")).toList ++ (s.locator.map (quotedTag "locator")).toList

theorem readTag_ok {s s' : Tags} {l : MetaLine} (h : readTag s l = .ok s') :
    s'.bodies.Perm (if l.kind = .dash then l.body :: s.bodies else s.bodies) := by
  rw [readTag] at h
  by_cases hdash : l.kind = .dash
  · rw [if_neg (not_not.mpr hdash)] at h
    rw [if_pos hdash]
    split at h
    · next v hkv hnone =>
      cases h
      rw [Tags.bodies, Tags.bodies, hnone, parseQuotedKv_iff.mp hkv]
      exact .refl _
    · split at h
      · next v hkv hnone =>
        cases h
        rw [Tags.bodies, Tags.bodies, hnone, parseQuotedKv_iff.mp hkv]
        simp
      · cases h
  · rw [if_pos hdash] at h
    cases h
    rw [if_neg hdash]

theorem foldlM_readTag_ok {lines : List MetaLine} {s s' : Tags} (h : lines.foldlM readTag s = .ok s') :
    s'.bodies.Perm ((lines.filter (·.kind = .dash)).map MetaLine.body ++ s.bodies) := by
  induction lines generalizing s with
  | nil =>
    cases h
    exact .refl _
  | cons l ls ih =>
    rw [List.foldlM_cons, bind_ok] at h
    obtain ⟨mid, hmid, hrest⟩ := h
    have hstep := readTag_ok hmid
    refine (ih hrest).trans ?_
    by_cases hdash : l.kind = .dash
    · rw [if_pos hdash] at hstep
      rw [List.filter_cons_of_pos (by simpa using hdash), List.map_cons, List.cons_append]
      exact (List.Perm.append_left _ hstep).trans List.perm_middle
    · rw [if_neg hdash] at hstep
      rw [List.filter_cons_of_neg (by simpa using hdash)]
      exact List.Perm.append_left _ hstep

theorem quotedTag_inj {key : String} {v w : List Char} (h : quotedTag key v = quotedTag key w) : v = w := by
  simpa [quotedTag] using h

/-- The value of one of the two tags. -/
theorem value_of_tag {p : Pointer} {key : String} (hkey : key ∈ ["kind", "locator"]) {v : List Char}
    (h : quotedTag key v ∈ [quotedTag "kind" p.kind, quotedTag "locator" p.locator]) :
    v = p.kind ∨ v = p.locator := by
  have hne : ∀ {v w : List Char}, quotedTag "kind" v ≠ quotedTag "locator" w :=
    fun h => absurd (List.cons.inj h).1 (by decide)
  simp only [List.mem_cons, List.not_mem_nil, or_false] at hkey h
  rcases hkey with rfl | rfl
  · rcases h with h | h
    · exact .inl (quotedTag_inj h)
    · exact absurd h hne
  · rcases h with h | h
    · exact absurd h.symm hne
    · exact .inr (quotedTag_inj h)

/-- What a pointer is read from. -/
theorem parse_ok {raw : Bytes} {p : Pointer} (h : parse raw = .ok p) :
    ∃ d, HyphenceDoc.parse raw = .ok d ∧ checkType d.lines = .ok () ∧ d.body = [] ∧
      validatePointerKind p.kind = .ok () ∧
      [quotedTag "kind" p.kind, quotedTag "locator" p.locator].Perm
        ((d.lines.filter (·.kind = .dash)).map MetaLine.body) := by
  simp only [parse, bind_ok, guard_ok] at h
  obtain ⟨d, hd, ⟨⟩, htype, hbody, s, hs, hp⟩ := h
  refine ⟨d, hd, htype, by simpa using hbody, ?_⟩
  have hbodies := foldlM_readTag_ok hs
  rcases s with ⟨_ | kind, _ | locator⟩
  · cases hp
  · cases hp
  · cases hp
  · simp only [ofTags, bind_ok, pure_ok] at hp
    obtain ⟨⟨⟩, hkind, rfl⟩ := hp
    refine ⟨hkind, ?_⟩
    simpa [Tags.bodies] using hbodies

/-! ## Writing what was read -/

/-- A value that can stand between double quotes on a line. -/
def Plain (value : List Char) : Prop := '\n' ∉ value ∧ '\r' ∉ value ∧ '"' ∉ value

theorem checkValue_ok {field : String} {value : List Char} :
    checkValue field value = .ok () ↔ Plain value := by
  simp only [checkValue, rejectControl, bind_ok, guard_ok, not_or, Plain]
  constructor
  · rintro ⟨-, ⟨⟨hnl, hcr⟩, -⟩, hquote, -⟩
    exact ⟨hnl, hcr, hquote⟩
  · rintro ⟨hnl, hcr, hquote⟩
    exact ⟨(), ⟨⟨hnl, hcr⟩, trivial⟩, hquote, trivial⟩

theorem toBytes_ok {p : Pointer} {out : Bytes} :
    p.toBytes = .ok out ↔ validatePointerKind p.kind = .ok () ∧ Plain p.kind ∧ Plain p.locator ∧
      p.frame.marshal = .ok out := by
  simp only [toBytes, bind_ok]
  constructor
  · rintro ⟨⟨⟩, hkind, ⟨⟩, hplain, ⟨⟩, hplain', hout⟩
    exact ⟨hkind, checkValue_ok.mp hplain, checkValue_ok.mp hplain', hout⟩
  · rintro ⟨hkind, hplain, hplain', hout⟩
    exact ⟨(), hkind, (), checkValue_ok.mpr hplain, (), checkValue_ok.mpr hplain', hout⟩

/-- A frame has no body, so it is written. -/
theorem frame_marshal (p : Pointer) : ∃ out, p.frame.marshal = .ok out := ⟨_, rfl⟩

theorem lineFeed_notMem_frame {p : Pointer} (hkind : '\n' ∉ p.kind) (hlocator : '\n' ∉ p.locator) :
    ∀ l ∈ p.frame.lines, '\n' ∉ l.body := by
  have htag : ∀ (key : String) {value : List Char}, '\n' ∉ key.toList → '\n' ∉ value →
      '\n' ∉ quotedTag key value := by
    intro key value hkey hvalue
    simp [quotedTag, hkey, hvalue]
  simp only [frame, List.forall_mem_cons]
  exact ⟨htag _ (by decide) hkind, htag _ (by decide) hlocator, by decide, nofun⟩

theorem readTag_kind (value : List Char) :
    readTag {} ⟨.dash, quotedTag "kind" value⟩ = .ok { kind := some value } := by
  rw [readTag, if_neg (not_not.mpr rfl), parseQuotedKv_iff.mpr rfl]

theorem readTag_locator (kind : Option (List Char)) (value : List Char) :
    readTag { kind } ⟨.dash, quotedTag "locator" value⟩ = .ok { kind, locator := some value } := by
  have hno : parseQuotedKv (quotedTag "locator" value) "kind".toList = none := by
    rw [Option.eq_none_iff_forall_ne_some]
    intro v hv
    have heq := parseQuotedKv_iff.mp hv
    cases (List.cons.inj heq).1
  rw [readTag, if_neg (not_not.mpr rfl), hno, parseQuotedKv_iff.mpr rfl]

/-- What the frame of a pointer is read as. -/
theorem parse_of_frame {p : Pointer} (hkind : validatePointerKind p.kind = .ok ()) {raw : Bytes}
    (h : HyphenceDoc.parse raw = .ok p.frame) : parse raw = .ok p := by
  have htype : checkType p.frame.lines = .ok () := by
    refine checkType_ok.mpr ⟨?_, rfl⟩
    simp [frame]
  have hfold : p.frame.lines.foldlM readTag {} = .ok ⟨some p.kind, some p.locator⟩ := by
    rw [frame, List.foldlM_cons, readTag_kind, ok_bind, List.foldlM_cons, readTag_locator, ok_bind]
    rfl
  rw [parse, h, ok_bind, htype, ok_bind, if_neg (by simp [frame]), hfold, ok_bind, ofTags]
  dsimp only
  rw [hkind]
  rfl

/-- A pointer is read back from what is written. -/
theorem parse_toBytes {p : Pointer} {out : Bytes} (h : p.toBytes = .ok out) :
    HyphenceDoc.parse out = .ok p.frame ∧ parse out = .ok p := by
  obtain ⟨hkind, hplain, hplain', hout⟩ := toBytes_ok.mp h
  have hframe : HyphenceDoc.parse out = .ok p.frame :=
    HyphenceDoc.parse_marshal rfl (lineFeed_notMem_frame hplain.1 hplain'.1) hout
  exact ⟨hframe, parse_of_frame hkind hframe⟩

/-! ## Pointers and documents -/

theorem parseTypeLine_pointer (mac : Option Bytes) : parseTypeLine pointerTypeTag ≠ .ok mac := by
  rw [parseTypeLine, show Markl.splitOnceAt (· = '@') pointerTypeTag = none from rfl]
  exact nofun

/-- No bytes are a pointer and a document. -/
theorem not_document {raw : Bytes} {p : Pointer} (h : parse raw = .ok p) (d : Document) :
    Document.parse raw ≠ .ok d := by
  intro hdoc
  obtain ⟨f, hf, htype, -⟩ := parse_ok h
  obtain ⟨hname, hone⟩ := checkType_ok.mp htype
  obtain ⟨l, hl, hbang⟩ := List.countP_pos_iff.mp (hone ▸ Nat.one_pos)
  simp only [decide_eq_true_eq] at hbang
  simp only [Document.parse, hf, ok_bind, bind_ok] at hdoc
  obtain ⟨s, hs, -⟩ := hdoc
  obtain ⟨t, t', hturn⟩ := turn_of_foldlM hs hl
  simp only [readMetaLine, hbang, guard_ok, bind_ok] at hturn
  obtain ⟨-, mac, hmac, -⟩ := hturn
  rw [hname l hl hbang] at hmac
  exact parseTypeLine_pointer mac hmac

end Pointer

end Piggy.Pigpen
