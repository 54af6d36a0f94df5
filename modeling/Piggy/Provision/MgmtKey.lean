import Piggy.Provision.Engine

/-!
# Generated management keys

A management key that the engine generates is sealed into the store or returned. It is not lost
as long as the card does what it reports and the store can take an entry back: a failed answer to
the command that sets the key is taken for a refusal, and the sealed key is removed.
-/

namespace Piggy.Provision

open Piggy.Core Piggy.Box Piggy.Card Piggy.Markl

/-! ## Keys and entries -/

/-- Where management keys are: on the card, in the entry of the escrow, and which of them were
generated or supplied during the run. -/
structure KeyWorld where
  mgmtKey : Bytes
  /-- What the entry decrypts to; nothing if there is none or it cannot be read. -/
  entry : Option Bytes
  /-- What the encrypting program was given. -/
  given : Bytes
  generated : List Bytes
  supplied : List Bytes

/-- What an entry with a key decrypts to. -/
def escrowed (key : Bytes) : Bytes := strBytes (hexEncodeUpper key ++ "\n")

/-- The store has the key. -/
def KeyWorld.Readable (w : KeyWorld) (key : Bytes) : Prop := w.entry = some (escrowed key)

/-- The keys that a choice of the operator supplies. -/
def suppliedKeys : MgmtKeyChoice → List Bytes
  | .hex key => (hexDecode (trimStr key)).toOption.toList
  | _ => []

/-- What an operation may do. A failed command may have reached the card nevertheless, and an
encrypting program that fails or is not waited for may leave anything behind. -/
def KeyStep (w : KeyWorld) (op : ProvOp) (ans : ProvAns op) (w' : KeyWorld) : Prop :=
  match op, ans with
  | .onCard _ (.setManagementKey3des key), .ok () => w' = { w with mgmtKey := key }
  | .onCard _ (.setManagementKey3des key), .error _ => w' = w ∨ w' = { w with mgmtKey := key }
  | .requestMgmtKey _, .ok choice => w' = { w with supplied := suppliedKeys choice ++ w.supplied }
  | .randBytes length, .ok key => key.length = length ∧ w' = { w with generated := key :: w.generated }
  | .escrow .createFile, .ok () => w' = { w with entry := none }
  | .escrow (.write plaintext), .ok () => w' = { w with given := plaintext }
  | .escrow (.write _), .error _ => ∃ entry, w' = { w with entry := entry }
  | .escrow .flush, .error _ => ∃ entry, w' = { w with entry := entry }
  | .escrow .wait, .ok none => w' = { w with entry := some w.given }
  | .escrow .wait, .ok (some _) => ∃ entry, w' = { w with entry := entry }
  | .escrow .wait, .error _ => ∃ entry, w' = { w with entry := entry }
  | .escrow .removeFile, .ok () => w' = { w with entry := none }
  | _, _ => w' = w

/-- The steps after which no key is lost: a generated key that the card says it refused was not
set, a file that is to be removed is removed, a seal that failed left no entry, and a generated
key is not the one that the card has. -/
def CarefulStep (w : KeyWorld) (op : ProvOp) (ans : ProvAns op) (w' : KeyWorld) : Prop :=
  match op, ans with
  | .onCard _ (.setManagementKey3des key), .error _ => key ∈ w.generated → w'.mgmtKey = w.mgmtKey
  | .randBytes _, .ok key => key ≠ w.mgmtKey
  | .escrow (.write _), .error _ => w'.entry = none
  | .escrow .flush, .error _ => w'.entry = none
  | .escrow .wait, .error _ => w'.entry = none
  | .escrow .removeFile, .error _ => w.entry = none
  | _, _ => True

/-- No generated key is lost: the card's key, if it was generated, can be read or is returned;
after a failure the entry is not that of another key, and the operator has the card's key. -/
def Kept {α : Type} (returned : α → Option String) (before after : KeyWorld) (result : Result α) :
    Prop :=
  (after.mgmtKey ∈ after.generated → after.Readable after.mgmtKey ∨
    ∃ outcome, result = .ok outcome ∧ returned outcome = some (hexEncodeUpper after.mgmtKey)) ∧
  ∀ e, result = .error e →
    (∀ key, after.Readable key → after.mgmtKey = key) ∧
    (after.mgmtKey = before.mgmtKey ∨ after.mgmtKey ∈ after.supplied ∨
      after.Readable after.mgmtKey)

/-- A run begins: there is no entry yet, since an existing one is not overwritten. -/
def KeyWorld.Start (w : KeyWorld) : Prop := w.entry = none ∧ w.generated = [] ∧ w.supplied = []

/-! ## Steps before the rotation -/

/-- The operations that have nothing to do with management keys. -/
def Quiet : ProvOp → Prop
  | .onCard _ (.setManagementKey3des _) | .requestMgmtKey _ | .randBytes _ | .escrow _ => False
  | _ => True

theorem Quiet.step {w w' : KeyWorld} {op : ProvOp} {ans : ProvAns op} (h : Quiet op)
    (hstep : KeyStep w op ans w') : w' = w := by
  cases op with
  | onCard card op =>
    cases op with
    | setManagementKey3des key => exact h.elim
    | _ => exact hstep
  | requestMgmtKey request => exact h.elim
  | randBytes n => exact h.elim
  | escrow op => exact h.elim
  | _ => exact hstep

theorem KeyOps.quiet {card : CardMeta} {op : ProvOp} (h : KeyOps card op) : Quiet op := by
  cases op with
  | onCard card' op =>
    cases op with
    | setManagementKey3des key =>
      obtain ⟨slot, h⟩ := h
      exact h.elim
    | _ => trivial
  | requestMgmtKey request =>
    obtain ⟨slot, h⟩ := h
    exact h.elim
  | randBytes n =>
    obtain ⟨slot, h⟩ := h
    exact h.elim
  | escrow op =>
    obtain ⟨slot, h⟩ := h
    exact h.elim
  | _ => trivial

/-- A step that is careful. -/
def KeyRun (w : KeyWorld) (op : ProvOp) (ans : ProvAns op) (w' : KeyWorld) : Prop :=
  KeyStep w op ans w' ∧ CarefulStep w op ans w'

/-- A program of quiet operations leaves all keys where they are. -/
theorem ensures_quiet {α : Type} {p : ProvProg α} (h : p.Only Quiet) (w : KeyWorld) :
    p.Ensures KeyRun (fun _ w' => w' = w) w := by
  refine h.ensures ?_ rfl
  rintro w₁ op ans w₂ hquiet rfl hstep
  exact hquiet.step hstep.1

/-! ## The rotation -/

variable {w w' : KeyWorld}

/-- The keys are where they were; the entry may be another one. -/
def SameKeys (w w' : KeyWorld) : Prop :=
  w'.mgmtKey = w.mgmtKey ∧ w'.generated = w.generated ∧ w'.supplied = w.supplied

/-- An entry is written, or there is none. -/
theorem ensures_sealEntry (keyHex : String) (hentry : w.entry = none) :
    (sealEntry keyHex).Ensures KeyRun (fun result w' => SameKeys w w' ∧
      match result with
      | .ok () => w'.entry = some (strBytes (keyHex ++ "\n"))
      | .error _ => w'.entry = none) w := by
  rintro (e | ⟨⟩) w₁ ⟨rfl, -⟩
  · exact ⟨⟨rfl, rfl, rfl⟩, hentry⟩
  rintro (e | ⟨⟩) w₂ ⟨rfl, -⟩
  · exact ⟨⟨rfl, rfl, rfl⟩, hentry⟩
  rintro (e | ⟨⟩) w₃ ⟨rfl, -⟩
  · exact ⟨⟨rfl, rfl, rfl⟩, rfl⟩
  rintro (e | ⟨⟩) w₄ ⟨hstep, hcareful⟩
  · obtain ⟨entry, rfl⟩ := hstep
    exact ⟨⟨rfl, rfl, rfl⟩, hcareful⟩
  cases hstep
  rintro (e | ⟨⟩) w₅ ⟨hstep, hcareful⟩
  · obtain ⟨entry, rfl⟩ := hstep
    exact ⟨⟨rfl, rfl, rfl⟩, hcareful⟩
  cases hstep
  rintro (e | _ | status) w₆ ⟨hstep, hcareful⟩
  · obtain ⟨entry, rfl⟩ := hstep
    exact ⟨⟨rfl, rfl, rfl⟩, hcareful⟩
  · cases hstep
    exact ⟨⟨rfl, rfl, rfl⟩, rfl⟩
  · -- the program failed, so its file is removed
    obtain ⟨entry, rfl⟩ := hstep
    rintro (e | ⟨⟩) w₇ ⟨rfl, hremoved⟩
    · exact ⟨⟨rfl, rfl, rfl⟩, hremoved⟩
    · exact ⟨⟨rfl, rfl, rfl⟩, rfl⟩

/-- After a failure without an entry the card has its old key. -/
theorem Kept.of_failed {α : Type} {returned : α → Option String} {before : KeyWorld}
    {e : ProvisionError} (hentry : w.entry = none) (hkey : w.mgmtKey = before.mgmtKey)
    (hnew : w.mgmtKey ∉ w.generated) : Kept returned before w (.error e) := by
  refine ⟨fun hgenerated => absurd hgenerated hnew, fun _ _ => ⟨fun key hread => ?_, .inl hkey⟩⟩
  rw [KeyWorld.Readable, hentry] at hread
  cases hread

/-- A key that was not generated needs no care. -/
theorem Kept.of_ok {α : Type} {returned : α → Option String} {before : KeyWorld} {outcome : α}
    (hnew : w.mgmtKey ∉ w.generated) : Kept returned before w (.ok outcome) :=
  ⟨fun hgenerated => absurd hgenerated hnew, fun _ herror => nomatch herror⟩

theorem ensures_noteUnsealed {α : Type} (escrow : Option Escrow) (r : Result α)
    {post : Result α → KeyWorld → Prop} (h : post r w) :
    (noteUnsealed escrow >>= fun _ => pure r).Ensures KeyRun post w := by
  have hquiet : (noteUnsealed escrow).Only Quiet := by
    rcases escrow with _ | escrow
    · trivial
    · rw [noteUnsealed]
      split
      · trivial
      · exact Prog.only_op trivial
  refine (ensures_quiet hquiet w).bind ?_
  rintro - w' rfl
  exact h

/-- A generated key is sealed and set, or neither. -/
theorem ensures_sealThenRotate (card : CardMeta) (escrow : Escrow) {key : Bytes}
    (hentry : w.entry = none) (hgenerated : w.generated = [key]) (hnew : key ≠ w.mgmtKey) :
    (sealThenRotate card escrow key).Ensures KeyRun
      (fun result w' => Kept (fun _ => none) w w' result) w := by
  have hold : w.mgmtKey ∉ w.generated := by
    rw [hgenerated, List.mem_singleton]
    exact hnew.symm
  rintro - w₁ ⟨rfl, -⟩
  refine (ensures_sealEntry (hexEncodeUpper key) hentry).orFail_andThen ?_ ?_
  · rintro e w₂ ⟨⟨hkey, hnews, -⟩, hentry₂⟩
    exact .of_failed hentry₂ hkey (by rwa [hkey, hnews])
  rintro ⟨⟩ w₂ ⟨⟨hkey, hnews, -⟩, hentry₂⟩
  rintro (e | ⟨⟩) w₃ ⟨hstep, hcareful⟩
  · -- the card has not set the key, so the entry goes
    have hmem : key ∈ w₂.generated := by
      rw [hnews, hgenerated]
      exact List.mem_singleton_self key
    have hsame : w₃ = w₂ := by
      rcases hstep with rfl | rfl
      · rfl
      · have hset : key = w₂.mgmtKey := hcareful hmem
        rw [hset]
    subst hsame
    have hnot : w₃.mgmtKey ∉ w₃.generated := by rwa [hkey, hnews]
    rintro (e | ⟨⟩) w₄ ⟨rfl, hremoved⟩
    · exact .of_failed hremoved hkey hnot
    · exact .of_failed rfl hkey hnot
  · cases hstep
    rintro - w₄ ⟨rfl, -⟩
    exact ⟨fun _ => .inl hentry₂, fun _ herror => nomatch herror⟩

/-- A generated key that is not sealed is returned. -/
theorem ensures_showKey (card : CardMeta) {key : Bytes} (hentry : w.entry = none)
    (hgenerated : w.generated = [key]) (hnew : key ≠ w.mgmtKey) :
    (((Prog.op (ProvOp.onCard card (.setManagementKey3des key))).orFail .card).andThen fun _ =>
      pure (.ok (some (hexEncodeUpper key), (none : Option SealedKey)))).Ensures KeyRun
      (fun result w' => Kept Prod.fst w w' result) w := by
  rintro (e | ⟨⟩) w₁ ⟨hstep, hcareful⟩
  · have hmem : key ∈ w.generated := by
      rw [hgenerated]
      exact List.mem_singleton_self key
    have hsame : w₁ = w := by
      rcases hstep with rfl | rfl
      · rfl
      · have hset : key = w.mgmtKey := hcareful hmem
        rw [hset]
    subst hsame
    refine .of_failed hentry rfl ?_
    rw [hgenerated, List.mem_singleton]
    exact hnew.symm
  · cases hstep
    exact ⟨fun _ => .inr ⟨_, rfl, rfl⟩, fun _ herror => nomatch herror⟩

theorem ensures_rotateMgmtKey (card : CardMeta) (id : CardId) (escrow : Option Escrow)
    (hstart : w.Start) :
    (rotateMgmtKey card id escrow).Ensures KeyRun (fun result w' => Kept Prod.fst w w' result) w := by
  obtain ⟨hentry, hgenerated, hsupplied⟩ := hstart
  have hnone : w.mgmtKey ∉ w.generated := by
    rw [hgenerated]
    exact List.not_mem_nil
  rintro (e | choice) w₁ ⟨rfl, -⟩
  · exact .of_failed hentry rfl hnone
  cases choice with
  | default => exact ensures_noteUnsealed escrow _ (.of_ok hnone)
  | hex key =>
    dsimp only [Prog.bind, Except.mapError]
    rcases hparse : parseMgmtKey key (fun e => e) with e | bytes
    · exact .of_failed hentry rfl hnone
    have hbytes : bytes ∈ suppliedKeys (.hex key) := by
      rw [parseMgmtKey] at hparse
      rcases hdecode : hexDecode (trimStr key) with e | decoded
      · rw [hdecode] at hparse
        cases hparse
      · rw [hdecode] at hparse
        dsimp only at hparse
        split at hparse
        · cases hparse
        · cases hparse
          simp [suppliedKeys, hdecode, Except.toOption]
    rintro (e | ⟨⟩) w₂ ⟨hstep, -⟩
    · rcases hstep with rfl | rfl
      · exact .of_failed hentry rfl hnone
      · refine ⟨fun hmem => ?_, fun _ _ => ⟨fun other hread => ?_, .inr (.inl ?_)⟩⟩
        · exact absurd hmem (by simp [hgenerated])
        · exact absurd (hentry.symm.trans hread) (fun h => by cases h)
        · exact List.mem_append_left _ hbytes
    · cases hstep
      refine ensures_noteUnsealed escrow _ (.of_ok ?_)
      simp [hgenerated]
  | random =>
    rintro (e | key) w₂ ⟨hstep, hcareful⟩
    · cases hstep
      exact .of_failed hentry rfl hnone
    obtain ⟨-, rfl⟩ := hstep
    have hone : key :: w.generated = [key] := by rw [hgenerated]
    refine (ensures_quiet (chooseEscrow_only (fun _ => trivial) id escrow) _).bind ?_
    rintro (_ | escrow) w₃ rfl
    · exact ensures_showKey card hentry hone hcareful
    · refine Prog.Ensures.andThen (?_ : Prog.Ensures KeyRun _
        (fun result w' => Kept (fun _ => none) w w' result) _) ?_ ?_
      · exact ensures_sealThenRotate card escrow hentry hone hcareful
      · rintro e w₄ ⟨hread, hfailed⟩
        refine ⟨fun hmem => ?_, fun e' _ => hfailed e rfl⟩
        rcases hread hmem with hread | ⟨outcome, houtcome, -⟩
        · exact .inl hread
        · cases houtcome
      · rintro sealedKey w₄ ⟨hread, -⟩
        refine ⟨fun hmem => ?_, (fun _ herror => by cases herror)⟩
        rcases hread hmem with hread | ⟨outcome, -, hnone⟩
        · exact .inl hread
        · cases hnone

/-! ## Runs -/

theorem progressStep_only (n : Nat) (token message : String) :
    (progressStep n token message).Only Quiet := Prog.only_op trivial

theorem ensures_run (certs : CertBuilder) (card : CardMeta) (cfg : ProvisionConfig)
    (escrow : Option Escrow) (hstart : w.Start) :
    (run certs card cfg escrow).Ensures KeyRun
      (fun result w' => Kept ProvisionOutcome.generatedMgmtKey w w' result) w := by
  have hnone : w.mgmtKey ∉ w.generated := by
    rw [hstart.2.1]
    exact List.not_mem_nil
  have hfailed : ∀ e, Kept ProvisionOutcome.generatedMgmtKey w w (.error e) :=
    fun e => .of_failed hstart.1 rfl hnone
  have hfailed' : ∀ e, Kept (Prod.fst : Option String × Option SealedKey → _) w w (.error e) :=
    fun e => .of_failed hstart.1 rfl hnone
  have hsecrets : (changeSecrets card cfg escrow).Ensures KeyRun
      (fun result w' => Kept Prod.fst w w' result) w := by
    have hchange : ∀ op, Quiet (.onCard card op) →
        (Prog.op (ProvOp.onCard card op) : ProvProg _).Only Quiet := fun _ h => Prog.only_op h
    refine (ensures_quiet (progressStep_only ..) w).bind ?_
    rintro - w₁ rfl
    refine (ensures_quiet (collectNewSecret_only (fun _ => trivial) ..) _).andThen (fun e w₂ h => h ▸ hfailed' e) ?_
    rintro newPin w₂ rfl
    refine (ensures_quiet (hchange (.changePin defaultPin newPin) trivial) _).orFail_andThen
      (fun e w₃ h => h ▸ hfailed' _) ?_
    rintro - w₃ rfl
    refine (ensures_quiet (collectNewSecret_only (fun _ => trivial) ..) _).andThen (fun e w₄ h => h ▸ hfailed' e) ?_
    rintro newPuk w₄ rfl
    refine (ensures_quiet (hchange (.changePuk defaultPuk newPuk) trivial) _).orFail_andThen
      (fun e w₅ h => h ▸ hfailed' _) ?_
    rintro - w₅ rfl
    refine (ensures_quiet (progressStep_only ..) _).bind ?_
    rintro - w₆ rfl
    exact ensures_rotateMgmtKey card _ escrow hstart
  have hinner : (runInner certs card cfg escrow).Ensures KeyRun
      (fun result w' => Kept ProvisionOutcome.generatedMgmtKey w w' result) w := by
    have hkeys := (writeKeys_only certs card cfg).mono fun _ => KeyOps.quiet
    refine (ensures_quiet hkeys w).andThen (fun e w₁ h => h ▸ hfailed e) ?_
    rintro serves w₁ rfl
    refine hsecrets.andThen ?_ ?_
    · rintro e w₂ ⟨hread, hrest⟩
      refine ⟨fun hmem => ?_, fun e' _ => hrest e rfl⟩
      rcases hread hmem with hread | ⟨outcome, houtcome, -⟩
      · exact .inl hread
      · cases houtcome
    · rintro ⟨generated, sealedKey⟩ w₂ ⟨hread, -⟩
      refine ⟨fun hmem => ?_, fun _ herror => nomatch herror⟩
      rcases hread hmem with hread | ⟨outcome, houtcome, hreturned⟩
      · exact .inl hread
      · cases houtcome
        exact .inr ⟨_, rfl, hreturned⟩
  refine hinner.bind ?_
  intro result w₁ hkept
  refine (ensures_quiet (reportResult_only (fun _ => trivial) _ result) w₁).bind ?_
  rintro - w₂ rfl
  exact hkept

/-- A generated management key is never lost, in every run whose steps are careful. -/
theorem generated_key_kept {certs : CertBuilder} {card : CardMeta} {cfg : ProvisionConfig}
    {escrow : Option Escrow} {before after : KeyWorld} {result : Result ProvisionOutcome}
    (hstart : before.Start)
    (hrun : (run certs card cfg escrow).Exec
      (fun w op ans w' => KeyStep w op ans w' ∧ CarefulStep w op ans w') before result after) :
    Kept ProvisionOutcome.generatedMgmtKey before after result :=
  Prog.ensures_iff.mp (ensures_run certs card cfg escrow hstart) result after hrun

/-! ## A run with a generated key -/

/-- Random bytes that are not the key of the card. -/
def freshBytes (w : KeyWorld) (n : Nat) : Except String Bytes :=
  if n = 0 then .error "no bytes"
  else .ok (List.replicate n (if w.mgmtKey.head? = some 0x5A then 0x5B else 0x5A))

/-- An operator who agrees to everything and has a key generated, a store that takes the entry,
and a card that answers the command that sets the key in a given way. -/
def agreeing (set : Except PivError Unit) (w : KeyWorld) : (op : ProvOp) → ProvAns op
  | .onCard _ op => match op with
    | .authenticateAdmin _ | .verifyPin _ | .writeChuid _ | .putCert _ _ | .changePin _ _
    | .changePuk _ _ | .beginPinSession => .ok ()
    | .setManagementKey3des _ => set
    | .generateKey _ _ _ | .signPrehash _ _ _ => .ok []
    | .attestedPolicy _ => some .operatorAct
    | .readYkpivVersion => some []
    | .getData _ => .ok ([], ⟨0x6A, 0x82⟩)
  | .confirm _ => .ok true
  | .requestSecret _ => .ok "234567"
  | .requestMgmtKey _ => .ok .random
  | .progress _ | .completed _ => ()
  | .randBytes n => freshBytes w n
  | .escrow op => match op with
    | .createDirAll | .createFile | .spawn | .write _ | .flush | .removeFile => .ok ()
    | .wait => .ok none
    | .commit => ()
  | .elapsed => 0
  | .enumerateTokens _ => .ok []
  | .prepare _ => .ok []
  | .recover _ => .error "no entry"

/-- The keys after a call. A command that failed has reached the card. -/
def keysAfter (w : KeyWorld) : (op : ProvOp) → ProvAns op → KeyWorld
  | .onCard _ (.setManagementKey3des key), _ => { w with mgmtKey := key }
  | .requestMgmtKey _, .ok choice => { w with supplied := suppliedKeys choice ++ w.supplied }
  | .randBytes _, .ok key => { w with generated := key :: w.generated }
  | .escrow .createFile, .ok () => { w with entry := none }
  | .escrow (.write plaintext), .ok () => { w with given := plaintext }
  | .escrow .wait, .ok none => { w with entry := some w.given }
  | .escrow .removeFile, .ok () => { w with entry := none }
  | _, _ => w

theorem freshBytes_ok {n : Nat} {key : Bytes} (h : freshBytes w n = .ok key) :
    key.length = n ∧ key ≠ w.mgmtKey := by
  rw [freshBytes] at h
  split at h
  · cases h
  · next hn =>
    cases h
    refine ⟨List.length_replicate .., fun hsame => ?_⟩
    obtain ⟨m, rfl⟩ := Nat.exists_eq_succ_of_ne_zero hn
    have hhead := congrArg List.head? hsame
    rw [List.replicate_succ, List.head?_cons] at hhead
    split at hhead
    · next hfirst => exact absurd (hhead.trans hfirst) (by decide)
    · next hfirst => exact hfirst hhead.symm

theorem keyStep_agreeing (set : Except PivError Unit) (w : KeyWorld) (op : ProvOp) :
    KeyStep w op (agreeing set w op) (keysAfter w op (agreeing set w op)) := by
  cases op with
  | onCard card op =>
    cases op with
    | setManagementKey3des key =>
      cases set with
      | ok => rfl
      | error e => exact .inr rfl
    | _ => rfl
  | randBytes n =>
    show KeyStep w (.randBytes n) (freshBytes w n) (keysAfter w (.randBytes n) (freshBytes w n))
    rcases hfresh : freshBytes w n with e | key
    · rfl
    · exact ⟨(freshBytes_ok hfresh).1, rfl⟩
  | escrow op => cases op <;> rfl
  | _ => rfl

theorem carefulStep_agreeing (w : KeyWorld) (op : ProvOp) :
    CarefulStep w op (agreeing (.ok ()) w op) (keysAfter w op (agreeing (.ok ()) w op)) := by
  cases op with
  | onCard card op => cases op <;> trivial
  | randBytes n =>
    show CarefulStep w (.randBytes n) (freshBytes w n) (keysAfter w (.randBytes n) (freshBytes w n))
    rcases hfresh : freshBytes w n with e | key
    · trivial
    · exact (freshBytes_ok hfresh).2
  | escrow op => cases op <;> trivial
  | _ => trivial

/-- A card that is provisioned in the runs below. -/
def sampleCard : CardMeta :=
  ⟨some 15909078, ⟨List.replicate 16 0, rfl⟩, "Yubico YubiKey", false⟩

def sampleConfig : ProvisionConfig :=
  ⟨.initial, true, ⟨List.replicate 16 0x2B, rfl⟩, false⟩

def sampleCerts : CertBuilder := ⟨fun _ _ => .ok [], fun _ _ _ => .ok []⟩

def sampleEscrow : Escrow := ⟨"piv/2B/management-key", [[1]], false⟩

def factoryWorld : KeyWorld := ⟨defaultAdminKey, none, [], [], []⟩

/-- The run of that card. -/
def sampleRun (set : Except PivError Unit) : Result ProvisionOutcome × KeyWorld :=
  Prog.runWith (fun op w => (agreeing set w op, keysAfter w op (agreeing set w op)))
    (run sampleCerts sampleCard sampleConfig (some sampleEscrow)) factoryWorld

/-- The key of that run is sealed. -/
theorem generated_key_kept_sample :
    (sampleRun (.ok ())).2.mgmtKey = List.replicate 24 0x5A ∧
      Kept ProvisionOutcome.generatedMgmtKey factoryWorld (sampleRun (.ok ())).2
        (sampleRun (.ok ())).1 :=
  ⟨rfl, generated_key_kept ⟨rfl, rfl, rfl⟩ (Prog.exec_runWith
    (fun w op => ⟨keyStep_agreeing (.ok ()) w op, carefulStep_agreeing w op⟩) _ _)⟩

/-- The card sets the key but its answer is lost: the sealed key is removed, and nobody can read
the key that the card has. -/
theorem not_generated_key_kept : ¬ ∀ (certs : CertBuilder) (card : CardMeta) (cfg : ProvisionConfig)
    (escrow : Option Escrow) (before after : KeyWorld) (result : Result ProvisionOutcome),
    before.Start → (run certs card cfg escrow).Exec KeyStep before result after →
    Kept ProvisionOutcome.generatedMgmtKey before after result := by
  intro h
  let lost : Except PivError Unit := .error (.pcsc ⟨.removedCard, "card removed"⟩)
  have hkept : Kept ProvisionOutcome.generatedMgmtKey factoryWorld (sampleRun lost).2
      (sampleRun lost).1 :=
    h _ _ _ _ _ _ _ ⟨rfl, rfl, rfl⟩ (Prog.exec_runWith (keyStep_agreeing lost) _ _)
  have hkey : (sampleRun lost).2.mgmtKey ∈ (sampleRun lost).2.generated := by decide
  have hentry : (sampleRun lost).2.entry = none := rfl
  rcases hkept.1 hkey with hread | ⟨outcome, houtcome, -⟩
  · rw [KeyWorld.Readable, hentry] at hread
    cases hread
  · exact absurd houtcome nofun

end Piggy.Provision
