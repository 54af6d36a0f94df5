import Piggy.Go.Suite

/-!
# Sealing in Go

With the same secrets the Go package seals a plaintext to the same document as the Rust crate,
and so to the same file.
-/

namespace Piggy.Go.Pigpen

open Piggy.Core
open Piggy.Markl (PurposeId FormatId)
open Piggy.Pigpen (Crates)
open Piggy.Go.Markl (Id production)
open Piggy.Go.Markl.Id (Same Parsed utf8_format_iff)

/-- Why a document is not sealed. -/
inductive SealError where
  | noRecipients
  | ephemeralCount (secrets recipients : Nat)
  | fileKeyLen (n : Nat)
  | notRecipient (id : Id)
  | unsupported (format : Bytes)
  /-- An error of the suite. -/
  | crypto (text : String)
  /-- An error of the codec. -/
  | codec (e : Error)
  deriving DecidableEq

/-- A call with another kind of error. -/
def orElse {ε ε' α : Type} (f : ε → ε') : Result ε α → Result ε' α
  | .ok a => .ok a
  | .error e => .error (f e)
  | .panic => .panic

theorem orElse_eq_ok {ε ε' α : Type} {f : ε → ε'} {x : Result ε α} {a : α} :
    orElse f x = .ok a ↔ x = .ok a := by
  cases x <;> simp [orElse]

/-- Every secret that sealing consumes. -/
structure SealInputs where
  fileKey : Bytes
  payloadNonce : Bytes
  /-- One ephemeral private scalar for each recipient. -/
  ephemeral : List Bytes

section

variable {Scalar Point : Type} (g : Suite Scalar Point) (t : CaseTables)

/-- The wrap of a file key to a recipient, by its format. -/
def wrapFor (fileKey format data ephemeral : Bytes) : Result SealError Bytes :=
  if format = formatPivyP256 then orElse .crypto (.lift (g.wrapP256 fileKey data ephemeral))
  else if format = formatAgeX25519 then orElse .crypto (.lift (g.wrapX25519 fileKey data ephemeral))
  else .error (.unsupported format)

/-- One turn of the loop over the recipients. -/
def sealRecipient (fileKey : Bytes) (id : Id) (ephemeral : Bytes) : Result SealError Recipient :=
  if !isEncryptionRecipient id then .error (.notRecipient id)
  else do
    let id ← orElse .codec (canonicalRecipient id)
    let format ← orElse .codec (formatOf id)
    let wrap ← wrapFor g fileKey format id.data ephemeral
    pure { id, comment := [], wrap := some wrap }

/-- One more recipient with its wrap. -/
def addSealed (fileKey : Bytes) (recs : List Recipient) (next : Id × Bytes) :
    Result SealError (List Recipient) := do
  let r ← sealRecipient g fileKey next.1 next.2
  pure (recs ++ [r])

/-- Seals a plaintext with given random values. -/
def sealWith (plaintext : Bytes) (recipients : List Id) (inputs : SealInputs) : Result SealError Document :=
  if recipients.length = 0 then .error .noRecipients
  else if inputs.ephemeral.length ≠ recipients.length then
    .error (.ephemeralCount inputs.ephemeral.length recipients.length)
  else if inputs.fileKey.length ≠ Suite.fileKeyLen then .error (.fileKeyLen inputs.fileKey.length)
  else do
    let recs ← (recipients.zip inputs.ephemeral).foldlM (addSealed g inputs.fileKey) []
    let payload ← orElse .crypto (.lift (g.sealPayload inputs.fileKey plaintext inputs.payloadNonce))
    let d : Document := { description := [], recipients := recs, payload, mac := none }
    let canon ← orElse .codec (d.canonicalHeader t)
    pure { d with mac := some (g.headerMac inputs.fileKey canon) }

end

/-! ## The same document -/

variable {Scalar Point : Type} {g : Suite Scalar Point} {c : Crates Scalar Point} {t : CaseTables}

/-- The secrets as the Go package takes them. -/
def SealInputs.ofRust (inputs : Piggy.Pigpen.SealInputs) : SealInputs :=
  ⟨inputs.fileKey, inputs.payloadNonce, inputs.ephemeral⟩

/-- A key to seal to, as both packages hold it: a card's key is a compressed point. -/
structure SameKey (rust : Piggy.Markl.Id) (go : Id) : Prop where
  parsed : Parsed rust
  same : Same rust go
  typed : go.Typed production
  compressed : rust.format = .pivyEcdhP256Pub → IsCompressed rust.data

theorem wrapFor_same (h : g.Agrees c) {fileKey ephemeral wrap : Bytes} {id : Piggy.Markl.Id}
    (hkey : fileKey.length = Suite.fileKeyLen) (hsecret : ephemeral.length = 32)
    (hpoint : id.format = .pivyEcdhP256Pub → IsCompressed id.data) :
    wrapFor g fileKey (utf8 id.format.asStr.toList) id.data ephemeral = .ok wrap ↔
      Piggy.Pigpen.Document.wrapFor c fileKey id ephemeral = .ok wrap := by
  have hshort : fileKey.length ≤ Piggy.Pigpen.streamChunk := by
    rw [hkey]
    decide
  have hpivy : formatPivyP256 = utf8 FormatId.pivyEcdhP256Pub.asStr.toList := rfl
  have hage : formatAgeX25519 = utf8 FormatId.ageX25519Pub.asStr.toList := rfl
  rw [wrapFor, Piggy.Pigpen.Document.wrapFor.eq_def]
  simp only [hpivy, hage, utf8_format_iff]
  by_cases hp : id.format = .pivyEcdhP256Pub
  · rw [if_pos hp, orElse_eq_ok, Result.lift_eq_ok, h.wrapP256 hshort (hpoint hp) hsecret]
    simp only [hp]
  · rw [if_neg hp]
    by_cases ha : id.format = .ageX25519Pub
    · rw [if_pos ha, orElse_eq_ok, Result.lift_eq_ok, h.wrapX25519 hshort hsecret]
      simp only [ha]
    · rw [if_neg ha]
      refine iff_of_false (fun h => by cases h) ?_
      split
      · exact absurd ‹_› hp
      · exact absurd ‹_› ha
      · exact fun h => by cases h

/-- One recipient is sealed to alike. -/
theorem sealRecipient_same (h : g.Agrees c) {fileKey ephemeral : Bytes} {rust : Piggy.Markl.Id} {go : Id}
    (hid : SameKey rust go) (hkey : fileKey.length = Suite.fileKeyLen) (hsecret : ephemeral.length = 32) :
    Lockstep SameRecipient (Piggy.Pigpen.Document.sealRecipient c fileKey rust ephemeral)
      (sealRecipient g fileKey go ephemeral) := by
  obtain ⟨hparsed, hsame, htyped, hpoint⟩ := hid
  have henc := isEncryptionRecipient_same hsame hparsed
  cases hrust : Piggy.Pigpen.isEncryptionRecipient rust with
  | false =>
    rw [hrust] at henc
    refine ⟨?_, ?_⟩
    · intro r hr
      simp only [Piggy.Pigpen.Document.sealRecipient, bind_ok] at hr
      obtain ⟨id, hid, -⟩ := hr
      rw [Piggy.Pigpen.promoteRecipient, hrust] at hid
      cases hid
    · intro r hr
      rw [sealRecipient, henc] at hr
      cases hr
  | true =>
    rw [hrust] at henc
    have hpromoted : ∀ {out : Id}, canonicalRecipient go = .ok out ↔ _ :=
      promoted_same hsame hparsed htyped hrust
    have hwrap : ∀ {id : Piggy.Markl.Id} {out : Id} {wrap : Bytes},
        Piggy.Pigpen.promoteRecipient rust = .ok id → Same id out →
          (wrapFor g fileKey (utf8 id.format.asStr.toList) out.data ephemeral = .ok wrap ↔
            Piggy.Pigpen.Document.wrapFor c fileKey id ephemeral = .ok wrap) := by
      intro id out wrap hid hout
      obtain ⟨-, -, hformat, hdata⟩ := Piggy.Pigpen.Document.promoteRecipient_ok hid
      rw [hout.data]
      exact wrapFor_same h hkey hsecret (by rw [hformat, hdata]; exact hpoint)
    refine ⟨?_, ?_⟩
    · intro r hr
      simp only [Piggy.Pigpen.Document.sealRecipient, bind_ok, pure_ok] at hr
      obtain ⟨id, hid, wrap, hw, rfl⟩ := hr
      obtain ⟨-, hpurpose, -⟩ := Piggy.Pigpen.Document.promoteRecipient_ok hid
      obtain ⟨hparsed', hnamed⟩ : Parsed id ∧ ∀ p ∈ id.purpose, p.asStr.isEmpty = false := by
        rw [Parsed, hpurpose]
        refine ⟨?_, ?_⟩
        · rintro p ⟨⟩
          rfl
        · rintro p ⟨⟩
          rfl
      obtain ⟨out, hout⟩ := Markl.Id.exists_same hnamed
      refine ⟨⟨out, [], some wrap⟩, ?_, hparsed', hout, rfl, rfl⟩
      rw [sealRecipient, henc]
      simp only [Bool.not_true, Bool.false_eq_true, if_false, Result.bind_eq_ok, orElse_eq_ok,
        Result.pure_eq_ok]
      exact ⟨out, hpromoted.mpr ⟨id, hid, hparsed', hout⟩, _, formatOf_same hout, wrap,
        (hwrap hid hout).mpr hw, rfl⟩
    · intro r hr
      rw [sealRecipient, henc] at hr
      simp only [Bool.not_true, Bool.false_eq_true, if_false, Result.bind_eq_ok, orElse_eq_ok,
        Result.pure_eq_ok] at hr
      obtain ⟨out, hout, format, hformat, wrap, hw, rfl⟩ := hr
      obtain ⟨id, hid, hparsed', hsame'⟩ := hpromoted.mp hout
      rw [formatOf_same hsame'] at hformat
      obtain rfl := Result.ok.inj hformat
      refine ⟨⟨id, none, some wrap⟩, ?_, hparsed', hsame', rfl, rfl⟩
      simp only [Piggy.Pigpen.Document.sealRecipient, bind_ok, pure_ok]
      exact ⟨id, hid, wrap, (hwrap hid hsame').mp hw, rfl⟩

/-- The loops over the recipients. -/
theorem sealRecipients_same (h : g.Agrees c) {fileKey : Bytes} (hkey : fileKey.length = Suite.fileKeyLen)
    {rust : List Piggy.Markl.Id} {go : List Id} (hids : List.Forall₂ SameKey rust go)
    {ephemeral : List Bytes} (hsecrets : ∀ secret ∈ ephemeral, secret.length = 32) (start : List Recipient) :
    Lockstep (fun rs gs => ∃ gs', List.Forall₂ SameRecipient rs gs' ∧ gs = start ++ gs')
      ((rust.zip ephemeral).mapM fun x => Piggy.Pigpen.Document.sealRecipient c fileKey x.1 x.2)
      ((go.zip ephemeral).foldlM (addSealed g fileKey) start) := by
  induction hids generalizing ephemeral start with
  | nil =>
    refine ⟨?_, ?_⟩
    · intro rs hrs
      obtain rfl : [] = rs := Except.ok.inj hrs
      exact ⟨start, rfl, [], .nil, (List.append_nil start).symm⟩
    · intro gs hgs
      obtain rfl : start = gs := Result.ok.inj hgs
      exact ⟨[], rfl, [], .nil, (List.append_nil start).symm⟩
  | @cons r id rs ids hid _ ih =>
    rcases ephemeral with _ | ⟨secret, secrets⟩
    · refine ⟨?_, ?_⟩
      · intro rs hrs
        obtain rfl : [] = rs := Except.ok.inj hrs
        exact ⟨start, rfl, [], .nil, (List.append_nil start).symm⟩
      · intro gs hgs
        obtain rfl : start = gs := Result.ok.inj hgs
        exact ⟨[], rfl, [], .nil, (List.append_nil start).symm⟩
    · obtain ⟨hsecret, hsecrets⟩ := List.forall_mem_cons.mp hsecrets
      have hone := sealRecipient_same h hid hkey hsecret
      rw [List.zip_cons_cons, List.zip_cons_cons, List.mapM_cons, List.foldlM_cons]
      refine ⟨?_, ?_⟩
      · intro out hout
        simp only [bind_ok, pure_ok] at hout
        obtain ⟨first, hfirst, rest, hrest, rfl⟩ := hout
        obtain ⟨goFirst, hgo, hsame⟩ := hone.follows first hfirst
        obtain ⟨gs, hgs, gs', hall, rfl⟩ := (ih hsecrets (start ++ [goFirst])).follows rest hrest
        refine ⟨start ++ [goFirst] ++ gs', ?_, goFirst :: gs', .cons hsame hall, ?_⟩
        · rw [addSealed]
          simp only [Result.bind_eq_ok, Result.pure_eq_ok]
          exact ⟨_, ⟨goFirst, hgo, rfl⟩, hgs⟩
        · rw [List.append_assoc, List.singleton_append]
      · intro out hout
        rw [addSealed] at hout
        simp only [Result.bind_eq_ok, Result.pure_eq_ok] at hout
        obtain ⟨_, ⟨goFirst, hgo, rfl⟩, hrest⟩ := hout
        obtain ⟨first, hfirst, hsame⟩ := hone.leads goFirst hgo
        obtain ⟨rest, hrest', gs', hall, rfl⟩ := (ih hsecrets (start ++ [goFirst])).leads out hrest
        refine ⟨first :: rest, ?_, goFirst :: gs', .cons hsame hall, ?_⟩
        · simp only [bind_ok, pure_ok]
          exact ⟨first, hfirst, rest, hrest', rfl⟩
        · rw [List.append_assoc, List.singleton_append]

/-- With the same secrets both packages seal to the same document. -/
theorem sealWith_same (h : g.Agrees c) {plaintext : Bytes} {rust : List Piggy.Markl.Id} {go : List Id}
    (hids : List.Forall₂ SameKey rust go) (inputs : Piggy.Pigpen.SealInputs) :
    Lockstep SameDocument (Piggy.Pigpen.Document.sealWith c plaintext rust inputs)
      (sealWith g t plaintext go (.ofRust inputs)) := by
  have hlen := hids.length_eq
  have hempty : rust.isEmpty = true ↔ go.length = 0 := by
    rw [List.isEmpty_iff, ← List.length_eq_zero_iff, hlen]
  have hloop := sealRecipients_same h inputs.length_fileKey hids inputs.length_ephemeral []
  have hdoc : ∀ {rs : List Piggy.Pigpen.Recipient} {gs : List Recipient} {payload : Bytes} {mac : Option Bytes},
      List.Forall₂ SameRecipient rs gs → SameDocument ⟨none, rs, payload, mac⟩ ⟨[], gs, payload, mac⟩ :=
    fun hrs => ⟨rfl, hrs, rfl, rfl⟩
  refine ⟨?_, ?_⟩
  · intro d hd
    simp only [Piggy.Pigpen.Document.sealWith, guard_ok, not_not, bind_ok, pure_ok] at hd
    obtain ⟨hne, hcount, rs, hrs, payload, hpayload, canon, hcanon, rfl⟩ := hd
    obtain ⟨gs, hgs, _, hall, rfl⟩ := hloop.follows rs hrs
    refine ⟨_, ?_, hdoc hall⟩
    simp only [sealWith, SealInputs.ofRust, Result.guard_eq_ok, Result.bind_eq_ok, orElse_eq_ok,
      Result.lift_eq_ok, Result.pure_eq_ok, h.headerMac, not_not]
    exact ⟨mt hempty.mpr hne, by rw [hcount, hlen], inputs.length_fileKey, gs, hgs, payload,
      (h.sealPayload inputs.length_payloadNonce).mpr hpayload, canon,
      (canonicalHeader_same (hdoc hall)).mpr hcanon, rfl⟩
  · intro d hd
    simp only [sealWith, SealInputs.ofRust, Result.guard_eq_ok, Result.bind_eq_ok, orElse_eq_ok,
      Result.lift_eq_ok, Result.pure_eq_ok, h.headerMac, not_not] at hd
    obtain ⟨hne, hcount, -, gs, hgs, payload, hpayload, canon, hcanon, rfl⟩ := hd
    obtain ⟨rs, hrs, _, hall, rfl⟩ := hloop.leads gs hgs
    refine ⟨_, ?_, hdoc hall⟩
    simp only [Piggy.Pigpen.Document.sealWith, guard_ok, not_not, bind_ok, pure_ok]
    exact ⟨mt hempty.mp hne, by rw [hcount, hlen], rs, hrs, payload,
      (h.sealPayload inputs.length_payloadNonce).mp hpayload, canon,
      (canonicalHeader_same (hdoc hall)).mp hcanon, rfl⟩

/-- With the same secrets both packages seal to the same file, or neither does. -/
theorem sealedFile_same (h : g.Agrees c) {plaintext : Bytes} {rust : List Piggy.Markl.Id} {go : List Id}
    (hids : List.Forall₂ SameKey rust go) (inputs : Piggy.Pigpen.SealInputs) {file : Bytes} :
    (∃ d, sealWith g t plaintext go (.ofRust inputs) = .ok d ∧ d.marshalText t = .ok file) ↔
      ∃ d, Piggy.Pigpen.Document.sealWith c plaintext rust inputs = .ok d ∧ d.toBytes = .ok file := by
  have hseal : Lockstep SameDocument (Piggy.Pigpen.Document.sealWith c plaintext rust inputs) _ :=
    sealWith_same (t := t) h hids inputs
  constructor
  · rintro ⟨d, hd, hfile⟩
    obtain ⟨rustDoc, hrust, hsame⟩ := hseal.leads d hd
    exact ⟨rustDoc, hrust, (marshalText_same hsame).mp hfile⟩
  · rintro ⟨d, hd, hfile⟩
    obtain ⟨goDoc, hgo, hsame⟩ := hseal.follows d hd
    exact ⟨goDoc, hgo, (marshalText_same hsame).mpr hfile⟩

/-- An id as the Go package holds it. -/
def idOfRust (id : Piggy.Markl.Id) : Id :=
  ⟨(id.purpose.map fun p => utf8 p.asStr.toList).getD [],
    some ⟨utf8 id.format.asStr.toList, id.format.size⟩, id.data⟩

theorem sameKey_idOfRust {id : Piggy.Markl.Id} (hp : id.purpose = none) (hf : Registered id.format)
    (hpoint : id.format = .pivyEcdhP256Pub → IsCompressed id.data) : SameKey id (idOfRust id) where
  parsed := by
    intro p hmem
    rw [hp] at hmem
    cases hmem
  same := by
    refine ⟨?_, rfl, rfl⟩
    rw [idOfRust, hp]
    rfl
  typed := by
    refine ⟨?_, fun h => by cases h⟩
    rintro f ⟨⟩
    exact hf
  compressed := hpoint

theorem sameKeys_sample : List.Forall₂ SameKey Piggy.Pigpen.Document.sampleRecipients
    (Piggy.Pigpen.Document.sampleRecipients.map idOfRust) :=
  .cons (sameKey_idOfRust rfl (by unfold Registered; decide +kernel) fun _ => by decide)
    (.cons (sameKey_idOfRust rfl (by unfold Registered; decide +kernel) fun h => by cases h) .nil)

theorem sealedFile_same_sample : ∃ d file,
    sealWith (Suite.ofCrates Crates.sample) asciiTables [1, 2, 3]
        (Piggy.Pigpen.Document.sampleRecipients.map idOfRust)
        (.ofRust Piggy.Pigpen.Document.sampleInputs) = .ok d ∧
      d.marshalText asciiTables = .ok file := by
  obtain ⟨rust, hseal⟩ := exists_ok Piggy.Pigpen.Document.sample_sealed
  obtain ⟨hread, hfaithful⟩ := Piggy.Pigpen.Document.asRead_of_sealWith Crates.sample_lawful hseal
  obtain ⟨file, hfile, -⟩ := (Piggy.Pigpen.Document.reserializes_iff_faithful hread).mpr hfaithful
  obtain ⟨d, hd, hout⟩ := (sealedFile_same (Suite.agrees_ofCrates fun _ _ _ => rfl) sameKeys_sample
    Piggy.Pigpen.Document.sampleInputs).mpr ⟨rust, hseal, hfile⟩
  exact ⟨d, file, hd, hout⟩

end Piggy.Go.Pigpen
