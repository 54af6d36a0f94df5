import Mathlib.Data.List.Nodup
import Piggy.Pigpen.Crypto
import Piggy.Pigpen.Reserialize

/-!
# Sealing and opening

A document is sealed to a list of recipients, one ephemeral key each, and opened by whoever
holds the key of one of them. The opener asks every recipient in turn: what is not its own
fails to unwrap and is passed over, whatever the oracle says about it.
-/

namespace Piggy.Pigpen

open Piggy.Core
open Piggy.Markl
open Piggy.Box (Bytes)

/-- A software age identity. -/
structure X25519Identity where
  publicKey : Bytes
  secret : Bytes
  deriving DecidableEq

/-- Card-bound ECDH: the x-coordinate for a recipient and a partner's key, or the text of the
error. -/
abbrev EcdhOracle := Id → Bytes → Except String Bytes

/-- Every secret that sealing consumes. -/
structure SealInputs where
  fileKey : Bytes
  payloadNonce : Bytes
  /-- One ephemeral secret for each recipient. -/
  ephemeral : List Bytes
  length_fileKey : fileKey.length = fileKeyLen
  length_payloadNonce : payloadNonce.length = payloadNonceLen
  length_ephemeral : ∀ secret ∈ ephemeral, secret.length = 32

namespace Document

variable {Scalar Point : Type} (c : Crates Scalar Point)

/-! ## Sealing -/

/-- The wrap of a file key to a recipient, by the family of its key. -/
def wrapFor (fileKey : Bytes) (id : Id) (ephemeral : Bytes) : Except Error Bytes :=
  match id.format with
  | .pivyEcdhP256Pub => c.wrapP256 fileKey id.data ephemeral
  | .ageX25519Pub => c.wrapX25519 fileKey id.data ephemeral
  | other => .error (.unsupportedFormat other.debugName)

/-- One turn of the loop over the recipients. -/
def sealRecipient (fileKey : Bytes) (id : Id) (ephemeral : Bytes) : Except Error Recipient := do
  let id ← promoteRecipient id
  let wrap ← wrapFor c fileKey id ephemeral
  pure { id, comment := none, wrap := some wrap }

/-- Seals a plaintext with given random values. -/
def sealWith (plaintext : Bytes) (recipients : List Id) (inputs : SealInputs) :
    Except Error Document :=
  if recipients.isEmpty then .error (.malformed "at least one recipient is required")
  else if inputs.ephemeral.length ≠ recipients.length then
    .error (.malformed s!"{inputs.ephemeral.length} ephemeral secrets for {recipients.length} recipients")
  else do
    let recs ← (recipients.zip inputs.ephemeral).mapM fun (id, ephemeral) =>
      sealRecipient c inputs.fileKey id ephemeral
    let payload ← c.sealPayload inputs.fileKey plaintext inputs.payloadNonce
    let doc : Document := { description := none, recipients := recs, payload, mac := none }
    let canon ← doc.canonicalHeader
    pure { doc with mac := some (c.headerMac inputs.fileKey canon) }

/-! ## Opening -/

/-- What trying a recipient comes to. -/
inductive Attempt where
  /-- Nothing to try it with. -/
  | skipped
  | oracleFailed (text : String)
  | unwrapped (fileKey : Except Error Bytes)

/-- The attempt on one wrap. -/
def attempt (oracle : Option EcdhOracle) (x25519 : List X25519Identity) (id : Id) (wrap : Bytes) :
    Attempt :=
  match id.format with
  | .ageX25519Pub =>
    match x25519.find? (·.publicKey == id.data) with
    | none => .skipped
    | some i => .unwrapped (c.unwrapX25519 wrap id.data i.secret)
  | .pivyEcdhP256Pub =>
    match oracle with
    | none => .skipped
    | some ecdh =>
      match Crates.p256WrapEpk wrap with
      | .error _ => .skipped
      | .ok epk =>
        match ecdh id epk with
        | .ok shared => .unwrapped (c.unwrapP256WithShared wrap id.data shared)
        | .error text => .oracleFailed text
  | _ => .skipped

/-- The loop over the recipients, with the keys that were tried and the failures of the
oracle. -/
def openLoop (d : Document) (mac : Bytes) (oracle : Option EcdhOracle)
    (x25519 : List X25519Identity) :
    List Recipient → List (FormatId × Bytes) → List String → Except Error Bytes
  | [], _, failures =>
    if !failures.isEmpty then .error (.oracle (String.intercalate "; " failures))
    else .error .noRecipient
  | r :: rs, tried, failures =>
    match r.wrap with
    | none => openLoop d mac oracle x25519 rs tried failures
    | some wrap =>
      if (r.id.format, r.id.data) ∈ tried then openLoop d mac oracle x25519 rs tried failures
      else
        let tried := tried ++ [(r.id.format, r.id.data)]
        match attempt c oracle x25519 r.id wrap with
        | .skipped => openLoop d mac oracle x25519 rs tried failures
        | .oracleFailed text => openLoop d mac oracle x25519 rs tried (failures ++ [text])
        | .unwrapped (.error _) => openLoop d mac oracle x25519 rs tried failures
        | .unwrapped (.ok fileKey) => do
          let canon ← d.canonicalHeader
          if !c.verifyMac fileKey canon mac then .error .macMismatch
          else c.openPayload fileKey d.payload

/-- Opens a document with the card or an X25519 identity. -/
def openDoc (d : Document) (oracle : Option EcdhOracle) (x25519 : List X25519Identity) :
    Except Error Bytes :=
  match d.mac with
  | none => .error (.malformed "document is a recipient set, not sealed")
  | some mac => openLoop c d mac oracle x25519 d.recipients [] []

/-! ## Openers -/

/-- An opener that holds the key of a recipient: an identity with the matching secret, or an
oracle that answers for the recipient with the scalar of its key. -/
def Holds (oracle : Option EcdhOracle) (x25519 : List X25519Identity) (id : Id) : Prop :=
  (id.format = .ageX25519Pub ∧ ∃ i ∈ x25519, i.publicKey = id.data ∧ i.secret.length = 32 ∧
    c.x25519Public i.secret = id.data) ∨
  (id.format = .pivyEcdhP256Pub ∧ ∃ ecdh scalar, oracle = some ecdh ∧
    c.fromSec1Bytes id.data = .ok (c.fromSecretScalar scalar) ∧
    ∀ self p, promoteRecipient id = .ok self →
      ecdh self (c.toEncodedPoint p) = .ok (c.diffieHellman scalar p))

/-- The length of the ephemeral key in front of a wrap. -/
def epkLen : FormatId → Nat
  | .pivyEcdhP256Pub => 33
  | _ => 32

/-- A key that an opener tries on a wrap. -/
def Tries (oracle : Option EcdhOracle) (x25519 : List X25519Identity) (id : Id) (wrap key : Bytes) :
    Prop :=
  (id.format = .ageX25519Pub ∧ ∃ i ∈ x25519, i.publicKey = id.data ∧
    key = c.hkdf32 (c.x25519 i.secret (wrap.take 32)) (wrap.take 32 ++ id.data) Crates.infoX25519) ∨
  (id.format = .pivyEcdhP256Pub ∧ ∃ ecdh shared, oracle = some ecdh ∧
    ecdh id (wrap.take 33) = .ok shared ∧
    key = c.hkdf32 shared (wrap.take 33 ++ id.data) Crates.infoP256)

/-- The AEAD rejects a wrap under every key that an opener tries and that does not seal the
file key to it. -/
def RejectsForeign (fileKey : Bytes) (d : Document) (oracle : Option EcdhOracle)
    (x25519 : List X25519Identity) : Prop :=
  ∀ r ∈ d.recipients, ∀ wrap ∈ r.wrap, ∀ key, Tries c oracle x25519 r.id wrap key →
    c.encrypt key Crates.zeroNonce fileKey ≠ .ok (wrap.drop (epkLen r.id.format)) →
    ∀ plain, c.decrypt key Crates.zeroNonce (wrap.drop (epkLen r.id.format)) ≠ .ok plain

/-! ## Wraps of a sealed document -/

section

variable {c} {fileKey ephemeral wrap : Bytes} {oracle : Option EcdhOracle}
  {x25519 : List X25519Identity}

theorem promoteRecipient_ok {id id' : Id} (h : promoteRecipient id = .ok id') :
    isEncryptionRecipient id = true ∧ id'.purpose = some .piggyRecipientV1 ∧
      id'.format = id.format ∧ id'.data = id.data := by
  rw [promoteRecipient, guard_ok, recipientId, mapError_ok] at h
  exact ⟨by simpa using h.1, Id.new_eq_ok h.2⟩

/-- Promoting a recipient again changes nothing. -/
theorem promoteRecipient_again {id id' : Id} (h : promoteRecipient id = .ok id') :
    promoteRecipient id' = .ok id' := by
  obtain ⟨henc, hpurpose, hformat, hdata⟩ := promoteRecipient_ok h
  have henc' : isEncryptionRecipient id' = true := by
    simp only [isEncryptionRecipient, Bool.and_eq_true] at henc ⊢
    rw [hformat, hpurpose]
    exact ⟨henc.1, rfl⟩
  have hnew := id'.new_ok
  rw [hpurpose] at hnew
  rw [promoteRecipient, if_neg (by simp [henc']), recipientId, hnew]
  rfl

/-- A wrap is an ephemeral key and the file key sealed under a key that the exchange gives. -/
theorem wrapX25519_ok {recipientPub : Bytes}
    (h : c.wrapX25519 fileKey recipientPub ephemeral = .ok wrap) :
    ∃ ct, wrap = c.x25519Public ephemeral ++ ct ∧
      c.wasContributory (c.x25519 ephemeral recipientPub) = true ∧
      c.encrypt (c.hkdf32 (c.x25519 ephemeral recipientPub)
        (c.x25519Public ephemeral ++ recipientPub) Crates.infoX25519) Crates.zeroNonce fileKey =
          .ok ct := by
  simp only [Crates.wrapX25519, guard_ok, bind_ok, pure_ok, Crates.aeadSeal,
    Crates.orCrypto_ok] at h
  obtain ⟨-, ⟨⟩, hlow, ct, hct, rfl⟩ := h
  refine ⟨ct, rfl, ?_, hct⟩
  rw [Crates.rejectLowOrder] at hlow
  by_contra hno
  rw [if_neg hno] at hlow
  cases hlow

theorem unwrapX25519_ok {recipientPub secret key : Bytes}
    (h : c.unwrapX25519 wrap recipientPub secret = .ok key) :
    c.decrypt (c.hkdf32 (c.x25519 secret (wrap.take 32)) (wrap.take 32 ++ recipientPub)
      Crates.infoX25519) Crates.zeroNonce (wrap.drop 32) = .ok key := by
  simp only [Crates.unwrapX25519, guard_ok, bind_ok, Crates.aeadOpen, Crates.orCrypto_ok] at h
  obtain ⟨-, -, ⟨⟩, -, hopen⟩ := h
  exact hopen

theorem wrapP256_ok {recipient : Bytes}
    (h : c.wrapP256 fileKey recipient ephemeral = .ok wrap) :
    ∃ point esk ct, c.fromSec1Bytes recipient = .ok point ∧
      wrap = c.toEncodedPoint (c.fromSecretScalar esk) ++ ct ∧
      c.encrypt (c.hkdf32 (c.diffieHellman esk point)
        (c.toEncodedPoint (c.fromSecretScalar esk) ++ recipient) Crates.infoP256) Crates.zeroNonce
          fileKey = .ok ct := by
  simp only [Crates.wrapP256, bind_ok, pure_ok, Crates.aeadSeal, Crates.orCrypto_ok] at h
  obtain ⟨point, hpoint, esk, -, ct, hct, rfl⟩ := h
  exact ⟨point, esk, ct, hpoint, rfl, hct⟩

/-- A wrap that an opener unwraps was opened under a key it tried. -/
theorem tries_of_attempt {id : Id} {key : Bytes}
    (h : attempt c oracle x25519 id wrap = .unwrapped (.ok key)) :
    ∃ key', Tries c oracle x25519 id wrap key' ∧
      c.decrypt key' Crates.zeroNonce (wrap.drop (epkLen id.format)) = .ok key := by
  rw [attempt.eq_def] at h
  split at h
  · next hformat =>
    rcases hfind : x25519.find? (·.publicKey == id.data) with _ | i
    · rw [hfind] at h
      cases h
    · rw [hfind] at h
      have hopen := unwrapX25519_ok (Attempt.unwrapped.inj h)
      rw [hformat]
      refine ⟨_, .inl ⟨hformat, i, List.mem_of_find?_eq_some hfind, ?_, rfl⟩, hopen⟩
      simpa using List.find?_some hfind
  · next hformat =>
    rcases oracle with _ | ecdh
    · cases h
    · rcases hepk : Crates.p256WrapEpk wrap with e | epk
      · simp only [hepk] at h
        cases h
      · simp only [hepk] at h
        rcases hecdh : ecdh id epk with e | shared
        · simp only [hecdh] at h
          cases h
        · simp only [hecdh] at h
          have hopen := Attempt.unwrapped.inj h
          simp only [Crates.unwrapP256WithShared, guard_ok, Crates.aeadOpen,
            Crates.orCrypto_ok] at hopen
          simp only [Crates.p256WrapEpk, guard_ok] at hepk
          obtain rfl := Except.ok.inj hepk.2
          rw [hformat]
          exact ⟨_, .inr ⟨hformat, ecdh, shared, rfl, hecdh, rfl⟩, hopen.2⟩
  · cases h

/-- What sealing makes of a recipient. -/
structure SealedTo (c : Crates Scalar Point) (fileKey : Bytes) (id : Id) (r : Recipient) : Prop where
  promoted : promoteRecipient id = .ok r.id
  comment : r.comment = none
  wrap : ∃ wrap ephemeral, r.wrap = some wrap ∧ ephemeral.length = 32 ∧
    wrapFor c fileKey r.id ephemeral = .ok wrap ∧
    ∃ wrapFormat, wrapFormatFor r.id.format = .ok wrapFormat ∧ wrap.length = wrapFormat.size

theorem wrapFor_ok {id : Id} (h : wrapFor c fileKey id ephemeral = .ok wrap) :
    (id.format = .pivyEcdhP256Pub ∧ c.wrapP256 fileKey id.data ephemeral = .ok wrap) ∨
      (id.format = .ageX25519Pub ∧ c.wrapX25519 fileKey id.data ephemeral = .ok wrap) := by
  rw [wrapFor.eq_def] at h
  split at h
  · next hformat => exact .inl ⟨hformat, h⟩
  · next hformat => exact .inr ⟨hformat, h⟩
  · cases h

/-- A wrap holds the file key, sealed under some key. -/
theorem exists_sealing_key (hc : c.Lawful) {id : Id}
    (h : wrapFor c fileKey id ephemeral = .ok wrap) :
    ∃ key, c.encrypt key Crates.zeroNonce fileKey = .ok (wrap.drop (epkLen id.format)) := by
  rcases wrapFor_ok h with ⟨hformat, hwrap⟩ | ⟨hformat, hwrap⟩
  · obtain ⟨point, esk, ct, -, rfl, hct⟩ := wrapP256_ok hwrap
    have hdrop : (c.toEncodedPoint (c.fromSecretScalar esk) ++ ct).drop 33 = ct := by
      rw [← hc.length_toEncodedPoint (c.fromSecretScalar esk), List.drop_left]
    rw [hformat, epkLen, hdrop]
    exact ⟨_, hct⟩
  · obtain ⟨ct, rfl, -, hct⟩ := wrapX25519_ok hwrap
    have hdrop : (c.x25519Public ephemeral ++ ct).drop 32 = ct := by
      rw [← hc.length_x25519Public ephemeral, List.drop_left]
    rw [hformat]
    change ∃ key, c.encrypt key _ _ = .ok (List.drop 32 _)
    rw [hdrop]
    exact ⟨_, hct⟩

/-- What an opener unwraps is the file key. -/
theorem fileKey_of_attempt (hc : c.Lawful) {d : Document}
    (hforeign : RejectsForeign c fileKey d oracle x25519) {r : Recipient} (hr : r ∈ d.recipients)
    (hwrap : r.wrap = some wrap) {key : Bytes}
    (h : attempt c oracle x25519 r.id wrap = .unwrapped (.ok key)) : key = fileKey := by
  obtain ⟨key', htries, hdec⟩ := tries_of_attempt h
  have hct : c.encrypt key' Crates.zeroNonce fileKey = .ok (wrap.drop (epkLen r.id.format)) := by
    by_contra hno
    exact hforeign r hr wrap hwrap key' htries hno key hdec
  rw [hc.decrypt_encrypt hct] at hdec
  exact (Except.ok.inj hdec).symm

/-- The holder of a key unwraps what was wrapped to it. -/
theorem attempt_of_holds (hc : c.Lawful) {id : Id} (hself : promoteRecipient id = .ok id)
    (hlen : ephemeral.length = 32) (hseal : wrapFor c fileKey id ephemeral = .ok wrap)
    {wrapFormat : FormatId} (hformat : wrapFormatFor id.format = .ok wrapFormat)
    (hsize : wrap.length = wrapFormat.size) (hdistinct : (x25519.map (·.publicKey)).Nodup)
    (hholds : Holds c oracle x25519 id) :
    attempt c oracle x25519 id wrap = .unwrapped (.ok fileKey) := by
  rcases hholds with ⟨hage, i, hi, hpub, hsec, hsecret⟩ | ⟨hp256, ecdh, scalar, rfl, hpoint, hecdh⟩
  · obtain ⟨ct, rfl, hlow, hct⟩ := (wrapFor_ok hseal).elim
      (fun h => absurd (hage.symm.trans h.1) (by decide)) (fun h => wrapX25519_ok h.2)
    have hfind : x25519.find? (·.publicKey == id.data) = some i := by
      rcases hf : x25519.find? (·.publicKey == id.data) with _ | j
      · exact absurd hpub (by simpa using List.find?_eq_none.mp hf i hi)
      · have hj : j.publicKey = id.data := by simpa using List.find?_some hf
        have hji := List.inj_on_of_nodup_map hdistinct (List.mem_of_find?_eq_some hf) hi
          (hj.trans hpub.symm)
        rw [hf, hji]
    have htake : (c.x25519Public ephemeral ++ ct).take 32 = c.x25519Public ephemeral := by
      rw [← hc.length_x25519Public ephemeral, List.take_left]
    have hdrop : (c.x25519Public ephemeral ++ ct).drop 32 = ct := by
      rw [← hc.length_x25519Public ephemeral, List.drop_left]
    have hshared : c.x25519 i.secret (c.x25519Public ephemeral) = c.x25519 ephemeral id.data := by
      rw [hc.x25519_symm hsec hlen, hsecret]
    have hblob : (c.x25519Public ephemeral ++ ct).length = 32 + fileKeyLen + tagLen := by
      rw [hage] at hformat
      cases hformat
      exact hsize
    have hopen : c.unwrapX25519 (c.x25519Public ephemeral ++ ct) id.data i.secret = .ok fileKey := by
      simp only [Crates.unwrapX25519, guard_ok, bind_ok, Crates.aeadOpen, Crates.orCrypto_ok]
      rw [htake, hdrop, hshared]
      refine ⟨not_not.mpr hblob, not_not.mpr hsec, (), ?_, hc.decrypt_encrypt hct⟩
      rw [Crates.rejectLowOrder, if_pos hlow]
    simp only [attempt, hage, hfind, hopen]
  · obtain ⟨point, esk, ct, hpoint', rfl, hct⟩ := (wrapFor_ok hseal).elim
      (fun h => wrapP256_ok h.2) (fun h => absurd (hp256.symm.trans h.1) (by decide))
    obtain rfl : c.fromSecretScalar scalar = point := Except.ok.inj (hpoint.symm.trans hpoint')
    have htake : (c.toEncodedPoint (c.fromSecretScalar esk) ++ ct).take 33 =
        c.toEncodedPoint (c.fromSecretScalar esk) := by
      rw [← hc.length_toEncodedPoint (c.fromSecretScalar esk), List.take_left]
    have hdrop : (c.toEncodedPoint (c.fromSecretScalar esk) ++ ct).drop 33 = ct := by
      rw [← hc.length_toEncodedPoint (c.fromSecretScalar esk), List.drop_left]
    have hblob : (c.toEncodedPoint (c.fromSecretScalar esk) ++ ct).length =
        33 + fileKeyLen + tagLen := by
      rw [hp256] at hformat
      cases hformat
      exact hsize
    have hepk : Crates.p256WrapEpk (c.toEncodedPoint (c.fromSecretScalar esk) ++ ct) =
        .ok (c.toEncodedPoint (c.fromSecretScalar esk)) := by
      rw [Crates.p256WrapEpk, if_neg (not_not.mpr hblob), htake]
    have hopen : c.unwrapP256WithShared (c.toEncodedPoint (c.fromSecretScalar esk) ++ ct) id.data
        (c.diffieHellman scalar (c.fromSecretScalar esk)) = .ok fileKey := by
      rw [hc.diffieHellman_symm]
      simp only [Crates.unwrapP256WithShared, guard_ok, Crates.aeadOpen, Crates.orCrypto_ok]
      rw [htake, hdrop]
      exact ⟨not_not.mpr hblob, hc.decrypt_encrypt hct⟩
    simp only [attempt, hp256, hepk, hecdh id _ hself, hopen]

end

/-! ## Sealed documents -/

section

variable {c} {plaintext : Bytes} {recipients : List Id} {inputs : SealInputs} {d : Document}

/-- The header does not depend on the MAC, and every wrap in it has the size of its format. -/
theorem canonicalHeader_ok {canon : Bytes} (h : d.canonicalHeader = .ok canon) :
    (∀ mac, canonicalHeader { d with mac } = .ok canon) ∧
      ∀ r ∈ d.recipients, ∀ wrap ∈ r.wrap,
        ∃ wrapFormat, wrapFormatFor r.id.format = .ok wrapFormat ∧ wrap.length = wrapFormat.size := by
  refine ⟨fun _ => h, ?_⟩
  intro r hr wrap hwrap
  simp only [canonicalHeader, build, bind_ok, mapM_ok] at h
  obtain ⟨_, ⟨_, -, lines, hlines, -⟩, -⟩ := h
  obtain ⟨line, -, hline⟩ := forall₂_mem_left hlines hr
  rw [recipientLine, Option.mem_def.mp hwrap] at hline
  simp only [bind_ok] at hline
  obtain ⟨lock, hlock, -⟩ := hline
  exact encodeWrap_size hlock

/-- What sealing returns. -/
theorem sealWith_ok (h : sealWith c plaintext recipients inputs = .ok d) :
    recipients ≠ [] ∧ d.description = none ∧
      List.Forall₂ (SealedTo c inputs.fileKey) recipients d.recipients ∧
      c.sealPayload inputs.fileKey plaintext inputs.payloadNonce = .ok d.payload ∧
      ∃ canon, d.canonicalHeader = .ok canon ∧ d.mac = some (c.headerMac inputs.fileKey canon) := by
  simp only [sealWith, guard_ok, not_not, bind_ok, pure_ok, mapM_ok] at h
  obtain ⟨hne, hlen, recs, hrecs, payload, hpayload, canon, hcanon, rfl⟩ := h
  obtain ⟨hmac, hsizes⟩ := canonicalHeader_ok hcanon
  refine ⟨by simpa using hne, rfl, ?_, hpayload, canon, hmac _, rfl⟩
  refine forall₂_of_zip (S := fun id ephemeral r => sealRecipient c inputs.fileKey id ephemeral = .ok r)
    hlen hrecs ?_
  intro id ephemeral r heph hr hseal
  simp only [sealRecipient, bind_ok, pure_ok] at hseal
  obtain ⟨id', hid, wrap, hwrap, rfl⟩ := hseal
  exact ⟨hid, rfl, wrap, ephemeral, rfl, inputs.length_ephemeral _ heph, hwrap, hsizes _ hr _ rfl⟩

/-- Under the same secrets another plaintext is sealed too, and the header is the same. -/
theorem sealWith_other {plaintext' : Bytes} (h : sealWith c plaintext recipients inputs = .ok d)
    (hpayload : (c.sealPayload inputs.fileKey plaintext' inputs.payloadNonce).isOk = true) :
    ∃ d', sealWith c plaintext' recipients inputs = .ok d' ∧ d'.mac = d.mac ∧
      d'.canonicalHeader = d.canonicalHeader := by
  obtain ⟨payload', hpayload'⟩ := exists_ok hpayload
  simp only [sealWith, guard_ok, bind_ok, pure_ok] at h
  obtain ⟨hne, hlen, recs, hrecs, payload, -, canon, hcanon, rfl⟩ := h
  refine ⟨{ description := none, recipients := recs, payload := payload',
            mac := some (c.headerMac inputs.fileKey canon) }, ?_, rfl, rfl⟩
  simp only [sealWith, guard_ok, bind_ok, pure_ok]
  exact ⟨hne, hlen, recs, hrecs, payload', hpayload', canon, hcanon, rfl⟩

/-- A sealed document is one that could have been read, and survives being written. -/
theorem asRead_of_sealWith (hc : c.Lawful) (h : sealWith c plaintext recipients inputs = .ok d) :
    d.AsRead ∧ d.Faithful := by
  obtain ⟨hne, hdesc, hrecs, hpayload, canon, -, hmac⟩ := sealWith_ok h
  have hfull : d.payload ≠ [] :=
    (Crates.openPayload_sealPayload hc inputs.length_payloadNonce hpayload).1
  have hsealed : ∀ r ∈ d.recipients, ∃ id, SealedTo c inputs.fileKey id r := by
    intro r hr
    obtain ⟨id, -, hid⟩ := forall₂_mem_right hrecs hr
    exact ⟨id, hid⟩
  have hpurpose : ∀ r ∈ d.recipients, r.id.purpose = some .piggyRecipientV1 := by
    intro r hr
    obtain ⟨id, hid⟩ := hsealed r hr
    exact (promoteRecipient_ok hid.promoted).2.1
  refine ⟨⟨?_, ?_, ?_, ?_⟩, ?_, ?_⟩
  · rw [hdesc]
    exact fun desc hd => nomatch hd
  · intro r hr
    obtain ⟨id, hid⟩ := hsealed r hr
    refine ⟨?_, ?_, fun _ => hpurpose r hr, ?_, ?_⟩
    · rw [hpurpose r hr]
      rintro p ⟨⟩
      rfl
    · rw [hpurpose r hr]
      rintro p ⟨⟩
      rfl
    · rw [hid.comment]
      exact fun comment hcomment => nomatch hcomment
    · intro w hw
      obtain ⟨wrap, -, hwrap, -, -, hsize⟩ := hid.wrap
      rw [hwrap] at hw
      obtain rfl := Option.mem_some_iff.mp hw
      exact ⟨hid.comment, hsize⟩
  · rw [hmac]
    rintro m ⟨⟩
    exact hc.length_hmacSha256 _ _
  · have hwrapped : ∀ r ∈ d.recipients, r.wrap.isSome = true := by
      intro r hr
      obtain ⟨id, hid⟩ := hsealed r hr
      obtain ⟨wrap, -, hwrap, -⟩ := hid.wrap
      rw [hwrap]
      rfl
    have hunwrapped : d.recipients.countP (fun r => r.wrap.isNone && isEncryptionRecipient r.id) = 0 := by
      rw [List.countP_eq_zero]
      intro r hr
      have hsome := hwrapped r hr
      cases hw : r.wrap with
      | none => simp [hw] at hsome
      | some w => simp
    have hcount : 0 < d.recipients.countP (·.wrap.isSome) := by
      rw [List.countP_eq_length.mpr hwrapped, ← hrecs.length_eq]
      exact List.length_pos_iff.mpr hne
    simp only [validate, hmac, hunwrapped, Option.isSome_some, Bool.true_or, Option.isNone_some,
      List.isEmpty_eq_false_iff.mpr hfull]
    simp [Nat.ne_of_gt hcount]
  · rw [hdesc]
    exact fun desc hd => nomatch hd
  · intro r hr
    obtain ⟨id, hid⟩ := hsealed r hr
    have hmark : ∀ {m : List Char}, IsMark m → ¬ m <:+: r.id.toWire := by
      intro m hm hi
      obtain ⟨p, hp, hin⟩ := (hm.infix_toWire r.id).mp hi
      rw [hpurpose r hr] at hp
      obtain rfl := Option.mem_some_iff.mp hp
      exact not_infix_recipient hm hin
    refine ⟨?_, hmark (.inl rfl), fun _ => hmark (.inr rfl)⟩
    rw [hid.comment]
    exact fun comment hcomment => nomatch hcomment

end

/-! ## Opening what was sealed -/

section

variable {c} {plaintext canon mac : Bytes} {d : Document} {fileKey : Bytes}
  {oracle : Option EcdhOracle} {x25519 : List X25519Identity}

/-- Recipients under one purpose with one key are one. -/
theorem id_eq_of_key {id id' : Id} (hp : id.purpose = id'.purpose) (hf : id.format = id'.format)
    (hd : id.data = id'.data) : id = id' := by
  cases id
  cases id'
  cases hp
  cases hf
  cases hd
  rfl

/-- The loop gives the plaintext as soon as a recipient is left whose key is held and was not
tried: up to it everything fails to unwrap, or gives the file key. -/
theorem openLoop_of_holds (hc : c.Lawful) (hcanon : d.canonicalHeader = .ok canon)
    (hmac : mac = c.headerMac fileKey canon) (hpayload : c.openPayload fileKey d.payload = .ok plaintext)
    (hforeign : RejectsForeign c fileKey d oracle x25519)
    (hdistinct : (x25519.map (·.publicKey)).Nodup) {rs : List Recipient}
    (hsub : ∀ r ∈ rs, r ∈ d.recipients ∧ ∃ id, SealedTo c fileKey id r) {r : Recipient} (hr : r ∈ rs)
    (hholds : Holds c oracle x25519 r.id) {tried : List (FormatId × Bytes)}
    (htried : (r.id.format, r.id.data) ∉ tried) (failures : List String) :
    openLoop c d mac oracle x25519 rs tried failures = .ok plaintext := by
  induction rs generalizing tried failures with
  | nil => cases hr
  | cons r₀ rs ih =>
    obtain ⟨hmem₀, id₀, hid₀⟩ := hsub r₀ (by simp)
    obtain ⟨wrap, ephemeral, hwrap, hlen, hseal, wrapFormat, hformat, hsize⟩ := hid₀.wrap
    have hnext : ∀ tried' failures', r ∈ rs → (r.id.format, r.id.data) ∉ tried' →
        openLoop c d mac oracle x25519 rs tried' failures' = .ok plaintext :=
      fun tried' failures' hr' ht' =>
        ih (fun r' h' => hsub r' (List.mem_cons_of_mem _ h')) hr' ht' failures'
    have htail : r ≠ r₀ → r ∈ rs := fun hne => (List.mem_cons.mp hr).resolve_left hne
    rw [openLoop, hwrap]
    simp only
    by_cases hold : (r₀.id.format, r₀.id.data) ∈ tried
    · rw [if_pos hold]
      exact hnext tried failures (htail fun he => htried (he ▸ hold)) htried
    rw [if_neg hold]
    by_cases hkey : (r.id.format, r.id.data) = (r₀.id.format, r₀.id.data)
    · -- The key is the one that is held.
      obtain ⟨id, hid⟩ := (hsub r hr).2
      have hsame : r.id = r₀.id := by
        obtain ⟨-, hp, -⟩ := promoteRecipient_ok hid.promoted
        obtain ⟨-, hp₀, -⟩ := promoteRecipient_ok hid₀.promoted
        obtain ⟨hf, hd⟩ := Prod.mk.inj hkey
        exact id_eq_of_key (hp.trans hp₀.symm) hf hd
      rw [hsame] at hholds
      rw [attempt_of_holds hc (promoteRecipient_again hid₀.promoted) hlen hseal hformat hsize
        hdistinct hholds]
      simp only [hcanon, ok_bind, Crates.verifyMac, hmac, Crates.headerMac, hpayload]
      rfl
    · have hr' : r ∈ rs := htail fun he => hkey (he ▸ rfl)
      have ht' : (r.id.format, r.id.data) ∉ tried ++ [(r₀.id.format, r₀.id.data)] := by
        simp only [List.mem_append, List.mem_singleton, not_or]
        exact ⟨htried, hkey⟩
      rcases hattempt : attempt c oracle x25519 r₀.id wrap with _ | text | ⟨e | key⟩
      · exact hnext _ _ hr' ht'
      · exact hnext _ _ hr' ht'
      · exact hnext _ _ hr' ht'
      · obtain rfl := fileKey_of_attempt hc hforeign hmem₀ hwrap hattempt
        simp only [hcanon, ok_bind, Crates.verifyMac, hmac, Crates.headerMac, hpayload]
        rfl

/-- A sealed document is opened to its plaintext by everyone who holds a recipient's key. -/
theorem openDoc_of_holds (hc : c.Lawful) {recipients : List Id} {inputs : SealInputs}
    (hseal : sealWith c plaintext recipients inputs = .ok d)
    (hforeign : RejectsForeign c inputs.fileKey d oracle x25519)
    (hdistinct : (x25519.map (·.publicKey)).Nodup) {id : Id} (hid : id ∈ recipients)
    (hholds : Holds c oracle x25519 id) : openDoc c d oracle x25519 = .ok plaintext := by
  obtain ⟨-, -, hrecs, hpayload, canon, hcanon, hmac⟩ := sealWith_ok hseal
  have hopen := (Crates.openPayload_sealPayload hc inputs.length_payloadNonce hpayload).2
  obtain ⟨r, hr, hto⟩ := forall₂_mem_left hrecs hid
  have hsub : ∀ r ∈ d.recipients, r ∈ d.recipients ∧ ∃ id, SealedTo c inputs.fileKey id r := by
    intro r hr
    obtain ⟨id, -, hid⟩ := forall₂_mem_right hrecs hr
    exact ⟨hr, id, hid⟩
  have hholds' : Holds c oracle x25519 r.id := by
    obtain ⟨-, -, hformat, hdata⟩ := promoteRecipient_ok hto.promoted
    rw [Holds, hformat, hdata]
    rcases hholds with h | ⟨hf, ecdh, scalar, horacle, hpoint, hecdh⟩
    · exact .inl h
    · refine .inr ⟨hf, ecdh, scalar, horacle, hpoint, ?_⟩
      intro self p hself
      rw [promoteRecipient_again hto.promoted] at hself
      cases hself
      exact hecdh r.id p hto.promoted
  rw [openDoc, hmac]
  exact openLoop_of_holds hc hcanon rfl hopen hforeign hdistinct hsub hr hholds' (by simp) []

/-- A sealed document is written and read back, and opened to its plaintext by everyone who
holds a recipient's key, whatever else they try. -/
theorem openDoc_sealWith (hc : c.Lawful) {recipients : List Id} {inputs : SealInputs}
    (hseal : sealWith c plaintext recipients inputs = .ok d)
    (hforeign : RejectsForeign c inputs.fileKey d oracle x25519)
    (hdistinct : (x25519.map (·.publicKey)).Nodup) {id : Id} (hid : id ∈ recipients)
    (hholds : Holds c oracle x25519 id) :
    ∃ raw d', d.toBytes = .ok raw ∧ Document.parse raw = .ok d' ∧
      openDoc c d' oracle x25519 = .ok plaintext := by
  obtain ⟨hread, hfaithful⟩ := asRead_of_sealWith hc hseal
  obtain ⟨raw, hraw, d', hparse, rfl, -⟩ := (reserializes_iff_faithful hread).mpr hfaithful
  exact ⟨raw, d', hraw, hparse, openDoc_of_holds hc hseal hforeign hdistinct hid hholds⟩

end

/-! ## A sealed document -/

/-- A card and a software identity. -/
def sampleRecipients : List Id :=
  [{ purpose := none, format := .pivyEcdhP256Pub, data := Crates.samplePoint 7, size := rfl,
     compatible := fun _ hp => nomatch hp },
   { purpose := none, format := .ageX25519Pub, data := List.replicate 32 5, size := rfl,
     compatible := fun _ hp => nomatch hp }]

def sampleInputs : SealInputs where
  fileKey := List.replicate 16 9
  payloadNonce := List.replicate 16 8
  ephemeral := [List.replicate 32 3, List.replicate 32 4]
  length_fileKey := rfl
  length_payloadNonce := rfl
  length_ephemeral := by simp

/-- An oracle with a wrong answer to everything. -/
def sampleOracle : EcdhOracle := fun _ _ => .ok (List.replicate 32 0)

def sampleIdentities : List X25519Identity :=
  [⟨List.replicate 32 6, List.replicate 32 6⟩, ⟨List.replicate 32 5, List.replicate 32 5⟩]

/-- The sample crates open a wrap only under a key with the tag that sealed it. -/
theorem sample_rejectsForeign {plaintext : Bytes} {recipients : List Id} {inputs : SealInputs}
    {d : Document} (h : sealWith Crates.sample plaintext recipients inputs = .ok d)
    (oracle : Option EcdhOracle) (x25519 : List X25519Identity) :
    RejectsForeign Crates.sample inputs.fileKey d oracle x25519 := by
  intro r hr wrap hwrap key _ hother plain hdec
  obtain ⟨-, -, hrecs, -⟩ := sealWith_ok h
  obtain ⟨id, -, hid⟩ := forall₂_mem_right hrecs hr
  obtain ⟨wrap', ephemeral, hwrap', -, hseal, -⟩ := hid.wrap
  obtain rfl : wrap' = wrap := Option.some.inj (hwrap'.symm.trans hwrap)
  obtain ⟨sealing, hct⟩ := exists_sealing_key Crates.sample_lawful hseal
  have hct' : wrap'.drop (epkLen r.id.format) = inputs.fileKey ++ Crates.sampleTag sealing :=
    (Except.ok.inj hct).symm
  simp only [Crates.sample] at hdec
  by_cases htag : wrap'.drop (epkLen r.id.format) =
      (wrap'.drop (epkLen r.id.format)).take ((wrap'.drop (epkLen r.id.format)).length - tagLen) ++
        Crates.sampleTag key
  · -- The tag of the key is the one at the end of the wrap.
    have hsame := List.append_inj_right' (hct'.symm.trans htag)
      (by rw [Crates.length_sampleTag, Crates.length_sampleTag])
    refine hother ?_
    rw [hct', hsame]
    rfl
  · rw [if_neg htag] at hdec
    cases hdec

theorem sample_holds :
    Holds Crates.sample (some sampleOracle) sampleIdentities (sampleRecipients.getLast (by decide)) :=
  .inl ⟨rfl, ⟨List.replicate 32 5, List.replicate 32 5⟩, by decide, rfl, rfl, rfl⟩

theorem sample_sealed :
    (sealWith Crates.sample [1, 2, 3] sampleRecipients sampleInputs).isOk = true := by
  decide +kernel

/-- The software identity opens the document although the oracle answers wrongly for the
card. -/
theorem openDoc_sealWith_sample :
    ∃ d, sealWith Crates.sample [1, 2, 3] sampleRecipients sampleInputs = .ok d ∧
      ∃ raw d', d.toBytes = .ok raw ∧ Document.parse raw = .ok d' ∧
        openDoc Crates.sample d' (some sampleOracle) sampleIdentities = .ok [1, 2, 3] := by
  have hok := sample_sealed
  rcases hseal : sealWith Crates.sample [1, 2, 3] sampleRecipients sampleInputs with e | d
  · rw [hseal] at hok
    cases hok
  · refine ⟨d, rfl, openDoc_sealWith Crates.sample_lawful hseal
      (sample_rejectsForeign hseal _ _) (by decide) (List.getLast_mem _) sample_holds⟩

end Document

end Piggy.Pigpen
