import Piggy.Box.BoxCodec
import Piggy.Box.Opening

/-!
# Standalone boxes, sealed and opened

A box of its own is sealed for a point under a fresh ephemeral key, and opened with the private key
of the point or with the secret that a card derives. The contents of one box sealed again for
another point are a box of the same size, but for the guid and slot that it names.
-/

namespace Piggy.Box

open Piggy.Core

variable {Scalar Point Rng : Type} (ssl : OpenSsl Scalar Point Rng)

/-- Seals a box under a fresh ephemeral key. -/
def sealOffline (b : PivBox) (recipientPub : Point) (rng : Rng) : Except BoxError (PivBox × Rng) := do
  let (ephem, rng) ← liftSsl (ssl.generate rng b.curve)
  sealOfflineWithEphemeral ssl b recipientPub ephem rng

/-- Opens a box with a private key. -/
def openOffline (b : PivBox) (privkey : Scalar) : Except BoxError PivBox := do
  let ephemPub ← liftSsl (ssl.pointFromBytes b.curve b.ephemeralPubkey)
  let sharedSecret ← liftSsl (ssl.derive b.curve privkey ephemPub)
  openWithSecret ssl b sharedSecret

/-- A box that was sealed for a point, under some ephemeral key. -/
structure SealedTo (plain : Bytes) (p : Point) (b : PivBox) : Prop where
  header : b.version = boxVersion ∧ b.cipher = defaultCipher ∧ b.kdf = defaultKdf
  nonce : b.nonce.length = nonceLen
  iv : b.iv.length = cipherIvLen
  onCurve : ssl.OnCurve b.curve p
  contents : ∃ d secret ct tag, b.recipientPubkey = ssl.pointToBytes b.curve .compressed p ∧
    b.ephemeralPubkey = ssl.pointToBytes b.curve .compressed (ssl.publicPoint b.curve d) ∧
    ssl.derive b.curve d p = .ok secret ∧
    ssl.encryptAead .chacha20Poly1305 (kdfSha512 ssl secret b.nonce) b.iv (pkcs7Pad plain 16) =
      .ok (ct, tag) ∧
    b.ciphertext = ct ++ tag

/-- What a library that is in working order never fails at, and how long its points are. -/
structure OpenSsl.Available : Prop where
  generate : ∀ rng curve, ∃ d rng', ssl.generate rng curve = .ok (d, rng')
  randBytes : ∀ rng n, ∃ bytes rng', ssl.randBytes rng n = .ok (bytes, rng')
  derive : ∀ {curve p} (d : Scalar), ssl.OnCurve curve p → ∃ secret, ssl.derive curve d p = .ok secret
  length_sha512 : ∀ data, (ssl.sha512 data).length = 64
  encryptAead : ∀ aead {key iv} (plain : Bytes), key.length = 32 → iv.length = cipherIvLen →
    ∃ ct tag, ssl.encryptAead aead key iv plain = .ok (ct, tag)
  /-- All points of a curve are of one length. -/
  length_compressed : ∀ {curve p q}, ssl.OnCurve curve p → ssl.OnCurve curve q →
    (ssl.pointToBytes curve .compressed p).length = (ssl.pointToBytes curve .compressed q).length

/-- The sample library is in working order. -/
theorem OpenSsl.sample_available : OpenSsl.sample.Available where
  generate rng _ := ⟨UInt8.ofNat rng, rng + 1, rfl⟩
  randBytes rng n := ⟨List.replicate n (UInt8.ofNat rng), rng + 1, rfl⟩
  derive {_ p} d _ := ⟨[d * p], rfl⟩
  length_sha512 data := by
    change ((data ++ List.replicate 64 0).take 64).length = 64
    rw [List.length_take, List.length_append, List.length_replicate]
    omega
  encryptAead _ key _ plain _ _ := ⟨plain, OpenSsl.sampleTag key, rfl⟩
  length_compressed _ _ := rfl

variable {ssl}

/-! ## Sealing -/

/-- A fresh box with contents. -/
def freshBox (curve : EcCurve) (guidSlot : Option (Guid × UInt8)) (plain : Bytes) : PivBox :=
  { PivBox.new curve with guidSlot := guidSlot, plaintext := some plain }

theorem sealOffline_fresh (hssl : ssl.Lawful) {curve : EcCurve} {guidSlot : Option (Guid × UInt8)}
    {plain : Bytes} {p : Point} (hp : ssl.OnCurve curve p) {rng rng' : Rng} {b : PivBox}
    (h : sealOffline ssl (freshBox curve guidSlot plain) p rng = .ok (b, rng')) :
    SealedTo ssl plain p b ∧ b.curve = curve ∧ b.guidSlot = guidSlot := by
  simp only [sealOffline, sealOfflineWithEphemeral, bind_ok, pure_ok, liftSsl_ok, Prod.mk.injEq] at h
  obtain ⟨⟨d, rng₁⟩, -, ⟨nonce, rng₂⟩, hnonce, ⟨iv, rng₃⟩, -, b', hseal, rfl, rfl⟩ := h
  simp only [sealOfflineWithEphemeralAndPinnedRandom, freshBox, bind_ok, pure_ok, liftSsl_ok] at hseal
  obtain ⟨secret, hsecret, out, hout, rfl⟩ := hseal
  obtain ⟨hiv, ct, tag, henc, rfl⟩ := chacha20Poly1305Encrypt_ok hout
  refine ⟨?_, rfl, rfl⟩
  exact {
    header := ⟨rfl, rfl, rfl⟩
    nonce := hssl.length_randBytes hnonce
    iv := hiv
    onCurve := hp
    contents := ⟨d, secret, ct, tag, rfl, rfl, hsecret, henc, rfl⟩ }

/-- A library in working order seals a box for every point of its curve. -/
theorem exists_sealOffline (hssl : ssl.Lawful) (havail : ssl.Available) (curve : EcCurve)
    (guidSlot : Option (Guid × UInt8)) (plain : Bytes) {p : Point} (hp : ssl.OnCurve curve p) (rng : Rng) :
    ∃ b rng', sealOffline ssl (freshBox curve guidSlot plain) p rng = .ok (b, rng') := by
  obtain ⟨d, rng₁, hd⟩ := havail.generate rng curve
  obtain ⟨nonce, rng₂, hnonce⟩ := havail.randBytes rng₁ nonceLen
  obtain ⟨iv, rng₃, hiv⟩ := havail.randBytes rng₂ cipherIvLen
  obtain ⟨secret, hsecret⟩ := havail.derive d hp
  have hkey : (kdfSha512 ssl secret nonce).length = 32 := by
    rw [kdfSha512, List.length_take, havail.length_sha512]
    rfl
  have hlen := hssl.length_randBytes hiv
  obtain ⟨ct, tag, henc⟩ := havail.encryptAead .chacha20Poly1305 (pkcs7Pad plain 16) hkey hlen
  have hout : chacha20Poly1305Encrypt ssl (kdfSha512 ssl secret nonce) iv (pkcs7Pad plain 16) =
      .ok (ct ++ tag) := by
    rw [chacha20Poly1305Encrypt, if_neg (not_not.mpr hlen), henc]
    rfl
  have hcurve : (freshBox curve guidSlot plain).curve = curve := rfl
  have hseal : ∃ b, sealOfflineWithEphemeralAndPinnedRandom ssl (freshBox curve guidSlot plain) p d nonce
      iv = .ok b := by
    unfold sealOfflineWithEphemeralAndPinnedRandom freshBox
    dsimp only [PivBox.new]
    rw [hsecret]
    change ∃ b, (chacha20Poly1305Encrypt ssl (kdfSha512 ssl secret nonce) iv (pkcs7Pad plain 16) >>= _) = _
    rw [hout]
    exact ⟨_, rfl⟩
  obtain ⟨b, hb⟩ := hseal
  refine ⟨b, rng₃, ?_⟩
  rw [sealOffline, hcurve, hd]
  change sealOfflineWithEphemeral ssl (freshBox curve guidSlot plain) p d rng₁ = _
  rw [sealOfflineWithEphemeral, hnonce]
  change (liftSsl (ssl.randBytes rng₂ cipherIvLen) >>= _) = _
  rw [hiv]
  change (sealOfflineWithEphemeralAndPinnedRandom ssl (freshBox curve guidSlot plain) p d nonce iv >>= _) = _
  rw [hb]
  rfl

/-! ## Opening -/

/-- A box of its own is sealed as one in a part is. -/
theorem SealedTo.part (hssl : ssl.Lawful) {plain : Bytes} {p : Point} {b : PivBox}
    (h : SealedTo ssl plain p b) :
    ∃ d, SealedPart ssl plain d
      { guid := none, slot := defaultSlot, name := none, pubkey := b.recipientPubkey,
        pubkeyCurve := b.curve, cak := none }
      { guid := none, slot := defaultSlot, name := none, pubkey := none, pubkeyCurve := none,
        cak := none, pivBox := b } := by
  obtain ⟨d, secret, ct, tag, hr, he, hs, henc, hct⟩ := h.contents
  refine ⟨d, ?_⟩
  exact {
    fields := ⟨rfl, rfl, rfl, rfl⟩
    header := ⟨h.header.2.1, h.header.2.2, rfl⟩
    nonce := h.nonce
    iv := h.iv
    contents := ⟨p, secret, ct, tag, by rw [hr]; exact hssl.pointFromBytes_pointToBytes _ h.onCurve,
      hr, he, hs, henc, hct⟩ }

/-- The secret of a sealed box opens it to its contents. -/
theorem SealedTo.opensTo (hssl : ssl.Lawful) {plain : Bytes} {p : Point} {b : PivBox}
    (h : SealedTo ssl plain p b) {secret : Bytes} (hs : TrueSecret ssl b secret) :
    OpensTo ssl b secret plain := by
  obtain ⟨d, hpart⟩ := h.part hssl
  exact hpart.opensTo_true hssl hs

/-- The private key of its point opens a sealed box to its contents. -/
theorem SealedTo.openOffline (hssl : ssl.Lawful) {plain : Bytes} {p : Point} {b : PivBox}
    (h : SealedTo ssl plain p b) {d : Scalar} (hd : ssl.publicPoint b.curve d = p) :
    openOffline ssl b d = .ok { b with plaintext := some plain } := by
  obtain ⟨d', secret, -, -, hr, he, hs, -⟩ := h.contents
  have hephem : ssl.pointFromBytes b.curve b.ephemeralPubkey = .ok (ssl.publicPoint b.curve d') := by
    rw [he]
    exact hssl.pointFromBytes_pointToBytes _ (hssl.publicPoint_onCurve _ _)
  have hrecipient : ssl.pointFromBytes b.curve b.recipientPubkey = .ok (ssl.publicPoint b.curve d) := by
    rw [hr, hd]
    exact hssl.pointFromBytes_pointToBytes _ h.onCurve
  have hsecret : ssl.derive b.curve d (ssl.publicPoint b.curve d') = .ok secret := by
    rw [hssl.derive_symm, hd]
    exact hs
  have hopens := h.opensTo hssl ⟨d, _, hrecipient, hephem, hsecret⟩
  rw [Box.openOffline, hephem]
  change (liftSsl (ssl.derive b.curve d (ssl.publicPoint b.curve d')) >>= _) = _
  rw [hsecret]
  exact openWithSecret_ok.mpr ⟨plain, hopens, rfl⟩

/-! ## Sizes -/

theorem length_guidSlotBytes (gs : Option (Guid × UInt8)) :
    (PivBox.guidSlotBytes gs).length = if gs.isSome then 19 else 3 := by
  cases gs with
  | none => rfl
  | some gs => simp [PivBox.guidSlotBytes, gs.1.length_bytes]

/-- The bytes of a field are at least those that are written. -/
theorem length_guidSlotField {gs : Option (Guid × UInt8)} {field : Bytes}
    (h : PivBox.GuidSlotField gs field) : (PivBox.guidSlotBytes gs).length ≤ field.length := by
  rw [length_guidSlotBytes]
  cases gs with
  | none =>
    obtain ⟨skipped, slot, -, rfl⟩ := h
    simp
  | some gs =>
    obtain ⟨valid, -, rfl⟩ := h
    simp [gs.1.length_bytes]

theorem length_encodingWith (b : PivBox) (field : Bytes) :
    (b.encodingWith field).length = (b.encodingWith []).length + field.length := by
  simp only [PivBox.encodingWith, List.length_append, List.length_nil]
  omega

/-- Boxes with the same contents on one curve have the same size, but for the guid and slot. -/
theorem SealedTo.length_eq (hssl : ssl.Lawful) (havail : ssl.Available) {plain : Bytes} {p q : Point}
    {b b' : PivBox} (h : SealedTo ssl plain p b) (h' : SealedTo ssl plain q b')
    (hcurve : b'.curve = b.curve) :
    (b'.encodingWith []).length = (b.encodingWith []).length ∧ b'.ciphertext.length = b.ciphertext.length := by
  obtain ⟨d, secret, ct, tag, hr, he, -, henc, hct⟩ := h.contents
  obtain ⟨d', secret', ct', tag', hr', he', -, henc', hct'⟩ := h'.contents
  obtain ⟨hv, hcipher, hkdf⟩ := h.header
  obtain ⟨hv', hcipher', hkdf'⟩ := h'.header
  have honCurve := h'.onCurve
  rw [hcurve] at hr' he' honCurve
  have hciphertext : b'.ciphertext.length = b.ciphertext.length := by
    rw [hct, hct', List.length_append, List.length_append, (hssl.encryptAead_length henc).1,
      (hssl.encryptAead_length henc).2, (hssl.encryptAead_length henc').1,
      (hssl.encryptAead_length henc').2]
  have hrecipient : b'.recipientPubkey.length = b.recipientPubkey.length := by
    rw [hr, hr']
    exact havail.length_compressed honCurve h.onCurve
  have hephem : b'.ephemeralPubkey.length = b.ephemeralPubkey.length := by
    rw [he, he']
    exact havail.length_compressed (hssl.publicPoint_onCurve _ _) (hssl.publicPoint_onCurve _ _)
  refine ⟨?_, hciphertext⟩
  simp only [PivBox.encodingWith, List.length_append, length_string8, length_string32, length_cstring8,
    PivBox.nonceBytes, hv, hv', hcipher, hcipher', hkdf, hkdf', hcurve, hciphertext, hrecipient, hephem,
    h.iv, h'.iv, if_pos (show (2 : UInt8) ≤ boxVersion by decide), h.nonce, h'.nonce]

/-- A box with a ciphertext that fits is written, and read back. -/
theorem SealedTo.toBytes (hssl : ssl.Lawful) {plain : Bytes} {p : Point} {b : PivBox}
    (h : SealedTo ssl plain p b) (hsize : FitsString b.ciphertext) :
    b.toBytes = .ok b.encoding ∧ PivBox.fromBytes b.encoding = .ok { b with plaintext := none } := by
  obtain ⟨d, -, -, -, hr, he, -⟩ := h.contents
  obtain ⟨hv, hcipher, hkdf⟩ := h.header
  have hfits : b.Fits := {
    cipher := by rw [hcipher]; decide
    kdf := by rw [hkdf]; decide
    nonce := by rw [FitsString8, h.nonce]; decide
    recipientPubkey := by
      rw [hr]
      exact (hssl.compressed_bounds h.onCurve).1
    ephemeralPubkey := by
      rw [he]
      exact (hssl.compressed_bounds (hssl.publicPoint_onCurve _ _)).1
    iv := by rw [FitsString8, h.iv]; decide
    ciphertext := hsize }
  have hbytes := PivBox.toBytes_of_fits hfits
  have hreadable := PivBox.readable_of_toBytes (.inr hv) hbytes hsize
  refine ⟨hbytes, PivBox.fromBytes_ok.mpr ⟨hreadable, PivBox.guidSlotBytes b.guidSlot, [],
    PivBox.guidSlotField_guidSlotBytes _, ?_⟩⟩
  rw [List.append_nil, ← PivBox.encodingWith_guidSlotBytes]
  rfl

end Piggy.Box
