import Piggy.Box.Ebox

/-!
# What the box layer takes from OpenSSL

The cryptographic library is a parameter: elliptic-curve points and scalars,
their encodings, ECDH, the two AEAD ciphers, AES-CTR, HMAC, SHA-512 and the
random generator. The laws are those its documentation promises; the proofs ask
for nothing else of it.
-/

namespace Piggy.Box

/-- The two encodings of an EC point. -/
inductive PointForm where
  | compressed
  | uncompressed
  deriving DecidableEq

/-- The AEAD ciphers in use. -/
inductive Aead where
  | chacha20Poly1305
  | aes256Gcm
  deriving DecidableEq

/-- The calls into OpenSSL; a failing call gives the text of its error stack. -/
structure OpenSsl (Scalar Point Rng : Type) where
  randBytes : Rng → Nat → Except String (Bytes × Rng)
  /-- `EcKey::generate`. -/
  generate : Rng → EcCurve → Except String (Scalar × Rng)
  /-- The public point of a private key. -/
  publicPoint : EcCurve → Scalar → Point
  /-- `EcPoint::from_bytes`, for every encoding it accepts. -/
  pointFromBytes : EcCurve → Bytes → Except String Point
  pointToBytes : EcCurve → PointForm → Point → Bytes
  /-- `Deriver::derive_to_vec`. -/
  derive : EcCurve → Scalar → Point → Except String Bytes
  sha512 : Bytes → Bytes
  /-- Ciphertext and tag under a key, an IV and no associated data. -/
  encryptAead : Aead → Bytes → Bytes → Bytes → Except String (Bytes × Bytes)
  decryptAead : Aead → Bytes → Bytes → Bytes → Bytes → Except String Bytes
  aes256Ctr : Bytes → Bytes → Bytes → Except String Bytes
  hmacSha256 : Bytes → Bytes → Bytes

namespace OpenSsl

variable {Scalar Point Rng : Type}

/-- A point the library can decode on the curve. -/
def OnCurve (ssl : OpenSsl Scalar Point Rng) (curve : EcCurve) (p : Point) : Prop :=
  ∃ bytes, ssl.pointFromBytes curve bytes = .ok p

/-- The laws the box layer relies on. -/
structure Lawful (ssl : OpenSsl Scalar Point Rng) : Prop where
  length_randBytes : ∀ {rng n bytes rng'}, ssl.randBytes rng n = .ok (bytes, rng') →
    bytes.length = n
  publicPoint_onCurve : ∀ curve d, ssl.OnCurve curve (ssl.publicPoint curve d)
  /-- Every point is a multiple of the generator. -/
  exists_scalar : ∀ {curve p}, ssl.OnCurve curve p → ∃ d, ssl.publicPoint curve d = p
  pointFromBytes_pointToBytes : ∀ {curve p} (form : PointForm), ssl.OnCurve curve p →
    ssl.pointFromBytes curve (ssl.pointToBytes curve form p) = .ok p
  /-- Compressed points are short, not empty, and do not start like uncompressed ones. -/
  compressed_bounds : ∀ {curve p}, ssl.OnCurve curve p →
    (ssl.pointToBytes curve .compressed p).length ≤ 255 ∧
    (ssl.pointToBytes curve .compressed p).head? ≠ none ∧
    (ssl.pointToBytes curve .compressed p).head? ≠ some 0x04
  /-- A P-256 point has one encoding of 33 bytes. -/
  compressed_unique : ∀ {bytes p}, ssl.pointFromBytes .nistP256 bytes = .ok p →
    bytes.length = 33 → ssl.pointToBytes .nistP256 .compressed p = bytes
  /-- Both sides of an exchange derive the same secret. -/
  derive_symm : ∀ curve a b,
    ssl.derive curve a (ssl.publicPoint curve b) = ssl.derive curve b (ssl.publicPoint curve a)
  encryptAead_length : ∀ {aead key iv plain ct tag},
    ssl.encryptAead aead key iv plain = .ok (ct, tag) → ct.length = plain.length ∧ tag.length = 16
  decryptAead_encryptAead : ∀ {aead key iv plain ct tag},
    ssl.encryptAead aead key iv plain = .ok (ct, tag) →
      ssl.decryptAead aead key iv ct tag = .ok plain
  aes256Ctr_total : ∀ {key iv} (data : Bytes), key.length = 32 → iv.length = 16 →
    ∃ out, ssl.aes256Ctr key iv data = .ok out ∧ out.length = data.length
  aes256Ctr_involutive : ∀ {key iv data out}, ssl.aes256Ctr key iv data = .ok out →
    ssl.aes256Ctr key iv out = .ok data
  length_hmacSha256 : ∀ key data, (ssl.hmacSha256 key data).length = 32

/-! ## A library that keeps the laws -/

/-- The tag a key puts on a ciphertext of the sample library. -/
def sampleTag (key : Bytes) : Bytes := (key ++ List.replicate 16 0).take 16

/-- The encodings of a point of the sample library. -/
def samplePoint (form : PointForm) (p : UInt8) : Bytes :=
  match form with
  | .compressed => 0x02 :: p :: List.replicate 31 0
  | .uncompressed => 0x04 :: p :: List.replicate 63 0

/-- A small library with one-byte scalars and points: the group is that of bytes under
multiplication, the generator numbers its output, and the ciphers mark keys. -/
def sample : OpenSsl UInt8 UInt8 Nat where
  randBytes rng n := .ok (List.replicate n (UInt8.ofNat rng), rng + 1)
  generate rng _ := .ok (UInt8.ofNat rng, rng + 1)
  publicPoint _ d := d
  pointFromBytes _ bytes :=
    match bytes with
    | form :: p :: rest =>
      if form :: p :: rest = samplePoint .compressed p ∨
          form :: p :: rest = samplePoint .uncompressed p then .ok p
      else .error "invalid encoding"
    | _ => .error "invalid encoding"
  pointToBytes _ form p := samplePoint form p
  derive _ d p := .ok [d * p]
  sha512 data := (data ++ List.replicate 64 0).take 64
  encryptAead _ key _ plain := .ok (plain, sampleTag key)
  decryptAead _ key _ ct tag := if tag = sampleTag key then .ok ct else .error "bad tag"
  aes256Ctr key iv data :=
    if key.length = 32 ∧ iv.length = 16 then .ok (data.map (· ^^^ 0x5A)) else .error "bad length"
  hmacSha256 _ data := (data ++ List.replicate 32 0).take 32

/-- The sample library keeps the laws. -/
theorem sample_lawful : sample.Lawful where
  length_randBytes := by
    intro rng n bytes rng' h
    cases h
    simp
  publicPoint_onCurve curve d := ⟨samplePoint .compressed d, if_pos (.inl rfl)⟩
  exists_scalar := fun {_ p} _ => ⟨p, rfl⟩
  pointFromBytes_pointToBytes := by
    intro curve p form _
    cases form with
    | compressed => exact if_pos (.inl rfl)
    | uncompressed => exact if_pos (.inr rfl)
  compressed_bounds := by
    intro curve p _
    simp [sample, samplePoint]
  compressed_unique := by
    intro bytes p h hlen
    simp only [sample] at h
    split at h
    · next form q rest =>
      split at h
      · next hform =>
        cases h
        rcases hform with hform | hform
        · exact hform.symm
        · rw [hform] at hlen
          simp [samplePoint] at hlen
      · cases h
    · cases h
  derive_symm := by
    intro curve a b
    change Except.ok [a * b] = Except.ok [b * a]
    rw [UInt8.mul_comm]
  encryptAead_length := by
    intro aead key iv plain ct tag h
    cases h
    simp [sampleTag]
  decryptAead_encryptAead := by
    intro aead key iv plain ct tag h
    cases h
    exact if_pos rfl
  aes256Ctr_total := by
    intro key iv data hkey hiv
    exact ⟨data.map (· ^^^ 0x5A), if_pos ⟨hkey, hiv⟩, List.length_map _⟩
  aes256Ctr_involutive := by
    intro key iv data out h
    simp only [sample] at h ⊢
    split at h
    · next hl =>
      cases h
      rw [if_pos hl, List.map_map]
      have hx : ((fun b : UInt8 => b ^^^ 0x5A) ∘ fun b => b ^^^ 0x5A) = id := by
        funext b
        change b ^^^ 0x5A ^^^ 0x5A = b
        rw [UInt8.xor_assoc, UInt8.xor_self, UInt8.xor_zero]
      rw [hx, List.map_id]
    · cases h
  length_hmacSha256 := by
    intro key data
    simp [sample]

end OpenSsl

/-- How a computation of the program stops short: with an error or by a panic. -/
inductive Fault where
  | error (e : BoxError)
  | panic
  deriving DecidableEq

/-- A computation that can only fail with a box error. -/
def liftBox {α : Type} : Except BoxError α → Except Fault α
  | .ok a => .ok a
  | .error e => .error (.error e)

/-- A call into OpenSSL whose error stack is passed on. -/
def liftSsl {α : Type} : Except String α → Except BoxError α
  | .ok a => .ok a
  | .error e => .error (.openSsl e)

theorem liftBox_ok {α : Type} {x : Except BoxError α} {a : α} : liftBox x = .ok a ↔ x = .ok a := by
  cases x <;> simp [liftBox]

theorem liftSsl_ok {α : Type} {x : Except String α} {a : α} : liftSsl x = .ok a ↔ x = .ok a := by
  cases x <;> simp [liftSsl]

end Piggy.Box
