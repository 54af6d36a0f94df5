import Piggy.Pigpen.Document

/-!
# The pigpen suite

What the suite computes from the crates it is built on: the two wraps of a file key, the
payload in chunks and the header MAC. The crates are a parameter; the laws are those their
documentation promises.
-/

namespace Piggy.Pigpen

open Piggy.Core
open Piggy.Box (Bytes strBytes)

/-- The calls into the crates; a call that fails gives the text of its error. -/
structure Crates (Scalar Point : Type) where
  /-- `x25519_dalek::PublicKey::from`, of a secret. -/
  x25519Public : Bytes → Bytes
  /-- `StaticSecret::diffie_hellman`. -/
  x25519 : Bytes → Bytes → Bytes
  wasContributory : Bytes → Bool
  /-- `p256::PublicKey::from_sec1_bytes`. -/
  fromSec1Bytes : Bytes → Except String Point
  /-- `to_encoded_point` in compressed form. -/
  toEncodedPoint : Point → Bytes
  /-- `NonZeroScalar::try_from`. -/
  scalar : Bytes → Except String Scalar
  fromSecretScalar : Scalar → Point
  /-- `p256::ecdh::diffie_hellman`: the x-coordinate. -/
  diffieHellman : Scalar → Point → Bytes
  /-- HKDF with SHA-256 of an input key, a salt and an info, expanded to 32 bytes. -/
  hkdf32 : Bytes → Bytes → Bytes → Bytes
  /-- ChaCha20-Poly1305 under a key and a nonce. -/
  encrypt : Bytes → Bytes → Bytes → Except String Bytes
  decrypt : Bytes → Bytes → Bytes → Except String Bytes
  hmacSha256 : Bytes → Bytes → Bytes

def fileKeyLen : Nat := 16

def payloadNonceLen : Nat := 16

def streamChunk : Nat := 64 * 1024

def tagLen : Nat := 16

namespace Crates

variable {Scalar Point : Type}

/-- The laws the suite relies on. -/
structure Lawful (c : Crates Scalar Point) : Prop where
  length_x25519Public : ∀ secret, (c.x25519Public secret).length = 32
  length_toEncodedPoint : ∀ p, (c.toEncodedPoint p).length = 33
  /-- Both sides of an exchange derive the same secret. -/
  x25519_symm : ∀ {a b}, a.length = 32 → b.length = 32 →
    c.x25519 a (c.x25519Public b) = c.x25519 b (c.x25519Public a)
  diffieHellman_symm : ∀ a b,
    c.diffieHellman a (c.fromSecretScalar b) = c.diffieHellman b (c.fromSecretScalar a)
  /-- The AEAD opens what it sealed, and adds a tag. -/
  decrypt_encrypt : ∀ {key nonce plain ct}, c.encrypt key nonce plain = .ok ct →
    c.decrypt key nonce ct = .ok plain
  length_encrypt : ∀ {key nonce plain ct}, c.encrypt key nonce plain = .ok ct →
    ct.length = plain.length + tagLen
  length_hmacSha256 : ∀ key data, (c.hmacSha256 key data).length = 32

variable (c : Crates Scalar Point)

def infoPayload : Bytes := strBytes "pigpen-v1 payload"

def infoHeader : Bytes := strBytes "pigpen-v1 header"

def infoP256 : Bytes := strBytes "pigpen-v1 piv-p256"

def infoX25519 : Bytes := strBytes "pigpen-v1 x25519"

def zeroNonce : Bytes := List.replicate 12 0

/-- A call whose error is passed on behind a text. -/
def orCrypto {α : Type} (what : String) (x : Except String α) : Except Error α :=
  x.mapError fun e => .crypto (what ++ e)

/-- Seals with the AEAD. -/
def aeadSeal (key nonce plaintext : Bytes) : Except Error Bytes :=
  orCrypto "aead seal: " (c.encrypt key nonce plaintext)

/-- Opens with the AEAD. -/
def aeadOpen (key nonce ciphertext : Bytes) : Except Error Bytes :=
  orCrypto "aead open: " (c.decrypt key nonce ciphertext)

/-! ## Wraps -/

/-- An exchange with a point of low order is refused: anyone can compute its secret. -/
def rejectLowOrder (shared : Bytes) (what : String) : Except Error Unit :=
  if c.wasContributory shared then .ok () else .error (.crypto s!"x25519 {what} is a low-order point")

/-- Wraps the file key for an X25519 key. -/
def wrapX25519 (fileKey recipientPub ephemeralSecret : Bytes) : Except Error Bytes :=
  if recipientPub.length ≠ 32 then .error (.crypto "x25519 recipient pubkey must be 32 bytes")
  else do
    let epk := c.x25519Public ephemeralSecret
    let shared := c.x25519 ephemeralSecret recipientPub
    c.rejectLowOrder shared "recipient public key"
    let ct ← c.aeadSeal (c.hkdf32 shared (epk ++ recipientPub) infoX25519) zeroNonce fileKey
    pure (epk ++ ct)

/-- Unwraps the file key of an X25519 identity. -/
def unwrapX25519 (blob recipientPub recipientSec : Bytes) : Except Error Bytes :=
  if blob.length ≠ 32 + fileKeyLen + tagLen then .error (.crypto "bad x25519 wrap length")
  else if recipientSec.length ≠ 32 then .error (.crypto "x25519 secret must be 32 bytes")
  else do
    let epk := blob.take 32
    let shared := c.x25519 recipientSec epk
    c.rejectLowOrder shared "ephemeral public key"
    c.aeadOpen (c.hkdf32 shared (epk ++ recipientPub) infoX25519) zeroNonce (blob.drop 32)

/-- Wraps the file key for a P-256 key. -/
def wrapP256 (fileKey recipientCompressed ephemeralSecret : Bytes) : Except Error Bytes := do
  let recipient ← orCrypto "bad P-256 recipient: " (c.fromSec1Bytes recipientCompressed)
  let esk ← orCrypto "bad P-256 ephemeral secret: " (c.scalar ephemeralSecret)
  let epk := c.toEncodedPoint (c.fromSecretScalar esk)
  let shared := c.diffieHellman esk recipient
  let ct ← c.aeadSeal (c.hkdf32 shared (epk ++ recipientCompressed) infoP256) zeroNonce fileKey
  pure (epk ++ ct)

/-- Unwraps the file key with a shared secret. -/
def unwrapP256WithShared (blob recipientCompressed sharedX : Bytes) : Except Error Bytes :=
  if blob.length ≠ 33 + fileKeyLen + tagLen then .error (.crypto "bad p256 wrap length")
  else
    c.aeadOpen (c.hkdf32 sharedX (blob.take 33 ++ recipientCompressed) infoP256) zeroNonce
      (blob.drop 33)

/-- The ephemeral key of a wrap, which the oracle is asked about. -/
def p256WrapEpk (blob : Bytes) : Except Error Bytes :=
  if blob.length ≠ 33 + fileKeyLen + tagLen then .error (.crypto "bad p256 wrap length")
  else .ok (blob.take 33)

/-! ## Payload -/

/-- The nonce of a chunk: its number and whether it is the last one. -/
def streamNonce (counter : Nat) (last : Bool) : Bytes :=
  [0, 0, 0] ++ (toBe 8 counter ++ [if last then 0x01 else 0x00])

/-- The chunks of a plaintext from a number on. The first argument bounds the turns of the
loop; the loop ends with the last chunk, which may be empty. -/
def sealChunks (key : Bytes) : Nat → Nat → Bytes → Except Error Bytes
  | 0, _, _ => .ok []
  | turns + 1, i, rest => do
    let last := decide (rest.length ≤ streamChunk)
    let ct ← orCrypto "payload seal: "
      (c.encrypt key (streamNonce i last) (rest.take streamChunk))
    if last then .ok ct
    else do
      let out ← sealChunks key turns (i + 1) (rest.drop streamChunk)
      pure (ct ++ out)

/-- The payload: the nonce and the chunks. -/
def sealPayload (fileKey plaintext nonce : Bytes) : Except Error Bytes := do
  let out ← c.sealChunks (c.hkdf32 fileKey nonce infoPayload) (plaintext.length + 1) 0 plaintext
  pure (nonce ++ out)

/-- The plaintext of the chunks from one on. -/
def openChunks (key : Bytes) : Nat → Nat → Bytes → Except Error Bytes
  | 0, _, _ => .ok []
  | turns + 1, i, body =>
    if body.isEmpty then .error (.payload "no final chunk")
    else do
      let last := decide (body.length ≤ streamChunk + tagLen)
      let plain ← (c.decrypt key (streamNonce i last) (body.take (streamChunk + tagLen))).mapError
        fun _ => .payload s!"chunk {i} did not authenticate"
      if last then .ok plain
      else do
        let out ← openChunks key turns (i + 1) (body.drop (streamChunk + tagLen))
        pure (plain ++ out)

/-- The plaintext of a payload. -/
def openPayload (fileKey payload : Bytes) : Except Error Bytes :=
  if payload.length < payloadNonceLen then .error (.payload "shorter than its nonce")
  else
    let nonce := payload.take payloadNonceLen
    let body := payload.drop payloadNonceLen
    c.openChunks (c.hkdf32 fileKey nonce infoPayload) (body.length + 1) 0 body

section

variable {c}

theorem orCrypto_ok {α : Type} {what : String} {x : Except String α} {a : α} :
    orCrypto what x = .ok a ↔ x = .ok a := mapError_ok

/-- The chunks of a plaintext are opened to the plaintext. -/
theorem openChunks_sealChunks (hc : c.Lawful) {key : Bytes} {turns i : Nat} {plain out : Bytes}
    (hturns : plain.length < turns) (h : c.sealChunks key turns i plain = .ok out) :
    out ≠ [] ∧ ∀ turns', out.length < turns' → c.openChunks key turns' i out = .ok plain := by
  induction turns generalizing i plain out with
  | zero => exact absurd hturns (Nat.not_lt_zero _)
  | succ turns ih =>
    simp only [sealChunks, bind_ok, orCrypto_ok, decide_eq_true_eq] at h
    obtain ⟨ct, hct, h⟩ := h
    have hlen := hc.length_encrypt hct
    have hdec := hc.decrypt_encrypt hct
    rw [List.length_take] at hlen
    have hne : ∀ rest, ct ++ rest ≠ [] := by
      intro rest he
      have hnil := congrArg List.length he
      rw [List.length_append, hlen, tagLen] at hnil
      simp at hnil
    by_cases hlast : plain.length ≤ streamChunk
    · rw [if_pos hlast, Except.ok.injEq] at h
      obtain rfl : ct = out := h
      rw [Nat.min_eq_right hlast] at hlen
      rw [List.take_of_length_le hlast, decide_eq_true hlast] at hdec
      refine ⟨by simpa using hne [], ?_⟩
      intro turns' hturns'
      cases turns' with
      | zero => exact absurd hturns' (Nat.not_lt_zero _)
      | succ turns' =>
        have hshort : ct.length ≤ streamChunk + tagLen := by omega
        have hfull : ct.isEmpty = false := List.isEmpty_eq_false_iff.mpr (by simpa using hne [])
        rw [openChunks, if_neg (by simp [hfull])]
        simp only [decide_eq_true hshort, List.take_of_length_le hshort, hdec]
        rfl
    · rw [if_neg hlast] at h
      simp only [bind_ok, pure_ok] at h
      obtain ⟨out', hout', rfl⟩ := h
      rw [Nat.min_eq_left (by omega)] at hlen
      rw [decide_eq_false hlast] at hdec
      have hchunk : 0 < streamChunk := by decide
      obtain ⟨hne', hopen⟩ := ih (by rw [List.length_drop]; omega) hout'
      refine ⟨hne out', ?_⟩
      intro turns' hturns'
      rw [List.length_append] at hturns'
      cases turns' with
      | zero => exact absurd hturns' (Nat.not_lt_zero _)
      | succ turns' =>
        have hpos := List.length_pos_iff.mpr hne'
        have hlong : ¬ (ct ++ out').length ≤ streamChunk + tagLen := by
          rw [List.length_append]
          omega
        have hfull : (ct ++ out').isEmpty = false := List.isEmpty_eq_false_iff.mpr (hne out')
        have htake : (ct ++ out').take (streamChunk + tagLen) = ct := by
          rw [← hlen, List.take_left]
        have hdrop : (ct ++ out').drop (streamChunk + tagLen) = out' := by
          rw [← hlen, List.drop_left]
        rw [openChunks, if_neg (by simp [hfull])]
        simp only [decide_eq_false hlong, htake, hdrop, hdec, hopen turns' (by omega)]
        change Except.ok _ = _
        rw [List.take_append_drop]

/-- The payload of a plaintext is opened to the plaintext, and is never empty. -/
theorem openPayload_sealPayload (hc : c.Lawful) {fileKey plain nonce payload : Bytes}
    (hnonce : nonce.length = payloadNonceLen) (h : c.sealPayload fileKey plain nonce = .ok payload) :
    payload ≠ [] ∧ c.openPayload fileKey payload = .ok plain := by
  simp only [sealPayload, bind_ok, pure_ok] at h
  obtain ⟨out, hout, rfl⟩ := h
  obtain ⟨hne, hopen⟩ := openChunks_sealChunks hc (Nat.lt_succ_self _) hout
  refine ⟨by simp [hne], ?_⟩
  have htake : (nonce ++ out).take payloadNonceLen = nonce := by rw [← hnonce, List.take_left]
  have hdrop : (nonce ++ out).drop payloadNonceLen = out := by rw [← hnonce, List.drop_left]
  rw [openPayload, if_neg (by rw [List.length_append]; omega), htake, hdrop]
  exact hopen _ (Nat.lt_succ_self _)

end

/-! ## Header MAC -/

/-- The MAC of a header. -/
def headerMac (fileKey canonicalHeader : Bytes) : Bytes :=
  c.hmacSha256 (c.hkdf32 fileKey [] infoHeader) canonicalHeader

/-- The MAC of the header is the expected one. -/
def verifyMac (fileKey canonicalHeader expected : Bytes) : Bool :=
  c.hmacSha256 (c.hkdf32 fileKey [] infoHeader) canonicalHeader = expected

/-! ## Crates that keep the laws -/

/-- The tag a key puts on a ciphertext of the sample crates. -/
def sampleTag (key : Bytes) : Bytes := (key ++ List.replicate 16 0).take 16

/-- The encoding of a point of the sample crates. -/
def samplePoint (p : UInt8) : Bytes := 0x02 :: p :: List.replicate 31 0

/-- Small crates: scalars and points of P-256 are bytes under multiplication, X25519 adds byte
by byte, and the cipher marks its key. -/
def sample : Crates UInt8 UInt8 where
  x25519Public secret := (secret ++ List.replicate 32 0).take 32
  x25519 secret point := List.zipWith (· + ·) secret point
  wasContributory _ := true
  fromSec1Bytes bytes :=
    match bytes with
    | form :: p :: rest =>
      if form :: p :: rest = samplePoint p then .ok p else .error "crypto error"
    | _ => .error "crypto error"
  toEncodedPoint := samplePoint
  scalar bytes :=
    match bytes with
    | b :: _ => .ok b
    | [] => .error "crypto error"
  fromSecretScalar d := d
  diffieHellman d p := [d * p]
  hkdf32 ikm salt info := (ikm ++ salt ++ info ++ List.replicate 32 0).take 32
  encrypt key _ plain := .ok (plain ++ sampleTag key)
  decrypt key _ ct :=
    if ct = ct.take (ct.length - tagLen) ++ sampleTag key then .ok (ct.take (ct.length - tagLen))
    else .error "aead::Error"
  hmacSha256 key data := (key ++ data ++ List.replicate 32 0).take 32

theorem length_sampleTag (key : Bytes) : (sampleTag key).length = tagLen := by
  simp [sampleTag, tagLen]

theorem sample_lawful : sample.Lawful where
  length_x25519Public secret := by
    simp only [sample, List.length_take, List.length_append, List.length_replicate]
    omega
  length_toEncodedPoint p := by simp [sample, samplePoint]
  x25519_symm := by
    intro a b ha hb
    have hself : ∀ s : Bytes, s.length = 32 → (s ++ List.replicate 32 0).take 32 = s := by
      intro s hs
      rw [← hs, List.take_left]
    change List.zipWith (· + ·) a ((b ++ List.replicate 32 0).take 32) =
      List.zipWith (· + ·) b ((a ++ List.replicate 32 0).take 32)
    rw [hself a ha, hself b hb, List.zipWith_comm]
    simp only [UInt8.add_comm]
  diffieHellman_symm a b := by
    change [a * b] = [b * a]
    rw [UInt8.mul_comm]
  decrypt_encrypt := by
    intro key nonce plain ct h
    cases h
    have htake : (plain ++ sampleTag key).take ((plain ++ sampleTag key).length - tagLen) = plain := by
      rw [List.length_append, length_sampleTag, Nat.add_sub_cancel, List.take_left]
    simp only [sample, htake, if_true]
  length_encrypt := by
    intro key nonce plain ct h
    cases h
    rw [List.length_append, length_sampleTag]
  length_hmacSha256 key data := by
    simp only [sample, List.length_take, List.length_append, List.length_replicate]
    omega

end Crates

end Piggy.Pigpen
