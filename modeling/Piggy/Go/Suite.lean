import Piggy.Go.Header
import Piggy.Pigpen.Crypto

/-!
# The suite in Go

The wraps, the payload and the header MAC as the Go package computes them from its standard
library. Where that library and the crates of the Rust suite compute the same functions, so do
the two suites.
-/

namespace Piggy.Go.Pigpen

open Piggy.Core
open Piggy.Pigpen (Crates)

/-- The calls into the standard library; a call that fails gives the text of its error. -/
structure Suite (Scalar Point : Type) where
  /-- The public key of an `ecdh.X25519` private key. -/
  x25519Public : Bytes → Bytes
  /-- `PrivateKey.ECDH` on X25519. -/
  x25519 : Bytes → Bytes → Except String Bytes
  /-- `ecdh.P256().NewPrivateKey`. -/
  p256PrivateKey : Bytes → Except String Scalar
  /-- `elliptic.UnmarshalCompressed`, as a key of `ecdh.P256`. -/
  p256PublicFromCompressed : Bytes → Except String Point
  /-- `PrivateKey.ECDH` on P-256. -/
  p256 : Scalar → Point → Except String Bytes
  /-- `elliptic.MarshalCompressed`, of the public key of a private key. -/
  p256Compress : Scalar → Except String Bytes
  /-- `hkdf.Key` with SHA-256, 32 bytes. -/
  hkdf32 : Bytes → Bytes → Bytes → Bytes
  /-- ChaCha20-Poly1305 under a key and a nonce. -/
  aeadSeal : Bytes → Bytes → Bytes → Bytes
  aeadOpen : Bytes → Bytes → Bytes → Except String Bytes
  hmacSha256 : Bytes → Bytes → Bytes

/-- The tag of a compressed point. -/
def IsCompressed (point : Bytes) : Prop :=
  point.length = 33 ∧ (point.head? = some 0x02 ∨ point.head? = some 0x03)

instance decidableIsCompressed (point : Bytes) : Decidable (IsCompressed point) :=
  inferInstanceAs (Decidable (_ ∧ _))

namespace Suite

variable {Scalar Point : Type}

/-- Standard library and crates compute the same functions. The Go exchange refuses a point of low
order itself, and a chunk is never too long for the AEAD. -/
structure Agrees (g : Suite Scalar Point) (c : Crates Scalar Point) : Prop where
  x25519Public : ∀ secret, g.x25519Public secret = c.x25519Public secret
  x25519 : ∀ {secret point shared}, secret.length = 32 → point.length = 32 →
    (g.x25519 secret point = .ok shared ↔
      c.wasContributory (c.x25519 secret point) = true ∧ c.x25519 secret point = shared)
  p256PrivateKey : ∀ {secret scalar}, secret.length = 32 →
    (g.p256PrivateKey secret = .ok scalar ↔ c.scalar secret = .ok scalar)
  p256Public : ∀ {bytes point}, IsCompressed bytes →
    (g.p256PublicFromCompressed bytes = .ok point ↔ c.fromSec1Bytes bytes = .ok point)
  p256 : ∀ scalar point, g.p256 scalar point = .ok (c.diffieHellman scalar point)
  p256Compress : ∀ scalar, g.p256Compress scalar = .ok (c.toEncodedPoint (c.fromSecretScalar scalar))
  hkdf32 : ∀ secret salt info, g.hkdf32 secret salt info = c.hkdf32 secret salt info
  aeadSeal : ∀ {key nonce plain}, plain.length ≤ Piggy.Pigpen.streamChunk →
    c.encrypt key nonce plain = .ok (g.aeadSeal key nonce plain)
  aeadOpen : ∀ {key nonce ct plain},
    g.aeadOpen key nonce ct = .ok plain ↔ c.decrypt key nonce ct = .ok plain
  hmacSha256 : ∀ key data, g.hmacSha256 key data = c.hmacSha256 key data

variable (g : Suite Scalar Point)

def fileKeyLen : Nat := 16

def payloadNonceLen : Nat := 16

def streamChunkSize : Nat := 64 * 1024

def streamTagLen : Nat := 16

def infoPayload : Bytes := utf8 "pigpen-v1 payload".toList

def infoHeader : Bytes := utf8 "pigpen-v1 header".toList

def infoP256 : Bytes := utf8 "pigpen-v1 piv-p256".toList

def infoX25519 : Bytes := utf8 "pigpen-v1 x25519".toList

def zeroNonce : Bytes := List.replicate 12 0

/-! ## Wraps -/

/-- Wraps the file key for an X25519 key. -/
def wrapX25519 (fileKey recipientPub ephemeralSecret : Bytes) : Except String Bytes :=
  if ephemeralSecret.length ≠ 32 then .error "crypto/ecdh: invalid private key size"
  else if recipientPub.length ≠ 32 then .error "crypto/ecdh: invalid public key"
  else do
    let shared ← g.x25519 ephemeralSecret recipientPub
    let epk := g.x25519Public ephemeralSecret
    let kw := g.hkdf32 shared (epk ++ recipientPub) infoX25519
    pure (epk ++ g.aeadSeal kw zeroNonce fileKey)

/-- Unwraps the file key of an X25519 identity. -/
def unwrapX25519 (blob recipientPub recipientSec : Bytes) : Except String Bytes :=
  if blob.length ≠ 32 + fileKeyLen + streamTagLen then
    .error s!"pigpen: bad x25519 wrap length {blob.length}"
  else if recipientSec.length ≠ 32 then .error "crypto/ecdh: invalid private key size"
  else do
    let epk := blob.take 32
    let shared ← g.x25519 recipientSec epk
    g.aeadOpen (g.hkdf32 shared (epk ++ recipientPub) infoX25519) zeroNonce (blob.drop 32)

/-- Wraps the file key for a P-256 key. -/
def wrapP256 (fileKey recipientCompressed ephemeralSecret : Bytes) : Except String Bytes := do
  let esk ← g.p256PrivateKey ephemeralSecret
  let rpk ← g.p256PublicFromCompressed recipientCompressed
  let shared ← g.p256 esk rpk
  let epk ← g.p256Compress esk
  let kw := g.hkdf32 shared (epk ++ recipientCompressed) infoP256
  pure (epk ++ g.aeadSeal kw zeroNonce fileKey)

/-- What `unwrapP256` does with the answer of the oracle. -/
def unwrapP256WithShared (blob recipientCompressed shared : Bytes) : Except String Bytes :=
  g.aeadOpen (g.hkdf32 shared (blob.take 33 ++ recipientCompressed) infoP256) zeroNonce (blob.drop 33)

/-! ## Payload -/

/-- The nonce of a chunk. -/
def streamNonce (counter : Nat) (last : Bool) : Bytes :=
  [0, 0, 0] ++ (toBe 8 counter ++ [if last then 0x01 else 0x00])

/-- The loop over the chunks of a plaintext from a number on. It ends with the last chunk; the first
argument bounds its turns. -/
def sealChunks (key plaintext : Bytes) : Nat → Nat → Bytes → Bytes
  | 0, _, out => out
  | turns + 1, i, out =>
    let start := i * streamChunkSize
    let stop := start + streamChunkSize
    let last := decide (plaintext.length ≤ stop)
    let out := out ++ g.aeadSeal key (streamNonce i last) ((plaintext.drop start).take streamChunkSize)
    if last then out else sealChunks key plaintext turns (i + 1) out

/-- The payload: the nonce and the chunks. -/
def sealPayload (fileKey plaintext nonce : Bytes) : Except String Bytes :=
  if nonce.length ≠ payloadNonceLen then
    .error s!"pigpen: payload nonce is {nonce.length} bytes, want {payloadNonceLen}"
  else .ok (g.sealChunks (g.hkdf32 fileKey nonce infoPayload) plaintext (plaintext.length + 1) 0 nonce)

/-- The loop over the chunks of a body, with the detail of the error. -/
def openChunks (key body : Bytes) : Nat → Nat → Bytes → Except String Bytes
  | 0, _, out => .ok out
  | turns + 1, i, out =>
    let encChunk := streamChunkSize + streamTagLen
    let start := i * encChunk
    if body.length ≤ start then .error "no final chunk"
    else
      let stop := start + encChunk
      let last := decide (body.length ≤ stop)
      match g.aeadOpen key (streamNonce i last) ((body.drop start).take encChunk) with
      | .error _ => .error s!"chunk {i} did not authenticate"
      | .ok plain => if last then .ok (out ++ plain) else openChunks key body turns (i + 1) (out ++ plain)

/-- The plaintext of a payload. -/
def openPayload (fileKey payload : Bytes) : Except String Bytes :=
  if payload.length < payloadNonceLen then .error "shorter than its nonce"
  else
    let body := payload.drop payloadNonceLen
    g.openChunks (g.hkdf32 fileKey (payload.take payloadNonceLen) infoPayload) body (body.length + 1) 0 []

/-! ## Header MAC -/

/-- The MAC of a header. -/
def headerMac (fileKey canonicalHeader : Bytes) : Bytes :=
  g.hmacSha256 (g.hkdf32 fileKey [] infoHeader) canonicalHeader

/-! ## Both suites -/

namespace Agrees

variable {g} {c : Crates Scalar Point} {fileKey ephemeral wrap key blob : Bytes}

theorem infos : infoPayload = Crates.infoPayload ∧ infoHeader = Crates.infoHeader ∧
    infoP256 = Crates.infoP256 ∧ infoX25519 = Crates.infoX25519 := by
  refine ⟨?_, ?_, ?_, ?_⟩ <;> decide +kernel

theorem wrapX25519 (h : g.Agrees c) {recipient : Bytes} (hkey : fileKey.length ≤ Piggy.Pigpen.streamChunk)
    (hsecret : ephemeral.length = 32) :
    g.wrapX25519 fileKey recipient ephemeral = .ok wrap ↔
      c.wrapX25519 fileKey recipient ephemeral = .ok wrap := by
  rw [Suite.wrapX25519, Crates.wrapX25519, if_neg (not_not.mpr hsecret), guard_ok, guard_ok]
  refine and_congr_right fun hrecipient => ?_
  simp only [bind_ok, pure_ok, h.x25519 hsecret (not_not.mp hrecipient), Crates.rejectLowOrder,
    Crates.aeadSeal, Crates.orCrypto_ok, h.aeadSeal hkey, h.x25519Public, h.hkdf32, infos.2.2.2]
  constructor
  · rintro ⟨shared, ⟨hlow, rfl⟩, hwrap⟩
    exact ⟨(), by rw [if_pos hlow], _, rfl, hwrap⟩
  · rintro ⟨⟨⟩, hlow, _, hct, hwrap⟩
    refine ⟨_, ⟨?_, rfl⟩, ?_⟩
    · by_contra hno
      rw [if_neg hno] at hlow
      cases hlow
    · rw [← hwrap, ← Except.ok.inj hct]
      rfl

theorem unwrapX25519 (h : g.Agrees c) {recipient secret : Bytes} :
    g.unwrapX25519 blob recipient secret = .ok key ↔ c.unwrapX25519 blob recipient secret = .ok key := by
  rw [Suite.unwrapX25519, Crates.unwrapX25519, guard_ok, guard_ok, guard_ok, guard_ok]
  refine and_congr_right fun hblob => and_congr_right fun hsecret => ?_
  have hepk : (blob.take 32).length = 32 := by
    rw [List.length_take, not_not.mp hblob]
    decide
  simp only [bind_ok, h.x25519 (not_not.mp hsecret) hepk, Crates.rejectLowOrder, Crates.aeadOpen,
    Crates.orCrypto_ok, h.aeadOpen, h.hkdf32, infos.2.2.2]
  constructor
  · rintro ⟨shared, ⟨hlow, rfl⟩, hopen⟩
    exact ⟨(), by rw [if_pos hlow], hopen⟩
  · rintro ⟨⟨⟩, hlow, hopen⟩
    refine ⟨_, ⟨?_, rfl⟩, hopen⟩
    by_contra hno
    rw [if_neg hno] at hlow
    cases hlow

theorem wrapP256 (h : g.Agrees c) {recipient : Bytes} (hkey : fileKey.length ≤ Piggy.Pigpen.streamChunk)
    (hrecipient : IsCompressed recipient) (hsecret : ephemeral.length = 32) :
    g.wrapP256 fileKey recipient ephemeral = .ok wrap ↔
      c.wrapP256 fileKey recipient ephemeral = .ok wrap := by
  simp only [Suite.wrapP256, Crates.wrapP256, bind_ok, pure_ok, h.p256PrivateKey hsecret,
    h.p256Public hrecipient, h.p256, h.p256Compress, Except.ok.injEq, exists_eq_left', Crates.orCrypto_ok,
    Crates.aeadSeal, h.aeadSeal hkey, h.hkdf32, infos.2.2.1]
  constructor
  · rintro ⟨esk, hesk, rpk, hrpk, rfl⟩
    exact ⟨rpk, hrpk, esk, hesk, rfl⟩
  · rintro ⟨rpk, hrpk, esk, hesk, rfl⟩
    exact ⟨esk, hesk, rpk, hrpk, rfl⟩

theorem unwrapP256WithShared (h : g.Agrees c) {recipient shared : Bytes}
    (hblob : blob.length = 33 + fileKeyLen + streamTagLen) :
    g.unwrapP256WithShared blob recipient shared = .ok key ↔
      c.unwrapP256WithShared blob recipient shared = .ok key := by
  rw [Suite.unwrapP256WithShared, Crates.unwrapP256WithShared, guard_ok, h.aeadOpen, Crates.aeadOpen,
    Crates.orCrypto_ok, h.hkdf32, infos.2.2.1]
  exact (and_iff_right (not_not.mpr hblob)).symm

theorem headerMac (h : g.Agrees c) (canon : Bytes) : g.headerMac fileKey canon = c.headerMac fileKey canon := by
  rw [Suite.headerMac, Crates.headerMac, h.hmacSha256, h.hkdf32, infos.2.1]

theorem streamNonce_eq (i : Nat) (last : Bool) : streamNonce i last = Crates.streamNonce i last := rfl

/-- The chunks from a number on, behind what was written so far. -/
theorem sealChunks (h : g.Agrees c) (key plaintext : Bytes) (turns i : Nat) (out : Bytes) :
    ∃ rest, c.sealChunks key turns i (plaintext.drop (i * streamChunkSize)) = .ok rest ∧
      g.sealChunks key plaintext turns i out = out ++ rest := by
  induction turns generalizing i out with
  | zero => exact ⟨[], rfl, (List.append_nil out).symm⟩
  | succ turns ih =>
    have hchunk : Piggy.Pigpen.streamChunk = streamChunkSize := rfl
    have hlast : decide ((plaintext.drop (i * streamChunkSize)).length ≤ streamChunkSize) =
        decide (plaintext.length ≤ i * streamChunkSize + streamChunkSize) := by
      rw [List.length_drop, decide_eq_decide]
      omega
    have hct : c.encrypt key (streamNonce i (decide (plaintext.length ≤ i * streamChunkSize + streamChunkSize)))
        ((plaintext.drop (i * streamChunkSize)).take streamChunkSize) = _ :=
      h.aeadSeal (List.length_take_le ..)
    rw [Crates.sealChunks, Suite.sealChunks]
    simp only [hchunk, hlast, ← streamNonce_eq, hct, Crates.orCrypto, Except.mapError, ok_bind]
    split
    · exact ⟨_, rfl, rfl⟩
    · obtain ⟨rest, hrest, hout⟩ := ih (i + 1) (out ++ g.aeadSeal key
        (streamNonce i (decide (plaintext.length ≤ i * streamChunkSize + streamChunkSize)))
        ((plaintext.drop (i * streamChunkSize)).take streamChunkSize))
      rw [Nat.succ_mul] at hrest
      rw [List.drop_drop, hrest, hout]
      exact ⟨_, rfl, List.append_assoc ..⟩

theorem sealPayload (h : g.Agrees c) {plaintext nonce payload : Bytes}
    (hnonce : nonce.length = payloadNonceLen) :
    g.sealPayload fileKey plaintext nonce = .ok payload ↔
      c.sealPayload fileKey plaintext nonce = .ok payload := by
  obtain ⟨rest, hrest, hout⟩ := h.sealChunks (g.hkdf32 fileKey nonce infoPayload) plaintext
    (plaintext.length + 1) 0 nonce
  rw [Nat.zero_mul, List.drop_zero, h.hkdf32, infos.1] at hrest
  rw [Suite.sealPayload, Crates.sealPayload, if_neg (not_not.mpr hnonce), hout, hrest, ok_bind,
    pure_ok, Except.ok.injEq]

/-- The chunks from a number on, with what was opened so far in front of them. -/
theorem openChunks (h : g.Agrees c) (key body : Bytes) (turns i : Nat) (out : Bytes) :
    ∃ r : Except String Bytes,
      c.openChunks key turns i (body.drop (i * (streamChunkSize + streamTagLen))) =
        r.mapError Piggy.Pigpen.Error.payload ∧
      g.openChunks key body turns i out = r.map (out ++ ·) := by
  induction turns generalizing i out with
  | zero => exact ⟨.ok [], rfl, by rw [Suite.openChunks, Except.map, List.append_nil]⟩
  | succ turns ih =>
    have henc : Piggy.Pigpen.streamChunk + Piggy.Pigpen.tagLen = streamChunkSize + streamTagLen := rfl
    rw [Crates.openChunks, Suite.openChunks]
    generalize hsize : streamChunkSize + streamTagLen = encChunk at ih
    simp only [henc, hsize]
    by_cases hend : body.length ≤ i * encChunk
    · rw [if_pos (List.isEmpty_iff.mpr (List.drop_eq_nil_of_le hend)), if_pos hend]
      exact ⟨.error "no final chunk", rfl, rfl⟩
    · have hfull : (body.drop (i * encChunk)).isEmpty = false := by
        rw [List.isEmpty_eq_false_iff, Ne, List.drop_eq_nil_iff]
        exact hend
      have hlast : decide ((body.drop (i * encChunk)).length ≤ encChunk) =
          decide (body.length ≤ i * encChunk + encChunk) := by
        rw [List.length_drop, decide_eq_decide]
        omega
      rw [if_neg (by simp [hfull]), if_neg hend, hlast]
      generalize decide (body.length ≤ i * encChunk + encChunk) = last
      rcases hopen : g.aeadOpen key (streamNonce i last) ((body.drop (i * encChunk)).take encChunk) with e | plain
      · have hdec : ∃ e', c.decrypt key (streamNonce i last) ((body.drop (i * encChunk)).take encChunk) =
            .error e' := by
          rcases hd : c.decrypt key (streamNonce i last) ((body.drop (i * encChunk)).take encChunk) with e' | p
          · exact ⟨e', rfl⟩
          · rw [h.aeadOpen.mpr hd] at hopen
            cases hopen
        obtain ⟨e', hdec⟩ := hdec
        rw [← streamNonce_eq, hdec]
        exact ⟨.error _, rfl, rfl⟩
      · rw [← streamNonce_eq, h.aeadOpen.mp hopen]
        cases last with
        | true => exact ⟨.ok plain, rfl, rfl⟩
        | false =>
          obtain ⟨r, hr, hout⟩ := ih (i + 1) (out ++ plain)
          rw [Nat.succ_mul] at hr
          refine ⟨r.map (plain ++ ·), ?_, ?_⟩
          · simp only [Except.mapError, ok_bind, Bool.false_eq_true, if_false, List.drop_drop, hr]
            cases r <;> rfl
          · simp only [Bool.false_eq_true, if_false, hout]
            cases r with
            | error e => rfl
            | ok rest => simp [Except.map, List.append_assoc]

/-- Both packages open a payload to the same plaintext, or refuse it for the same reason. -/
theorem openPayload (h : g.Agrees c) (fileKey payload : Bytes) :
    c.openPayload fileKey payload = (g.openPayload fileKey payload).mapError Piggy.Pigpen.Error.payload := by
  rw [Suite.openPayload, Crates.openPayload]
  by_cases hshort : payload.length < payloadNonceLen
  · rw [if_pos hshort, if_pos (show payload.length < Piggy.Pigpen.payloadNonceLen from hshort)]
    rfl
  · rw [if_neg hshort, if_neg (show ¬ payload.length < Piggy.Pigpen.payloadNonceLen from hshort)]
    obtain ⟨r, hr, hout⟩ := h.openChunks (g.hkdf32 fileKey (payload.take payloadNonceLen) infoPayload)
      (payload.drop payloadNonceLen) ((payload.drop payloadNonceLen).length + 1) 0 []
    rw [Nat.zero_mul, List.drop_zero, h.hkdf32, infos.1] at hr
    dsimp only
    rw [hout]
    refine hr.trans ?_
    cases r <;> rfl

end Agrees

/-! ## A suite on given crates -/

/-- A standard library that computes what some crates do. -/
def ofCrates (c : Crates Scalar Point) : Suite Scalar Point where
  x25519Public := c.x25519Public
  x25519 secret point :=
    if c.wasContributory (c.x25519 secret point) then .ok (c.x25519 secret point)
    else .error "crypto/ecdh: bad X25519 remote ECDH input: low order point"
  p256PrivateKey := c.scalar
  p256PublicFromCompressed := c.fromSec1Bytes
  p256 scalar point := .ok (c.diffieHellman scalar point)
  p256Compress scalar := .ok (c.toEncodedPoint (c.fromSecretScalar scalar))
  hkdf32 := c.hkdf32
  aeadSeal key nonce plain := (c.encrypt key nonce plain).toOption.getD []
  aeadOpen := c.decrypt
  hmacSha256 := c.hmacSha256

theorem agrees_ofCrates {c : Crates Scalar Point}
    (hseal : ∀ key nonce plain, (c.encrypt key nonce plain).isOk = true) : (ofCrates c).Agrees c where
  x25519Public _ := rfl
  x25519 := by
    intro secret point shared _ _
    by_cases hlow : c.wasContributory (c.x25519 secret point) = true
    · simp [ofCrates, hlow]
    · simp [ofCrates, hlow]
  p256PrivateKey _ := Iff.rfl
  p256Public _ := Iff.rfl
  p256 _ _ := rfl
  p256Compress _ := rfl
  hkdf32 _ _ _ := rfl
  aeadSeal := by
    intro key nonce plain _
    obtain ⟨ct, hct⟩ := exists_ok (hseal key nonce plain)
    change c.encrypt key nonce plain = .ok ((c.encrypt key nonce plain).toOption.getD [])
    rw [hct]
    rfl
  aeadOpen := Iff.rfl
  hmacSha256 _ _ := rfl

end Suite

end Piggy.Go.Pigpen
