import Piggy.Box.Wire

/-!
# The PIV box record and its own wire format

The standalone format carries the ephemeral key and an optional guid and slot.
An ebox of version 2 or later writes the box fields inline instead.
-/

namespace Piggy.Box

open Piggy.Core

def boxMagic : UInt16 := 0xB0C5

def boxVersion : UInt8 := 2

def defaultCipher : String := "chacha20-poly1305@piggy.amarbel.net"

def defaultKdf : String := "sha512"

/-- The curves a box may be sealed on. -/
inductive EcCurve where
  | nistP256
  | nistP384
  deriving DecidableEq

namespace EcCurve

/-- The curve's name on the wire. -/
def wireName : EcCurve → String
  | nistP256 => "nistp256"
  | nistP384 => "nistp384"

/-- The curve's OpenSSH key type. -/
def sshKeytype : EcCurve → String
  | nistP256 => "ecdsa-sha2-nistp256"
  | nistP384 => "ecdsa-sha2-nistp384"

/-- The curve a wire name stands for. -/
def fromWireName (s : String) : Except BoxError EcCurve :=
  match s with
  | "nistp256" => .ok nistP256
  | "nistp384" => .ok nistP384
  | other => .error (.unsupportedCurve other)

/-- A wire name is accepted exactly when it is the curve's own. -/
theorem fromWireName_ok {s : String} {c : EcCurve} : fromWireName s = .ok c ↔ s = c.wireName := by
  constructor
  · intro h
    unfold fromWireName at h
    split at h <;> cases h <;> rfl
  · rintro rfl
    cases c <;> rfl

theorem fitsCstring8_wireName (c : EcCurve) : FitsCstring8 c.wireName := by
  cases c <;> decide

end EcCurve

/-- A card's 16-byte GUID. -/
structure Guid where
  /-- The bytes of the GUID. -/
  bytes : Bytes
  /-- There are sixteen of them. -/
  length_bytes : bytes.length = 16
  deriving DecidableEq

/-- The GUID whose bytes are all the same. -/
def Guid.ofByte (b : UInt8) : Guid := ⟨List.replicate 16 b, List.length_replicate⟩

/-- The GUID a byte string is, when it has the right length. -/
def Guid.fromBytes (bytes : Bytes) : Except BoxError Guid :=
  if h : bytes.length = 16 then .ok ⟨bytes, h⟩
  else .error (.piv s!"invalid GUID: expected 16 bytes, got {bytes.length}")

theorem Guid.fromBytes_ok {bytes : Bytes} {g : Guid} :
    Guid.fromBytes bytes = .ok g ↔ bytes = g.bytes := by
  unfold Guid.fromBytes
  constructor
  · intro h
    split at h
    · cases h
      rfl
    · cases h
  · rintro rfl
    simp [g.length_bytes]

theorem Guid.fitsString8 (g : Guid) : FitsString8 g.bytes := by
  simp [FitsString8, g.length_bytes]

/-- Reads a two-byte magic number and checks it. -/
def getMagic (expected : UInt16) (r : WireReader) : Except BoxError (Unit × WireReader) := do
  let (hi, r) ← getU8 r
  let (lo, r) ← getU8 r
  let magic := (hi.toUInt16 <<< 8) ||| lo.toUInt16
  if magic ≠ expected then .error (.badMagic expected magic) else .ok ((), r)

/-- Reads a curve name. -/
def getCurve (r : WireReader) : Except BoxError (EcCurve × WireReader) := do
  let (name, r) ← getCstring8 r
  let curve ← EcCurve.fromWireName name
  pure (curve, r)

/-- Reads a GUID. -/
def getGuid (r : WireReader) : Except BoxError (Guid × WireReader) := do
  let (bytes, r) ← getString8 r
  let guid ← Guid.fromBytes bytes
  pure (guid, r)

/-- A magic number is read exactly as its two bytes. -/
theorem magic_eq_iff (hi lo : UInt8) (m : UInt16) :
    (hi.toUInt16 <<< 8) ||| lo.toUInt16 = m ↔
      hi = (m >>> 8).toUInt8 ∧ lo = (m &&& 0xFF).toUInt8 := by
  have hlo : lo.toNat < 2 ^ 8 := lo.toNat_lt
  have hhi : hi.toNat < 2 ^ 8 := hi.toNat_lt
  have hm : m.toNat < 2 ^ 16 := m.toNat_lt
  have hv : ((hi.toUInt16 <<< 8) ||| lo.toUInt16).toNat = hi.toNat * 256 + lo.toNat := by
    have hs : (hi.toUInt16 <<< 8).toNat = hi.toNat <<< 8 := by
      simp only [UInt16.toNat_shiftLeft, UInt8.toNat_toUInt16, Nat.shiftLeft_eq]
      exact Nat.mod_eq_of_lt (by change hi.toNat * 256 < 65536; omega)
    rw [UInt16.toNat_or, hs, UInt8.toNat_toUInt16, ← Nat.shiftLeft_add_eq_or_of_lt hlo,
      Nat.shiftLeft_eq]
  have hh : (m >>> 8).toUInt8.toNat = m.toNat / 256 := by
    rw [UInt16.toNat_toUInt8, UInt16.toNat_shiftRight]
    change m.toNat >>> 8 % 256 = _
    rw [Nat.shiftRight_eq_div_pow]
    exact Nat.mod_eq_of_lt (by omega)
  have hl : (m &&& 0xFF).toUInt8.toNat = m.toNat % 256 := by
    rw [UInt16.toNat_toUInt8, UInt16.toNat_and]
    change (m.toNat &&& (2 ^ 8 - 1)) % 256 = _
    rw [Nat.and_two_pow_sub_one_eq_mod]
    simp
  rw [← UInt16.toNat_inj, ← UInt8.toNat_inj, ← UInt8.toNat_inj, hv, hh, hl]
  omega

/-- The two bytes of a magic number. -/
def magicBytes (m : UInt16) : Bytes := [(m >>> 8).toUInt8, (m &&& 0xFF).toUInt8]

/-- The magic number check is exact. -/
theorem getMagic_exact (m : UInt16) : Exact (getMagic m) (fun _ => magicBytes m) fun _ => True := by
  rintro r ⟨⟩ r'
  simp only [getMagic, bind_ok]
  constructor
  · rintro ⟨⟨hi, r₁⟩, hhi, ⟨lo, r₂⟩, hlo, h⟩
    obtain ⟨hm, h⟩ := guard_ok.mp h
    cases h
    obtain ⟨rfl, rfl⟩ := (magic_eq_iff hi lo m).mp (not_not.mp hm)
    obtain ⟨-, hr, hp⟩ := (getU8_exact _ _ _).mp hhi
    obtain ⟨-, hr', hp'⟩ := (getU8_exact _ _ _).mp hlo
    refine ⟨trivial, ?_, ?_⟩
    · rw [hr, hr']
      rfl
    · rw [hp', hp]
      rfl
  · rintro ⟨-, hr, hp⟩
    refine ⟨(_, ⟨r.pos + 1, (m &&& 0xFF).toUInt8 :: r'.rest⟩),
      (getU8_exact _ _ _).mpr ⟨trivial, hr, rfl⟩,
      (_, r'), (getU8_exact _ _ _).mpr ⟨trivial, rfl, hp⟩, ?_⟩
    exact guard_ok.mpr ⟨not_not.mpr ((magic_eq_iff _ _ m).mpr ⟨rfl, rfl⟩), rfl⟩

/-- A curve is read exactly from its wire name. -/
theorem getCurve_exact : Exact getCurve (fun c => cstring8 c.wireName) fun _ => True := by
  intro r c r'
  simp only [getCurve, bind_ok, EcCurve.fromWireName_ok, pure_ok, Prod.mk.injEq, true_and]
  constructor
  · rintro ⟨⟨name, r₁⟩, h, c', hn, rfl, rfl⟩
    obtain ⟨-, hs⟩ := (getCstring8_exact _ _ _).mp h
    exact hn ▸ hs
  · intro h
    exact ⟨(c.wireName, r'), (getCstring8_exact _ _ _).mpr ⟨c.fitsCstring8_wireName, h⟩,
      c, rfl, rfl, rfl⟩

/-- A GUID is read exactly from its sixteen bytes. -/
theorem getGuid_exact : Exact getGuid (fun g => string8 g.bytes) fun _ => True := by
  intro r g r'
  simp only [getGuid, bind_ok, Guid.fromBytes_ok, pure_ok, Prod.mk.injEq, true_and]
  constructor
  · rintro ⟨⟨bytes, r₁⟩, h, g', hg, rfl, rfl⟩
    obtain ⟨-, hs⟩ := (getString8_exact _ _ _).mp h
    exact hg ▸ hs
  · intro h
    exact ⟨(g.bytes, r'), (getString8_exact _ _ _).mpr ⟨g.fitsString8, h⟩, g, rfl, rfl, rfl⟩

/-- A box sealed to one recipient key. -/
structure PivBox where
  version : UInt8
  /-- The card's GUID and slot, when the box names them. -/
  guidSlot : Option (Guid × UInt8)
  cipher : String
  kdf : String
  nonce : Bytes
  curve : EcCurve
  /-- The recipient's key as an EC point. -/
  recipientPubkey : Bytes
  /-- The ephemeral key as an EC point; empty when the ebox carries it. -/
  ephemeralPubkey : Bytes
  iv : Bytes
  ciphertext : Bytes
  /-- The contents, before sealing and after opening. -/
  plaintext : Option Bytes
  deriving DecidableEq

namespace PivBox

/-- A fresh box on a curve. -/
def new (curve : EcCurve) : PivBox where
  version := boxVersion
  guidSlot := none
  cipher := defaultCipher
  kdf := defaultKdf
  nonce := []
  curve := curve
  recipientPubkey := []
  ephemeralPubkey := []
  iv := []
  ciphertext := []
  plaintext := none

/-- Sets the contents to be sealed. -/
def setData (b : PivBox) (data : Bytes) : PivBox := { b with plaintext := some data }

/-- Whether the contents are there. -/
def hasPlaintext (b : PivBox) : Bool := b.plaintext.isSome

/-- Takes the contents out of an opened box. -/
def takeData (b : PivBox) : Except BoxError (Bytes × PivBox) :=
  match b.plaintext with
  | some data => .ok (data, { b with plaintext := none })
  | none => .error .notOpened

/-- The guid and slot field: a flag, the guid and the slot. -/
def putGuidSlot (w : WireWriter) : Option (Guid × UInt8) → Except BoxError WireWriter
  | some (guid, slot) => do
    let w := putU8 w 0x01
    let w ← putString8 w guid.bytes
    pure (putU8 w slot)
  | none => pure (putU8 (putU8 (putU8 w 0x00) 0x00) 0x00)

/-- The nonce field, which version 1 does not have. -/
def putNonce (w : WireWriter) (version : UInt8) (nonce : Bytes) : Except BoxError WireWriter :=
  if 2 ≤ version then putString8 w nonce else .ok w

/-- The standalone serialization of a box. -/
def toBytes (b : PivBox) : Except BoxError Bytes := do
  let w := putU8 [] (boxMagic >>> 8).toUInt8
  let w := putU8 w (boxMagic &&& 0xFF).toUInt8
  let w := putU8 w b.version
  let w ← putGuidSlot w b.guidSlot
  let w ← putCstring8 w b.cipher
  let w ← putCstring8 w b.kdf
  let w ← putNonce w b.version b.nonce
  let w ← putCstring8 w b.curve.wireName
  let w ← putEckey8 w b.recipientPubkey
  let w ← putEckey8 w b.ephemeralPubkey
  let w ← putString8 w b.iv
  pure (putString w b.ciphertext)

/-- Reads the guid and slot field; behind a zero flag both are skipped. -/
def getGuidSlot (r : WireReader) : Except BoxError (Option (Guid × UInt8) × WireReader) := do
  let (valid, r) ← getU8 r
  if valid ≠ 0 then do
    let (guid, r) ← getGuid r
    let (slot, r) ← getU8 r
    pure (some (guid, slot), r)
  else do
    let (_, r) ← getString8 r
    let (_, r) ← getU8 r
    pure (none, r)

/-- Reads the nonce field, which version 1 does not have. -/
def getNonce (version : UInt8) (r : WireReader) : Except BoxError (Bytes × WireReader) :=
  if 2 ≤ version then getString8 r else .ok ([], r)

/-- Parses a standalone box; bytes behind it are ignored. -/
def fromBytes (data : Bytes) : Except BoxError PivBox := do
  let ((), r) ← getMagic boxMagic (WireReader.new data)
  let (version, r) ← getU8 r
  if ¬ (1 ≤ version ∧ version ≤ boxVersion) then .error (.unsupportedVersion version)
  else do
    let (guidSlot, r) ← getGuidSlot r
    let (cipher, r) ← getCstring8 r
    let (kdf, r) ← getCstring8 r
    let (nonce, r) ← getNonce version r
    let (curve, r) ← getCurve r
    let (recipientPubkey, r) ← getEckey8 r
    let (ephemeralPubkey, r) ← getEckey8 r
    let (iv, r) ← getString8 r
    let (ciphertext, _) ← getString r
    pure { version, guidSlot, cipher, kdf, nonce, curve, recipientPubkey, ephemeralPubkey, iv,
           ciphertext, plaintext := none }

/-- The fields of a box that its serialization bounds. -/
structure Fits (b : PivBox) : Prop where
  cipher : FitsCstring8 b.cipher
  kdf : FitsCstring8 b.kdf
  nonce : FitsString8 b.nonce
  recipientPubkey : FitsString8 b.recipientPubkey
  ephemeralPubkey : FitsString8 b.ephemeralPubkey
  iv : FitsString8 b.iv
  ciphertext : FitsString b.ciphertext

/-- The bytes of the guid and slot field. -/
def guidSlotBytes : Option (Guid × UInt8) → Bytes
  | some (guid, slot) => 0x01 :: (string8 guid.bytes ++ [slot])
  | none => [0x00, 0x00, 0x00]

/-- The bytes of a standalone box. -/
def encoding (b : PivBox) : Bytes :=
  magicBytes boxMagic ++ [b.version] ++ guidSlotBytes b.guidSlot ++ cstring8 b.cipher ++
    cstring8 b.kdf ++ (if 2 ≤ b.version then string8 b.nonce else []) ++
    cstring8 b.curve.wireName ++ string8 b.recipientPubkey ++ string8 b.ephemeralPubkey ++
    string8 b.iv ++ string32 b.ciphertext

theorem putGuidSlot_eq (w : WireWriter) (gs : Option (Guid × UInt8)) :
    putGuidSlot w gs = .ok (w ++ guidSlotBytes gs) := by
  cases gs with
  | none => simp [putGuidSlot, guidSlotBytes, putU8, pure, Except.pure]
  | some gs =>
    have hp := putString8_ok.mpr ⟨gs.1.fitsString8, (rfl : putU8 w 0x01 ++ string8 gs.1.bytes = _)⟩
    simp only [putGuidSlot, hp, ok_bind, guidSlotBytes]
    simp [putU8, pure, Except.pure]

theorem putNonce_eq (w : WireWriter) (version : UInt8) {nonce : Bytes}
    (h : FitsString8 nonce) :
    putNonce w version nonce = .ok (w ++ if 2 ≤ version then string8 nonce else []) := by
  unfold putNonce
  split
  · exact putString8_ok.mpr ⟨h, rfl⟩
  · simp

/-- A box whose fields fit serializes to its encoding. -/
theorem toBytes_of_fits {b : PivBox} (h : b.Fits) : b.toBytes = .ok b.encoding := by
  simp only [toBytes, putGuidSlot_eq, putNonce_eq _ _ h.nonce, ok_bind, bind_ok, putEckey8,
    putCstring8_ok, putString8_ok, pure_ok, putString_eq _ h.ciphertext]
  refine ⟨_, ⟨h.cipher, rfl⟩, _, ⟨h.kdf, rfl⟩, _, ⟨b.curve.fitsCstring8_wireName, rfl⟩, _,
    ⟨h.recipientPubkey, rfl⟩, _, ⟨h.ephemeralPubkey, rfl⟩, _, ⟨h.iv, rfl⟩, ?_⟩
  simp [encoding, magicBytes, putU8]

/-- Whatever the parser accepts fits its serialization. -/
theorem fromBytes_fits {data : Bytes} {b : PivBox} (h : fromBytes data = .ok b) : b.Fits := by
  simp only [fromBytes, bind_ok] at h
  obtain ⟨⟨⟨⟩, r₀⟩, -, ⟨v, r₁⟩, -, h⟩ := h
  obtain ⟨-, h⟩ := guard_ok.mp h
  simp only [bind_ok, pure_ok] at h
  obtain ⟨⟨gs, r₂⟩, -, ⟨cipher, r₃⟩, hc, ⟨kdf, r₄⟩, hk, ⟨nonce, r₅⟩, hn, ⟨curve, r₆⟩, -,
    ⟨rp, r₇⟩, hrp, ⟨ep, r₈⟩, hep, ⟨iv, r₉⟩, hiv, ⟨ct, r₁₀⟩, hct, rfl⟩ := h
  have hnonce : FitsString8 nonce := by
    unfold getNonce at hn
    split at hn
    · exact ((getString8_exact _ _ _).mp hn).1
    · cases hn
      exact Nat.zero_le _
  exact ⟨((getCstring8_exact _ _ _).mp hc).1, ((getCstring8_exact _ _ _).mp hk).1, hnonce,
    ((getString8_exact _ _ _).mp hrp).1, ((getString8_exact _ _ _).mp hep).1,
    ((getString8_exact _ _ _).mp hiv).1, ((getString_exact _ _ _).mp hct).1⟩

end PivBox

end Piggy.Box
