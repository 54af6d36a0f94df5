import Piggy.Box.PivBox

/-!
# Standalone boxes, written and read

What the parser of a standalone box accepts is spelled out field by field. A box is read back
from what was written of it as long as its ciphertext has a length of 32 bits, and an input
without spare bytes is written again as it was.
-/

namespace Piggy.Box.PivBox

open Piggy.Core

/-- The bytes that are read as a guid and slot: any flag but zero says that they are there, and
behind a zero flag there may be anything. -/
def GuidSlotField : Option (Guid × UInt8) → Bytes → Prop
  | some (guid, slot), field => ∃ valid, valid ≠ 0 ∧ field = valid :: (string8 guid.bytes ++ [slot])
  | none, field => ∃ skipped slot, FitsString8 skipped ∧ field = 0 :: (string8 skipped ++ [slot])

/-- Such a field is read. -/
theorem getGuidSlot_reads {gs : Option (Guid × UInt8)} {field : Bytes} (h : GuidSlotField gs field) :
    Reads getGuidSlot field gs := by
  intro pos tail
  have hu := fun v : UInt8 => getU8_exact.reads (a := v) trivial
  cases gs with
  | none =>
    obtain ⟨skipped, slot, hfits, rfl⟩ := h
    have hskip := getString8_exact.reads hfits
    rw [show (0 : UInt8) :: (string8 skipped ++ [slot]) = [0] ++ (string8 skipped ++ [slot]) from rfl]
    simp only [getGuidSlot, List.append_assoc, hu _ _ _, hskip _ _, ok_bind, List.length_append,
      Nat.add_assoc]
    rfl
  | some gs =>
    obtain ⟨valid, hvalid, rfl⟩ := h
    have hguid := getGuid_exact.reads (a := gs.1) trivial
    rw [show valid :: (string8 gs.1.bytes ++ [gs.2]) = [valid] ++ (string8 gs.1.bytes ++ [gs.2]) from rfl]
    simp only [getGuidSlot, List.append_assoc, hu _ _ _, hguid _ _, ok_bind, List.length_append,
      Nat.add_assoc, if_pos hvalid]
    rfl

theorem getGuidSlot_ok {r r' : WireReader} {gs : Option (Guid × UInt8)} :
    getGuidSlot r = .ok (gs, r') ↔ ∃ field, GuidSlotField gs field ∧ Spans r r' field := by
  constructor
  · intro h
    simp only [getGuidSlot, bind_ok] at h
    obtain ⟨⟨valid, r₁⟩, hvalid, h⟩ := h
    obtain ⟨-, hs⟩ := getU8_exact.spans hvalid
    dsimp only at h
    split at h
    · next hne =>
      simp only [bind_ok, pure_ok, Prod.mk.injEq] at h
      obtain ⟨⟨guid, r₂⟩, hguid, ⟨slot, r₃⟩, hslot, rfl, rfl⟩ := h
      obtain ⟨-, hs₂⟩ := getGuid_exact.spans hguid
      obtain ⟨-, hs₃⟩ := getU8_exact.spans hslot
      exact ⟨_, ⟨valid, hne, rfl⟩, hs.trans (hs₂.trans hs₃)⟩
    · next hzero =>
      obtain rfl : valid = 0 := not_not.mp hzero
      simp only [bind_ok, pure_ok, Prod.mk.injEq] at h
      obtain ⟨⟨skipped, r₂⟩, hskipped, ⟨slot, r₃⟩, hslot, rfl, rfl⟩ := h
      obtain ⟨hfits, hs₂⟩ := getString8_exact.spans hskipped
      obtain ⟨-, hs₃⟩ := getU8_exact.spans hslot
      exact ⟨_, ⟨skipped, slot, hfits, rfl⟩, hs.trans (hs₂.trans hs₃)⟩
  · rintro ⟨field, hfield, hs⟩
    exact (getGuidSlot_reads hfield).of_spans hs

/-- The bytes of a nonce, which version 1 does not have. -/
def nonceBytes (version : UInt8) (nonce : Bytes) : Bytes := if 2 ≤ version then string8 nonce else []

/-- A nonce that can be read with a version. -/
def NonceOf (version : UInt8) (nonce : Bytes) : Prop :=
  if 2 ≤ version then FitsString8 nonce else nonce = []

theorem getNonce_exact (version : UInt8) :
    Exact (getNonce version) (nonceBytes version) (NonceOf version) := by
  intro r nonce r'
  by_cases hv : 2 ≤ version
  · simp only [getNonce, nonceBytes, NonceOf, if_pos hv]
    exact getString8_exact r nonce r'
  · simp only [getNonce, nonceBytes, NonceOf, if_neg hv]
    constructor
    · rintro ⟨⟩
      exact ⟨rfl, Spans.refl r⟩
    · rintro ⟨rfl, hs⟩
      rw [(Spans.refl r).end_unique hs]

/-- The bytes of a box around the field with its guid and slot. -/
def encodingWith (b : PivBox) (field : Bytes) : Bytes :=
  magicBytes boxMagic ++ ([b.version] ++ (field ++ (cstring8 b.cipher ++ (cstring8 b.kdf ++
    (nonceBytes b.version b.nonce ++ (cstring8 b.curve.wireName ++ (string8 b.recipientPubkey ++
      (string8 b.ephemeralPubkey ++ (string8 b.iv ++ string32 b.ciphertext)))))))))

theorem encodingWith_guidSlotBytes (b : PivBox) : b.encodingWith (guidSlotBytes b.guidSlot) = b.encoding := by
  simp [encodingWith, encoding, nonceBytes]

/-- The boxes that the parser returns. -/
structure Readable (b : PivBox) : Prop where
  version : 1 ≤ b.version ∧ b.version ≤ boxVersion
  nonce : NonceOf b.version b.nonce
  fits : b.Fits
  plaintext : b.plaintext = none

/-- What the parser accepts: the bytes of a box, and anything behind them. -/
theorem fromBytes_ok {data : Bytes} {b : PivBox} :
    fromBytes data = .ok b ↔ b.Readable ∧
      ∃ field rest, GuidSlotField b.guidSlot field ∧ data = b.encodingWith field ++ rest := by
  constructor
  · intro h
    have hfits := fromBytes_fits h
    simp only [fromBytes, bind_ok] at h
    obtain ⟨⟨⟨⟩, r₀⟩, h₀, ⟨v, r₁⟩, h₁, h⟩ := h
    obtain ⟨hversion, h⟩ := guard_ok.mp h
    simp only [bind_ok, pure_ok] at h
    obtain ⟨⟨gs, r₂⟩, h₂, ⟨cipher, r₃⟩, h₃, ⟨kdf, r₄⟩, h₄, ⟨nonce, r₅⟩, h₅, ⟨curve, r₆⟩, h₆,
      ⟨recipient, r₇⟩, h₇, ⟨ephemeral, r₈⟩, h₈, ⟨iv, r₉⟩, h₉, ⟨ciphertext, r₁₀⟩, h₁₀, rfl⟩ := h
    obtain ⟨field, hfield, hs₂⟩ := getGuidSlot_ok.mp h₂
    obtain ⟨hnonce, hs₅⟩ := (getNonce_exact v).spans h₅
    refine ⟨⟨not_not.mp hversion, hnonce, hfits, rfl⟩, field, r₁₀.rest, hfield, ?_⟩
    have hs := ((getMagic_exact boxMagic).spans h₀).2.trans ((getU8_exact.spans h₁).2.trans
      (hs₂.trans ((getCstring8_exact.spans h₃).2.trans ((getCstring8_exact.spans h₄).2.trans
        (hs₅.trans ((getCurve_exact.spans h₆).2.trans ((getString8_exact.spans h₇).2.trans
          ((getString8_exact.spans h₈).2.trans ((getString8_exact.spans h₉).2.trans
            (getString_exact.spans h₁₀).2)))))))))
    exact hs.1
  · rintro ⟨hb, field, rest, hfield, rfl⟩
    have hmagic : Reads (getMagic boxMagic) (magicBytes boxMagic) () :=
      (getMagic_exact boxMagic).reads trivial
    have hu := fun v : UInt8 => getU8_exact.reads (a := v) trivial
    have hgs := getGuidSlot_reads hfield
    have hcipher := getCstring8_exact.reads hb.fits.cipher
    have hkdf := getCstring8_exact.reads hb.fits.kdf
    have hnonce := (getNonce_exact b.version).reads hb.nonce
    have hcurve := getCurve_exact.reads (a := b.curve) trivial
    have hrecipient := getString8_exact.reads hb.fits.recipientPubkey
    have hephemeral := getString8_exact.reads hb.fits.ephemeralPubkey
    have hiv := getString8_exact.reads hb.fits.iv
    have hciphertext := getString_exact.reads hb.fits.ciphertext
    simp only [fromBytes, WireReader.new, encodingWith, List.append_assoc, hmagic _ _, hu _ _ _,
      hgs _ _, hcipher _ _, hkdf _ _, hnonce _ _, hcurve _ _, getEckey8, hrecipient _ _,
      hephemeral _ _, hiv _ _, hciphertext _ _, ok_bind, if_neg (not_not.mpr hb.version)]
    rw [← hb.plaintext]
    rfl

/-! ## Both directions -/

/-- What was written fits, but for the ciphertext, whose length is cut off. -/
theorem fits_of_toBytes {b : PivBox} {bytes : Bytes} (h : b.toBytes = .ok bytes)
    (hnonce : FitsString8 b.nonce) (hciphertext : FitsString b.ciphertext) : b.Fits := by
  simp only [toBytes, putGuidSlot_eq, putNonce_eq _ _ hnonce, ok_bind, bind_ok, putEckey8,
    putCstring8_ok, putString8_ok, pure_ok] at h
  obtain ⟨_, ⟨hcipher, -⟩, _, ⟨hkdf, -⟩, _, -, _, ⟨hrecipient, -⟩, _, ⟨hephemeral, -⟩, _, ⟨hiv, -⟩, -⟩ := h
  exact ⟨hcipher, hkdf, hnonce, hrecipient, hephemeral, hiv, hciphertext⟩

theorem nonce_fits_of_toBytes {b : PivBox} {bytes : Bytes} (h : b.toBytes = .ok bytes)
    (hv : 2 ≤ b.version) : FitsString8 b.nonce := by
  simp only [toBytes, putGuidSlot_eq, ok_bind, bind_ok, putNonce, if_pos hv, putString8_ok] at h
  obtain ⟨_, -, _, -, _, ⟨hnonce, -⟩, -⟩ := h
  exact hnonce

theorem guidSlotField_guidSlotBytes (gs : Option (Guid × UInt8)) :
    GuidSlotField gs (guidSlotBytes gs) := by
  cases gs with
  | none => exact ⟨[], 0, Nat.zero_le _, rfl⟩
  | some gs => exact ⟨1, by decide, rfl⟩

/-- The versions of a box, and no nonce in the first of them. -/
def Versioned (b : PivBox) : Prop := b.version = 1 ∧ b.nonce = [] ∨ b.version = 2

theorem readable_of_toBytes {b : PivBox} {bytes : Bytes} (hb : b.Versioned)
    (h : b.toBytes = .ok bytes) (hciphertext : FitsString b.ciphertext) :
    Readable { b with plaintext := none } := by
  have hfits : NonceOf b.version b.nonce ∧ FitsString8 b.nonce := by
    rcases hb with ⟨hv, hnonce⟩ | hv
    · rw [hv, hnonce]
      exact ⟨rfl, Nat.zero_le _⟩
    · have hnonce := nonce_fits_of_toBytes h (by rw [hv]; decide)
      rw [hv]
      exact ⟨hnonce, hnonce⟩
  obtain ⟨hcipher, hkdf, hnonce, hrecipient, hephemeral, hiv, hct⟩ :=
    fits_of_toBytes h hfits.2 hciphertext
  refine ⟨?_, hfits.1, ⟨hcipher, hkdf, hnonce, hrecipient, hephemeral, hiv, hct⟩, rfl⟩
  rcases hb with ⟨hv, -⟩ | hv
  · rw [hv]
    decide
  · rw [hv]
    decide

/-- No shorter start of the input is a box already. -/
def NoSpare (data : Bytes) : Prop :=
  ∀ start, start <+: data → (fromBytes start).isOk = true → start = data

/-- The field with guid and slot as it is written: the flag is one, or all of it is zero. -/
def PlainField (data : Bytes) : Prop :=
  data[3]? = some 1 ∨ data[3]? = some 0 ∧ data[4]? = some 0 ∧ data[5]? = some 0

theorem field_eq_guidSlotBytes {gs : Option (Guid × UInt8)} {field rest : Bytes} {b : PivBox}
    (hfield : GuidSlotField gs field) (hplain : PlainField (b.encodingWith field ++ rest)) :
    field = guidSlotBytes gs := by
  cases gs with
  | none =>
    obtain ⟨skipped, slot, hfits, rfl⟩ := hfield
    rcases hplain with hone | ⟨-, hlength, hslot⟩
    · cases hone
    · -- the length of the guid is zero, so there is none
      have hzero : UInt8.ofNat skipped.length = 0 := Option.some.inj hlength
      have hempty : skipped.length = 0 := by
        have htoNat := congrArg UInt8.toNat hzero
        rw [FitsString8] at hfits
        rwa [UInt8.toNat_ofNat_of_lt' (by omega : skipped.length < 256)] at htoNat
      obtain rfl := List.length_eq_zero_iff.mp hempty
      obtain rfl : slot = 0 := Option.some.inj hslot
      rfl
  | some gs =>
    obtain ⟨valid, hvalid, rfl⟩ := hfield
    rcases hplain with hone | ⟨hzero, -⟩
    · obtain rfl : valid = 1 := Option.some.inj hone
      rfl
    · exact absurd (Option.some.inj hzero) hvalid

/-- A box is read back from what was written of it exactly when the length of its ciphertext fits
32 bits, and what was read from an input in the spelling of the writer is written as that input. -/
theorem boxCodec_iff (b : PivBox) (data : Bytes) :
    (∀ bytes, b.Versioned → b.toBytes = .ok bytes →
      (fromBytes bytes = .ok { b with plaintext := none } ↔ b.ciphertext.length < 2 ^ 32)) ∧
    ∀ box, fromBytes data = .ok box → PlainField data → NoSpare data →
      box.toBytes = .ok data := by
  constructor
  · intro bytes hb h
    constructor
    · intro hread
      exact (fromBytes_fits hread).ciphertext
    · intro hciphertext
      have hreadable := readable_of_toBytes hb h hciphertext
      obtain ⟨hcipher, hkdf, hnonce, hrecipient, hephemeral, hiv, hct⟩ := hreadable.fits
      have hbytes : b.encoding = bytes := by
        have hwritten := toBytes_of_fits (b := b) ⟨hcipher, hkdf, hnonce, hrecipient, hephemeral, hiv, hct⟩
        rw [h] at hwritten
        exact (Except.ok.inj hwritten).symm
      refine fromBytes_ok.mpr ⟨hreadable, guidSlotBytes b.guidSlot, [],
        guidSlotField_guidSlotBytes _, ?_⟩
      rw [List.append_nil, ← hbytes, ← encodingWith_guidSlotBytes]
      rfl
  · intro box h hplain hspare
    obtain ⟨hreadable, field, rest, hfield, rfl⟩ := fromBytes_ok.mp h
    have hshort : fromBytes (box.encodingWith field) = .ok box :=
      fromBytes_ok.mpr ⟨hreadable, field, [], hfield, (List.append_nil _).symm⟩
    have hwhole : box.encodingWith field = box.encodingWith field ++ rest :=
      hspare _ (List.prefix_append _ _) (by rw [hshort]; rfl)
    have hfield := field_eq_guidSlotBytes hfield hplain
    rw [← hwhole, hfield, encodingWith_guidSlotBytes]
    exact toBytes_of_fits hreadable.fits

/-- A box with a ciphertext of so many zero bytes. -/
def zeroBox (length : Nat) : PivBox :=
  { PivBox.new .nistP256 with ciphertext := List.replicate length 0 }

theorem toBytes_zeroBox (length : Nat) : ∃ bytes, (zeroBox length).toBytes = .ok bytes := by
  have hnonce : FitsString8 (zeroBox length).nonce := Nat.zero_le _
  simp only [toBytes, putGuidSlot_eq, putNonce_eq _ _ hnonce, ok_bind, bind_ok, putEckey8,
    putCstring8_ok, putString8_ok, pure_ok]
  exact ⟨_, _, ⟨(by decide : FitsCstring8 defaultCipher), rfl⟩, _, ⟨(by decide : FitsCstring8 defaultKdf), rfl⟩,
    _, ⟨EcCurve.fitsCstring8_wireName _, rfl⟩, _, ⟨Nat.zero_le _, rfl⟩, _, ⟨Nat.zero_le _, rfl⟩, _,
    ⟨Nat.zero_le _, rfl⟩, rfl⟩

/-- The length of a ciphertext of four gigabytes is written as zero. -/
theorem not_roundTrip_zeroBox : (zeroBox (2 ^ 32)).Versioned ∧
    ¬ ∀ bytes, (zeroBox (2 ^ 32)).toBytes = .ok bytes →
      fromBytes bytes = .ok { zeroBox (2 ^ 32) with plaintext := none } := by
  refine ⟨.inr rfl, fun h => ?_⟩
  obtain ⟨bytes, hbytes⟩ := toBytes_zeroBox (2 ^ 32)
  have hfits := (fromBytes_fits (h bytes hbytes)).ciphertext
  rw [FitsString] at hfits
  have hlength : (zeroBox (2 ^ 32)).ciphertext.length = 2 ^ 32 := List.length_replicate ..
  exact absurd hfits (by rw [show ({ zeroBox (2 ^ 32) with plaintext := none } : PivBox).ciphertext =
    (zeroBox (2 ^ 32)).ciphertext from rfl, hlength]; omega)

end Piggy.Box.PivBox
