import Piggy.Go.Base
import Piggy.Markl.Blech32

/-!
# Blech32 in Go

The Go package reads blech32 text with three decoders, one over strings and two over byte
slices. The checksum register and the regrouping of bits are the loops of the Rust crate.
-/

namespace Piggy.Go.Blech32

open Piggy.Core
open Piggy.Markl.Blech32 (polymod checksumOf isHrpChar isLowerHrpChar charsetChar Carries)

def separator : UInt8 := 0x2D

/-- The charset as bytes. -/
def charset : Bytes := Markl.Blech32.charset.map fun c => UInt8.ofNat c.toNat

def dataPortionMinWidth : Nat := 7

/-- The errors of the package. -/
inductive Error where
  | emptyHRP
  | separatorMissing
  | invalidChecksum
  | mixedCase
  | uppercase
  /-- The byte twin of the case check reports the counts. -/
  | mixedCaseCounts (lower upper : Nat)
  | invalidHRPCharacter (pos : Nat) (char : Char)
  | dataPortionTooShort (expected actual : Nat) (data : Bytes)
  | invalidCharacterInData (pos : Nat) (char : Char)
  | invalidDataRange (idx : Nat) (value : UInt8) (frombits : Nat)
  | illegalZeroPadding
  | nonZeroPadding
  deriving DecidableEq

/-! ## The checksum and the groups -/

/-- What the checksum reads of a human-readable part. -/
def hrpExpand (t : CaseTables) (hrp : Bytes) : Bytes :=
  if hrp = [] then []
  else
    let h := toLower t hrp
    h.map (fun c => c >>> (5 : UInt8)) ++ 0 :: h.map (fun c => c &&& (31 : UInt8))

/-- The checksum is right. -/
def verifyChecksum (t : CaseTables) (hrp data : Bytes) : Bool := polymod (hrpExpand t hrp ++ data) = 1

/-- The checksum of a text. -/
def createChecksum (t : CaseTables) (hrp data : Bytes) : Bytes := checksumOf (hrpExpand t hrp ++ data)

/-- The errors of the regrouping loop as Go words them. -/
def convertError (frombits : Nat) : Markl.Blech32.Error → Error
  | .invalidDataRange idx value _ => .invalidDataRange idx value frombits
  | .illegalZeroPadding => .illegalZeroPadding
  | _ => .nonZeroPadding

/-- Regroups bits, with the package's errors. -/
def convertBits (data : Bytes) (frombits tobits : Nat) (pad : Bool) : Except Error Bytes :=
  (Markl.Blech32.convertBits data frombits tobits pad).mapError (convertError frombits)

/-- The byte of a group. Groups have five bits, so the index is never outside. -/
def charsetByte (v : UInt8) : UInt8 := charset[v.toNat]!

/-! ## Checks -/

/-- Letters of both cases, digits and `_`. -/
def validateHRP (hrp : Bytes) : Except Error Unit :=
  match (runes hrp).find? fun r => !isHrpChar r.2 with
  | some (pos, char) => .error (.invalidHRPCharacter pos char)
  | none => .ok ()

/-- A text with letters of both cases, or large ones, is refused. -/
def validateCaseString (t : CaseTables) (s : Bytes) : Except Error Unit :=
  if toLower t s ≠ s ∧ toUpper t s ≠ s then .error .mixedCase
  else if toLower t s ≠ s then .error .uppercase
  else .ok ()

/-- The same check on bytes, which counts. -/
def validateCase (t : CaseTables) (bites : Bytes) : Except Error Unit :=
  let (lowerCount, _, upperCount) := t.countCase bites
  if lowerCount ≠ 0 ∧ upperCount ≠ 0 then .error (.mixedCaseCounts lowerCount upperCount)
  else if upperCount ≠ 0 then .error .uppercase
  else .ok ()

/-- The position of the separator, when there is one, it does not come first and enough
follows. The width counts the separator itself. -/
def validateSeparatorPosition (input : Bytes) : Option Nat → Except Error Nat
  | none => .error .separatorMissing
  | some pos =>
    if pos = 0 then .error .emptyHRP
    else if input.length < pos + dataPortionMinWidth then
      .error (.dataPortionTooShort dataPortionMinWidth (input.length - (pos + 1))
        (input.drop (pos + 1)))
    else .ok pos

/-! ## Encoding -/

/-- The encoder behind both entry points; without a human-readable part there is no
separator either. -/
def encodeWith (t : CaseTables) (hrp data : Bytes) : Except Error Bytes := do
  let values ← convertBits data 8 5 true
  validateCaseString t hrp
  let hrp := toLower t hrp
  let head := if hrp ≠ [] then hrp ++ [separator] else []
  pure (head ++ (values.map charsetByte ++ (createChecksum t hrp values).map charsetByte))

/-- A text for data under a human-readable part. -/
def encode (t : CaseTables) (hrp data : Bytes) : Except Error Bytes :=
  if hrp.length < 1 then .error .emptyHRP
  else
    match (runes hrp).find? fun r => r.2.toNat < 33 || 126 < r.2.toNat with
    | some (pos, char) => .error (.invalidHRPCharacter pos char)
    | none => encodeWith t hrp data

/-- A text without a human-readable part. -/
def encodeDataOnly (t : CaseTables) (data : Bytes) : Except Error Bytes := encodeWith t [] data

/-! ## Decoding -/

/-- The groups that characters or bytes spell, with the place of the first that is none. -/
def readGroups {α : Type} (index : α → Option Nat) (fail : Nat → α → Error) :
    List (Nat × α) → Except Error Bytes
  | [] => .ok []
  | (pos, c) :: rest =>
    match index c with
    | none => .error (fail pos c)
    | some d => do
      let data ← readGroups index fail rest
      pure (UInt8.ofNat d :: data)

/-- `data[:len(data)-6]`, which panics on shorter data. -/
def dropChecksum (data : Bytes) : Result Error Bytes :=
  if data.length < 6 then .panic else .ok (data.take (data.length - 6))

/-- The checksum of groups, then their payload. -/
def payloadOf (t : CaseTables) (hrp data : Bytes) : Result Error Bytes :=
  if verifyChecksum t hrp data = false then .error .invalidChecksum
  else do
    let groups ← dropChecksum data
    Result.lift (convertBits groups 5 8 false)

/-- Reads a text. -/
def decodeString (t : CaseTables) (input : Bytes) : Result Error (Bytes × Bytes) := do
  Result.lift (validateCaseString t input)
  let pos ← Result.lift (validateSeparatorPosition input (input.idxOf? separator))
  let hrp := input.take pos
  Result.lift (validateHRP hrp)
  let data ← Result.lift (readGroups Markl.Blech32.charset.idxOf?
    (fun p c => .invalidCharacterInData (p + pos + 1) c) (runes (input.drop (pos + 1))))
  let payload ← payloadOf t hrp data
  pure (hrp, payload)

/-- The decoder of the part behind the separator. -/
def decodeData (t : CaseTables) (hrp bites : Bytes) : Result Error Bytes := do
  Result.lift (validateCase t bites)
  let data ← Result.lift (readGroups charset.idxOf?
    (fun p c => .invalidCharacterInData p (asciiChar c)) (bites.zipIdx.map Prod.swap))
  payloadOf t hrp data

/-- Reads a text in bytes. -/
def decode (t : CaseTables) (bites : Bytes) : Result Error (Bytes × Bytes) := do
  Result.lift (validateCase t bites)
  let pos ← Result.lift (validateSeparatorPosition bites (bites.idxOf? separator))
  let hrp := bites.take pos
  let data ← decodeData t hrp (bites.drop (pos + 1))
  pure (hrp, data)

/-- Reads a text without a human-readable part. -/
def decodeDataOnly (t : CaseTables) (bites : Bytes) : Result Error Bytes := decodeData t [] bites

/-- Upper case as lower case, byte by byte. -/
def lowerByte (c : UInt8) : UInt8 := if 0x41 ≤ c ∧ c ≤ 0x5A then c + 0x20 else c

/-- The last separator of the input. -/
def lastSeparator (input : Bytes) : Option Nat :=
  (input.reverse.idxOf? separator).map fun i => input.length - 1 - i

/-- Checks the text against another human-readable part than the one it shows, and returns
the one it shows with the payload. It says no more of a failure than that there is one. -/
def decodeWithHRPOverride (t : CaseTables) (hrp body : Bytes) : Option (Bytes × Bytes) := do
  let _ ← (validateCase t body).toOption
  let pos ← (validateSeparatorPosition body (lastSeparator body)).toOption
  let indices ← ((body.drop (pos + 1)).map lowerByte).mapM charset.idxOf?
  let groups := indices.map UInt8.ofNat
  if verifyChecksum t hrp groups then
    let data ← (convertBits (groups.take (groups.length - 6)) 5 8 false).toOption
    some (body.take pos, data)
  else none

/-! ## Bytes and characters -/

/-- A byte of the human-readable part in lower case. -/
def isLowerHrpByte (b : UInt8) : Bool := isLowerHrpChar (asciiChar b)

theorem isHrpChar_range {c : Char} (h : isHrpChar c = true) : 33 ≤ c.toNat ∧ c.toNat ≤ 126 := by
  simp only [isHrpChar, Bool.or_eq_true, beq_iff_eq] at h
  rcases h with h | rfl
  · rw [isAlphanum_iff, isUpper_iff, isLower_iff, isDigit_iff] at h
    omega
  · decide

theorem ascii_of_isHrpChar {c : Char} (h : isHrpChar c = true) : c.toNat < 128 :=
  Nat.lt_of_le_of_lt (isHrpChar_range h).2 (by decide)

theorem isLowerHrpByte_spec {b : UInt8} (h : isLowerHrpByte b = true) :
    isHrpChar (asciiChar b) = true ∧ (asciiChar b).isUpper = false ∧ b.toNat < 128 := by
  simp only [isLowerHrpByte, isLowerHrpChar, Bool.and_eq_true, Bool.not_eq_true'] at h
  refine ⟨h.1, h.2, ?_⟩
  rw [← toNat_asciiChar]
  exact ascii_of_isHrpChar h.1

/-- Such a byte is printable. -/
theorem printable_of_lowerHrp {b : UInt8} (h : isLowerHrpByte b = true) :
    33 ≤ b.toNat ∧ b.toNat ≤ 126 := by
  rw [← toNat_asciiChar]
  exact isHrpChar_range (isLowerHrpByte_spec h).1

theorem isAscii_of_lowerHrp {hrp : Bytes} (h : ∀ b ∈ hrp, isLowerHrpByte b = true) : IsAscii hrp :=
  fun b hb => (isLowerHrpByte_spec (h b hb)).2.2

theorem separator_of_lowerHrp {hrp : Bytes} (h : ∀ b ∈ hrp, isLowerHrpByte b = true) :
    separator ∉ hrp := by
  intro hmem
  exact absurd (h _ hmem) (by decide)

/-- The byte of a group is the group's character. -/
theorem charsetByte_spec {v : UInt8} (hv : v.toNat < 2 ^ 5) :
    charset.idxOf? (charsetByte v) = some v.toNat ∧ asciiChar (charsetByte v) = charsetChar v ∧
      isLowerHrpByte (charsetByte v) = true := by
  have hall : ∀ n < 2 ^ 5, charset.idxOf? charset[n]! = some n ∧
      asciiChar charset[n]! = Markl.Blech32.charset[n]! ∧ isLowerHrpByte charset[n]! = true := by
    decide
  exact hall v.toNat hv

theorem lowerHrp_map_charsetByte {groups : Bytes} (h : ∀ v ∈ groups, v.toNat < 2 ^ 5) :
    ∀ b ∈ groups.map charsetByte, isLowerHrpByte b = true := by
  intro b hb
  obtain ⟨v, hv, rfl⟩ := List.mem_map.mp hb
  exact (charsetByte_spec (h v hv)).2.2

theorem map_asciiChar_charsetByte {groups : Bytes} (h : ∀ v ∈ groups, v.toNat < 2 ^ 5) :
    (groups.map charsetByte).map asciiChar = groups.map charsetChar := by
  rw [List.map_map]
  apply List.map_congr_left
  intro v hv
  exact (charsetByte_spec (h v hv)).2.1

theorem convertBits_eq_ok {data out : Bytes} {frombits tobits : Nat} {pad : Bool} :
    convertBits data frombits tobits pad = .ok out ↔
      Markl.Blech32.convertBits data frombits tobits pad = .ok out := mapError_ok

/-! ## What the checks let through -/

theorem validateHRP_eq_ok {hrp : Bytes} :
    validateHRP hrp = .ok () ↔ ∀ b ∈ hrp, isHrpChar (asciiChar b) = true := by
  have hnone : validateHRP hrp = .ok () ↔ ∀ c ∈ (runes hrp).map Prod.snd, isHrpChar c = true := by
    have hfind : (∀ c ∈ (runes hrp).map Prod.snd, isHrpChar c = true) ↔
        (runes hrp).find? (fun r => !isHrpChar r.2) = none := by
      simp only [List.find?_eq_none, List.forall_mem_map, Bool.not_eq_true', Bool.not_eq_false]
    rw [hfind, validateHRP]
    rcases hrun : (runes hrp).find? (fun r => !isHrpChar r.2) with _ | ⟨pos, c⟩
    · simp only [hrun]
    · simp only [hrun, reduceCtorEq]
  rw [hnone]
  constructor
  · intro h
    have hascii : IsAscii hrp := by
      apply isAscii_of_runes
      intro r hr
      exact ascii_of_isHrpChar (h _ (List.mem_map_of_mem hr))
    intro b hb
    rw [runes_ascii hascii] at h
    exact h _ (List.mem_map_of_mem hb)
  · intro h
    have hascii : IsAscii hrp := by
      intro b hb
      rw [← toNat_asciiChar]
      exact ascii_of_isHrpChar (h b hb)
    rw [runes_ascii hascii]
    intro c hc
    obtain ⟨b, hb, rfl⟩ := List.mem_map.mp hc
    exact h b hb

/-- On ASCII the check on strings lets lower case through and nothing else. -/
theorem validateCaseString_eq_ok (t : CaseTables) {s : Bytes} (h : IsAscii s) :
    validateCaseString t s = .ok () ↔ ∀ b ∈ s, (asciiChar b).isUpper = false := by
  rw [← toLower_eq_self t h, validateCaseString]
  by_cases hlow : toLower t s = s
  · simp [hlow]
  · by_cases hup : toUpper t s = s
    · simp [hlow, hup]
    · simp [hlow, hup]

/-- So does the check on bytes. -/
theorem validateCase_eq_ok (t : CaseTables) {s : Bytes} (h : IsAscii s) :
    validateCase t s = .ok () ↔ ∀ b ∈ s, (asciiChar b).isUpper = false := by
  have hup : (t.countCase s).2.2 = 0 ↔ ∀ b ∈ s, (asciiChar b).isUpper = false := by
    rw [t.countUpper_ascii s h, List.countP_eq_zero]
    simp
  rw [← hup, validateCase]
  by_cases h0 : (t.countCase s).2.2 = 0
  · simp [h0]
  · by_cases hl : (t.countCase s).1 = 0
    · simp [h0, hl]
    · simp [h0, hl]

/-- The separator is found behind a part that is not empty and has none, with six bytes at
least behind it. -/
theorem validateSeparatorPosition_eq_ok {input : Bytes} {pos : Nat} :
    validateSeparatorPosition input (input.idxOf? separator) = .ok pos ↔
      ∃ hrp rest, input = hrp ++ separator :: rest ∧ separator ∉ hrp ∧ hrp ≠ [] ∧
        6 ≤ rest.length ∧ pos = hrp.length := by
  constructor
  · intro h
    rcases hidx : input.idxOf? separator with _ | i
    · rw [hidx] at h
      cases h
    · rw [hidx, validateSeparatorPosition, guard_ok, guard_ok] at h
      obtain ⟨hpos, hlen, heq⟩ := h
      obtain rfl : i = pos := Except.ok.inj heq
      obtain ⟨hrp, rest, rfl, hnot, rfl⟩ := idxOf?_eq_some_iff.mp hidx
      refine ⟨hrp, rest, rfl, hnot, mt List.length_eq_zero_iff.mpr hpos, ?_, rfl⟩
      rw [List.length_append, List.length_cons, dataPortionMinWidth] at hlen
      omega
  · rintro ⟨hrp, rest, rfl, hnot, hne, hlen, rfl⟩
    have hidx := idxOf?_eq_some_iff.mpr ⟨hrp, rest, rfl, hnot, rfl⟩
    rw [hidx, validateSeparatorPosition, if_neg (mt List.length_eq_zero_iff.mp hne), if_neg]
    rw [List.length_append, List.length_cons, dataPortionMinWidth]
    omega

/-- Groups are read exactly from what spells them. -/
theorem readGroups_eq_ok {α : Type} {index : α → Option Nat} {fail : Nat → α → Error}
    {spell : UInt8 → α} (hspell : ∀ v : UInt8, v.toNat < 2 ^ 5 → index (spell v) = some v.toNat)
    (hindex : ∀ c i, index c = some i → i < 2 ^ 5 ∧ c = spell (UInt8.ofNat i))
    {l : List (Nat × α)} {groups : Bytes} :
    readGroups index fail l = .ok groups ↔
      l.map Prod.snd = groups.map spell ∧ ∀ v ∈ groups, v.toNat < 2 ^ 5 := by
  induction l generalizing groups with
  | nil =>
    rw [readGroups]
    constructor
    · intro h
      cases h
      exact ⟨rfl, fun v hv => nomatch hv⟩
    · rintro ⟨h, -⟩
      rw [List.map_eq_nil_iff.mp h.symm]
  | cons r rest ih =>
    obtain ⟨pos, c⟩ := r
    rw [readGroups]
    constructor
    · intro h
      rcases hc : index c with _ | i
      · simp only [hc] at h
        cases h
      · simp only [hc, bind_ok, pure_ok] at h
        obtain ⟨data, hdata, rfl⟩ := h
        obtain ⟨hmap, hrange⟩ := ih.mp hdata
        obtain ⟨hi, hspelled⟩ := hindex c i hc
        refine ⟨?_, ?_⟩
        · rw [List.map_cons, List.map_cons, hmap, ← hspelled]
        · intro v hv
          rcases List.mem_cons.mp hv with rfl | hv
          · rwa [UInt8.toNat_ofNat_of_lt' (by omega : i < 256)]
          · exact hrange v hv
    · rintro ⟨hmap, hrange⟩
      cases groups with
      | nil => cases hmap
      | cons v vs =>
        obtain ⟨rfl, hrest⟩ := List.cons.inj hmap
        have hdata := ih.mpr ⟨hrest, fun w hw => hrange w (by simp [hw])⟩
        simp only [hspell v (hrange v (by simp)), hdata, ok_bind, UInt8.ofNat_toNat]
        rfl

/-! ## What the decoders let through -/

theorem readGroups_bytes {fail : Nat → UInt8 → Error} {bites groups : Bytes} :
    readGroups charset.idxOf? fail (bites.zipIdx.map Prod.swap) = .ok groups ↔
      bites = groups.map charsetByte ∧ ∀ v ∈ groups, v.toNat < 2 ^ 5 := by
  have hbytes : (bites.zipIdx.map Prod.swap).map Prod.snd = bites := by
    rw [List.map_map]
    exact List.zipIdx_map_fst 0 bites
  rw [readGroups_eq_ok (fun v hv => (charsetByte_spec hv).1), hbytes]
  intro b i hb
  obtain ⟨hi, hget, -⟩ := List.findIdx?_eq_some_iff_getElem.mp hb
  have hlt : i < 2 ^ 5 := hi
  refine ⟨hlt, ?_⟩
  rw [charsetByte, UInt8.toNat_ofNat_of_lt' (by omega : i < 256), getElem!_pos charset i hi,
    eq_of_beq hget]

theorem readGroups_runes {fail : Nat → Char → Error} {text groups : Bytes} :
    readGroups Markl.Blech32.charset.idxOf? fail (runes text) = .ok groups ↔
      text = groups.map charsetByte ∧ ∀ v ∈ groups, v.toNat < 2 ^ 5 := by
  rw [readGroups_eq_ok (fun v hv => (Markl.Blech32.charsetChar_spec hv).1)]
  · constructor
    · rintro ⟨hrunes, hrange⟩
      have hascii : IsAscii text := by
        apply isAscii_of_runes
        intro r hr
        have hmem : r.2 ∈ groups.map charsetChar := by
          rw [← hrunes]
          exact List.mem_map_of_mem hr
        obtain ⟨v, hv, hchar⟩ := List.mem_map.mp hmem
        have hlower := (Markl.Blech32.charsetChar_spec (hrange v hv)).2
        rw [← hchar]
        exact ascii_of_isHrpChar (Bool.and_eq_true _ _ |>.mp hlower).1
      rw [runes_ascii hascii, ← map_asciiChar_charsetByte hrange] at hrunes
      exact ⟨List.map_injective_iff.mpr (fun _ _ => asciiChar_inj.mp) hrunes, hrange⟩
    · rintro ⟨rfl, hrange⟩
      have hascii := isAscii_of_lowerHrp (lowerHrp_map_charsetByte hrange)
      exact ⟨by rw [runes_ascii hascii, map_asciiChar_charsetByte hrange], hrange⟩
  · intro c i hc
    obtain ⟨hi, hget, -⟩ := List.findIdx?_eq_some_iff_getElem.mp hc
    have hlt : i < 2 ^ 5 := hi
    refine ⟨hlt, ?_⟩
    rw [charsetChar, UInt8.toNat_ofNat_of_lt' (by omega : i < 256), getElem!_pos _ i hi,
      eq_of_beq hget]

theorem payloadOf_eq_ok (t : CaseTables) {hrp data payload : Bytes}
    (hrange : ∀ v ∈ data, v.toNat < 2 ^ 5) :
    payloadOf t hrp data = .ok payload ↔ Carries (hrpExpand t hrp) data payload := by
  rw [payloadOf, Result.guard_eq_ok, Result.bind_eq_ok]
  constructor
  · rintro ⟨hsum, groups, hgroups, hpayload⟩
    rw [dropChecksum] at hgroups
    split at hgroups
    · cases hgroups
    · next hlen =>
      cases hgroups
      refine ⟨hrange, Nat.le_of_not_lt hlen, ?_, ?_⟩
      · simpa [verifyChecksum] using hsum
      · exact convertBits_eq_ok.mp (Result.lift_eq_ok.mp hpayload)
  · rintro ⟨-, hlen, hres, hpayload⟩
    refine ⟨by simpa [verifyChecksum] using hres, _, if_neg (Nat.not_lt.mpr hlen), ?_⟩
    exact Result.lift_eq_ok.mpr (convertBits_eq_ok.mpr hpayload)

/-- What is spelled in lower case passes both checks of the case. -/
theorem lower_of_spelled {hrp groups : Bytes} (hhrp : ∀ b ∈ hrp, isLowerHrpByte b = true)
    (hgroups : ∀ v ∈ groups, v.toNat < 2 ^ 5) :
    IsAscii (hrp ++ separator :: groups.map charsetByte) ∧
      ∀ b ∈ hrp ++ separator :: groups.map charsetByte, (asciiChar b).isUpper = false := by
  have hall : ∀ b ∈ hrp ++ separator :: groups.map charsetByte,
      b.toNat < 128 ∧ (asciiChar b).isUpper = false := by
    intro b hb
    rcases List.mem_append.mp hb with hb | hb
    · exact (isLowerHrpByte_spec (hhrp b hb)).2.symm
    · rcases List.mem_cons.mp hb with rfl | hb
      · decide
      · exact (isLowerHrpByte_spec (lowerHrp_map_charsetByte hgroups b hb)).2.symm
  exact ⟨fun b hb => (hall b hb).1, fun b hb => (hall b hb).2⟩

theorem take_drop_separator (hrp rest : Bytes) :
    (hrp ++ separator :: rest).take hrp.length = hrp ∧
      (hrp ++ separator :: rest).drop (hrp.length + 1) = rest := by
  refine ⟨List.take_left, ?_⟩
  rw [← List.drop_drop, List.drop_left, List.drop_one, List.tail_cons]

/-- The decoder of byte slices takes any bytes but the separator for a human-readable part,
and a payload may be empty. -/
theorem decode_eq_ok (t : CaseTables) {b hrp payload : Bytes} :
    decode t b = .ok (hrp, payload) ↔ hrp ≠ [] ∧ separator ∉ hrp ∧ validateCase t b = .ok () ∧
      ∃ groups, b = hrp ++ separator :: groups.map charsetByte ∧
        Carries (hrpExpand t hrp) groups payload := by
  simp only [decode, decodeData, Result.bind_eq_ok, Result.lift_eq_ok, Result.pure_eq_ok,
    Prod.mk.injEq, validateSeparatorPosition_eq_ok]
  constructor
  · rintro ⟨⟨⟩, hcase, pos, ⟨hrp', rest, rfl, hnot, hne, hlen, rfl⟩, payload', h, rfl, rfl⟩
    obtain ⟨⟨⟩, -, groups, hgroups, hpayload⟩ := h
    obtain ⟨htake, hdrop⟩ := take_drop_separator hrp' rest
    rw [hdrop] at hgroups
    obtain ⟨rfl, hrange⟩ := readGroups_bytes.mp hgroups
    rw [htake] at hpayload ⊢
    exact ⟨hne, hnot, hcase, groups, rfl, (payloadOf_eq_ok t hrange).mp hpayload⟩
  · rintro ⟨hne, hnot, hcase, groups, rfl, hcarries⟩
    obtain ⟨htake, hdrop⟩ := take_drop_separator hrp (groups.map charsetByte)
    have hlower := lowerHrp_map_charsetByte hcarries.range
    have hcase' : validateCase t (groups.map charsetByte) = .ok () :=
      (validateCase_eq_ok t (isAscii_of_lowerHrp hlower)).mpr
        fun b hb => (isLowerHrpByte_spec (hlower b hb)).2.1
    refine ⟨(), hcase, hrp.length, ⟨hrp, _, rfl, hnot, hne, ?_, rfl⟩, payload, ?_, htake, rfl⟩
    · rw [List.length_map]
      exact hcarries.length
    · rw [htake, hdrop]
      exact ⟨(), hcase', groups, readGroups_bytes.mpr ⟨rfl, hcarries.range⟩,
        (payloadOf_eq_ok t hcarries.range).mpr hcarries⟩

/-- The decoder of strings takes the charset of human-readable parts only. -/
theorem decodeString_eq_ok (t : CaseTables) {b hrp payload : Bytes} :
    decodeString t b = .ok (hrp, payload) ↔
      hrp ≠ [] ∧ (∀ c ∈ hrp, isLowerHrpByte c = true) ∧
      ∃ groups, b = hrp ++ separator :: groups.map charsetByte ∧
        Carries (hrpExpand t hrp) groups payload := by
  simp only [decodeString, Result.bind_eq_ok, Result.lift_eq_ok, Result.pure_eq_ok,
    Prod.mk.injEq, validateSeparatorPosition_eq_ok]
  constructor
  · rintro ⟨⟨⟩, hcase, pos, ⟨hrp', rest, rfl, hnot, hne, hlen, rfl⟩, ⟨⟩, hhrp, groups, hgroups,
      payload', hpayload, rfl, rfl⟩
    obtain ⟨htake, hdrop⟩ := take_drop_separator hrp' rest
    rw [hdrop] at hgroups
    obtain ⟨rfl, hrange⟩ := readGroups_runes.mp hgroups
    rw [htake] at hhrp hpayload ⊢
    have hchars := validateHRP_eq_ok.mp hhrp
    refine ⟨hne, ?_, groups, rfl, (payloadOf_eq_ok t hrange).mp hpayload⟩
    have hascii : IsAscii (hrp' ++ separator :: groups.map charsetByte) := by
      intro b hb
      rcases List.mem_append.mp hb with hb | hb
      · rw [← toNat_asciiChar]
        exact ascii_of_isHrpChar (hchars b hb)
      · rcases List.mem_cons.mp hb with rfl | hb
        · decide
        · exact isAscii_of_lowerHrp (lowerHrp_map_charsetByte hrange) b hb
    intro b hb
    have hup := (validateCaseString_eq_ok t hascii).mp hcase b (List.mem_append_left _ hb)
    rw [isLowerHrpByte, isLowerHrpChar, hchars b hb, hup]
    rfl
  · rintro ⟨hne, hhrp, groups, rfl, hcarries⟩
    obtain ⟨htake, hdrop⟩ := take_drop_separator hrp (groups.map charsetByte)
    obtain ⟨hascii, hupper⟩ := lower_of_spelled hhrp hcarries.range
    refine ⟨(), (validateCaseString_eq_ok t hascii).mpr hupper, hrp.length,
      ⟨hrp, _, rfl, separator_of_lowerHrp hhrp, hne, ?_, rfl⟩, (), ?_, groups, ?_, payload, ?_,
      htake, rfl⟩
    · rw [List.length_map]
      exact hcarries.length
    · rw [htake]
      exact validateHRP_eq_ok.mpr fun b hb => (isLowerHrpByte_spec (hhrp b hb)).1
    · rw [hdrop]
      exact readGroups_runes.mpr ⟨rfl, hcarries.range⟩
    · rw [htake]
      exact (payloadOf_eq_ok t hcarries.range).mpr hcarries

/-- Without a human-readable part the groups stand alone. -/
theorem decodeDataOnly_eq_ok (t : CaseTables) {b payload : Bytes} :
    decodeDataOnly t b = .ok payload ↔
      ∃ groups, b = groups.map charsetByte ∧ Carries [] groups payload := by
  simp only [decodeDataOnly, decodeData, Result.bind_eq_ok, Result.lift_eq_ok]
  constructor
  · rintro ⟨⟨⟩, -, groups, hgroups, hpayload⟩
    obtain ⟨rfl, hrange⟩ := readGroups_bytes.mp hgroups
    exact ⟨groups, rfl, (payloadOf_eq_ok t hrange).mp hpayload⟩
  · rintro ⟨groups, rfl, hcarries⟩
    have hlower := lowerHrp_map_charsetByte hcarries.range
    exact ⟨(), (validateCase_eq_ok t (isAscii_of_lowerHrp hlower)).mpr
      fun b hb => (isLowerHrpByte_spec (hlower b hb)).2.1, groups,
      readGroups_bytes.mpr ⟨rfl, hcarries.range⟩, (payloadOf_eq_ok t hcarries.range).mpr hcarries⟩

end Piggy.Go.Blech32
