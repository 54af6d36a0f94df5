import Piggy.Core.Bits
import Piggy.Core.Codec
import Piggy.Core.Text
import Piggy.Markl.Purpose

/-!
# Blech32

A human-readable part, the separator `-`, the payload in groups of five bits and a
checksum of six groups, each group spelled by a character of the charset.
-/

namespace Piggy.Markl.Blech32

open Piggy.Core

def charset : List Char := "qpzry9x8gf2tvdw0s3jn54khce6mua7l".toList

def separator : Char := '-'

def generator : List Nat := [0x3b6a57b2, 0x26508e6d, 0x1ea119fa, 0x3d4233dd, 0x2a1462b3]

/-- Length of the checksum in groups. -/
def checksumLen : Nat := 6

/-- Least length of the part behind the separator. -/
def dataPortionMin : Nat := 7

/-- The errors of the crate. -/
inductive Error where
  | emptyHrp
  | invalidHrpCharacter (pos : Nat) (char : Char)
  | mixedCase
  | uppercase
  | separatorMissing
  | dataPortionTooShort (expected actual : Nat)
  | invalidCharacterInData (pos : Nat) (char : Char)
  | invalidChecksum
  | invalidDataRange (pos : Nat) (value max : UInt8)
  | nonZeroPadding
  | illegalZeroPadding
  deriving DecidableEq

/-- The length of a text in bytes. -/
def utf8Len (s : List Char) : Nat := (s.map Char.utf8Size).sum

/-! ## The checksum -/

/-- The generator terms that the five top bits select. -/
def feedback (top : Nat) : Nat :=
  (List.range 5).foldl (fun acc i => if (top >>> i) &&& 1 = 1 then acc ^^^ generator[i]! else acc) 0

/-- One step of the checksum register. It keeps thirty bits, so no bit is ever shifted out
of a word. -/
def polymodStep (chk : Nat) (v : UInt8) : Nat :=
  (((chk &&& 0x01ffffff) <<< 5) ^^^ v.toNat) ^^^ feedback (chk >>> 25)

/-- The residue of a list of groups. -/
def polymod (values : List UInt8) : Nat := values.foldl polymodStep 1

/-- The human-readable part as it enters the checksum: the upper bits of each byte, a
zero, the lower bits of each byte. -/
def hrpExpand (hrp : List Char) : List UInt8 :=
  if hrp.isEmpty then []
  else
    let lower := (String.ofList (hrp.map Char.toLower)).toUTF8.data.toList
    lower.map (fun c => c >>> (5 : UInt8)) ++ 0 :: lower.map (fun c => c &&& (0x1f : UInt8))

/-- The checksum is right. -/
def verifyChecksum (hrp : List Char) (data : List UInt8) : Bool :=
  polymod (hrpExpand hrp ++ data) = 1

/-- The checksum of a text. -/
def createChecksum (hrp : List Char) (data : List UInt8) : List UInt8 :=
  let residue := polymod (hrpExpand hrp ++ data ++ List.replicate checksumLen 0) ^^^ 1
  (List.range checksumLen).map fun p => UInt8.ofNat (residue >>> (5 * (5 - p))) &&& 0x1f

/-! ## Regrouping bits -/

/-- The groups that are complete in the accumulator, and how many bits stay in it. The
number of bits bounds the turns of the loop. -/
def emitGroups (toBits acc : Nat) : Nat → Nat → List UInt8 × Nat
  | 0, bits => ([], bits)
  | turns + 1, bits =>
    if bits < toBits then ([], bits)
    else
      let bits := bits - toBits
      let (groups, rest) := emitGroups toBits acc turns bits
      (UInt8.ofNat ((acc >>> bits) &&& (2 ^ toBits - 1)) :: groups, rest)

/-- The loop over the values. The accumulator is a 32-bit word; bits that were written
out stay in it until they are shifted out. -/
def convertLoop (fromBits toBits : Nat) :
    Nat → Nat → Nat → List UInt8 → Except Error (List UInt8 × Nat × Nat)
  | _, acc, bits, [] => .ok ([], acc, bits)
  | idx, acc, bits, v :: vs =>
    if v.toNat >>> fromBits ≠ 0 then
      .error (.invalidDataRange idx v (UInt8.ofNat (2 ^ fromBits - 1)))
    else do
      let acc := ((acc <<< fromBits) % 2 ^ 32) ||| v.toNat
      let (groups, bits) := emitGroups toBits acc (bits + fromBits) (bits + fromBits)
      let (out, acc, bits) ← convertLoop fromBits toBits (idx + 1) acc bits vs
      pure (groups ++ out, acc, bits)

/-- The bits that are left over, moved to the top of a group. -/
def lastGroup (toBits acc bits : Nat) : Nat :=
  ((acc <<< (toBits - bits)) % 2 ^ 32) &&& (2 ^ toBits - 1)

/-- Converts between groupings of bits. -/
def convertBits (data : List UInt8) (fromBits toBits : Nat) (pad : Bool) :
    Except Error (List UInt8) := do
  let (out, acc, bits) ← convertLoop fromBits toBits 0 0 0 data
  if pad then
    if 0 < bits then .ok (out ++ [UInt8.ofNat (lastGroup toBits acc bits)]) else .ok out
  else if fromBits ≤ bits then .error .illegalZeroPadding
  else if lastGroup toBits acc bits ≠ 0 then .error .nonZeroPadding
  else .ok out

/-! ## Encoding and decoding -/

/-- Rejects upper case; a text in both cases is an error of its own. -/
def validateCaseFrom : Bool → Bool → List Char → Except Error Unit
  | _, hasUpper, [] => if hasUpper then .error .uppercase else .ok ()
  | hasLower, hasUpper, c :: cs =>
    let hasLower' := hasLower || c.isLower
    let hasUpper' := hasUpper || (!c.isLower && c.isUpper)
    if hasLower' && hasUpper' then .error .mixedCase else validateCaseFrom hasLower' hasUpper' cs

/-- Rejects upper case from the start of a text on. -/
def validateCase (s : List Char) : Except Error Unit := validateCaseFrom false false s

/-- A character of the human-readable part: an ASCII letter, a digit or `_`. -/
def isHrpChar (c : Char) : Bool := c.isAlphanum || c == '_'

/-- Rejects a character outside the charset of the human-readable part, by its offset. -/
def validateHrpFrom : Nat → List Char → Except Error Unit
  | _, [] => .ok ()
  | pos, c :: cs =>
    if !isHrpChar c then .error (.invalidHrpCharacter pos c)
    else validateHrpFrom (pos + c.utf8Size) cs

/-- Letters, digits and `_` make a human-readable part. -/
def validateHrp (hrp : List Char) : Except Error Unit := validateHrpFrom 0 hrp

/-- The character of a group. Groups have five bits, so the index is never outside. -/
def charsetChar (v : UInt8) : Char := charset[v.toNat]!

/-- A text for data under a human-readable part. -/
def encode (hrp : List Char) (data : List UInt8) : Except Error (List Char) :=
  if hrp.isEmpty then .error .emptyHrp
  else do
    validateHrp hrp
    validateCase hrp
    let values ← convertBits data 8 5 true
    let checksum := createChecksum hrp values
    pure (hrp ++ separator :: (values.map charsetChar ++ checksum.map charsetChar))

/-- The groups that characters spell, with the offset of the first one that is none. -/
def decodeGroups : Nat → List Char → Except Error (List UInt8)
  | _, [] => .ok []
  | pos, c :: cs =>
    match charset.idxOf? c with
    | none => .error (.invalidCharacterInData pos c)
    | some i => do
      let groups ← decodeGroups (pos + c.utf8Size) cs
      pure (UInt8.ofNat i :: groups)

/-- Reads a text. -/
def decode (input : List Char) : Except Error (List Char × List UInt8) := do
  validateCase input
  match splitOnceAt (· = separator) input with
  | none => .error .separatorMissing
  | some (hrp, dataStr) =>
    if utf8Len hrp < 1 then .error .emptyHrp
    else if utf8Len dataStr < dataPortionMin then
      .error (.dataPortionTooShort dataPortionMin (utf8Len dataStr))
    else do
      validateHrp hrp
      let data ← decodeGroups (utf8Len hrp + 1) dataStr
      if !verifyChecksum hrp data then .error .invalidChecksum
      else do
        let payload ← convertBits (data.take (data.length - checksumLen)) 5 8 false
        pure (hrp, payload)

/-! ## Regrouping keeps the bits -/

/-- The bits of bytes that hold groups of a width. -/
def groupBits (width : Nat) (vs : List UInt8) : List Bool := bitString width (vs.map UInt8.toNat)

@[simp] theorem groupBits_append (width : Nat) (vs ws : List UInt8) :
    groupBits width (vs ++ ws) = groupBits width vs ++ groupBits width ws := by
  rw [groupBits, List.map_append, bitString_append]
  rfl

/-- A group cut out of the accumulator has the accumulator's bits there. -/
private theorem bitsOf_group {toBits acc shift : Nat} (hto : toBits ≤ 8) :
    bitsOf toBits (UInt8.ofNat ((acc >>> shift) &&& (2 ^ toBits - 1))).toNat =
      bitsOf toBits (acc >>> shift) := by
  apply bitsOf_congr
  intro i hi
  have hi8 : i < 8 := by omega
  rw [UInt8.toNat_ofNat', Nat.testBit_mod_two_pow, Nat.testBit_and, Nat.testBit_two_pow_sub_one]
  simp [hi, hi8]

/-- The groups written out and the bits that stay are the bits of the accumulator. -/
private theorem emitGroups_spec {toBits acc : Nat} (hpos : 0 < toBits) (hto : toBits ≤ 8)
    {turns bits : Nat} (hturns : bits ≤ turns) :
    groupBits toBits (emitGroups toBits acc turns bits).1 ++
        bitsOf (emitGroups toBits acc turns bits).2 acc = bitsOf bits acc ∧
      (emitGroups toBits acc turns bits).2 < toBits ∧
      ∀ v ∈ (emitGroups toBits acc turns bits).1, v.toNat < 2 ^ toBits := by
  induction turns generalizing bits with
  | zero =>
    obtain rfl : bits = 0 := by omega
    exact ⟨rfl, hpos, by simp [emitGroups]⟩
  | succ turns ih =>
    rw [emitGroups]
    by_cases hb : bits < toBits
    · rw [if_pos hb]
      exact ⟨rfl, hb, by simp⟩
    · rw [if_neg hb]
      obtain ⟨hbits, hlt, hrange⟩ := @ih (bits - toBits) (by omega)
      refine ⟨?_, hlt, ?_⟩
      · have hsplit : bits = toBits + (bits - toBits) := by omega
        rw [hsplit, bitsOf_add, ← hbits, ← hsplit]
        simp only [groupBits, List.map_cons, bitString_cons, bitsOf_group hto, List.append_assoc]
      · intro v hv
        rcases List.mem_cons.mp hv with rfl | hv
        · have hand := Nat.and_lt_two_pow (acc >>> (bits - toBits))
            (by have := Nat.two_pow_pos toBits; omega : 2 ^ toBits - 1 < 2 ^ toBits)
          exact Nat.lt_of_le_of_lt (Nat.mod_le _ _) hand
        · exact hrange v hv

/-- Shifting a value into the accumulator appends its bits. -/
private theorem bitsOf_shiftIn {fromBits acc v bits : Nat} (hv : v < 2 ^ fromBits)
    (hword : bits + fromBits ≤ 32) :
    bitsOf (bits + fromBits) (((acc <<< fromBits) % 2 ^ 32) ||| v) =
      bitsOf bits acc ++ bitsOf fromBits v := by
  have hhigh : ∀ i, fromBits ≤ i → v.testBit i = false := by
    intro i hi
    exact Nat.testBit_lt_two_pow (Nat.lt_of_lt_of_le hv (Nat.pow_le_pow_right (by decide) hi))
  rw [bitsOf_add]
  congr 1
  · apply bitsOf_congr
    intro i hi
    have h32 : fromBits + i < 32 := by omega
    rw [Nat.testBit_shiftRight, Nat.testBit_or, Nat.testBit_mod_two_pow, Nat.testBit_shiftLeft,
      hhigh _ (by omega)]
    simp [h32]
  · apply bitsOf_congr
    intro i hi
    rw [Nat.testBit_or, Nat.testBit_mod_two_pow, Nat.testBit_shiftLeft]
    simp [show ¬ fromBits ≤ i by omega]

/-- The loop keeps the string of bits: what was in the accumulator and what came in is what
went out and what stays. -/
private theorem convertLoop_spec {fromBits toBits : Nat} (hpos : 0 < toBits) (hto : toBits ≤ 8)
    (hfrom : fromBits ≤ 8) {idx acc bits : Nat} (hbits : bits < toBits) {vs : List UInt8}
    (hvs : ∀ v ∈ vs, v.toNat < 2 ^ fromBits) :
    ∃ out acc' bits', convertLoop fromBits toBits idx acc bits vs = .ok (out, acc', bits') ∧
      groupBits toBits out ++ bitsOf bits' acc' = bitsOf bits acc ++ groupBits fromBits vs ∧
      bits' < toBits ∧ ∀ v ∈ out, v.toNat < 2 ^ toBits := by
  induction vs generalizing idx acc bits with
  | nil => exact ⟨[], acc, bits, rfl, by simp [groupBits], hbits, by simp⟩
  | cons v vs ih =>
    have hv := hvs v (by simp)
    have hfits : v.toNat >>> fromBits = 0 := by
      rw [Nat.shiftRight_eq_div_pow, Nat.div_eq_of_lt hv]
    rw [convertLoop, if_neg (by simp [hfits])]
    obtain ⟨hemit, hrest, hrange⟩ := @emitGroups_spec toBits
      (((acc <<< fromBits) % 2 ^ 32) ||| v.toNat) hpos hto (bits + fromBits) (bits + fromBits)
      (Nat.le_refl _)
    rw [bitsOf_shiftIn hv (by omega)] at hemit
    obtain ⟨out, acc', bits', hloop, hkeep, hlt, hout⟩ :=
      @ih (idx + 1) (((acc <<< fromBits) % 2 ^ 32) ||| v.toNat) _ hrest fun w hw => hvs w (by simp [hw])
    refine ⟨_, acc', bits', by simp only [hloop, ok_bind]; rfl, ?_, hlt, ?_⟩
    · rw [groupBits_append, List.append_assoc, hkeep, ← List.append_assoc, hemit]
      simp [groupBits, List.append_assoc]
    · intro w hw
      rcases List.mem_append.mp hw with hw | hw
      · exact hrange w hw
      · exact hout w hw

/-- The last group holds the bits that are left over and zeros behind them. -/
private theorem bitsOf_lastGroup {toBits acc bits : Nat} (hto : toBits ≤ 8) (hbits : bits ≤ toBits) :
    bitsOf toBits (lastGroup toBits acc bits) =
        bitsOf bits acc ++ List.replicate (toBits - bits) false ∧
      lastGroup toBits acc bits < 2 ^ toBits := by
  refine ⟨?_, ?_⟩
  · have hsplit : bitsOf toBits (lastGroup toBits acc bits) =
        bitsOf (bits + (toBits - bits)) (acc <<< (toBits - bits)) := by
      rw [Nat.add_sub_cancel' hbits]
      apply bitsOf_congr
      intro i hi
      rw [lastGroup, Nat.testBit_and, Nat.testBit_two_pow_sub_one, Nat.testBit_mod_two_pow]
      simp [hi, show i < 32 by omega]
    rw [hsplit, bitsOf_add, Nat.shiftLeft_shiftRight, ← bitsOf_zero]
    congr 1
    apply bitsOf_congr
    intro i hi
    rw [Nat.testBit_shiftLeft]
    simp [show ¬ toBits - bits ≤ i by omega]
  · exact Nat.and_lt_two_pow _ (by have := Nat.two_pow_pos toBits; omega)

/-- Bytes are cut into groups of five bits, padded with zeros to the last group. -/
theorem convertBits_encode (data : List UInt8) :
    ∃ values k, convertBits data 8 5 true = .ok values ∧ k < 5 ∧
      groupBits 5 values = groupBits 8 data ++ List.replicate k false ∧
      ∀ v ∈ values, v.toNat < 2 ^ 5 := by
  obtain ⟨out, acc, bits, hloop, hkeep, hlt, hrange⟩ :=
    @convertLoop_spec 8 5 (by decide) (by decide) (by decide) 0 0 0 (by decide) data
      fun v _ => v.toNat_lt
  simp only [bitsOf, List.nil_append] at hkeep
  by_cases hb : 0 < bits
  · obtain ⟨hlast, hsmall⟩ := @bitsOf_lastGroup 5 acc bits (by decide) (by omega)
    have hval : (UInt8.ofNat (lastGroup 5 acc bits)).toNat = lastGroup 5 acc bits := by
      rw [UInt8.toNat_ofNat', Nat.mod_eq_of_lt (by omega)]
    refine ⟨out ++ [UInt8.ofNat (lastGroup 5 acc bits)], 5 - bits, ?_, by omega, ?_, ?_⟩
    · simp only [convertBits, hloop, ok_bind]
      rw [if_pos trivial, if_pos hb]
    · rw [groupBits_append, ← hkeep, List.append_assoc, ← hlast]
      simp [groupBits, hval]
    · intro v hv
      rcases List.mem_append.mp hv with hv | hv
      · exact hrange v hv
      · rw [List.mem_singleton.mp hv, hval]
        exact hsmall
  · obtain rfl : bits = 0 := by omega
    refine ⟨out, 0, ?_, by decide, ?_, hrange⟩
    · simp only [convertBits, hloop, ok_bind]
      rw [if_pos trivial, if_neg (by decide)]
    · rw [← hkeep]
      simp [bitsOf]

/-- Groups of five bits that hold the bits of bytes and zeros behind them are put together
to those bytes. -/
theorem convertBits_decode {values data : List UInt8} {k : Nat} (hk : k < 5)
    (hvalues : ∀ v ∈ values, v.toNat < 2 ^ 5)
    (h : groupBits 5 values = groupBits 8 data ++ List.replicate k false) :
    convertBits values 5 8 false = .ok data := by
  obtain ⟨out, acc, bits, hloop, hkeep, hlt, hrange⟩ :=
    @convertLoop_spec 5 8 (by decide) (by decide) (by decide) 0 0 0 (by decide) values hvalues
  simp only [bitsOf, List.nil_append, h] at hkeep
  -- Both sides are whole bytes and fewer than eight bits behind them.
  have hlen := congrArg List.length hkeep
  simp only [groupBits, List.length_append, length_bitString, List.length_map, length_bitsOf,
    List.length_replicate] at hlen
  obtain ⟨hbytes, hpad⟩ := List.append_inj hkeep (by
    simp only [groupBits, length_bitString, List.length_map]
    omega)
  have hsame : out.map UInt8.toNat = data.map UInt8.toNat := by
    refine bitString_inj (by decide : 0 < 8) ?_ ?_ hbytes
    · intro x hx
      obtain ⟨v, -, rfl⟩ := List.mem_map.mp hx
      exact v.toNat_lt
    · intro x hx
      obtain ⟨v, -, rfl⟩ := List.mem_map.mp hx
      exact v.toNat_lt
  obtain rfl : out = data := List.map_injective_iff.mpr (fun _ _ => UInt8.toNat_inj.mp) hsame
  obtain rfl : bits = k := by omega
  have hzero : lastGroup 8 acc bits = 0 := by
    obtain ⟨hlast, hsmall⟩ := @bitsOf_lastGroup 8 acc bits (by decide) (by omega)
    refine bitsOf_inj hsmall (by decide) ?_
    rw [hlast, hpad, bitsOf_zero, List.replicate_append_replicate]
    congr 1
    omega
  simp only [convertBits, hloop, ok_bind]
  rw [if_neg (by decide), if_neg (by omega), if_neg (by simp [hzero])]

/-! ## The checksum closes the word -/

/-- The generator term of one top bit. -/
private def feedbackTerm (top i : Nat) : Nat := if top.testBit i then generator[i]! else 0

private theorem feedback_eq (top : Nat) :
    feedback top = feedbackTerm top 0 ^^^ feedbackTerm top 1 ^^^ feedbackTerm top 2 ^^^
      feedbackTerm top 3 ^^^ feedbackTerm top 4 := by
  have hterm : ∀ acc i, (if (top >>> i) &&& 1 = 1 then acc ^^^ generator[i]! else acc) =
      acc ^^^ feedbackTerm top i := by
    intro acc i
    have hbit : (top >>> i) &&& 1 = 1 ↔ top.testBit i = true := by
      rw [Nat.testBit, Nat.and_comm]
      have hlt : 1 &&& (top >>> i) < 2 := Nat.lt_of_le_of_lt Nat.and_le_left (by decide)
      rw [bne_iff_ne]
      omega
    by_cases h : top.testBit i = true
    · rw [if_pos (hbit.mpr h), feedbackTerm, if_pos h]
    · rw [if_neg (fun hc => h (hbit.mp hc)), feedbackTerm, if_neg h, Nat.xor_zero]
  have hrange : List.range 5 = [0, 1, 2, 3, 4] := by decide
  simp only [feedback, hrange, List.foldl_cons, List.foldl_nil, hterm, Nat.zero_xor]

private theorem feedbackTerm_xor (a b i : Nat) :
    feedbackTerm (a ^^^ b) i = feedbackTerm a i ^^^ feedbackTerm b i := by
  simp only [feedbackTerm, Nat.testBit_xor]
  cases a.testBit i <;> cases b.testBit i <;> simp

/-- The feedback is linear. -/
theorem feedback_xor (a b : Nat) : feedback (a ^^^ b) = feedback a ^^^ feedback b := by
  simp only [feedback_eq, feedbackTerm_xor]
  ac_rfl

/-- A step of the register: a linear map of the register, and the group added to it. -/
def advance (chk : Nat) : Nat := ((chk &&& 0x01ffffff) <<< 5) ^^^ feedback (chk >>> 25)

theorem polymodStep_eq (chk : Nat) (v : UInt8) : polymodStep chk v = advance chk ^^^ v.toNat := by
  rw [polymodStep, advance]
  ac_rfl

theorem advance_xor (a b : Nat) : advance (a ^^^ b) = advance a ^^^ advance b := by
  simp only [advance, Nat.and_xor_distrib_right, Nat.shiftLeft_xor_distrib,
    Nat.shiftRight_xor_distrib, feedback_xor]
  ac_rfl

/-- A register whose top bits are clear is only shifted. -/
theorem advance_small {chk : Nat} (h : chk < 2 ^ 25) : advance chk = chk <<< 5 := by
  have hmask : chk &&& 0x01ffffff = chk := by
    rw [show (0x01ffffff : Nat) = 2 ^ 25 - 1 by decide, Nat.and_two_pow_sub_one_eq_mod,
      Nat.mod_eq_of_lt h]
  have htop : chk >>> 25 = 0 := by rw [Nat.shiftRight_eq_div_pow, Nat.div_eq_of_lt h]
  rw [advance, hmask, htop, show feedback 0 = 0 by decide, Nat.xor_zero]

/-- The word that groups spell behind the groups already in a word. -/
def wordFrom (w : Nat) (vs : List UInt8) : Nat := vs.foldl (fun w v => (w <<< 5) ^^^ v.toNat) w

/-- Few groups in place of zeros add the word they spell to the residue: nothing of it
reaches the top of the register. -/
private theorem foldl_groups {vs : List UInt8} (hvs : ∀ v ∈ vs, v.toNat < 2 ^ 5) {chk w k : Nat}
    (hw : w < 2 ^ (5 * k)) (hk : k + vs.length ≤ 6) :
    vs.foldl polymodStep (chk ^^^ w) =
      (List.replicate vs.length 0).foldl polymodStep chk ^^^ wordFrom w vs := by
  induction vs generalizing chk w k with
  | nil => rfl
  | cons v vs ih =>
    rw [List.length_cons] at hk
    have hsmall : w < 2 ^ 25 :=
      Nat.lt_of_lt_of_le hw (Nat.pow_le_pow_right (by decide) (by omega))
    have hgrow : (w <<< 5) ^^^ v.toNat < 2 ^ (5 * (k + 1)) := by
      refine Nat.xor_lt_two_pow ?_ ?_
      · rw [Nat.shiftLeft_eq, Nat.mul_add, pow_add]
        exact Nat.mul_lt_mul_of_pos_right hw (Nat.two_pow_pos _)
      · exact Nat.lt_of_lt_of_le (hvs v (by simp)) (Nat.pow_le_pow_right (by decide) (by omega))
    have hstep : polymodStep (chk ^^^ w) v = polymodStep chk 0 ^^^ ((w <<< 5) ^^^ v.toNat) := by
      rw [polymodStep_eq, polymodStep_eq, advance_xor, advance_small hsmall, UInt8.toNat_zero,
        Nat.xor_zero, Nat.xor_assoc]
    rw [List.foldl_cons, hstep, ih (fun u hu => hvs u (by simp [hu])) hgrow (by omega),
      List.length_cons, List.replicate_succ, List.foldl_cons]
    rfl

/-- The register keeps thirty bits. -/
theorem polymodStep_lt (chk : Nat) (v : UInt8) : polymodStep chk v < 2 ^ 30 := by
  have hfb : feedback (chk >>> 25) < 2 ^ 30 := by
    rw [feedback_eq]
    have hterm : ∀ i < 5, feedbackTerm (chk >>> 25) i < 2 ^ 30 := by
      intro i hi
      have hgen : ∀ i < 5, generator[i]! < 2 ^ 30 := by decide
      rw [feedbackTerm]
      split
      · exact hgen i hi
      · decide
    exact Nat.xor_lt_two_pow (Nat.xor_lt_two_pow (Nat.xor_lt_two_pow (Nat.xor_lt_two_pow
      (hterm 0 (by decide)) (hterm 1 (by decide))) (hterm 2 (by decide))) (hterm 3 (by decide)))
      (hterm 4 (by decide))
  have hv : v.toNat < 2 ^ 30 := Nat.lt_trans v.toNat_lt (by decide)
  have hshift : (chk &&& 0x01ffffff) <<< 5 < 2 ^ 30 := by
    have hand : chk &&& 0x01ffffff < 2 ^ 25 := Nat.and_lt_two_pow _ (by decide)
    rw [Nat.shiftLeft_eq]
    omega
  exact Nat.xor_lt_two_pow (Nat.xor_lt_two_pow hshift hv) hfb

private theorem polymod_lt (values : List UInt8) : polymod values < 2 ^ 30 := by
  have hrun : ∀ (vs : List UInt8) chk, chk < 2 ^ 30 → vs.foldl polymodStep chk < 2 ^ 30 := by
    intro vs
    induction vs with
    | nil => exact fun _ h => h
    | cons v vs ih => exact fun chk _ => ih _ (polymodStep_lt chk v)
  exact hrun values 1 (by decide)

/-- A word is put together from its upper bits and its lowest group. -/
private theorem shift_group (r shift : Nat) :
    (r >>> (shift + 5)) <<< 5 ^^^ (UInt8.ofNat (r >>> shift) &&& 0x1f).toNat = r >>> shift := by
  have hgroup : (UInt8.ofNat (r >>> shift) &&& 0x1f).toNat = (r >>> shift) % 2 ^ 5 := by
    rw [UInt8.toNat_and, UInt8.toNat_ofNat', show (0x1f : UInt8).toNat = 2 ^ 5 - 1 by decide,
      Nat.and_two_pow_sub_one_eq_mod, Nat.mod_mod_of_dvd _ (by decide)]
  rw [hgroup, Nat.shiftRight_add]
  apply Nat.eq_of_testBit_eq
  intro i
  rw [Nat.testBit_xor, Nat.testBit_shiftLeft, Nat.testBit_mod_two_pow, Nat.testBit_shiftRight]
  by_cases hi : i < 5
  · simp [hi, show ¬ 5 ≤ i by omega]
  · simp [hi, show 5 ≤ i by omega, Nat.add_sub_cancel' (show 5 ≤ i by omega)]

/-- The six groups of a word of thirty bits spell the word. -/
private theorem wordFrom_groups {r : Nat} (hr : r < 2 ^ 30) :
    wordFrom 0 ((List.range checksumLen).map fun p =>
      UInt8.ofNat (r >>> (5 * (5 - p))) &&& 0x1f) = r := by
  have hrange : List.range checksumLen = [0, 1, 2, 3, 4, 5] := by decide
  have hstart : r >>> (25 + 5) = 0 := by rw [Nat.shiftRight_eq_div_pow, Nat.div_eq_of_lt hr]
  have h₀ := shift_group r 25
  have h₁ := shift_group r 20
  have h₂ := shift_group r 15
  have h₃ := shift_group r 10
  have h₄ := shift_group r 5
  have h₅ := shift_group r 0
  rw [hstart] at h₀
  simp only [Nat.reduceAdd, Nat.shiftRight_zero] at h₁ h₂ h₃ h₄ h₅
  simp only [hrange, wordFrom, List.map_cons, List.map_nil, List.foldl_cons, List.foldl_nil,
    Nat.reduceSub, Nat.reduceMul, h₀, h₁, h₂, h₃, h₄, h₅, Nat.shiftRight_zero]

/-- The six groups that bring the residue of the values in front of them to one. -/
def checksumOf (values : List UInt8) : List UInt8 :=
  let residue := polymod (values ++ List.replicate checksumLen 0) ^^^ 1
  (List.range checksumLen).map fun p => UInt8.ofNat (residue >>> (5 * (5 - p))) &&& 0x1f

theorem createChecksum_eq (hrp : List Char) (data : List UInt8) :
    createChecksum hrp data = checksumOf (hrpExpand hrp ++ data) := rfl

/-- The groups of a checksum have five bits. -/
theorem checksumOf_range (values : List UInt8) :
    (checksumOf values).length = 6 ∧ ∀ v ∈ checksumOf values, v.toNat < 2 ^ 5 := by
  refine ⟨by simp [checksumOf, checksumLen], ?_⟩
  intro v hv
  obtain ⟨p, -, rfl⟩ := List.mem_map.mp hv
  rw [UInt8.toNat_and]
  exact Nat.and_lt_two_pow _ (by decide)

/-- The residue of values with a checksum behind them. -/
private theorem polymod_checksum (values : List UInt8) {checksum : List UInt8}
    (hlen : checksum.length = 6) (hrange : ∀ v ∈ checksum, v.toNat < 2 ^ 5) :
    polymod (values ++ checksum) =
      polymod (values ++ List.replicate checksumLen 0) ^^^ wordFrom 0 checksum := by
  have hgroups := @foldl_groups _ hrange (polymod values) 0 0 (by decide) (by omega)
  rw [Nat.xor_zero, hlen] at hgroups
  have hzeros : polymod (values ++ List.replicate checksumLen 0) =
      (List.replicate 6 0).foldl polymodStep (polymod values) := by
    rw [polymod, List.foldl_append]
    rfl
  rw [hzeros, ← hgroups, polymod, List.foldl_append]
  rfl

/-- A checksum brings the residue to one. -/
theorem polymod_checksumOf (values : List UInt8) : polymod (values ++ checksumOf values) = 1 := by
  obtain ⟨hlen, hrange⟩ := checksumOf_range values
  have hword : wordFrom 0 (checksumOf values) =
      polymod (values ++ List.replicate checksumLen 0) ^^^ 1 :=
    wordFrom_groups (Nat.xor_lt_two_pow (polymod_lt _) (by decide))
  rw [polymod_checksum values hlen hrange, hword, ← Nat.xor_assoc, Nat.xor_self, Nat.zero_xor]

/-- A group shifted into a word. -/
private theorem shift_xor (w : Nat) {x : Nat} (hx : x < 2 ^ 5) : (w <<< 5) ^^^ x = w * 32 + x := by
  have hor : (w <<< 5) ^^^ x = (w <<< 5) ||| x := by
    apply Nat.eq_of_testBit_eq
    intro i
    rw [Nat.testBit_xor, Nat.testBit_or, Nat.testBit_shiftLeft]
    by_cases hi : 5 ≤ i
    · simp [hi, Nat.testBit_lt_two_pow
        (Nat.lt_of_lt_of_le hx (Nat.pow_le_pow_right (by decide) hi))]
    · simp [hi]
  rw [hor, ← Nat.shiftLeft_add_eq_or_of_lt hx, Nat.shiftLeft_eq]

/-- Fewer groups than a checksum has never bring the residue back to one: the register
still holds the one it started with, moved up. -/
theorem polymod_short {groups : List UInt8} (hrange : ∀ v ∈ groups, v.toNat < 2 ^ 5)
    (hne : groups ≠ []) (hlen : groups.length < checksumLen) : polymod groups ≠ 1 := by
  have hrun : ∀ (vs : List UInt8) (chk k : Nat), (∀ v ∈ vs, v.toNat < 2 ^ 5) →
      k + vs.length < checksumLen → 2 ^ (5 * k) ≤ chk → chk < 2 ^ (5 * (k + 1)) →
      2 ^ (5 * (k + vs.length)) ≤ vs.foldl polymodStep chk := by
    intro vs
    induction vs with
    | nil => exact fun chk k _ _ hlow _ => hlow
    | cons v vs ih =>
      intro chk k hvs hk hlow hhigh
      have hv := hvs v (by simp)
      rw [List.length_cons, checksumLen] at hk
      have hsmall : chk < 2 ^ 25 :=
        Nat.lt_of_lt_of_le hhigh (Nat.pow_le_pow_right (by decide) (by omega))
      have hstep : polymodStep chk v = chk * 32 + v.toNat := by
        rw [polymodStep_eq, advance_small hsmall, shift_xor chk hv]
      have hpow : 2 ^ (5 * (k + 1)) = 2 ^ (5 * k) * 32 := by
        rw [Nat.mul_add, pow_add]
        rfl
      have hpow' : 2 ^ (5 * (k + 1 + 1)) = 2 ^ (5 * (k + 1)) * 32 := by
        rw [Nat.mul_add, pow_add]
        rfl
      rw [List.foldl_cons, hstep, List.length_cons, Nat.add_comm vs.length, ← Nat.add_assoc]
      refine ih _ (k + 1) (fun w hw => hvs w (by simp [hw])) ?_ ?_ ?_
      · rw [checksumLen]
        omega
      · omega
      · omega
  intro h
  have hpos := List.length_pos_iff.mpr hne
  have hle := hrun groups 1 0 hrange (by omega) (by decide) (by decide)
  rw [Nat.zero_add] at hle
  have hbig : 2 ^ 5 ≤ 2 ^ (5 * groups.length) := Nat.pow_le_pow_right (by decide) (by omega)
  rw [polymod] at h
  omega

/-- Two words of as many groups are equal only when the groups are. -/
private theorem wordFrom_inj {us vs : List UInt8} (hlen : us.length = vs.length)
    (hu : ∀ u ∈ us, u.toNat < 2 ^ 5) (hv : ∀ v ∈ vs, v.toNat < 2 ^ 5) {w w' : Nat}
    (h : wordFrom w us = wordFrom w' vs) : w = w' ∧ us = vs := by
  induction us generalizing vs w w' with
  | nil =>
    obtain rfl := List.length_eq_zero_iff.mp hlen.symm
    exact ⟨h, rfl⟩
  | cons u us ih =>
    obtain ⟨v, vs, rfl⟩ : ∃ v vs', vs = v :: vs' := List.exists_cons_of_length_eq_add_one hlen.symm
    change wordFrom ((w <<< 5) ^^^ u.toNat) us = wordFrom ((w' <<< 5) ^^^ v.toNat) vs at h
    obtain ⟨hstep, rfl⟩ := ih (by simpa using hlen) (fun x hx => hu x (by simp [hx]))
      (fun x hx => hv x (by simp [hx])) h
    rw [shift_xor w (hu u (by simp)), shift_xor w' (hv v (by simp))] at hstep
    have hu' := hu u (by simp)
    have hv' := hv v (by simp)
    refine ⟨by omega, ?_⟩
    rw [UInt8.toNat_inj.mp (by omega : u.toNat = v.toNat)]

/-- No other six groups do. -/
theorem checksumOf_unique {values checksum : List UInt8} (hlen : checksum.length = 6)
    (hrange : ∀ v ∈ checksum, v.toNat < 2 ^ 5) (h : polymod (values ++ checksum) = 1) :
    checksum = checksumOf values := by
  obtain ⟨hlen', hrange'⟩ := checksumOf_range values
  have h' := polymod_checksumOf values
  rw [polymod_checksum values hlen hrange] at h
  rw [polymod_checksum values hlen' hrange', ← h, Nat.xor_right_inj] at h'
  exact (wordFrom_inj (hlen.trans hlen'.symm) hrange hrange' h'.symm).2

/-! ## Groups that carry a payload -/

/-- Bytes put together from groups of five bits have the bits of the groups, up to fewer
than five zeros. -/
theorem convertBits_decode_inv {values data : List UInt8} (hvalues : ∀ v ∈ values, v.toNat < 2 ^ 5)
    (h : convertBits values 5 8 false = .ok data) :
    ∃ k, k < 5 ∧ groupBits 5 values = groupBits 8 data ++ List.replicate k false := by
  obtain ⟨out, acc, bits, hloop, hkeep, hlt, -⟩ :=
    @convertLoop_spec 5 8 (by decide) (by decide) (by decide) 0 0 0 (by decide) values hvalues
  simp only [bitsOf, List.nil_append] at hkeep
  simp only [convertBits, hloop, ok_bind] at h
  rw [if_neg (by decide), guard_ok, guard_ok, not_not] at h
  obtain ⟨hbits, hzero, hout⟩ := h
  cases hout
  obtain ⟨hlast, -⟩ := @bitsOf_lastGroup 8 acc bits (by decide) (by omega)
  rw [hzero, bitsOf_zero] at hlast
  -- The bits that stay are the upper ones of a group of zeros.
  have hrest : bitsOf bits acc = List.replicate bits false := by
    rw [List.eq_replicate_iff]
    refine ⟨length_bitsOf bits acc, ?_⟩
    intro b hb
    have hmem : b ∈ List.replicate 8 false := by
      rw [hlast]
      exact List.mem_append_left _ hb
    exact List.eq_of_mem_replicate hmem
  exact ⟨bits, by omega, by rw [← hkeep, hrest]⟩

/-- Cutting the bytes into groups again gives the same groups. -/
theorem convertBits_again {values data : List UInt8} (hvalues : ∀ v ∈ values, v.toNat < 2 ^ 5)
    (h : convertBits values 5 8 false = .ok data) : convertBits data 8 5 true = .ok values := by
  obtain ⟨k, hk, hbits⟩ := convertBits_decode_inv hvalues h
  obtain ⟨values', k', hconv, hk', hbits', hvalues'⟩ := convertBits_encode data
  have hlen := congrArg List.length hbits
  have hlen' := congrArg List.length hbits'
  simp only [groupBits, List.length_append, length_bitString, List.length_map,
    List.length_replicate] at hlen hlen'
  obtain rfl : k = k' := by omega
  have hsame : values'.map UInt8.toNat = values.map UInt8.toNat := by
    refine bitString_inj (by decide : 0 < 5) ?_ ?_ (hbits'.trans hbits.symm)
    · intro x hx
      obtain ⟨v, hv, rfl⟩ := List.mem_map.mp hx
      exact hvalues' v hv
    · intro x hx
      obtain ⟨v, hv, rfl⟩ := List.mem_map.mp hx
      exact hvalues v hv
  rw [hconv, List.map_injective_iff.mpr (fun _ _ => UInt8.toNat_inj.mp) hsame]

/-- Groups carry a payload behind what was fed to the checksum: the last six complete the
residue, the others hold the bits of the payload. -/
structure Carries (fed groups payload : List UInt8) : Prop where
  range : ∀ v ∈ groups, v.toNat < 2 ^ 5
  length : checksumLen ≤ groups.length
  residue : polymod (fed ++ groups) = 1
  payload : convertBits (groups.take (groups.length - checksumLen)) 5 8 false = .ok payload

/-- A payload is carried by one list of groups only. -/
theorem carries_iff {fed groups payload : List UInt8} :
    Carries fed groups payload ↔ ∃ values, convertBits payload 8 5 true = .ok values ∧
      groups = values ++ checksumOf (fed ++ values) := by
  constructor
  · rintro ⟨hrange, hlen, hres, hpayload⟩
    have hgs := List.take_append_drop (groups.length - checksumLen) groups
    have hdrop : (groups.drop (groups.length - checksumLen)).length = 6 := by
      rw [List.length_drop]
      exact Nat.sub_sub_self hlen
    refine ⟨_, convertBits_again (fun v hv => hrange v (List.mem_of_mem_take hv)) hpayload, ?_⟩
    rw [← checksumOf_unique hdrop (fun v hv => hrange v (List.mem_of_mem_drop hv)), hgs]
    rw [List.append_assoc, hgs, hres]
  · rintro ⟨values, hconv, rfl⟩
    obtain ⟨values', k, hconv', hk, hbits, hrange⟩ := convertBits_encode payload
    obtain rfl : values' = values := Except.ok.inj (hconv'.symm.trans hconv)
    obtain ⟨hclen, hcrange⟩ := checksumOf_range (fed ++ values')
    refine ⟨?_, ?_, ?_, ?_⟩
    · intro v hv
      rcases List.mem_append.mp hv with hv | hv
      · exact hrange v hv
      · exact hcrange v hv
    · rw [List.length_append, hclen, checksumLen]
      omega
    · rw [← List.append_assoc, polymod_checksumOf]
    · rw [List.length_append, hclen, checksumLen, Nat.add_sub_cancel, List.take_left,
        convertBits_decode hk hrange hbits]

/-- Every payload is carried by some groups. -/
theorem exists_carries (fed payload : List UInt8) : ∃ groups, Carries fed groups payload := by
  obtain ⟨values, -, hconv, -⟩ := convertBits_encode payload
  exact ⟨_, carries_iff.mpr ⟨values, hconv, rfl⟩⟩

/-- The groups of a payload are as many as its bits need, and six for the checksum. -/
theorem Carries.length_groups {fed groups payload : List UInt8} (h : Carries fed groups payload) :
    ∃ k < 5, 5 * groups.length = 8 * payload.length + k + 5 * checksumLen := by
  obtain ⟨values, hconv, rfl⟩ := carries_iff.mp h
  obtain ⟨values', k, hconv', hk, hbits, -⟩ := convertBits_encode payload
  obtain rfl : values' = values := Except.ok.inj (hconv'.symm.trans hconv)
  have hlen := congrArg List.length hbits
  simp only [groupBits, length_bitString, List.length_map, List.length_append,
    List.length_replicate] at hlen
  refine ⟨k, hk, ?_⟩
  rw [List.length_append, (checksumOf_range _).1, checksumLen]
  omega

/-- Only the empty payload is carried by a checksum alone. -/
theorem Carries.length_eq {fed groups payload : List UInt8} (h : Carries fed groups payload) :
    groups.length = checksumLen ↔ payload = [] := by
  obtain ⟨k, hk, hlen⟩ := h.length_groups
  rw [← List.length_eq_zero_iff]
  omega

/-! ## Characters -/

/-- A character of the human-readable part in lower case. -/
def isLowerHrpChar (c : Char) : Bool := isHrpChar c && !c.isUpper

/-- A character that encoded text is made of. -/
def isWireChar (c : Char) : Bool := isLowerHrpChar c || c == separator

theorem charsetChar_spec {v : UInt8} (hv : v.toNat < 2 ^ 5) :
    charset.idxOf? (charsetChar v) = some v.toNat ∧ isLowerHrpChar (charsetChar v) = true := by
  have hall : ∀ n < 2 ^ 5, charset.idxOf? charset[n]! = some n ∧
      isLowerHrpChar charset[n]! = true := by
    decide
  exact hall v.toNat hv

theorem isUpper_of_isWireChar {c : Char} (hc : isWireChar c = true) : c.isUpper = false := by
  rcases (Bool.or_eq_true _ _).mp hc with hc | hc
  · simpa using (Bool.and_eq_true _ _ |>.mp hc).2
  · rw [eq_of_beq hc]
    decide

/-- The characters of a human-readable part in lower case and of groups are wire
characters. -/
theorem isWireChar_of_spelled {hrp : List Char} {groups : List UInt8}
    (hhrp : ∀ c ∈ hrp, isLowerHrpChar c = true) (hgroups : ∀ v ∈ groups, v.toNat < 2 ^ 5) :
    ∀ c ∈ hrp ++ separator :: groups.map charsetChar, isWireChar c = true := by
  intro c hc
  rcases List.mem_append.mp hc with hc | hc
  · simp [isWireChar, hhrp c hc]
  · rcases List.mem_cons.mp hc with rfl | hc
    · decide
    · obtain ⟨v, hv, rfl⟩ := List.mem_map.mp hc
      simp [isWireChar, (charsetChar_spec (hgroups v hv)).2]

theorem validateCase_ok {s : List Char} (h : ∀ c ∈ s, c.isUpper = false) :
    validateCase s = .ok () := by
  have hfrom : ∀ hasLower, validateCaseFrom hasLower false s = .ok () := by
    induction s with
    | nil => exact fun _ => rfl
    | cons c cs ih =>
      intro hasLower
      have hc := h c (by simp)
      simp only [validateCaseFrom, hc, Bool.and_false, Bool.or_false]
      rw [if_neg (by simp)]
      exact ih (fun c' hc' => h c' (by simp [hc'])) _
  exact hfrom false

theorem validateHrp_ok {hrp : List Char} (h : ∀ c ∈ hrp, isHrpChar c = true) :
    validateHrp hrp = .ok () := by
  have hfrom : ∀ pos, validateHrpFrom pos hrp = .ok () := by
    induction hrp with
    | nil => exact fun _ => rfl
    | cons c cs ih =>
      intro pos
      rw [validateHrpFrom, if_neg (by simp [h c (by simp)])]
      exact ih (fun c' hc' => h c' (by simp [hc'])) _
  exact hfrom 0

theorem isUpper_of_isLower {c : Char} (h : c.isLower = true) : c.isUpper = false := by
  rw [isLower_iff] at h
  rw [Bool.eq_false_iff, ne_eq, isUpper_iff]
  omega

/-- A text in one case, and that one lower, has no upper case in it. -/
theorem isUpper_of_validateCase {s : List Char} (h : validateCase s = .ok ()) :
    ∀ c ∈ s, c.isUpper = false := by
  have hfrom : ∀ hasLower hasUpper, validateCaseFrom hasLower hasUpper s = .ok () →
      hasUpper = false ∧ ∀ c ∈ s, c.isUpper = false := by
    clear h
    induction s with
    | nil =>
      intro hasLower hasUpper h
      cases hasUpper with
      | false => exact ⟨rfl, by simp⟩
      | true => cases h
    | cons c cs ih =>
      intro hasLower hasUpper h
      simp only [validateCaseFrom, guard_ok] at h
      obtain ⟨hor, hcs⟩ := ih _ _ h.2
      refine ⟨(Bool.or_eq_false_iff.mp hor).1, ?_⟩
      intro c' hc'
      rcases List.mem_cons.mp hc' with rfl | hmem
      · have hup := (Bool.or_eq_false_iff.mp hor).2
        cases hl : c'.isLower with
        | true => exact isUpper_of_isLower hl
        | false => simpa [hl] using hup
      · exact hcs c' hmem
  exact (hfrom false false h).2

/-- Characters outside the charset of the human-readable part are found. -/
theorem isHrpChar_of_validateHrp {hrp : List Char} (h : validateHrp hrp = .ok ()) :
    ∀ c ∈ hrp, isHrpChar c = true := by
  have hfrom : ∀ pos, validateHrpFrom pos hrp = .ok () → ∀ c ∈ hrp, isHrpChar c = true := by
    clear h
    induction hrp with
    | nil => exact fun _ _ c hc => nomatch hc
    | cons c cs ih =>
      intro pos h
      rw [validateHrpFrom, guard_ok] at h
      intro c' hc'
      rcases List.mem_cons.mp hc' with rfl | hmem
      · simpa using h.1
      · exact ih _ h.2 c' hmem
  exact hfrom 0 h

theorem length_le_utf8Len (s : List Char) : s.length ≤ utf8Len s := by
  induction s with
  | nil => exact Nat.le_refl 0
  | cons c cs ih =>
    have hc := c.utf8Size_pos
    rw [utf8Len, List.map_cons, List.sum_cons, List.length_cons]
    change cs.length + 1 ≤ c.utf8Size + utf8Len cs
    omega

theorem decodeGroups_map {groups : List UInt8} (h : ∀ v ∈ groups, v.toNat < 2 ^ 5)
    (pos : Nat) : decodeGroups pos (groups.map charsetChar) = .ok groups := by
  induction groups generalizing pos with
  | nil => rfl
  | cons v vs ih =>
    have hv := h v (by simp)
    have hval : UInt8.ofNat v.toNat = v := UInt8.ofNat_toNat
    rw [List.map_cons, decodeGroups, (charsetChar_spec hv).1]
    simp only [ih (fun w hw => h w (by simp [hw])), ok_bind, hval]
    rfl

/-- Groups that were read are spelled by the characters they were read from. -/
theorem decodeGroups_spec {pos : Nat} {text : List Char} {groups : List UInt8}
    (h : decodeGroups pos text = .ok groups) :
    text = groups.map charsetChar ∧ ∀ v ∈ groups, v.toNat < 2 ^ 5 := by
  induction text generalizing pos groups with
  | nil =>
    cases h
    exact ⟨rfl, by simp⟩
  | cons c cs ih =>
    rw [decodeGroups] at h
    rcases hidx : charset.idxOf? c with _ | i
    · simp only [hidx] at h
      cases h
    · simp only [hidx, bind_ok, pure_ok] at h
      obtain ⟨gs, hgs, rfl⟩ := h
      obtain ⟨hcs, hrange⟩ := ih hgs
      obtain ⟨hi, hc, -⟩ := List.findIdx?_eq_some_iff_getElem.mp hidx
      have hlt : i < 2 ^ 5 := hi
      have hval : (UInt8.ofNat i).toNat = i := UInt8.toNat_ofNat_of_lt' (by omega : i < 256)
      refine ⟨?_, ?_⟩
      · rw [List.map_cons, ← hcs, charsetChar, hval, getElem!_pos charset i hi,
          eq_of_beq hc]
      · intro v hv
        rcases List.mem_cons.mp hv with rfl | hv
        · rw [hval]
          exact hlt
        · exact hrange v hv

/-- Each group takes one byte. -/
theorem utf8Len_map_charsetChar {groups : List UInt8} (h : ∀ v ∈ groups, v.toNat < 2 ^ 5) :
    utf8Len (groups.map charsetChar) = groups.length := by
  have hone : ∀ n < 2 ^ 5, Char.utf8Size charset[n]! = 1 := by decide
  induction groups with
  | nil => rfl
  | cons v vs ih =>
    have hv : Char.utf8Size (charsetChar v) = 1 := hone v.toNat (h v (by simp))
    have hvs := ih fun w hw => h w (by simp [hw])
    rw [utf8Len] at hvs
    rw [List.map_cons, utf8Len, List.map_cons, List.sum_cons, hv, hvs, List.length_cons,
      Nat.add_comm]

/-! ## What is encoded and what is decoded -/

/-- A text of a human-readable part and of groups is read as far as its residue. -/
theorem decode_spelled {hrp : List Char} {groups : List UInt8} (hne : hrp ≠ [])
    (hhrp : ∀ c ∈ hrp, isLowerHrpChar c = true) (hgroups : ∀ v ∈ groups, v.toNat < 2 ^ 5)
    (hlen : checksumLen < groups.length) :
    decode (hrp ++ separator :: groups.map charsetChar) =
      if polymod (hrpExpand hrp ++ groups) = 1 then do
        let payload ← convertBits (groups.take (groups.length - checksumLen)) 5 8 false
        pure (hrp, payload)
      else .error .invalidChecksum := by
  have hchars : ∀ c ∈ hrp, isHrpChar c = true := by
    intro c hc
    exact (Bool.and_eq_true _ _ |>.mp (hhrp c hc)).1
  have hcase := validateCase_ok fun c hc =>
    isUpper_of_isWireChar (isWireChar_of_spelled hhrp hgroups c hc)
  have hsplit : splitOnceAt (· = separator) (hrp ++ separator :: groups.map charsetChar) =
      some (hrp, groups.map charsetChar) := by
    refine splitOnceAt_append ?_ (decide_eq_true rfl) _
    intro c hc
    refine decide_eq_false ?_
    rintro rfl
    exact absurd (hchars _ hc) (by decide)
  have hhead : 1 ≤ utf8Len hrp :=
    Nat.le_trans (List.length_pos_iff.mpr hne) (length_le_utf8Len hrp)
  rw [decode, hcase, ok_bind, hsplit]
  simp only [decodeGroups_map hgroups, ok_bind, validateHrp_ok hchars,
    utf8Len_map_charsetChar hgroups]
  rw [if_neg (by omega), if_neg (by rw [dataPortionMin]; rw [checksumLen] at hlen; omega)]
  by_cases hsum : polymod (hrpExpand hrp ++ groups) = 1
  · have hverify : verifyChecksum hrp groups = true := decide_eq_true hsum
    simp [hverify, hsum]
  · have hverify : verifyChecksum hrp groups = false := decide_eq_false hsum
    simp [hverify, hsum]

/-- A text decodes exactly when it is spelled out of a human-readable part in lower case
and of groups that carry a payload, and then to these two. -/
theorem decode_eq_ok {text hrp : List Char} {payload : List UInt8} :
    decode text = .ok (hrp, payload) ↔ hrp ≠ [] ∧ (∀ c ∈ hrp, isLowerHrpChar c = true) ∧
      ∃ groups, text = hrp ++ separator :: groups.map charsetChar ∧
        Carries (hrpExpand hrp) groups payload ∧ payload ≠ [] := by
  constructor
  · intro h
    simp only [decode, bind_ok] at h
    obtain ⟨⟨⟩, hcase, h⟩ := h
    rcases hsplit : splitOnceAt (· = separator) text with _ | ⟨before, dataStr⟩
    · simp only [hsplit] at h
      cases h
    simp only [hsplit, guard_ok, bind_ok, pure_ok, Prod.mk.injEq] at h
    obtain ⟨hhead, hportion, ⟨⟩, hhrp, groups, hgroups, hsum, payload, hpayload, rfl, rfl⟩ := h
    obtain ⟨sep, hsep, rfl⟩ := splitOnceAt_eq_some hsplit
    obtain rfl : sep = separator := of_decide_eq_true hsep
    obtain ⟨rfl, hrange⟩ := decodeGroups_spec hgroups
    rw [utf8Len_map_charsetChar hrange, dataPortionMin] at hportion
    have hcarries : Carries (hrpExpand before) groups payload := by
      refine ⟨hrange, by rw [checksumLen]; omega, ?_, hpayload⟩
      simpa [verifyChecksum] using hsum
    refine ⟨?_, ?_, groups, rfl, hcarries, ?_⟩
    · rintro rfl
      exact hhead (by decide)
    · intro c hc
      have hup := isUpper_of_validateCase hcase c (List.mem_append_left _ hc)
      rw [isLowerHrpChar, isHrpChar_of_validateHrp hhrp c hc, hup]
      rfl
    · rw [Ne, ← hcarries.length_eq, checksumLen]
      omega
  · rintro ⟨hne, hhrp, groups, rfl, hcarries, hpayload⟩
    have hlen : checksumLen < groups.length :=
      Nat.lt_of_le_of_ne hcarries.length fun he => hpayload (hcarries.length_eq.mp he.symm)
    rw [decode_spelled hne hhrp hcarries.range hlen, if_pos hcarries.residue, hcarries.payload]
    rfl

/-- What is encoded is spelled out of the human-readable part and of the groups that carry
the payload. -/
theorem encode_eq_ok {hrp text : List Char} {data : List UInt8} :
    encode hrp data = .ok text ↔ hrp ≠ [] ∧ (∀ c ∈ hrp, isLowerHrpChar c = true) ∧
      ∃ groups, text = hrp ++ separator :: groups.map charsetChar ∧
        Carries (hrpExpand hrp) groups data := by
  obtain ⟨values, -, hconv, -⟩ := convertBits_encode data
  rw [encode]
  by_cases hne : hrp = []
  · simp [hne]
  rw [if_neg (by simpa using hne)]
  simp only [bind_ok, hconv, Except.ok.injEq, pure_ok, exists_eq_left', createChecksum_eq]
  constructor
  · rintro ⟨⟨⟩, hhrp, ⟨⟩, hcase, rfl⟩
    refine ⟨hne, ?_, _, ?_, carries_iff.mpr ⟨values, hconv, rfl⟩⟩
    · intro c hc
      rw [isLowerHrpChar, isHrpChar_of_validateHrp hhrp c hc, isUpper_of_validateCase hcase c hc]
      rfl
    · rw [List.map_append]
  · rintro ⟨-, hhrp, groups, rfl, hcarries⟩
    obtain ⟨values', hconv', rfl⟩ := carries_iff.mp hcarries
    obtain rfl : values = values' := Except.ok.inj (hconv.symm.trans hconv')
    have hchars : ∀ c ∈ hrp, isHrpChar c = true ∧ c.isUpper = false := by
      intro c hc
      simpa [isLowerHrpChar] using hhrp c hc
    exact ⟨(), validateHrp_ok fun c hc => (hchars c hc).1, (),
      validateCase_ok fun c hc => (hchars c hc).2, by rw [List.map_append]⟩

/-- Encoded text is made of wire characters and decodes to what was encoded. -/
theorem decode_encode {hrp : List Char} (hne : hrp ≠ [])
    (hhrp : ∀ c ∈ hrp, isLowerHrpChar c = true) {data : List UInt8} (hdata : data ≠ []) :
    ∃ text, encode hrp data = .ok text ∧ decode text = .ok (hrp, data) ∧
      ∀ c ∈ text, isWireChar c = true := by
  obtain ⟨groups, hcarries⟩ := exists_carries (hrpExpand hrp) data
  exact ⟨_, encode_eq_ok.mpr ⟨hne, hhrp, groups, rfl, hcarries⟩,
    decode_eq_ok.mpr ⟨hne, hhrp, groups, rfl, hcarries, hdata⟩,
    isWireChar_of_spelled hhrp hcarries.range⟩

/-- A text that decodes is the encoding of what it decodes to. -/
theorem encode_of_decode {text hrp : List Char} {data : List UInt8}
    (h : decode text = .ok (hrp, data)) : encode hrp data = .ok text := by
  obtain ⟨hne, hhrp, groups, rfl, hcarries, -⟩ := decode_eq_ok.mp h
  exact encode_eq_ok.mpr ⟨hne, hhrp, groups, rfl, hcarries⟩

end Piggy.Markl.Blech32
