import Piggy.Markl.Blech32

/-!
# What the checksum of Blech32 settles

Every payload has one spelling under a human-readable part: encoding and decoding are
inverse to each other on what is accepted. The checksum register is linear in the groups
fed to it and loses nothing as it advances, so a group that is changed, or two neighbours
that change places, leave a residue that no groups behind them can mend.
-/

namespace Piggy.Markl.Blech32

open Piggy.Core

/-! ## One spelling -/

theorem isLowerHrpChar_of {c : Char} (h : c.isLower ∨ c.isDigit ∨ c = '_') :
    isLowerHrpChar c = true := by
  rcases h with hlower | hdigit | rfl
  · have hupper : c.isUpper = false := isUpper_of_isLower hlower
    simp [isLowerHrpChar, isHrpChar, isAlphanum_iff, hlower, hupper]
  · have hupper : c.isUpper = false := by
      rw [isDigit_iff] at hdigit
      rw [Bool.eq_false_iff, ne_eq, isUpper_iff]
      omega
    simp [isLowerHrpChar, isHrpChar, isAlphanum_iff, hdigit, hupper]
  · decide

/-- Encoding under a human-readable part of lower-case letters, digits and `_` succeeds and is
undone by decoding; what decodes is not empty and is encoded to the text it was decoded from. -/
theorem encode_bijective :
    (∀ hrp data, hrp ≠ [] → (∀ c ∈ hrp, c.isLower ∨ c.isDigit ∨ c = '_') → data ≠ [] →
      ∃ text, encode hrp data = .ok text ∧ decode text = .ok (hrp, data)) ∧
    ∀ text hrp data, decode text = .ok (hrp, data) → data ≠ [] ∧ encode hrp data = .ok text := by
  refine ⟨?_, ?_⟩
  · intro hrp data hne hhrp hdata
    have hlower : ∀ c ∈ hrp, isLowerHrpChar c = true := by
      intro c hc
      exact isLowerHrpChar_of (hhrp c hc)
    obtain ⟨text, hencode, hdecode, -⟩ := decode_encode hne hlower hdata
    exact ⟨text, hencode, hdecode⟩
  · intro text hrp data h
    obtain ⟨-, -, -, -, -, hdata⟩ := decode_eq_ok.mp h
    exact ⟨hdata, encode_of_decode h⟩

/-- Three bytes under `ab` are written as a text that is read back, and written again. -/
theorem encode_bijective_ab :
    ∃ text, text = "ab-qypqx94dn09".toList ∧ encode ['a', 'b'] [1, 2, 3] = .ok text ∧
      decode text = .ok (['a', 'b'], [1, 2, 3]) := by
  have hlower : ∀ c ∈ ['a', 'b'], c.isLower ∨ c.isDigit ∨ c = '_' := by
    intro c hc
    rcases List.mem_pair.mp hc with rfl | rfl <;> exact .inl rfl
  obtain ⟨text, hencode, hdecode⟩ :=
    encode_bijective.1 ['a', 'b'] [1, 2, 3] (by simp) hlower (by simp)
  have htext : encode ['a', 'b'] [1, 2, 3] = .ok "ab-qypqx94dn09".toList :=
    of_toList (p := fun text => encode ['a', 'b'] [1, 2, 3] = .ok text) (by decide +kernel)
  have hread := (encode_bijective.2 text _ _ hdecode).2
  exact ⟨text, Except.ok.inj (hread.symm.trans htext), hencode, hdecode⟩

/-! ## The register loses nothing -/

/-- The lowest group of the feedback tells the five top bits apart from zero. -/
theorem eq_zero_of_feedback {top : Nat} (htop : top < 2 ^ 5) (h : feedback top % 2 ^ 5 = 0) :
    top = 0 := by
  have hall : ∀ n < 2 ^ 5, feedback n % 2 ^ 5 = 0 → n = 0 := by decide
  exact hall top htop h

/-- Only the empty register advances to the empty register. -/
theorem eq_zero_of_advance {chk : Nat} (hlt : chk < 2 ^ 30) (h : advance chk = 0) : chk = 0 := by
  have hfed : (chk &&& 0x01ffffff) <<< 5 = feedback (chk >>> 25) := Nat.xor_eq_zero_iff.mp h
  have htop : chk >>> 25 = 0 := by
    apply eq_zero_of_feedback
    · rw [Nat.shiftRight_eq_div_pow]
      omega
    · rw [← hfed, Nat.shiftLeft_eq]
      omega
  have hsmall : chk < 2 ^ 25 := by
    rw [Nat.shiftRight_eq_div_pow] at htop
    omega
  rw [advance_small hsmall, Nat.shiftLeft_eq] at h
  omega

theorem polymodStep_inj {a b : Nat} (ha : a < 2 ^ 30) (hb : b < 2 ^ 30) {v : UInt8}
    (h : polymodStep a v = polymodStep b v) : a = b := by
  rw [polymodStep_eq, polymodStep_eq] at h
  have hadvance : advance a = advance b := Nat.xor_left_injective h
  apply Nat.xor_eq_zero_iff.mp
  apply eq_zero_of_advance (Nat.xor_lt_two_pow ha hb)
  rw [advance_xor, hadvance, Nat.xor_self]

/-- Registers that differ stay different, whatever is fed to both. -/
theorem foldl_polymodStep_inj {groups : List UInt8} {a b : Nat} (ha : a < 2 ^ 30)
    (hb : b < 2 ^ 30) (h : groups.foldl polymodStep a = groups.foldl polymodStep b) : a = b := by
  induction groups generalizing a b with
  | nil => exact h
  | cons v groups ih =>
    have hstep := ih (polymodStep_lt a v) (polymodStep_lt b v) h
    exact polymodStep_inj ha hb hstep

/-- A group that is replaced changes the register. -/
theorem eq_of_polymodStep {chk : Nat} {v v' : UInt8} (h : polymodStep chk v = polymodStep chk v') :
    v = v' := by
  rw [polymodStep_eq, polymodStep_eq] at h
  apply UInt8.toNat_inj.mp
  exact Nat.xor_right_injective h

/-- Two neighbours that change places change the register. -/
theorem eq_of_polymodStep_swap {chk : Nat} {v v' : UInt8} (hv : v.toNat < 2 ^ 5)
    (hv' : v'.toNat < 2 ^ 5)
    (h : polymodStep (polymodStep chk v) v' = polymodStep (polymodStep chk v') v) : v = v' := by
  have hadvance : ∀ w : UInt8, w.toNat < 2 ^ 5 → advance w.toNat = w.toNat <<< 5 := by
    intro w hw
    apply advance_small
    omega
  simp only [polymodStep_eq, advance_xor, hadvance v hv, hadvance v' hv', Nat.xor_assoc] at h
  have hlow : (v.toNat <<< 5 ^^^ v'.toNat) % 2 ^ 5 = (v'.toNat <<< 5 ^^^ v.toNat) % 2 ^ 5 := by
    rw [Nat.xor_right_injective h]
  simp only [Nat.xor_mod_two_pow, Nat.shiftLeft_eq, Nat.mul_mod_left, Nat.zero_xor,
    Nat.mod_eq_of_lt hv, Nat.mod_eq_of_lt hv'] at hlow
  exact UInt8.toNat_inj.mp hlow.symm

/-! ## One character is off -/

/-- Two texts that differ in one character, or in the order of two neighbours. A character
is replaced by one of the charset. -/
inductive OneOff : List Char → List Char → Prop where
  | replaced (front back : List Char) {c c' : Char} (hne : c ≠ c') (hc' : c' ∈ charset) :
      OneOff (front ++ c :: back) (front ++ c' :: back)
  | swapped (front back : List Char) {c c' : Char} (hne : c ≠ c') :
      OneOff (front ++ c :: c' :: back) (front ++ c' :: c :: back)

theorem exists_group {c : Char} (hc : c ∈ charset) :
    ∃ v : UInt8, v.toNat < 2 ^ 5 ∧ charsetChar v = c := by
  obtain ⟨i, hi, rfl⟩ := List.getElem_of_mem hc
  have hlt : i < 2 ^ 5 := hi
  have hval : (UInt8.ofNat i).toNat = i := UInt8.toNat_ofNat_of_lt' (Nat.lt_trans hlt (by decide))
  refine ⟨UInt8.ofNat i, by rwa [hval], ?_⟩
  rw [charsetChar, hval, getElem!_pos charset i hi]

/-- Texts of groups that are one off leave different residues. -/
theorem OneOff.residue_ne (fed : List UInt8) {groups : List UInt8} {data : List Char}
    (hgroups : ∀ v ∈ groups, v.toNat < 2 ^ 5) (h : OneOff (groups.map charsetChar) data) :
    ∃ groups', data = groups'.map charsetChar ∧ (∀ v ∈ groups', v.toNat < 2 ^ 5) ∧
      groups'.length = groups.length ∧ polymod (fed ++ groups') ≠ polymod (fed ++ groups) := by
  generalize htext : groups.map charsetChar = text at h
  cases h with
  | @replaced front back c c' hne hc' =>
    obtain ⟨front, rest, rfl, rfl, hrest⟩ := List.map_eq_append_iff.mp htext
    obtain ⟨v, back, rfl, rfl, rfl⟩ := List.map_eq_cons_iff.mp hrest
    obtain ⟨v', hv', rfl⟩ := exists_group hc'
    refine ⟨front ++ v' :: back, by simp, by grind, by simp, ?_⟩
    intro hsame
    simp only [polymod, List.foldl_append, List.foldl_cons] at hsame
    have hstep := foldl_polymodStep_inj (polymodStep_lt _ _) (polymodStep_lt _ _) hsame
    exact hne (congrArg charsetChar (eq_of_polymodStep hstep).symm)
  | @swapped front back c c' hne =>
    obtain ⟨front, rest, rfl, rfl, hrest⟩ := List.map_eq_append_iff.mp htext
    obtain ⟨v, rest, rfl, rfl, hrest'⟩ := List.map_eq_cons_iff.mp hrest
    obtain ⟨v', back, rfl, rfl, rfl⟩ := List.map_eq_cons_iff.mp hrest'
    refine ⟨front ++ v' :: v :: back, by simp, by grind, by simp, ?_⟩
    intro hsame
    simp only [polymod, List.foldl_append, List.foldl_cons] at hsame
    have hstep := foldl_polymodStep_inj (polymodStep_lt _ _) (polymodStep_lt _ _) hsame
    have hv : v' = v := eq_of_polymodStep_swap (hgroups v' (by simp)) (hgroups v (by simp)) hstep
    exact hne (congrArg charsetChar hv.symm)

/-- Whatever is one off from the data portion of a text that decodes is rejected by its
checksum. -/
theorem decode_oneOff {text hrp : List Char} {payload : List UInt8}
    (h : decode text = .ok (hrp, payload)) : ∃ data, text = hrp ++ separator :: data ∧
      ∀ data', OneOff data data' →
        decode (hrp ++ separator :: data') = .error .invalidChecksum := by
  obtain ⟨hne, hhrp, groups, rfl, hcarries, hpayload⟩ := decode_eq_ok.mp h
  refine ⟨groups.map charsetChar, rfl, ?_⟩
  intro data' hoff
  obtain ⟨groups', rfl, hgroups', hlen, hresidue⟩ :=
    hoff.residue_ne (hrpExpand hrp) hcarries.range
  rw [hcarries.residue] at hresidue
  have hlong : checksumLen < groups'.length := by
    rw [hlen]
    exact Nat.lt_of_le_of_ne hcarries.length fun he => hpayload (hcarries.length_eq.mp he.symm)
  rw [decode_spelled hne hhrp hgroups' hlong, if_neg hresidue]

/-- A text of one byte. -/
theorem decode_oneOff_byte : ∃ data, "a-quyjfvu5".toList = ['a'] ++ separator :: data ∧
    ∀ data', OneOff data data' →
      decode (['a'] ++ separator :: data') = .error .invalidChecksum :=
  decode_oneOff (by decide +kernel : decode "a-quyjfvu5".toList = .ok (['a'], [7]))

end Piggy.Markl.Blech32
