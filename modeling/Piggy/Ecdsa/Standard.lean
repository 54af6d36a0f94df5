import Piggy.Ecdsa.Reframing

/-!
# Signatures as the standards have them

The DER form of a signature of two integers, and the multiple-precision integers of SSH. A
signature in DER comes out as its two integers, each as wide as the field.
-/

namespace Piggy.Ecdsa

open Piggy.Core Piggy.Box

/-! ## DER as the standard has it -/

/-- The bytes of a number, the highest first, and no zero in front. -/
def minimalBytes : Nat → Bytes
  | 0 => []
  | n + 1 => minimalBytes ((n + 1) / 256) ++ [UInt8.ofNat (n + 1)]
decreasing_by exact Nat.div_lt_self (Nat.succ_pos n) (by decide)

/-- The bytes of an integer that is not negative: the highest bit is the sign. -/
def derContent (n : Nat) : Bytes :=
  match minimalBytes n with
  | [] => [0]
  | b :: rest => if 0x80 ≤ b then 0 :: b :: rest else b :: rest

/-- A length in its shortest form. -/
def derLength (n : Nat) : Bytes :=
  if n < 0x80 then [UInt8.ofNat n]
  else UInt8.ofNat (0x80 + (minimalBytes n).length) :: minimalBytes n

/-- An element with its length. -/
def derTagged (tag : UInt8) (content : Bytes) : Bytes :=
  tag :: (derLength content.length ++ content)

/-- The signature of two integers. -/
def derSignature (r s : Nat) : Bytes :=
  derTagged 0x30 (derTagged 0x02 (derContent r) ++ derTagged 0x02 (derContent s))

theorem ofBe_minimalBytes (n : Nat) : ofBe (minimalBytes n) = n := by
  induction n using Nat.strong_induction_on with
  | _ n ih =>
    cases n with
    | zero => rw [minimalBytes]; rfl
    | succ n =>
      have hlast : ofBe [UInt8.ofNat (n + 1)] = (n + 1) % 256 := by simp [ofBe]
      rw [minimalBytes, ofBe_append, ih _ (Nat.div_lt_self (Nat.succ_pos n) (by decide)), hlast]
      exact Nat.div_add_mod' (n + 1) 256

theorem length_minimalBytes {n width : Nat} (h : n < 256 ^ width) :
    (minimalBytes n).length ≤ width := by
  induction width generalizing n with
  | zero =>
    rw [Nat.lt_one_iff.mp h, minimalBytes]
    exact le_rfl
  | succ width ih =>
    cases n with
    | zero =>
      rw [minimalBytes]
      exact Nat.zero_le _
    | succ n =>
      rw [minimalBytes, List.length_append]
      exact Nat.succ_le_succ (ih (Nat.div_lt_of_lt_mul (by rwa [pow_succ, Nat.mul_comm] at h)))

theorem ofBe_derContent (n : Nat) : ofBe (derContent n) = n := by
  have hminimal := ofBe_minimalBytes n
  rw [derContent]
  split
  · next h =>
    rw [h] at hminimal
    exact hminimal
  · next b rest h =>
    rw [h] at hminimal
    split
    · rw [ofBe_cons, hminimal]
      simp
    · exact hminimal

theorem length_derContent {n width : Nat} (h : n < 256 ^ width) :
    (derContent n).length ≤ width + 1 := by
  have hlength := length_minimalBytes h
  rw [derContent]
  split
  · exact Nat.succ_le_succ (Nat.zero_le _)
  · next b rest hbytes =>
    rw [hbytes] at hlength
    split
    · exact Nat.succ_le_succ hlength
    · exact hlength.trans (Nat.le_succ _)

/-- Up to 127 bytes the program writes a length as the standard has it. -/
theorem derLength_eq {n : Nat} (h : n < 0x80) : derLength n = encodeDerLength n := by
  rw [derLength, encodeDerLength, if_pos h, if_pos h]

theorem derSignature_eq {r s : Nat} (hr : (derContent r).length ≤ 49)
    (hs : (derContent s).length ≤ 49) :
    derSignature r s = encodeDerSequence (derInteger (derContent r) ++ derInteger (derContent s)) ∧
      (derInteger (derContent r) ++ derInteger (derContent s)).length ≤ 102 := by
  have hinteger : ∀ {n : Nat}, (derContent n).length ≤ 49 →
      derTagged 0x02 (derContent n) = derInteger (derContent n) ∧
        (derInteger (derContent n)).length ≤ 51 := by
    intro n hn
    have hshort : (encodeDerLength (derContent n).length).length = 1 := by
      rw [encodeDerLength, if_pos (by omega)]
      rfl
    refine ⟨by rw [derTagged, derLength_eq (by omega), derInteger], ?_⟩
    rw [length_derInteger, hshort]
    omega
  obtain ⟨hrBytes, hrLength⟩ := hinteger hr
  obtain ⟨hsBytes, hsLength⟩ := hinteger hs
  have hboth : (derInteger (derContent r) ++ derInteger (derContent s)).length ≤ 102 := by
    rw [List.length_append]
    omega
  refine ⟨?_, hboth⟩
  rw [derSignature, hrBytes, hsBytes, derTagged, derLength_eq (by omega), encodeDerSequence]

/-- Two integers that fit into the field come out at its width. -/
theorem derToRawRs_derSignature {n r s : Nat} (hn : n ≤ 48) (hr : r < 256 ^ n)
    (hs : s < 256 ^ n) : derToRawRs (derSignature r s) n = .ok (toBe n r ++ toBe n s) := by
  have hrLength := length_derContent hr
  have hsLength := length_derContent hs
  obtain ⟨hder, hlength⟩ := derSignature_eq (r := r) (s := s) (by omega) (by omega)
  rw [hder, derToRawRs_of_decode (decode_encodeDerSequence (by omega)),
    rawRs_of_lt (by rwa [ofBe_derContent]) (by rwa [ofBe_derContent]), ofBe_derContent,
    ofBe_derContent]

/-! ## Integers of SSH -/

/-- A multiple-precision integer that is positive: the highest bit is clear, and a zero stands in
front only where that bit of the next byte is set. -/
def PositiveMpint (bytes : Bytes) : Prop :=
  ∃ b rest, bytes = b :: rest ∧ b < 0x80 ∧ (b = 0 → ∃ b' rest', rest = b' :: rest' ∧ 0x80 ≤ b')

/-- A string tells where it ends. -/
theorem sshString_inj {bytes bytes' rest rest' : Bytes} (hlength : bytes.length < 2 ^ 32)
    (hlength' : bytes'.length < 2 ^ 32)
    (h : sshString bytes ++ rest = sshString bytes' ++ rest') : bytes = bytes' ∧ rest = rest' := by
  rw [sshString, sshString, List.append_assoc, List.append_assoc] at h
  obtain ⟨hlengths, hrest⟩ := List.append_inj h (by rw [length_toBe, length_toBe])
  have hnumber := congrArg ofBe hlengths
  rw [ofBe_toBe, ofBe_toBe] at hnumber
  exact List.append_inj hrest (by omega)

end Piggy.Ecdsa
