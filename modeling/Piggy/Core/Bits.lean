import Mathlib.Data.Nat.Bitwise

/-!
# Bit strings of numbers

The bits of a number at a width, most significant first. Regrouping bytes into groups
of another width leaves the string of all bits alone, up to padding; a string of bits
determines the groups of a width it was made of.
-/

namespace Piggy.Core

/-- The lowest bits of a number, as many as the width, most significant first. -/
def bitsOf : Nat → Nat → List Bool
  | 0, _ => []
  | width + 1, n => n.testBit width :: bitsOf width n

@[simp] theorem length_bitsOf (width n : Nat) : (bitsOf width n).length = width := by
  induction width with
  | zero => rfl
  | succ width ih => rw [bitsOf, List.length_cons, ih]

/-- Bits at a width depend on the bits below the width only. -/
theorem bitsOf_congr {width a b : Nat} (h : ∀ i < width, a.testBit i = b.testBit i) :
    bitsOf width a = bitsOf width b := by
  induction width with
  | zero => rfl
  | succ width ih =>
    rw [bitsOf, bitsOf, h width (Nat.lt_succ_self _), ih fun i hi => h i (by omega)]

/-- The bits at a sum of widths are the upper bits and then the lower bits. -/
theorem bitsOf_add (upper lower n : Nat) :
    bitsOf (upper + lower) n = bitsOf upper (n >>> lower) ++ bitsOf lower n := by
  induction upper with
  | zero => rw [Nat.zero_add, bitsOf, List.nil_append]
  | succ upper ih =>
    rw [Nat.add_right_comm, bitsOf, bitsOf, Nat.testBit_shiftRight, ih, Nat.add_comm lower upper,
      List.cons_append]

/-- The bits of zero. -/
theorem bitsOf_zero (width : Nat) : bitsOf width 0 = List.replicate width false := by
  induction width with
  | zero => rfl
  | succ width ih => rw [bitsOf, Nat.zero_testBit, ih, List.replicate_succ]

/-- Two numbers below a width's bound with the same bits are equal. -/
theorem bitsOf_inj {width a b : Nat} (ha : a < 2 ^ width) (hb : b < 2 ^ width)
    (h : bitsOf width a = bitsOf width b) : a = b := by
  have hlow : ∀ k ≤ width, bitsOf k a = bitsOf k b → ∀ i < k, a.testBit i = b.testBit i := by
    intro k
    induction k with
    | zero => intro _ _ i hi; omega
    | succ k ih =>
      intro hk heq i hi
      rw [bitsOf, bitsOf, List.cons.injEq] at heq
      rcases Nat.lt_succ_iff_lt_or_eq.mp hi with hi | rfl
      · exact ih (by omega) heq.2 i hi
      · exact heq.1
  apply Nat.eq_of_testBit_eq
  intro i
  by_cases hi : i < width
  · exact hlow width (Nat.le_refl _) h i hi
  · have hpow : 2 ^ width ≤ 2 ^ i := Nat.pow_le_pow_right (by decide) (by omega)
    rw [Nat.testBit_lt_two_pow (by omega), Nat.testBit_lt_two_pow (by omega)]

/-- The bits of a list of numbers, one after the other. -/
def bitString (width : Nat) (xs : List Nat) : List Bool := xs.flatMap (bitsOf width)

@[simp] theorem bitString_nil (width : Nat) : bitString width [] = [] := rfl

@[simp] theorem bitString_cons (width x : Nat) (xs : List Nat) :
    bitString width (x :: xs) = bitsOf width x ++ bitString width xs := rfl

@[simp] theorem bitString_append (width : Nat) (xs ys : List Nat) :
    bitString width (xs ++ ys) = bitString width xs ++ bitString width ys := by
  rw [bitString, List.flatMap_append]
  rfl

@[simp] theorem length_bitString (width : Nat) (xs : List Nat) :
    (bitString width xs).length = width * xs.length := by
  induction xs with
  | nil => simp
  | cons x xs ih =>
    rw [bitString_cons, List.length_append, length_bitsOf, ih, List.length_cons, Nat.mul_succ,
      Nat.add_comm]

/-- Groups of a positive width can be read off their bits. -/
theorem bitString_inj {width : Nat} (hw : 0 < width) {xs ys : List Nat}
    (hx : ∀ x ∈ xs, x < 2 ^ width) (hy : ∀ y ∈ ys, y < 2 ^ width)
    (h : bitString width xs = bitString width ys) : xs = ys := by
  induction xs generalizing ys with
  | nil =>
    have hlen := congrArg List.length h
    rw [length_bitString, length_bitString, List.length_nil, Nat.mul_zero] at hlen
    have hzero : ys.length = 0 := by
      rcases Nat.mul_eq_zero.mp hlen.symm with hz | hz
      · omega
      · exact hz
    exact (List.length_eq_zero_iff.mp hzero).symm
  | cons x xs ih =>
    cases ys with
    | nil =>
      have hlen := congrArg List.length h
      rw [length_bitString, length_bitString, List.length_nil, Nat.mul_zero, List.length_cons,
        Nat.mul_succ] at hlen
      omega
    | cons y ys =>
      rw [bitString_cons, bitString_cons] at h
      obtain ⟨hhead, htail⟩ := List.append_inj h (by simp)
      obtain rfl := bitsOf_inj (hx x (by simp)) (hy y (by simp)) hhead
      rw [ih (fun z hz => hx z (by simp [hz])) (fun z hz => hy z (by simp [hz])) htail]

end Piggy.Core
