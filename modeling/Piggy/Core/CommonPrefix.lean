import Mathlib.Data.List.Lex
import Mathlib.Order.Bounds.Basic

/-!
# Common prefixes

How far two lists agree. In a sorted list the longest prefix that an element shares with any
other one is shared with a neighbour.
-/

namespace Piggy.Core

section

variable {α : Type} [DecidableEq α]

/-- The number of shared leading elements. -/
def commonPrefixLen (a b : List α) : Nat := ((a.zip b).takeWhile fun p => p.1 = p.2).length

@[simp] theorem commonPrefixLen_nil (b : List α) : commonPrefixLen [] b = 0 := rfl

@[simp] theorem commonPrefixLen_nil_right (a : List α) : commonPrefixLen a [] = 0 := by
  cases a <;> rfl

theorem commonPrefixLen_cons (x y : α) (a b : List α) :
    commonPrefixLen (x :: a) (y :: b) = if x = y then commonPrefixLen a b + 1 else 0 := by
  rw [commonPrefixLen, List.zip_cons_cons, List.takeWhile_cons]
  by_cases h : x = y
  · rw [if_pos h, if_pos (by simpa using h), List.length_cons, commonPrefixLen]
  · rw [if_neg h, if_neg (by simpa using h), List.length_nil]

theorem commonPrefixLen_comm (a b : List α) : commonPrefixLen a b = commonPrefixLen b a := by
  induction a generalizing b with
  | nil => rw [commonPrefixLen_nil, commonPrefixLen_nil_right]
  | cons x a ih =>
    cases b with
    | nil => rw [commonPrefixLen_nil, commonPrefixLen_nil_right]
    | cons y b =>
      rw [commonPrefixLen_cons, commonPrefixLen_cons, ih b]
      by_cases h : x = y
      · rw [if_pos h, if_pos h.symm]
      · rw [if_neg h, if_neg (Ne.symm h)]

/-- The prefixes of a list that are prefixes of another one. -/
theorem take_isPrefix_iff {n : Nat} {a b : List α} (hn : n ≤ a.length) :
    a.take n <+: b ↔ n ≤ commonPrefixLen a b := by
  induction a generalizing n b with
  | nil =>
    obtain rfl : n = 0 := Nat.le_zero.mp hn
    simp
  | cons x a ih =>
    cases n with
    | zero => simp
    | succ n =>
      cases b with
      | nil => simp
      | cons y b =>
        rw [List.take_succ_cons, List.cons_prefix_cons, commonPrefixLen_cons,
          ih (Nat.le_of_succ_le_succ hn)]
        by_cases h : x = y
        · simp [h]
        · simp [h]

end

section

variable {α : Type} [LinearOrder α]

theorem cons_le_cons_lex {x y : α} {a b : List α} : x :: a ≤ y :: b ↔ x < y ∨ x = y ∧ a ≤ b := by
  rw [← not_lt, ← not_lt]
  change ¬ List.Lex (· < ·) (y :: b) (x :: a) ↔ x < y ∨ x = y ∧ ¬ List.Lex (· < ·) b a
  rw [List.cons_lex_cons_iff]
  rcases lt_trichotomy x y with h | h | h
  · simp [h, h.ne', lt_asymm h]
  · simp [h]
  · simp [h, h.ne', lt_asymm h]

/-- A list between two others shares with each of them what they share. -/
theorem commonPrefixLen_between {a b c : List α} (hab : a ≤ b) (hbc : b ≤ c) :
    commonPrefixLen a c ≤ commonPrefixLen a b ∧ commonPrefixLen a c ≤ commonPrefixLen b c := by
  induction a generalizing b c with
  | nil => simp
  | cons x a ih =>
    cases c with
    | nil => simp
    | cons z c =>
      by_cases hxz : x = z
      · subst hxz
        cases b with
        | nil => exact absurd hab (by simp)
        | cons y b =>
          rw [cons_le_cons_lex] at hab hbc
          rcases hab with hxy | ⟨rfl, hab⟩
          · rcases hbc with hyx | ⟨rfl, -⟩
            · exact absurd hyx (lt_asymm hxy)
            · exact absurd hxy (lt_irrefl _)
          · rcases hbc with hxx | ⟨-, hbc⟩
            · exact absurd hxx (lt_irrefl _)
            · obtain ⟨hl, hr⟩ := ih hab hbc
              simp only [commonPrefixLen_cons, if_true]
              exact ⟨Nat.succ_le_succ hl, Nat.succ_le_succ hr⟩
      · rw [commonPrefixLen_cons, if_neg hxz]
        exact ⟨Nat.zero_le _, Nat.zero_le _⟩

/-- Ahead in a sorted list the next element shares the most. -/
theorem commonPrefixLen_le_next {v : List (List α)} (h : v.Pairwise (· ≤ ·)) {i j : Nat}
    (hij : i < j) (hj : j < v.length) :
    commonPrefixLen v[i] v[j] ≤ commonPrefixLen v[i] v[i + 1] := by
  have hle := List.pairwise_iff_getElem.mp h
  rcases Nat.eq_or_lt_of_le (Nat.succ_le_of_lt hij) with heq | hlt
  · subst heq
    exact le_rfl
  · have hnext : v[i] ≤ v[i + 1] := hle i (i + 1) _ _ (Nat.lt_succ_self i)
    exact (commonPrefixLen_between hnext (hle (i + 1) j _ _ hlt)).1

/-- Behind it the previous one does. -/
theorem commonPrefixLen_le_prev {v : List (List α)} (h : v.Pairwise (· ≤ ·)) {i j : Nat}
    (hji : j < i) (hi : i < v.length) :
    commonPrefixLen v[i] v[j] ≤ commonPrefixLen v[i] v[i - 1] := by
  have hle := List.pairwise_iff_getElem.mp h
  rcases Nat.eq_or_lt_of_le (Nat.le_sub_one_of_lt hji) with heq | hlt
  · subst heq
    exact le_rfl
  · have hprev : v[i - 1] ≤ v[i] := hle (i - 1) i _ _ (by omega)
    rw [commonPrefixLen_comm v[i], commonPrefixLen_comm v[i]]
    exact (commonPrefixLen_between (hle j (i - 1) _ _ hlt) hprev).2

end

end Piggy.Core
