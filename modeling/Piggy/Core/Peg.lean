import Mathlib.Data.List.Basic

/-!
# Parsing expressions

A parsing expression either fails on an input or takes a part of its front. Choice is
ordered and repetition takes all it can; neither is taken back when what follows fails. So
an expression has one outcome on an input, and to know the outcome it is enough to give
one run.
-/

namespace Piggy.Core

/-- Parsing expressions over characters. -/
inductive Peg where
  | empty
  | char (p : Char → Bool)
  | seq (e f : Peg)
  | alt (e f : Peg)
  | star (e : Peg)
  | not (e : Peg)

namespace Peg

/-- One character. -/
def lit (c : Char) : Peg := .char (· == c)

/-- Any character. -/
def any : Peg := .char fun _ => true

/-- At most once. -/
def opt (e : Peg) : Peg := .alt e .empty

/-- At least once. -/
def plus (e : Peg) : Peg := .seq e (.star e)

/-- The end of the text. -/
def eof : Peg := .not any

/-- As many of one expression in front of another. -/
def times : Nat → Peg → Peg → Peg
  | 0, _, f => f
  | n + 1, e, f => .seq e (times n e f)

/-- What an expression does on an input: it fails, or it leaves a rest. -/
inductive Run : Peg → List Char → Option (List Char) → Prop
  | empty {s} : Run .empty s (some s)
  | charTaken {p c s} (h : p c = true) : Run (.char p) (c :: s) (some s)
  | charOther {p c s} (h : p c = false) : Run (.char p) (c :: s) none
  | charEnd {p} : Run (.char p) [] none
  | seqBoth {e f s s' r} (he : Run e s (some s')) (hf : Run f s' r) : Run (.seq e f) s r
  | seqFails {e f s} (he : Run e s none) : Run (.seq e f) s none
  | altFirst {e f s s'} (he : Run e s (some s')) : Run (.alt e f) s (some s')
  | altSecond {e f s r} (he : Run e s none) (hf : Run f s r) : Run (.alt e f) s r
  | starMore {e s s' s''} (he : Run e s (some s')) (hs : Run (.star e) s' (some s'')) :
      Run (.star e) s (some s'')
  | starDone {e s} (he : Run e s none) : Run (.star e) s (some s)
  | notFails {e s s'} (he : Run e s (some s')) : Run (.not e) s none
  | notTaken {e s} (he : Run e s none) : Run (.not e) s (some s)

/-- An expression has one outcome on an input. -/
theorem Run.unique {e : Peg} {s : List Char} {r r' : Option (List Char)} (h : Run e s r)
    (h' : Run e s r') : r = r' := by
  induction h generalizing r' with
  | empty =>
    cases h'
    rfl
  | charTaken hp =>
    cases h' with
    | charTaken _ => rfl
    | charOther hp' => exact absurd hp (by simp [hp'])
  | charOther hp =>
    cases h' with
    | charTaken hp' => exact absurd hp' (by simp [hp])
    | charOther _ => rfl
  | charEnd =>
    cases h'
    rfl
  | seqBoth _ _ ihe ihf =>
    cases h' with
    | seqBoth he' hf' =>
      cases ihe he'
      exact ihf hf'
    | seqFails he' => cases ihe he'
  | seqFails _ ihe =>
    cases h' with
    | seqBoth he' _ => cases ihe he'
    | seqFails _ => rfl
  | altFirst _ ihe =>
    cases h' with
    | altFirst he' => exact ihe he'
    | altSecond he' _ => cases ihe he'
  | altSecond _ _ ihe ihf =>
    cases h' with
    | altFirst he' => cases ihe he'
    | altSecond _ hf' => exact ihf hf'
  | starMore _ _ ihe ihs =>
    cases h' with
    | starMore he' hs' =>
      cases ihe he'
      exact ihs hs'
    | starDone he' => cases ihe he'
  | starDone _ ihe =>
    cases h' with
    | starMore he' _ => cases ihe he'
    | starDone _ => rfl
  | notFails _ ihe =>
    cases h' with
    | notFails _ => rfl
    | notTaken he' => cases ihe he'
  | notTaken _ ihe =>
    cases h' with
    | notFails he' => cases ihe he'
    | notTaken _ => rfl

/-! ## Runs of the derived forms -/

theorem run_lit_cons {c d : Char} {s : List Char} {r : Option (List Char)} :
    Run (lit c) (d :: s) r ↔ r = if d = c then some s else none := by
  have hrun : Run (lit c) (d :: s) (if d = c then some s else none) := by
    by_cases h : d = c
    · rw [if_pos h]
      exact .charTaken (by simpa using h)
    · rw [if_neg h]
      exact .charOther (by simpa using h)
  constructor
  · exact fun h => h.unique hrun
  · rintro rfl
    exact hrun

theorem run_eof {s : List Char} {r : Option (List Char)} :
    Run eof s r ↔ r = if s = [] then some [] else none := by
  have hrun : Run eof s (if s = [] then some [] else none) := by
    cases s with
    | nil => exact .notTaken .charEnd
    | cons c s => exact .notFails (.charTaken rfl)
  constructor
  · exact fun h => h.unique hrun
  · rintro rfl
    exact hrun

theorem run_char_some {p : Char → Bool} {s rest : List Char} :
    Run (.char p) s (some rest) ↔ ∃ c, s = c :: rest ∧ p c = true := by
  constructor
  · intro h
    cases h with
    | charTaken hc => exact ⟨_, rfl, hc⟩
  · rintro ⟨c, rfl, hc⟩
    exact .charTaken hc

theorem run_seq_some {e f : Peg} {s rest : List Char} :
    Run (.seq e f) s (some rest) ↔ ∃ s', Run e s (some s') ∧ Run f s' (some rest) := by
  constructor
  · intro h
    cases h with
    | seqBoth he hf => exact ⟨_, he, hf⟩
  · rintro ⟨s', he, hf⟩
    exact .seqBoth he hf

/-- Repeating a character class takes the longest front of it. -/
theorem run_star_char (p : Char → Bool) (s : List Char) :
    Run (.star (.char p)) s (some (s.dropWhile p)) := by
  induction s with
  | nil => exact .starDone .charEnd
  | cons c s ih =>
    rw [List.dropWhile_cons]
    by_cases h : p c = true
    · rw [if_pos h]
      exact .starMore (.charTaken h) ih
    · rw [if_neg h]
      exact .starDone (.charOther (by simpa using h))

/-- At least so many of a class. -/
theorem run_times_char {p : Char → Bool} {n : Nat} {s rest : List Char} :
    Run (times n (.char p) (.star (.char p))) s (some rest) ↔
      n ≤ (s.takeWhile p).length ∧ rest = s.dropWhile p := by
  induction n generalizing s with
  | zero =>
    constructor
    · intro h
      exact ⟨Nat.zero_le _, Option.some.inj (h.unique (run_star_char p s))⟩
    · rintro ⟨-, rfl⟩
      exact run_star_char p s
  | succ n ih =>
    rw [times, run_seq_some]
    constructor
    · rintro ⟨s', he, hf⟩
      obtain ⟨c, rfl, hc⟩ := run_char_some.mp he
      obtain ⟨hlen, hrest⟩ := ih.mp hf
      rw [List.takeWhile_cons, if_pos hc, List.dropWhile_cons, if_pos hc, List.length_cons]
      exact ⟨by omega, hrest⟩
    · rintro ⟨hlen, hrest⟩
      cases s with
      | nil => cases hlen
      | cons c s =>
        have hc : p c = true := by
          by_contra hc
          rw [List.takeWhile_cons, if_neg hc] at hlen
          cases hlen
        rw [List.takeWhile_cons, if_pos hc, List.length_cons] at hlen
        rw [List.dropWhile_cons, if_pos hc] at hrest
        exact ⟨s, .charTaken hc, ih.mpr ⟨by omega, hrest⟩⟩

/-- One or more of a class. -/
theorem run_plus_char {p : Char → Bool} {s rest : List Char} :
    Run (plus (.char p)) s (some rest) ↔ s.takeWhile p ≠ [] ∧ rest = s.dropWhile p := by
  have h : Run (plus (.char p)) s (some rest) ↔ _ := run_times_char (n := 1)
  rw [h, Nat.one_le_iff_ne_zero, ne_eq, List.length_eq_zero_iff]

/-- A repetition that takes one more before the rest goes on as from there. -/
theorem Run.starSeq {e f : Peg} {s s' : List Char} {r : Option (List Char)} (he : Run e s (some s'))
    (h : Run (.seq (.star e) f) s' r) : Run (.seq (.star e) f) s r := by
  cases h with
  | seqBoth hs hf => exact .seqBoth (.starMore he hs) hf
  | seqFails hs => cases hs

end Peg

end Piggy.Core
