import Piggy.Core.Runes
import Piggy.Core.Codec
import Piggy.Core.Lists

/-!
# What the Go packages take from the language

A Go string is a byte string, which may or may not be UTF-8. A call ends with a value, with
an error or in a panic. Case mapping goes rune by rune over the Unicode tables, of which
only the ASCII part is pinned here; so does the counting of cases over bytes.
-/

namespace Piggy.Go

open Piggy.Core

/-- A slice of bytes. -/
abbrev Bytes := List UInt8

/-- How a call ends. -/
inductive Result (ε α : Type) where
  | ok (a : α)
  | error (e : ε)
  | panic
  deriving DecidableEq

namespace Result

variable {ε α β : Type}

/-- An error or a panic ends what follows. -/
protected def bind : Result ε α → (α → Result ε β) → Result ε β
  | .ok a, f => f a
  | .error e, _ => .error e
  | .panic, _ => .panic

instance : Monad (Result ε) where
  pure := .ok
  bind := Result.bind

/-- A computation that cannot panic. -/
def lift : Except ε α → Result ε α
  | .ok a => .ok a
  | .error e => .error e

theorem bind_eq_ok {x : Result ε α} {f : α → Result ε β} {b : β} :
    (x >>= f) = .ok b ↔ ∃ a, x = .ok a ∧ f a = .ok b := by
  cases x with
  | ok a => simp [bind, Result.bind]
  | error e => simp [bind, Result.bind]
  | panic => simp [bind, Result.bind]

theorem bind_eq_panic {x : Result ε α} {f : α → Result ε β} :
    (x >>= f) = .panic ↔ x = .panic ∨ ∃ a, x = .ok a ∧ f a = .panic := by
  cases x with
  | ok a => simp [bind, Result.bind]
  | error e => simp [bind, Result.bind]
  | panic => simp [bind, Result.bind]

theorem bind_eq_error {x : Result ε α} {f : α → Result ε β} {e : ε} :
    (x >>= f) = .error e ↔ x = .error e ∨ ∃ a, x = .ok a ∧ f a = .error e := by
  cases x with
  | ok a => simp [bind, Result.bind]
  | error e => simp [bind, Result.bind]
  | panic => simp [bind, Result.bind]

theorem ok_bind (a : α) (f : α → Result ε β) : ((.ok a : Result ε α) >>= f) = f a := rfl

theorem pure_eq_ok {a b : α} : (pure a : Result ε α) = .ok b ↔ a = b := by
  simp [pure]

theorem pure_ne_error {a : α} {e : ε} : (pure a : Result ε α) ≠ .error e := nofun

theorem guard_eq_ok {c : Prop} [Decidable c] {e : ε} {x : Result ε α} {a : α} :
    (if c then .error e else x) = .ok a ↔ ¬ c ∧ x = .ok a := by
  by_cases hc : c <;> simp [hc]

theorem lift_eq_ok {x : Except ε α} {a : α} : lift x = .ok a ↔ x = .ok a := by
  cases x <;> simp [lift]

theorem lift_eq_error {x : Except ε α} {e : ε} : lift x = .error e ↔ x = .error e := by
  cases x <;> simp [lift]

theorem lift_ne_panic (x : Except ε α) : lift x ≠ .panic := by
  cases x <;> simp [lift]

/-- A loop that ends has made every turn. -/
theorem turn_of_foldlM {σ : Type} {f : σ → α → Result ε σ} {as : List α} {s s' : σ}
    (h : as.foldlM f s = .ok s') {a : α} (ha : a ∈ as) : ∃ t t', f t a = .ok t' := by
  induction as generalizing s with
  | nil => cases ha
  | cons b as ih =>
    rw [List.foldlM_cons, bind_eq_ok] at h
    obtain ⟨mid, hmid, hrest⟩ := h
    rcases List.mem_cons.mp ha with rfl | hmem
    · exact ⟨s, mid, hmid⟩
    · exact ih hrest hmem

/-- What every turn of a loop keeps, the loop keeps. -/
theorem foldlM_keeps {σ : Type} {P : σ → Prop} {f : σ → α → Result ε σ} {as : List α} {s s' : σ}
    (hturn : ∀ s, ∀ a ∈ as, ∀ s', P s → f s a = .ok s' → P s') (hs : P s)
    (h : as.foldlM f s = .ok s') : P s' := by
  induction as generalizing s with
  | nil =>
    cases h
    exact hs
  | cons a as ih =>
    rw [List.foldlM_cons, bind_eq_ok] at h
    obtain ⟨mid, hmid, hrest⟩ := h
    exact ih (fun s b hb => hturn s b (List.mem_cons_of_mem a hb))
      (hturn s a List.mem_cons_self mid hs hmid) hrest

/-- A call that neither panics nor returns a value returns an error. -/
theorem eq_error {x : Result ε α} (hp : x ≠ .panic) (hok : ∀ a, x ≠ .ok a) : ∃ e, x = .error e := by
  cases x with
  | ok a => exact absurd rfl (hok a)
  | error e => exact ⟨e, rfl⟩
  | panic => exact absurd rfl hp

end Result

/-! ## Cases -/

/-- The case mappings of Unicode and the counting of letters by case: lower, without case,
upper. -/
structure CaseTables where
  toLower : Char → Char
  toUpper : Char → Char
  countCase : Bytes → Nat × Nat × Nat
  toLower_ascii : ∀ c, c.toNat < 128 → toLower c = c.toLower
  toUpper_ascii : ∀ c, c.toNat < 128 → toUpper c = c.toUpper
  countLower_ascii : ∀ s, IsAscii s → (countCase s).1 = s.countP fun b => (asciiChar b).isLower
  countUpper_ascii : ∀ s, IsAscii s → (countCase s).2.2 = s.countP fun b => (asciiChar b).isUpper

/-- Tables that know ASCII letters only. -/
def asciiTables : CaseTables where
  toLower := Char.toLower
  toUpper := Char.toUpper
  countCase s := (s.countP fun b => (asciiChar b).isLower,
    s.countP fun b => !(asciiChar b).isAlpha, s.countP fun b => (asciiChar b).isUpper)
  toLower_ascii _ _ := rfl
  toUpper_ascii _ _ := rfl
  countLower_ascii _ _ := rfl
  countUpper_ascii _ _ := rfl

/-- `strings.ToLower`: the runes in lower case, a byte that starts no character as the
replacement rune. -/
def toLower (t : CaseTables) (s : Bytes) : Bytes := utf8 ((runes s).map fun r => t.toLower r.2)

/-- `strings.ToUpper`. -/
def toUpper (t : CaseTables) (s : Bytes) : Bytes := utf8 ((runes s).map fun r => t.toUpper r.2)

theorem charToLower_eq_self {c : Char} : c.toLower = c ↔ c.isUpper = false := by
  by_cases h : c.val ≥ 'A'.val ∧ c.val ≤ 'Z'.val
  · have hlower : c.toLower = ⟨c.val + ('a'.val - 'A'.val), _⟩ := dif_pos h
    have hup : c.isUpper = true := decide_eq_true h
    rw [hlower, hup]
    refine iff_of_false ?_ (by decide)
    intro he
    have hval := congrArg (fun c => c.val.toNat) he
    have h₁ := UInt32.le_iff_toNat_le.mp h.1
    have h₂ := UInt32.le_iff_toNat_le.mp h.2
    have ha : 'A'.val.toNat = 65 := rfl
    have hz : 'Z'.val.toNat = 90 := rfl
    have hadd : (c.val + ('a'.val - 'A'.val)).toNat = c.val.toNat + 32 := by
      rw [UInt32.toNat_add, show ('a'.val - 'A'.val).toNat = 32 from rfl]
      omega
    simp only [hadd] at hval
    omega
  · have hlower : c.toLower = c := dif_neg h
    have hup : c.isUpper = false := decide_eq_false h
    rw [hlower, hup]
    simp

/-- ASCII text is its own lower case exactly when it has no upper case in it. -/
theorem toLower_eq_self (t : CaseTables) {s : Bytes} (h : IsAscii s) :
    toLower t s = s ↔ ∀ b ∈ s, (asciiChar b).isUpper = false := by
  have hruns : (runes s).map (fun r => t.toLower r.2) = (s.map asciiChar).map Char.toLower := by
    rw [← runes_ascii h, List.map_map]
    apply List.map_congr_left
    intro r hr
    refine t.toLower_ascii _ ?_
    have hmem : r.2 ∈ s.map asciiChar := by
      rw [← runes_ascii h]
      exact List.mem_map_of_mem hr
    obtain ⟨b, hb, hbc⟩ := List.mem_map.mp hmem
    rw [← hbc, toNat_asciiChar]
    exact h b hb
  rw [toLower, hruns]
  constructor
  · intro he b hb
    have hchars := utf8_inj (he.trans (utf8_map_asciiChar h).symm)
    rw [← charToLower_eq_self]
    rw [List.map_eq_iff] at hchars
    obtain ⟨i, hi, rfl⟩ := List.mem_iff_getElem.mp hb
    have hget := hchars i
    simpa [hi] using hget.symm
  · intro hlow
    have hid : (s.map asciiChar).map Char.toLower = s.map asciiChar := by
      rw [List.map_map]
      apply List.map_congr_left
      intro b hb
      exact charToLower_eq_self.mpr (hlow b hb)
    rw [hid, utf8_map_asciiChar h]

end Piggy.Go
