import Mathlib.Data.List.Infix
import Mathlib.Data.List.Range

/-!
# Drawing from a stream

From an endless stream the elements of a kind are drawn in their order. The stream comes in
pieces; what is drawn does not depend on where it is cut.
-/

namespace Piggy.Core

variable {α : Type} (accept : α → Bool) (stream : Nat → α)

/-- The elements of the kind among the first ones of the stream. -/
def accepted (n : Nat) : List α := ((List.range n).map stream).filter accept

/-- The first elements of the kind, so many of them. -/
def Drawn (k : Nat) (out : List α) : Prop := ∃ n, out = accepted accept stream n ∧ out.length = k

/-- Elements of the kind keep occurring. -/
def Recurring : Prop := ∀ n, ∃ m, n ≤ m ∧ accept (stream m) = true

variable {accept stream}

theorem accepted_add (n m : Nat) :
    accepted accept stream (n + m) =
      accepted accept stream n ++ ((List.range m).map fun i => stream (n + i)).filter accept := by
  rw [accepted, List.range_add, List.map_append, List.filter_append, List.map_map]
  rfl

theorem accepted_isPrefix {n m : Nat} (h : n ≤ m) :
    accepted accept stream n <+: accepted accept stream m := by
  obtain ⟨d, rfl⟩ := Nat.exists_eq_add_of_le h
  rw [accepted_add]
  exact List.prefix_append _ _

theorem length_accepted_le {n m : Nat} (h : n ≤ m) :
    (accepted accept stream n).length ≤ (accepted accept stream m).length :=
  (accepted_isPrefix h).length_le

/-- A kind that keeps occurring is drawn as often as wanted. -/
theorem Recurring.exists_length (h : Recurring accept stream) (k : Nat) :
    ∃ n, k ≤ (accepted accept stream n).length := by
  induction k with
  | zero => exact ⟨0, Nat.zero_le _⟩
  | succ k ih =>
    obtain ⟨n, hn⟩ := ih
    obtain ⟨m, hm, haccept⟩ := h n
    refine ⟨m + 1, ?_⟩
    have hmore : (accepted accept stream n).length ≤ (accepted accept stream m).length :=
      length_accepted_le hm
    rw [accepted_add, List.length_append]
    simp only [List.range_one, List.map_cons, List.map_nil, Nat.add_zero,
      List.filter_cons_of_pos haccept, List.filter_nil, List.length_singleton]
    omega

/-! ## Pieces -/

/-- Where a piece starts. -/
def pieceStart (sizes : Nat → Nat) : Nat → Nat
  | 0 => 0
  | i + 1 => pieceStart sizes i + sizes i

/-- A piece of the stream. -/
def piece (stream : Nat → α) (sizes : Nat → Nat) (i : Nat) : List α :=
  (List.range (sizes i)).map fun j => stream (pieceStart sizes i + j)

theorem le_pieceStart {sizes : Nat → Nat} (h : ∀ i, 0 < sizes i) (i : Nat) :
    i ≤ pieceStart sizes i := by
  induction i with
  | zero => exact Nat.le_refl 0
  | succ i ih =>
    have hi := h i
    rw [pieceStart]
    omega

theorem accepted_pieceStart_succ (sizes : Nat → Nat) (i : Nat) :
    accepted accept stream (pieceStart sizes (i + 1)) =
      accepted accept stream (pieceStart sizes i) ++ (piece stream sizes i).filter accept := by
  rw [pieceStart, accepted_add, piece]

/-- The front of a piece belongs to the front of the stream. -/
theorem accepted_front {sizes : Nat → Nat} {i : Nat} {front : List α}
    (h : front <+: piece stream sizes i) :
    accepted accept stream (pieceStart sizes i) ++ front.filter accept =
      accepted accept stream (pieceStart sizes i + front.length) := by
  have hfront : front = (List.range front.length).map fun j => stream (pieceStart sizes i + j) := by
    have hle : front.length ≤ sizes i := by
      have hlength := h.length_le
      rwa [piece, List.length_map, List.length_range] at hlength
    rw [List.prefix_iff_eq_take.mp h, piece, List.map_take.symm, List.take_range,
      List.length_map, List.length_range, Nat.min_eq_left (by omega)]
  rw [accepted_add, ← hfront]

end Piggy.Core
