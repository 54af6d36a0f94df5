import Mathlib.Data.List.Basic
import Mathlib.Tactic.Ring

/-!
# Cursors, exact readers and big-endian words

A cursor is a byte offset together with the bytes that follow it. A reader is
exact for an encoder when it accepts precisely the encodings of the admissible
values and stops precisely behind them. Exactness is an equivalence, so one
statement serves both the soundness and the completeness of a reader.
-/

namespace Piggy.Core

/-- Byte strings that compare equal are equal. -/
instance lawfulBEq_bytes : LawfulBEq (List UInt8) := inferInstance

/-- Texts that compare equal are equal. -/
instance lawfulBEq_text : LawfulBEq (List Char) := inferInstance

/-- A bound computation succeeds exactly when both of its halves do. -/
theorem bind_ok {ε α β : Type} {x : Except ε α} {f : α → Except ε β} {b : β} :
    (x >>= f) = .ok b ↔ ∃ a, x = .ok a ∧ f a = .ok b := by
  cases x with
  | error e => simp [bind, Except.bind]
  | ok a => simp [bind, Except.bind]

/-- A returned value is passed on. -/
theorem ok_bind {ε α β : Type} (a : α) (f : α → Except ε β) :
    ((.ok a : Except ε α) >>= f) = f a := rfl

/-- A mapped computation succeeds exactly when its argument does. -/
theorem map_ok {ε α β : Type} {x : Except ε α} {f : α → β} {b : β} :
    (f <$> x) = .ok b ↔ ∃ a, x = .ok a ∧ f a = b := by
  cases x with
  | error e => simp [Functor.map, Except.map]
  | ok a => simp [Functor.map, Except.map]

/-- Renaming the errors of a computation does not change when it succeeds. -/
theorem mapError_ok {ε ε' α : Type} {x : Except ε α} {f : ε → ε'} {a : α} :
    x.mapError f = .ok a ↔ x = .ok a := by
  cases x with
  | error e => simp [Except.mapError]
  | ok a => simp [Except.mapError]

/-- A successful return gives back exactly the returned value. -/
theorem pure_ok {ε α : Type} {a b : α} : (pure a : Except ε α) = .ok b ↔ a = b := by
  simp [pure, Except.pure]

/-- A checked computation succeeds exactly when the check lets it through and it
succeeds itself. -/
theorem guard_ok {ε α : Type} {c : Prop} [Decidable c] {e : ε} {x : Except ε α} {a : α} :
    (if c then .error e else x) = .ok a ↔ ¬ c ∧ x = .ok a := by
  by_cases hc : c <;> simp [hc]

/-- Of two failures neither succeeds. -/
theorem error_ok_iff {ε ε' α β : Type} {e : ε} {e' : ε'} {a : α} {b : β} :
    (.error e : Except ε α) = .ok a ↔ (.error e' : Except ε' β) = .ok b := by
  constructor
  · intro h
    cases h
  · intro h
    cases h

/-- Of two failures neither has a value. -/
theorem error_ok_exists {ε ε' α β : Type} {e : ε} {e' : ε'} {a : α} {p : β → Prop} :
    (.error e : Except ε α) = .ok a ↔ ∃ b, (.error e' : Except ε' β) = .ok b ∧ p b := by
  constructor
  · intro h
    cases h
  · rintro ⟨_, h, -⟩
    cases h

/-- A computation that is seen to succeed has a result. -/
theorem exists_ok {ε α : Type} {x : Except ε α} (h : x.isOk = true) : ∃ a, x = .ok a := by
  cases x with
  | error e => cases h
  | ok a => exact ⟨a, rfl⟩

/-! ## Cursors -/

/-- An offset into a byte string and the bytes from that offset on. -/
structure Cursor where
  /-- The number of bytes already read. -/
  pos : Nat
  /-- The bytes not read yet. -/
  rest : List UInt8
  deriving DecidableEq

/-- The cursor behind the first `n` unread bytes. -/
def Cursor.advance (c : Cursor) (n : Nat) : Cursor := ⟨c.pos + n, c.rest.drop n⟩

/-- The bytes between two cursors of one byte string. -/
def Spans (c c' : Cursor) (used : List UInt8) : Prop :=
  c.rest = used ++ c'.rest ∧ c'.pos = c.pos + used.length

/-- A reader is exact for an encoder on the admissible values: it returns a value
precisely when the unread bytes start with that value's encoding, and it stops
right behind that encoding. -/
def Exact {ε α : Type} (p : Cursor → Except ε (α × Cursor)) (enc : α → List UInt8)
    (adm : α → Prop) : Prop :=
  ∀ c a c', p c = .ok (a, c') ↔ adm a ∧ Spans c c' (enc a)

/-- What an exact reader returns is admissible and spans its own encoding. -/
theorem Exact.spans {ε α : Type} {p : Cursor → Except ε (α × Cursor)}
    {enc : α → List UInt8} {adm : α → Prop} (h : Exact p enc adm) {c c' : Cursor} {a : α}
    (ha : p c = .ok (a, c')) : adm a ∧ Spans c c' (enc a) :=
  (h _ _ _).mp ha

/-- A reader takes exactly the given bytes for the given value, wherever they stand
and whatever follows them. -/
def Reads {ε α : Type} (p : Cursor → Except ε (α × Cursor)) (bytes : List UInt8) (a : α) : Prop :=
  ∀ pos tail, p ⟨pos, bytes ++ tail⟩ = .ok (a, ⟨pos + bytes.length, tail⟩)

/-- An exact reader reads back the encoding of an admissible value. -/
theorem Exact.reads {ε α : Type} {p : Cursor → Except ε (α × Cursor)}
    {enc : α → List UInt8} {adm : α → Prop} (h : Exact p enc adm) {a : α} (ha : adm a) :
    Reads p (enc a) a :=
  fun _ _ => (h _ _ _).mpr ⟨ha, rfl, rfl⟩

/-- Reading the bytes of a span gives the value and the end of the span. -/
theorem Reads.of_spans {ε α : Type} {p : Cursor → Except ε (α × Cursor)} {bytes : List UInt8} {a : α}
    (h : Reads p bytes a) {c c' : Cursor} (hs : Spans c c' bytes) : p c = .ok (a, c') := by
  obtain ⟨pos, rest⟩ := c
  obtain ⟨pos', rest'⟩ := c'
  obtain ⟨hr, hp⟩ := hs
  dsimp only at hr hp
  subst hr hp
  exact h pos rest'

/-- A cursor spans nothing up to itself. -/
theorem Spans.refl (c : Cursor) : Spans c c [] := ⟨rfl, rfl⟩

/-- Consecutive spans join. -/
theorem Spans.trans {c c' c'' : Cursor} {u v : List UInt8} (h : Spans c c' u)
    (h' : Spans c' c'' v) : Spans c c'' (u ++ v) := by
  obtain ⟨hr, hp⟩ := h
  obtain ⟨hr', hp'⟩ := h'
  refine ⟨?_, ?_⟩
  · rw [hr, hr', List.append_assoc]
  · rw [hp', hp, List.length_append, Nat.add_assoc]

/-- The end of a span is determined by its start and its bytes. -/
theorem Spans.end_unique {c c' c'' : Cursor} {u : List UInt8} (h : Spans c c' u)
    (h' : Spans c c'' u) : c' = c'' := by
  obtain ⟨hr, hp⟩ := h
  obtain ⟨hr', hp'⟩ := h'
  have he : c'.rest = c''.rest := List.append_cancel_left (hr.symm.trans hr')
  cases c'
  cases c''
  simp_all

/-! ## Big-endian words -/

/-- The `width` big-endian bytes of a number, truncated to that width. -/
def toBe : Nat → Nat → List UInt8
  | 0, _ => []
  | width + 1, n => UInt8.ofNat (n / 256 ^ width) :: toBe width n

/-- The number that a big-endian byte string spells. -/
def ofBe (bs : List UInt8) : Nat := bs.foldl (fun acc b => acc * 256 + b.toNat) 0

@[simp] theorem length_toBe (width n : Nat) : (toBe width n).length = width := by
  induction width with
  | zero => rfl
  | succ width ih => simp [toBe, ih]

private theorem foldl_ofBe (bs : List UInt8) (acc : Nat) :
    bs.foldl (fun acc b => acc * 256 + b.toNat) acc = acc * 256 ^ bs.length + ofBe bs := by
  induction bs generalizing acc with
  | nil => simp [ofBe]
  | cons b bs ih =>
    have hb : ofBe (b :: bs) = b.toNat * 256 ^ bs.length + ofBe bs := by
      rw [ofBe, List.foldl_cons, ih]
      simp
    rw [List.foldl_cons, ih, hb, List.length_cons, pow_succ]
    ring

/-- The leading byte carries the weight of the bytes behind it. -/
theorem ofBe_cons (b : UInt8) (bs : List UInt8) :
    ofBe (b :: bs) = b.toNat * 256 ^ bs.length + ofBe bs := by
  rw [ofBe, List.foldl_cons, foldl_ofBe]
  simp

/-- A byte string of a width spells a number below that width's bound. -/
theorem ofBe_lt (bs : List UInt8) : ofBe bs < 256 ^ bs.length := by
  induction bs with
  | nil => simp [ofBe]
  | cons b bs ih =>
    have hb : b.toNat < 256 := b.toNat_lt
    rw [ofBe_cons, List.length_cons, pow_succ]
    calc b.toNat * 256 ^ bs.length + ofBe bs
        < b.toNat * 256 ^ bs.length + 256 ^ bs.length := by omega
      _ = (b.toNat + 1) * 256 ^ bs.length := by ring
      _ ≤ 256 * 256 ^ bs.length := Nat.mul_le_mul_right _ hb
      _ = 256 ^ bs.length * 256 := Nat.mul_comm _ _

theorem ofBe_append (bs bs' : List UInt8) :
    ofBe (bs ++ bs') = ofBe bs * 256 ^ bs'.length + ofBe bs' := by
  induction bs with
  | nil => simp [ofBe]
  | cons b bs ih =>
    rw [List.cons_append, ofBe_cons, ih, ofBe_cons, List.length_append, pow_add]
    ring

/-- Zeros in front add nothing to a number. -/
theorem ofBe_replicate_zero (k : Nat) (bs : List UInt8) :
    ofBe (List.replicate k 0 ++ bs) = ofBe bs := by
  induction k with
  | zero => rfl
  | succ k ih =>
    rw [List.replicate_succ, List.cons_append, ofBe_cons, ih]
    simp

/-- Reading the bytes of a number back gives it modulo the width's bound. -/
theorem ofBe_toBe (width n : Nat) : ofBe (toBe width n) = n % 256 ^ width := by
  induction width with
  | zero => simp [toBe, ofBe, Nat.mod_one]
  | succ width ih =>
    have hm : n % 256 ^ (width + 1) = n % 256 ^ width + 256 ^ width * (n / 256 ^ width % 256) := by
      rw [pow_succ, Nat.mod_mul]
    rw [toBe, ofBe_cons, ih, length_toBe, hm, UInt8.toNat_ofNat', Nat.add_comm, Nat.mul_comm]

/-- Writing the number a byte string spells at its width gives the string back. -/
theorem toBe_ofBe_add (width k : Nat) (bs : List UInt8) (hw : bs.length = width) :
    toBe width (k * 256 ^ width + ofBe bs) = bs := by
  induction width generalizing k bs with
  | zero => simp [toBe, List.length_eq_zero_iff.mp hw]
  | succ width ih =>
    obtain ⟨b, bs, rfl⟩ : ∃ b bs', bs = b :: bs' := List.exists_cons_of_length_eq_add_one hw
    have hl : bs.length = width := by simpa using hw
    have hlt : ofBe bs < 256 ^ width := hl ▸ ofBe_lt bs
    have he : k * 256 ^ (width + 1) + ofBe (b :: bs) =
        (k * 256 + b.toNat) * 256 ^ width + ofBe bs := by
      rw [ofBe_cons, hl, pow_succ]
      ring
    rw [he, toBe, ih _ _ hl]
    congr 1
    have hd : ((k * 256 + b.toNat) * 256 ^ width + ofBe bs) / 256 ^ width = k * 256 + b.toNat := by
      rw [Nat.mul_comm, Nat.mul_add_div (Nat.pow_pos (by decide)), Nat.div_eq_of_lt hlt, Nat.add_zero]
    rw [hd]
    apply UInt8.toNat_inj.mp
    simp

/-- Writing the number a byte string spells at its width gives the string back. -/
theorem toBe_ofBe {width : Nat} {bs : List UInt8} (hw : bs.length = width) :
    toBe width (ofBe bs) = bs := by
  simpa using toBe_ofBe_add width 0 bs hw

end Piggy.Core
