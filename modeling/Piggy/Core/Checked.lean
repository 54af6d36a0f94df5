import Piggy.Core.Codec

/-!
# Programs that check their bounds

A program over lists and machine numbers returns a value or an error, and is stopped where it
reads out of bounds. That a program is never stopped, and what its value is like, follows from
its parts.
-/

namespace Piggy.Core

/-- What a program comes to. -/
inductive Checked (α : Type) where
  | stopped
  | failed (message : String)
  | ok (a : α)
  deriving DecidableEq

namespace Checked

variable {α β : Type}

instance : Monad Checked where
  pure := ok
  bind x f :=
    match x with
    | stopped => stopped
    | failed message => failed message
    | ok a => f a

@[simp]
theorem ok_bind (a : α) (f : α → Checked β) : (ok a >>= f) = f a := rfl

@[simp]
theorem failed_bind (message : String) (f : α → Checked β) :
    (failed message >>= f) = failed message := rfl

/-- A computation that reads nothing. -/
def ofExcept : Except String α → Checked α
  | .error message => failed message
  | .ok a => ok a

@[simp]
theorem ofExcept_ok (a : α) : ofExcept (.ok a) = ok a := rfl

/-- The element at a place. -/
def get (xs : List α) (i : Nat) : Checked α :=
  match xs[i]? with
  | none => stopped
  | some x => ok x

/-- The elements from one place up to another. -/
def slice (xs : List α) (start stop : Nat) : Checked (List α) :=
  if start ≤ stop ∧ stop ≤ xs.length then ok ((xs.take stop).drop start) else stopped

/-- The sum of two machine numbers of 64 bits. -/
def checkedAdd (a b : Nat) (message : String) : Checked Nat :=
  if a + b < 2 ^ 64 then ok (a + b) else failed message

theorem get_append {xs front back : List α} {x : α} {i : Nat} (h : xs = front ++ x :: back)
    (hi : i = front.length) : get xs i = ok x := by
  rw [get, h, hi, List.getElem?_append_right (Nat.le_refl _), Nat.sub_self]
  rfl

theorem slice_append {xs middle : List α} (front back : List α) {start stop : Nat}
    (h : xs = front ++ middle ++ back) (hstart : start = front.length)
    (hstop : stop = front.length + middle.length) : slice xs start stop = ok middle := by
  have hbound : start ≤ stop ∧ stop ≤ xs.length := by
    rw [h, List.length_append, List.length_append]
    omega
  rw [slice, if_pos hbound, h, hstart, hstop, ← List.length_append, List.take_left, List.drop_left]

theorem checkedAdd_of_lt {a b : Nat} (h : a + b < 2 ^ 64) (message : String) :
    checkedAdd a b message = ok (a + b) := if_pos h

/-! ## What a program answers -/

/-- A program is not stopped, and if it returns a value the condition holds of it. -/
def Answers (x : Checked α) (post : α → Prop) : Prop :=
  match x with
  | stopped => False
  | failed _ => True
  | ok a => post a

theorem answers_ok {a : α} {post : α → Prop} (h : post a) : Answers (ok a) post := h

theorem answers_failed (message : String) (post : α → Prop) : Answers (failed message) post :=
  trivial

theorem Answers.mono {x : Checked α} {post post' : α → Prop} (h : Answers x post)
    (hpost : ∀ a, post a → post' a) : Answers x post' := by
  cases x with
  | stopped => exact h
  | failed message => trivial
  | ok a => exact hpost a h

theorem Answers.bind {x : Checked α} {f : α → Checked β} {mid : α → Prop} {post : β → Prop}
    (h : Answers x mid) (hf : ∀ a, mid a → Answers (f a) post) : Answers (x >>= f) post := by
  cases x with
  | stopped => exact h
  | failed message => trivial
  | ok a => exact hf a h

/-- Of a program that is not stopped there is an error or a value. -/
theorem Answers.cases {x : Checked α} {post : α → Prop} (h : Answers x post) :
    (∃ message, x = failed message) ∨ ∃ a, x = ok a ∧ post a := by
  cases x with
  | stopped => exact absurd h id
  | failed message => exact .inl ⟨message, rfl⟩
  | ok a => exact .inr ⟨a, rfl, h⟩

theorem answers_get {xs : List α} {i : Nat} (h : i < xs.length) :
    Answers (get xs i) fun _ => True := by
  rw [get, List.getElem?_eq_getElem h]
  trivial

theorem answers_slice {xs : List α} {start stop : Nat} (h : start ≤ stop) (h' : stop ≤ xs.length) :
    Answers (slice xs start stop) fun ys => ys = (xs.take stop).drop start := by
  rw [slice, if_pos ⟨h, h'⟩]
  rfl

theorem answers_checkedAdd (a b : Nat) (message : String) :
    Answers (checkedAdd a b message) fun c => c = a + b := by
  rw [checkedAdd]
  split
  · rfl
  · trivial

theorem answers_ofExcept {x : Except String α} {post : α → Prop}
    (h : ∀ a, x = .ok a → post a) : Answers (ofExcept x) post := by
  cases x with
  | error message => trivial
  | ok a => exact h a rfl

/-- Both programs fail, or both return the same value. -/
inductive Same : Checked α → Checked α → Prop where
  | failed (message message' : String) : Same (.failed message) (.failed message')
  | ok (a : α) : Same (.ok a) (.ok a)

/-! ## Following a program that checks nothing -/

/-- A program fails as another one does, or returns what goes with its value. -/
def Follows {ε : Type} (text : ε → String) (rel : α → β → Prop) : Checked α → Except ε β → Prop
  | failed message, .error e => message = text e
  | ok a, .ok b => rel a b
  | _, _ => False

section

variable {ε : Type} {text : ε → String} {rel : α → β → Prop} {x : Checked α} {y : Except ε β}

theorem Follows.bind {γ δ : Type} {rel' : γ → δ → Prop} {f : α → Checked γ} {g : β → Except ε δ}
    (h : Follows text rel x y) (hf : ∀ a b, rel a b → Follows text rel' (f a) (g b)) :
    Follows text rel' (x >>= f) (y >>= g) := by
  cases x with
  | stopped => cases y <;> exact h.elim
  | failed message =>
    cases y with
    | error e => exact h
    | ok b => exact h.elim
  | ok a =>
    cases y with
    | error e => exact h.elim
    | ok b => exact hf a b h

theorem follows_ofExcept (y : Except ε β) : Follows text Eq (ofExcept (y.mapError text)) y := by
  cases y with
  | error e => rfl
  | ok b => rfl

theorem Follows.of_ok {a : α} (h : Follows text rel (ok a) y) : ∃ b, y = .ok b ∧ rel a b := by
  cases y with
  | error e => exact h.elim
  | ok b => exact ⟨b, rfl, h⟩

/-- What holds of the value that the other program returns holds of this one's. -/
theorem Follows.and_ok {y : Except ε α} {post : α → Prop} (h : Follows text Eq x y)
    (hpost : ∀ a, y = .ok a → post a) : Follows text (fun a b => a = b ∧ post a) x y := by
  cases x with
  | stopped => cases y <;> exact h.elim
  | failed message =>
    cases y with
    | error e => exact h
    | ok b => exact h.elim
  | ok a =>
    cases y with
    | error e => exact h.elim
    | ok b =>
      cases h
      exact ⟨rfl, hpost a rfl⟩

/-- With the same values, it comes to the same. -/
theorem Follows.eq_ofExcept {y : Except ε α} (h : Follows text Eq x y) :
    x = ofExcept (y.mapError text) := by
  cases x with
  | stopped => cases y <;> exact h.elim
  | failed message =>
    cases y with
    | error e => exact congrArg failed h
    | ok b => exact h.elim
  | ok a =>
    cases y with
    | error e => exact h.elim
    | ok b => exact congrArg ok h

end

end Checked

end Piggy.Core
