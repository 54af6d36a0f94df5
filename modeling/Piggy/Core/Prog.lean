import Mathlib.Logic.Basic

/-!
# Programs over operations

A program returns, or calls an operation of the world outside and goes on with the
answer. What an operation may answer and do to the world is a relation, so that an
operation may fail whenever it likes. An execution is one way through a program; what
holds at the end of every execution is computed along the program.
-/

namespace Piggy.Core

/-- A program that calls operations and returns a value. -/
inductive Prog (Op : Type) (Ans : Op → Type) (α : Type) : Type where
  | ret (a : α)
  | call (op : Op) (next : Ans op → Prog Op Ans α)

namespace Prog

variable {Op : Type} {Ans : Op → Type} {α β W : Type}

/-- One program after another. -/
def bind : Prog Op Ans α → (α → Prog Op Ans β) → Prog Op Ans β
  | ret a, f => f a
  | call op next, f => call op fun ans => (next ans).bind f

instance : Monad (Prog Op Ans) where
  pure := ret
  bind := bind

/-- The program that calls one operation and returns its answer. -/
def op (op : Op) : Prog Op Ans (Ans op) := call op ret

@[simp]
theorem pure_eq (a : α) : (pure a : Prog Op Ans α) = ret a := rfl

@[simp]
theorem ret_bind (a : α) (f : α → Prog Op Ans β) : (ret a >>= f) = f a := rfl

@[simp]
theorem call_bind (op : Op) (next : Ans op → Prog Op Ans α) (f : α → Prog Op Ans β) :
    (call op next >>= f) = call op fun ans => next ans >>= f := rfl

@[simp]
theorem op_bind (o : Op) (f : Ans o → Prog Op Ans β) : (op o >>= f) = call o f := rfl

/-! ## Executions -/

section

variable (step : W → (op : Op) → Ans op → W → Prop)

/-- An execution: the world before, the value returned and the world after. -/
inductive Exec : Prog Op Ans α → W → α → W → Prop where
  | ret (a : α) (w : W) : Exec (.ret a) w a w
  | call {op : Op} {next : Ans op → Prog Op Ans α} {w w' w'' : W} {ans : Ans op} {a : α}
      (hstep : step w op ans w') (hnext : Exec (next ans) w' a w'') : Exec (.call op next) w a w''

/-- An operation with a given answer, and the rest. -/
theorem Exec.answered {step : W → (op : Op) → Ans op → W → Prop} {op : Op}
    {next : Ans op → Prog Op Ans α} {w w'' : W} {a : α} (ans : Ans op) (w' : W)
    (hstep : step w op ans w') (hnext : Exec step (next ans) w' a w'') :
    Exec step (.call op next) w a w'' := .call hstep hnext

/-- One execution after another. -/
theorem Exec.bind {step : W → (op : Op) → Ans op → W → Prop} {p : Prog Op Ans α}
    {f : α → Prog Op Ans β} {w w' w'' : W} {a : α} {b : β} (hp : Exec step p w a w')
    (hf : Exec step (f a) w' b w'') : Exec step (p >>= f) w b w'' := by
  induction hp with
  | ret a w => exact hf
  | call hs _ ih => exact .call hs (ih hf)

/-- A condition that holds at the end of every execution. -/
def Ensures : Prog Op Ans α → (α → W → Prop) → W → Prop
  | .ret a, post, w => post a w
  | .call op next, post, w => ∀ ans w', step w op ans w' → Ensures (next ans) post w'

variable {step}

@[simp]
theorem ensures_ret (a : α) (post : α → W → Prop) (w : W) :
    Ensures step (.ret a) post w ↔ post a w := Iff.rfl

@[simp]
theorem ensures_call (op : Op) (next : Ans op → Prog Op Ans α) (post : α → W → Prop) (w : W) :
    Ensures step (.call op next) post w ↔
      ∀ ans w', step w op ans w' → Ensures step (next ans) post w' := Iff.rfl

theorem Ensures.mono {p : Prog Op Ans α} {post post' : α → W → Prop} {w : W}
    (h : Ensures step p post w) (hpost : ∀ a w, post a w → post' a w) :
    Ensures step p post' w := by
  induction p generalizing w with
  | ret a => exact hpost a w h
  | call op next ih => exact fun ans w' hs => ih ans (h ans w' hs)

/-- What a program ensures that goes on with another one. -/
theorem ensures_bind {p : Prog Op Ans α} {f : α → Prog Op Ans β} {post : β → W → Prop} {w : W} :
    Ensures step (p >>= f) post w ↔
      Ensures step p (fun a w' => Ensures step (f a) post w') w := by
  induction p generalizing w with
  | ret a => exact Iff.rfl
  | call op next ih =>
    exact forall_congr' fun ans => forall_congr' fun w' => imp_congr_right fun _ => ih ans

theorem Ensures.bind {p : Prog Op Ans α} {f : α → Prog Op Ans β} {mid : α → W → Prop}
    {post : β → W → Prop} {w : W} (h : Ensures step p mid w)
    (hnext : ∀ a w', mid a w' → Ensures step (f a) post w') : Ensures step (p >>= f) post w :=
  ensures_bind.mpr (h.mono hnext)

/-- The computed condition is the one about executions. -/
theorem ensures_iff {p : Prog Op Ans α} {post : α → W → Prop} {w : W} :
    Ensures step p post w ↔ ∀ a w', Exec step p w a w' → post a w' := by
  induction p generalizing w with
  | ret a =>
    constructor
    · rintro h a' w' ⟨⟩
      exact h
    · intro h
      exact h a w (.ret a w)
  | call op next ih =>
    constructor
    · intro h a w'' hexec
      cases hexec with
      | call hstep hnext => exact (ih _).mp (h _ _ hstep) a w'' hnext
    · intro h ans w' hstep
      refine (ih ans).mpr ?_
      intro a w'' hnext
      exact h a w'' (.call hstep hnext)

/-- What the steps of a program preserve, the program preserves. -/
theorem ensures_of_preserved {inv : W → Prop}
    (hstep : ∀ w op ans w', inv w → step w op ans w' → inv w') (p : Prog Op Ans α) {w : W}
    (hw : inv w) : Ensures step p (fun _ w' => inv w') w := by
  induction p generalizing w with
  | ret a => exact hw
  | call op next ih => exact fun ans w' hs => ih ans (hstep w op ans w' hw hs)

/-- A condition that every step restores holds at the end too. -/
theorem Ensures.within {p : Prog Op Ans α} {post : α → W → Prop} {w : W} (c : W → Prop)
    (h : Ensures step p post w) (hw : c w) :
    Ensures (fun w op ans w' => step w op ans w' ∧ c w') p (fun a w' => post a w' ∧ c w') w := by
  induction p generalizing w with
  | ret a => exact ⟨h, hw⟩
  | call op next ih => exact fun ans w' hs => ih ans (h ans w' hs.1) hs.2

/-- Fewer steps have fewer executions. -/
theorem Exec.mono {step' : W → (op : Op) → Ans op → W → Prop}
    (hstep : ∀ w op ans w', step w op ans w' → step' w op ans w') {p : Prog Op Ans α} {w w' : W}
    {a : α} (h : Exec step p w a w') : Exec step' p w a w' := by
  induction h with
  | ret a w => exact .ret a w
  | call hs _ ih => exact .call (hstep _ _ _ _ hs) ih

/-- A program has an execution when no operation is ever stuck. -/
theorem exists_exec (htotal : ∀ w op, ∃ ans w', step w op ans w') (p : Prog Op Ans α) (w : W) :
    ∃ a w', Exec step p w a w' := by
  induction p generalizing w with
  | ret a => exact ⟨a, w, .ret a w⟩
  | call op next ih =>
    obtain ⟨ans, w', hs⟩ := htotal w op
    obtain ⟨a, w'', hnext⟩ := ih ans w'
    exact ⟨a, w'', .call hs hnext⟩

end

/-! ## The operations of a program -/

/-- A program that only calls operations of a kind. -/
def Only (kind : Op → Prop) : Prog Op Ans α → Prop
  | ret _ => True
  | call op next => kind op ∧ ∀ ans, (next ans).Only kind

variable {kind : Op → Prop}

@[simp]
theorem only_ret (a : α) : (ret a : Prog Op Ans α).Only kind := trivial

@[simp]
theorem only_call (op : Op) (next : Ans op → Prog Op Ans α) :
    (call op next).Only kind ↔ kind op ∧ ∀ ans, (next ans).Only kind := Iff.rfl

theorem Only.bind {p : Prog Op Ans α} {f : α → Prog Op Ans β} (hp : p.Only kind)
    (hf : ∀ a, (f a).Only kind) : (p >>= f).Only kind := by
  induction p with
  | ret a => exact hf a
  | call op next ih => exact ⟨hp.1, fun ans => ih ans (hp.2 ans)⟩

theorem Only.mono {kind' : Op → Prop} {p : Prog Op Ans α} (hp : p.Only kind)
    (h : ∀ op, kind op → kind' op) : p.Only kind' := by
  induction p with
  | ret a => trivial
  | call op next ih => exact ⟨h op hp.1, fun ans => ih ans (hp.2 ans)⟩

end Prog

end Piggy.Core
