import Mathlib.Data.List.Basic

/-!
# Runs of a labelled system

A system goes from state to state by labelled steps. A run is kept as the labels of its
steps, the newest first. A condition on the steps may look at the run so far: the runs under
a condition are those whose steps all meet it.
-/

namespace Piggy.Core

variable {σ ε : Type} {init : σ → Prop} {step : σ → ε → σ → Prop}
  {condition condition' : List ε → σ → ε → Prop}

/-- The runs of a system from an initial state, each step of which meets a condition. -/
inductive Run (init : σ → Prop) (step : σ → ε → σ → Prop) (condition : List ε → σ → ε → Prop) :
    List ε → σ → Prop where
  | start {s : σ} (h : init s) : Run init step condition [] s
  | step {log : List ε} {s s' : σ} {e : ε} (h : Run init step condition log s)
      (hstep : step s e s') (hcond : condition log s e) : Run init step condition (e :: log) s'

/-- No condition on the steps. -/
def anyStep (_ : List ε) (_ : σ) (_ : ε) : Prop := True

namespace Run

/-- What holds at the start and is kept by every step holds in every run. -/
theorem invariant {motive : List ε → σ → Prop} (hstart : ∀ s, init s → motive [] s)
    (hkeep : ∀ log s e s', Run init step condition log s → motive log s → step s e s' →
      condition log s e → motive (e :: log) s')
    {log : List ε} {s : σ} (h : Run init step condition log s) : motive log s := by
  induction h with
  | start h => exact hstart _ h
  | step hrun hstep hcond ih => exact hkeep _ _ _ _ hrun ih hstep hcond

/-- Every part of a run up to some step is a run. -/
theorem of_append {newer older : List ε} {s : σ}
    (h : Run init step condition (newer ++ older) s) : ∃ s', Run init step condition older s' := by
  induction newer generalizing s with
  | nil => exact ⟨s, h⟩
  | cons e newer ih =>
    cases h with
    | step hrun _ _ => exact ih hrun

/-- At each of its steps a run was in a state from which the step was taken. -/
theorem step_of_append {newer older : List ε} {e : ε} {s : σ}
    (h : Run init step condition (newer ++ e :: older) s) :
    ∃ before after, Run init step condition older before ∧ step before e after ∧
      condition older before e := by
  obtain ⟨after, hrun⟩ := h.of_append
  cases hrun with
  | step hrun hstep hcond => exact ⟨_, after, hrun, hstep, hcond⟩

end Run

end Piggy.Core
