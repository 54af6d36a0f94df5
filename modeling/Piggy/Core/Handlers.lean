import Piggy.Core.Prog

/-!
# Operations as programs

A program over some operations is run by giving a program over other operations for each of
them.
-/

namespace Piggy.Core.Prog

variable {Op Op' : Type} {Ans : Op → Type} {Ans' : Op' → Type} {α β W : Type}

variable (handle : (op : Op) → Prog Op' Ans' (Ans op))

/-- A program with every operation handled. -/
def handled : Prog Op Ans α → Prog Op' Ans' α
  | ret a => ret a
  | call op next => handle op >>= fun ans => handled (next ans)

@[simp]
theorem handled_ret (a : α) : handled handle (ret a) = ret a := rfl

@[simp]
theorem handled_call (op : Op) (next : Ans op → Prog Op Ans α) :
    handled handle (call op next) = handle op >>= fun ans => handled handle (next ans) := rfl

/-- What the handlers of some operations keep, a program over them keeps. -/
theorem Only.ensures_handled {kind : Op → Prop} {p : Prog Op Ans α} (hp : p.Only kind)
    {step : W → (op : Op') → Ans' op → W → Prop} {inv : W → Prop}
    (hkeep : ∀ op, kind op → ∀ w, inv w → (handle op).Ensures step (fun _ w' => inv w') w) {w : W}
    (hw : inv w) : (handled handle p).Ensures step (fun _ w' => inv w') w := by
  induction p generalizing w with
  | ret a => exact hw
  | call op next ih => exact (hkeep op hp.1 w hw).bind fun ans w' hw' => ih ans (hp.2 ans) hw'

end Piggy.Core.Prog
