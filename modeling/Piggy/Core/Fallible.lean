import Piggy.Core.Jobs

/-!
# Programs that may fail

A program that returns an error or a value goes on with another one only when it returned a
value. What such a program ensures, what it calls and how its calls are guarded follows from
its parts.
-/

namespace Piggy.Core.Prog

variable {Op : Type} {Ans : Op → Type} {α β ε ε' W : Type}

/-- One program after another, unless the first one fails. -/
def andThen (p : Prog Op Ans (Except ε α)) (f : α → Prog Op Ans (Except ε β)) :
    Prog Op Ans (Except ε β) :=
  p >>= fun result =>
    match result with
    | .error e => ret (.error e)
    | .ok a => f a

/-- A program with another kind of error. -/
def orFail (p : Prog Op Ans (Except ε α)) (f : ε → ε') : Prog Op Ans (Except ε' α) :=
  p >>= fun result => ret (result.mapError f)

@[simp]
theorem andThen_ret_ok (a : α) (f : α → Prog Op Ans (Except ε β)) :
    (ret (.ok a) : Prog Op Ans (Except ε α)).andThen f = f a := rfl

@[simp]
theorem andThen_ret_error (e : ε) (f : α → Prog Op Ans (Except ε β)) :
    (ret (.error e) : Prog Op Ans (Except ε α)).andThen f = ret (.error e) := rfl

@[simp]
theorem andThen_call (op : Op) (next : Ans op → Prog Op Ans (Except ε α))
    (f : α → Prog Op Ans (Except ε β)) :
    (call op next).andThen f = call op fun ans => (next ans).andThen f := rfl

/-! ## Runs with given answers -/

/-- Runs a program against something that answers every call and changes with it. -/
def runWith (respond : (op : Op) → W → Ans op × W) : Prog Op Ans α → W → α × W
  | ret a, w => (a, w)
  | call op next, w => runWith respond (next (respond op w).1) (respond op w).2

/-- Such a run is an execution when its answers are possible. -/
theorem exec_runWith {step : W → (op : Op) → Ans op → W → Prop}
    {respond : (op : Op) → W → Ans op × W}
    (h : ∀ w op, step w op (respond op w).1 (respond op w).2) (p : Prog Op Ans α) (w : W) :
    Exec step p w (runWith respond p w).1 (runWith respond p w).2 := by
  induction p generalizing w with
  | ret a => exact .ret a w
  | call op next ih => exact .call (h w op) (ih _ _)

/-- A run that keeps its own calls. -/
theorem leads_runWith (answer : (op : Op) → Ans op) {p q : Prog Op Ans α}
    {calls : List (Σ op, Ans op)} (h : Leads p calls q) :
    Leads p (runWith (fun op calls => (answer op, ⟨op, answer op⟩ :: calls)) q calls).2
      (ret (runWith (fun op calls => (answer op, ⟨op, answer op⟩ :: calls)) q calls).1) := by
  induction q generalizing calls with
  | ret a => exact h
  | call op next ih => exact ih (answer op) (h.call (answer op))

/-- The calls of such a run have its answers. -/
theorem mem_runWith (answer : (op : Op) → Ans op) (p : Prog Op Ans α) {call : Σ op, Ans op}
    {calls : List (Σ op, Ans op)} (hcalls : ∀ c ∈ calls, c.2 = answer c.1)
    (h : call ∈ (runWith (fun op calls => (answer op, ⟨op, answer op⟩ :: calls)) p calls).2) :
    call.2 = answer call.1 := by
  induction p generalizing calls with
  | ret a => exact hcalls call h
  | call op next ih =>
    refine ih (answer op) ?_ h
    intro c hc
    rcases List.mem_cons.mp hc with rfl | hc
    · rfl
    · exact hcalls c hc

/-! ## Rules -/

section

variable {step : W → (op : Op) → Ans op → W → Prop}

theorem Ensures.andThen {p : Prog Op Ans (Except ε α)} {f : α → Prog Op Ans (Except ε β)}
    {mid : Except ε α → W → Prop} {post : Except ε β → W → Prop} {w : W} (h : Ensures step p mid w)
    (herror : ∀ e w', mid (.error e) w' → post (.error e) w')
    (hok : ∀ a w', mid (.ok a) w' → Ensures step (f a) post w') :
    Ensures step (p.andThen f) post w := by
  refine Ensures.bind h ?_
  rintro (e | a) w' hmid
  · exact herror e w' hmid
  · exact hok a w' hmid

theorem Ensures.orFail_andThen {p : Prog Op Ans (Except ε α)} {g : ε → ε'}
    {f : α → Prog Op Ans (Except ε' β)} {mid : Except ε α → W → Prop}
    {post : Except ε' β → W → Prop} {w : W} (h : Ensures step p mid w)
    (herror : ∀ e w', mid (.error e) w' → post (.error (g e)) w')
    (hok : ∀ a w', mid (.ok a) w' → Ensures step (f a) post w') :
    Ensures step ((p.orFail g).andThen f) post w := by
  refine Ensures.bind (Ensures.bind h fun result w' hmid => ?_) fun _ _ hnext => hnext
  cases result with
  | error e => exact herror e w' hmid
  | ok a => exact hok a w' hmid

end

section

variable {ok : List (Σ op, Ans op) → Op → Prop} {calls : List (Σ op, Ans op)}

theorem Guards.andThen {p : Prog Op Ans (Except ε α)} {f : α → Prog Op Ans (Except ε β)}
    {mid : Except ε α → List (Σ op, Ans op) → Prop}
    {post : Except ε β → List (Σ op, Ans op) → Prop} (h : Guards ok p mid calls)
    (herror : ∀ e calls, mid (.error e) calls → post (.error e) calls)
    (hok : ∀ a calls, mid (.ok a) calls → Guards ok (f a) post calls) :
    Guards ok (p.andThen f) post calls := by
  refine guards_bind.mpr (h.mono ?_)
  rintro (e | a) calls hmid
  · exact herror e calls hmid
  · exact hok a calls hmid

theorem Guards.orFail_andThen {p : Prog Op Ans (Except ε α)} {g : ε → ε'}
    {f : α → Prog Op Ans (Except ε' β)} {mid : Except ε α → List (Σ op, Ans op) → Prop}
    {post : Except ε' β → List (Σ op, Ans op) → Prop} (h : Guards ok p mid calls)
    (herror : ∀ e calls, mid (.error e) calls → post (.error (g e)) calls)
    (hok : ∀ a calls, mid (.ok a) calls → Guards ok (f a) post calls) :
    Guards ok ((p.orFail g).andThen f) post calls := by
  refine guards_bind.mpr (guards_bind.mpr (h.mono fun result calls hmid => ?_))
  cases result with
  | error e => exact herror e calls hmid
  | ok a => exact hok a calls hmid

end

section

variable {kind : Op → Prop}

theorem only_op {o : Op} (h : kind o) : (op o : Prog Op Ans (Ans o)).Only kind :=
  ⟨h, fun _ => trivial⟩

theorem Only.andThen {p : Prog Op Ans (Except ε α)} {f : α → Prog Op Ans (Except ε β)}
    (hp : p.Only kind) (hf : ∀ a, (f a).Only kind) : (p.andThen f).Only kind := by
  refine hp.bind ?_
  rintro (e | a)
  · trivial
  · exact hf a

theorem Only.orFail {p : Prog Op Ans (Except ε α)} (hp : p.Only kind) (f : ε → ε') :
    (p.orFail f).Only kind := hp.bind fun _ => trivial

/-- Operations that leave the world as it is. -/
theorem Only.ensures {step : W → (op : Op) → Ans op → W → Prop} {p : Prog Op Ans α}
    (hp : p.Only kind) {inv : W → Prop}
    (hkind : ∀ w op ans w', kind op → inv w → step w op ans w' → inv w') {w : W} (hw : inv w) :
    Ensures step p (fun _ w' => inv w') w := by
  induction p generalizing w with
  | ret a => exact hw
  | call op next ih => exact fun ans w' hs => ih ans (hp.2 ans) (hkind w op ans w' hp.1 hw hs)

end

end Piggy.Core.Prog
