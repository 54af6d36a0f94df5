import Piggy.Core.Prog
import Piggy.Core.Runs
import Mathlib.Logic.Function.Basic

/-!
# Programs that run at the same time

Jobs are programs that were begun for requests. They call their operations in any order among
each other, and an operation may answer anything. What a program guards its calls with, looking
at its own calls so far, holds at every call of every job in every run.
-/

namespace Piggy.Core

namespace Prog

variable {Op : Type} {Ans : Op → Type} {α β : Type}

/-- What is left of a program after some calls with their answers, the newest first. -/
inductive Leads : Prog Op Ans α → List (Σ op, Ans op) → Prog Op Ans α → Prop where
  | refl (p : Prog Op Ans α) : Leads p [] p
  | call {p : Prog Op Ans α} {calls : List (Σ op, Ans op)} {op : Op}
      {next : Ans op → Prog Op Ans α} (h : Leads p calls (.call op next)) (ans : Ans op) :
      Leads p (⟨op, ans⟩ :: calls) (next ans)

/-- A condition on the calls so far that holds at every call of a program, and another one that
holds at its end. -/
def Guards (ok : List (Σ op, Ans op) → Op → Prop) :
    Prog Op Ans α → (α → List (Σ op, Ans op) → Prop) → List (Σ op, Ans op) → Prop
  | .ret a, post, calls => post a calls
  | .call op next, post, calls =>
    ok calls op ∧ ∀ ans, Guards ok (next ans) post (⟨op, ans⟩ :: calls)

variable {ok : List (Σ op, Ans op) → Op → Prop}

@[simp]
theorem guards_ret (a : α) (post : α → List (Σ op, Ans op) → Prop) (calls : List (Σ op, Ans op)) :
    Guards ok (.ret a : Prog Op Ans α) post calls ↔ post a calls := Iff.rfl

@[simp]
theorem guards_call (op : Op) (next : Ans op → Prog Op Ans α)
    (post : α → List (Σ op, Ans op) → Prop) (calls : List (Σ op, Ans op)) :
    Guards ok (.call op next) post calls ↔
      ok calls op ∧ ∀ ans, Guards ok (next ans) post (⟨op, ans⟩ :: calls) := Iff.rfl

theorem Guards.mono {p : Prog Op Ans α} {post post' : α → List (Σ op, Ans op) → Prop}
    {calls : List (Σ op, Ans op)} (h : Guards ok p post calls)
    (hpost : ∀ a calls, post a calls → post' a calls) : Guards ok p post' calls := by
  induction p generalizing calls with
  | ret a => exact hpost a calls h
  | call op next ih => exact ⟨h.1, fun ans => ih ans (h.2 ans)⟩

/-- A guard implies a weaker one. -/
theorem Guards.weaken {ok' : List (Σ op, Ans op) → Op → Prop} {p : Prog Op Ans α}
    {post : α → List (Σ op, Ans op) → Prop} {calls : List (Σ op, Ans op)}
    (h : Guards ok p post calls) (hok : ∀ calls op, ok calls op → ok' calls op) :
    Guards ok' p post calls := by
  induction p generalizing calls with
  | ret a => exact h
  | call op next ih => exact ⟨hok calls op h.1, fun ans => ih ans (h.2 ans)⟩

/-- One program after another. -/
theorem guards_bind {p : Prog Op Ans α} {f : α → Prog Op Ans β}
    {post : β → List (Σ op, Ans op) → Prop} {calls : List (Σ op, Ans op)} :
    Guards ok (p >>= f) post calls ↔
      Guards ok p (fun a calls => Guards ok (f a) post calls) calls := by
  induction p generalizing calls with
  | ret a => exact Iff.rfl
  | call op next ih => exact and_congr_right fun _ => forall_congr' fun ans => ih ans

/-- What stays known once it is known. -/
def Lasting (known : List (Σ op, Ans op) → Prop) : Prop :=
  ∀ call calls, known calls → known (call :: calls)

/-- A call was made, and something was known before it. -/
def Since (call : Σ op, Ans op) (known : List (Σ op, Ans op) → Prop) (calls : List (Σ op, Ans op)) :
    Prop := ∃ newer older, calls = newer ++ call :: older ∧ known older

theorem Since.now {call : Σ op, Ans op} {known : List (Σ op, Ans op) → Prop}
    {calls : List (Σ op, Ans op)} (h : known calls) : Since call known (call :: calls) :=
  ⟨[], calls, rfl, h⟩

theorem lasting_since (call : Σ op, Ans op) (known : List (Σ op, Ans op) → Prop) :
    Lasting (Since call known) := by
  rintro other calls ⟨newer, older, rfl, h⟩
  exact ⟨other :: newer, older, rfl, h⟩

theorem lasting_mem (call : Σ op, Ans op) : Lasting fun calls => call ∈ calls :=
  fun _ _ h => List.mem_cons_of_mem _ h

theorem lasting_true : Lasting fun _ : List (Σ op, Ans op) => True := fun _ _ _ => trivial

/-- What the operations of a program keep known is known after it. -/
theorem Only.guards_of_kept {kind : Op → Prop} {p : Prog Op Ans α} (hp : p.Only kind)
    {known : List (Σ op, Ans op) → Prop} (hok : ∀ calls op, kind op → known calls → ok calls op)
    (hknown : ∀ op ans calls, kind op → known calls → known (⟨op, ans⟩ :: calls))
    {calls : List (Σ op, Ans op)} (hcalls : known calls) :
    Guards ok p (fun _ calls => known calls) calls := by
  induction p generalizing calls with
  | ret a => exact hcalls
  | call op next ih =>
    refine ⟨hok calls op hp.1 hcalls, fun ans => ?_⟩
    exact ih ans (hp.2 ans) (hknown op ans calls hp.1 hcalls)

/-- A program whose operations need no guard may call them at any time, and what was known before
it is known after it. -/
theorem Only.guards {kind : Op → Prop} {p : Prog Op Ans α} (hp : p.Only kind)
    (hok : ∀ calls op, kind op → ok calls op) {known : List (Σ op, Ans op) → Prop}
    (hknown : Lasting known) {calls : List (Σ op, Ans op)} (hcalls : known calls) :
    Guards ok p (fun _ calls => known calls) calls :=
  hp.guards_of_kept (fun calls op hop _ => hok calls op hop) (fun _ _ calls _ => hknown _ calls) hcalls

/-- A guard on the operations alone. -/
theorem only_of_guards {kind : Op → Prop} {p : Prog Op Ans α} {calls : List (Σ op, Ans op)}
    {post : α → List (Σ op, Ans op) → Prop} (h : Guards (fun _ op => kind op) p post calls) :
    p.Only kind := by
  induction p generalizing calls with
  | ret a => trivial
  | call op next ih => exact ⟨h.1, fun ans => ih ans (h.2 ans)⟩

/-- A program whose operations need no guard goes on with another one. -/
theorem Guards.free_bind {kind : Op → Prop} {p : Prog Op Ans α} {f : α → Prog Op Ans β}
    {post : β → List (Σ op, Ans op) → Prop} (hp : p.Only kind)
    (hok : ∀ calls op, kind op → ok calls op) {known : List (Σ op, Ans op) → Prop}
    (hknown : Lasting known) {calls : List (Σ op, Ans op)} (hcalls : known calls)
    (hf : ∀ a calls, known calls → Guards ok (f a) post calls) : Guards ok (p >>= f) post calls :=
  guards_bind.mpr ((hp.guards hok hknown hcalls).mono hf)

/-- The rest of a program is guarded like the whole. -/
theorem Leads.guards {p q : Prog Op Ans α} {calls : List (Σ op, Ans op)} (h : Leads p calls q)
    {post : α → List (Σ op, Ans op) → Prop} (hp : Guards ok p post []) :
    Guards ok q post calls := by
  induction h with
  | refl => exact hp
  | call _ ans ih => exact ih.2 ans

/-- The guard of a call that was made. -/
theorem Leads.guard_of_append {p q : Prog Op Ans α} {newer older : List (Σ op, Ans op)}
    {call : Σ op, Ans op} (h : Leads p (newer ++ call :: older) q)
    {post : α → List (Σ op, Ans op) → Prop} (hp : Guards ok p post []) : ok older call.1 := by
  induction newer generalizing q with
  | nil =>
    cases h with
    | call h ans => exact (h.guards hp).1
  | cons last newer ih =>
    cases h with
    | call h ans => exact ih h

/-- Some answers lead a program to an operation. -/
def Reaches (p : Prog Op Ans α) (op : Op) : Prop := ∃ calls next, Leads p calls (.call op next)

theorem reaches_here (op : Op) (next : Ans op → Prog Op Ans α) : Reaches (.call op next) op :=
  ⟨[], next, .refl _⟩

/-- The first answer. -/
theorem reaches_call {op op' : Op} {next : Ans op → Prog Op Ans α} (ans : Ans op)
    (h : Reaches (next ans) op') : Reaches (.call op next) op' := by
  have hfirst : ∀ {p q : Prog Op Ans α} {calls : List (Σ op, Ans op)}, Leads p calls q →
      p = next ans → Leads (.call op next) (calls ++ [⟨op, ans⟩]) q := by
    intro p q calls hleads
    induction hleads with
    | refl =>
      rintro rfl
      exact (Leads.refl _).call ans
    | call _ ans' ih =>
      intro hp
      exact (ih hp).call ans'
  obtain ⟨calls, next', hleads⟩ := h
  exact ⟨calls ++ [⟨op, ans⟩], next', hfirst hleads rfl⟩

theorem Reaches.bind {p : Prog Op Ans α} {op : Op} (h : Reaches p op) (f : α → Prog Op Ans β) :
    Reaches (p >>= f) op := by
  have hbind : ∀ {q : Prog Op Ans α} {calls : List (Σ op, Ans op)}, Leads p calls q →
      Leads (p >>= f) calls (q >>= f) := by
    intro q calls hleads
    induction hleads with
    | refl => exact .refl _
    | call _ ans ih => exact ih.call ans
  obtain ⟨calls, next, hleads⟩ := h
  exact ⟨calls, fun ans => next ans >>= f, hbind hleads⟩

end Prog

/-! ## Jobs -/

variable {Op : Type} {Ans : Op → Type} {Req α : Type}

/-- A request is begun, or a job calls an operation and gets an answer. -/
inductive JobEvent (Op : Type) (Ans : Op → Type) (Req : Type) where
  | began (job : Nat) (request : Req)
  | called (job : Nat) (call : Σ op, Ans op)

/-- The calls of one job, the newest first. -/
def callsOf (job : Nat) : List (JobEvent Op Ans Req) → List (Σ op, Ans op)
  | [] => []
  | .began _ _ :: log => callsOf job log
  | .called other call :: log => if other = job then call :: callsOf job log else callsOf job log

/-- A call of a job is a call of the run. -/
theorem exists_called {job : Nat} {log : List (JobEvent Op Ans Req)} {call : Σ op, Ans op}
    {newer older : List (Σ op, Ans op)} (h : callsOf job log = newer ++ call :: older) :
    ∃ newer' older', log = newer' ++ .called job call :: older' ∧ callsOf job older' = older := by
  induction log generalizing newer with
  | nil => exact absurd h.symm (by simp [callsOf])
  | cons e log ih =>
    have hlater : ∀ newer, callsOf job log = newer ++ call :: older →
        ∃ newer' older', e :: log = newer' ++ .called job call :: older' ∧
          callsOf job older' = older := by
      intro newer h
      obtain ⟨newer', older', rfl, holder⟩ := ih h
      exact ⟨e :: newer', older', rfl, holder⟩
    cases e with
    | began other request => exact hlater newer h
    | called other call' =>
      rw [callsOf] at h
      split at h
      · next hsame =>
        subst hsame
        rcases newer with _ | ⟨first, newer⟩
        · obtain ⟨rfl, rfl⟩ := List.cons.inj h
          exact ⟨[], log, rfl, rfl⟩
        · exact hlater newer (List.cons.inj h).2
      · exact hlater newer h

/-- Jobs go on one at a time. -/
inductive JobStep (program : Req → Prog Op Ans α) :
    (Nat → Option (Prog Op Ans α)) → JobEvent Op Ans Req → (Nat → Option (Prog Op Ans α)) → Prop where
  | start {s : Nat → Option (Prog Op Ans α)} {job : Nat} (request : Req) (hfree : s job = none) :
      JobStep program s (.began job request) (Function.update s job (some (program request)))
  | call {s : Nat → Option (Prog Op Ans α)} {job : Nat} {op : Op} {next : Ans op → Prog Op Ans α}
      (hjob : s job = some (.call op next)) (ans : Ans op) :
      JobStep program s (.called job ⟨op, ans⟩) (Function.update s job (some (next ans)))

/-- The runs of jobs. -/
abbrev JobRuns (program : Req → Prog Op Ans α)
    (condition : List (JobEvent Op Ans Req) → (Nat → Option (Prog Op Ans α)) →
      JobEvent Op Ans Req → Prop) :
    List (JobEvent Op Ans Req) → (Nat → Option (Prog Op Ans α)) → Prop :=
  Run (fun s => ∀ job, s job = none) (JobStep program) condition

section

variable {program : Req → Prog Op Ans α}
  {condition : List (JobEvent Op Ans Req) → (Nat → Option (Prog Op Ans α)) →
    JobEvent Op Ans Req → Prop}
  {log newer older : List (JobEvent Op Ans Req)} {s : Nat → Option (Prog Op Ans α)}

/-- A job that has not begun has called nothing. -/
theorem callsOf_of_none (h : JobRuns program condition log s) {job : Nat} (hjob : s job = none) :
    callsOf job log = [] := by
  induction h with
  | start h => rfl
  | @step log before after e _ hstep _ ih =>
    cases hstep with
    | @start other request hfree =>
      by_cases hsame : job = other
      · subst hsame
        exact ih hfree
      · rw [Function.update_of_ne hsame] at hjob
        exact ih hjob
    | @call other op next hother ans =>
      by_cases hsame : job = other
      · subst hsame
        rw [Function.update_self] at hjob
        cases hjob
      · rw [Function.update_of_ne hsame] at hjob
        rw [callsOf, if_neg (Ne.symm hsame)]
        exact ih hjob

/-- A job that began stays. -/
theorem ne_none_of_began (h : JobRuns program condition log s) {job : Nat} {request : Req}
    (hbegan : .began job request ∈ log) : s job ≠ none := by
  induction h with
  | start h => cases hbegan
  | @step log before after e _ hstep _ ih =>
    cases hstep with
    | @start other request' hfree =>
      by_cases hsame : job = other
      · subst hsame
        rw [Function.update_self]
        exact nofun
      · rw [Function.update_of_ne hsame]
        rcases List.mem_cons.mp hbegan with heq | hold
        · cases heq
          exact absurd rfl hsame
        · exact ih hold
    | @call other op next hother ans =>
      by_cases hsame : job = other
      · subst hsame
        rw [Function.update_self]
        exact nofun
      · rw [Function.update_of_ne hsame]
        rcases List.mem_cons.mp hbegan with heq | hold
        · cases heq
        · exact ih hold

/-- A job has one request. -/
theorem began_unique (h : JobRuns program condition log s) {job : Nat} {request request' : Req}
    (hbegan : .began job request ∈ log) (hbegan' : .began job request' ∈ log) :
    request = request' := by
  induction h with
  | start h => cases hbegan
  | @step log before after e hrun hstep _ ih =>
    rcases List.mem_cons.mp hbegan with rfl | hold <;> rcases List.mem_cons.mp hbegan' with heq | hold'
    · cases heq
      rfl
    · cases hstep with
      | start _ hfree => exact absurd hfree (ne_none_of_began hrun hold')
    · subst heq
      cases hstep with
      | start _ hfree => exact absurd hfree (ne_none_of_began hrun hold)
    · exact ih hold hold'

/-- A job is what its calls have left of the program of its request. -/
theorem leads_of_job (h : JobRuns program condition log s) {job : Nat} {p : Prog Op Ans α}
    (hjob : s job = some p) :
    ∃ request, .began job request ∈ log ∧ (program request).Leads (callsOf job log) p := by
  induction h generalizing p with
  | start h =>
    rw [h job] at hjob
    cases hjob
  | @step log before after e hrun hstep _ ih =>
    cases hstep with
    | @start other request hfree =>
      by_cases hsame : job = other
      · subst hsame
        rw [Function.update_self] at hjob
        cases hjob
        refine ⟨request, List.mem_cons_self, ?_⟩
        rw [callsOf, callsOf_of_none hrun hfree]
        exact .refl _
      · rw [Function.update_of_ne hsame] at hjob
        obtain ⟨request, hbegan, hleads⟩ := ih hjob
        exact ⟨request, List.mem_cons_of_mem _ hbegan, hleads⟩
    | @call other op next hother ans =>
      by_cases hsame : job = other
      · subst hsame
        rw [Function.update_self] at hjob
        cases hjob
        obtain ⟨request, hbegan, hleads⟩ := ih hother
        refine ⟨request, List.mem_cons_of_mem _ hbegan, ?_⟩
        rw [callsOf, if_pos rfl]
        exact hleads.call ans
      · rw [Function.update_of_ne hsame] at hjob
        obtain ⟨request, hbegan, hleads⟩ := ih hjob
        refine ⟨request, List.mem_cons_of_mem _ hbegan, ?_⟩
        rw [callsOf, if_neg (Ne.symm hsame)]
        exact hleads

/-- A job began before it calls anything. -/
theorem began_of_called {job : Nat} {call : Σ op, Ans op} {request : Req}
    (h : JobRuns program condition (newer ++ .called job call :: older) s)
    (hbegan : .began job request ∈ newer ++ .called job call :: older) :
    .began job request ∈ older := by
  obtain ⟨before, after, hrun, hstep, -⟩ := h.step_of_append
  cases hstep with
  | call hjob ans =>
    obtain ⟨request', hbegan', -⟩ := leads_of_job hrun hjob
    have hsame := began_unique h hbegan
      (List.mem_append_right _ (List.mem_cons_of_mem _ hbegan'))
    rwa [hsame]

/-- What a program guards its calls with holds at every call of a job. -/
theorem guard_of_called {ok : Req → List (Σ op, Ans op) → Op → Prop}
    (hguards : ∀ request, (program request).Guards (ok request) (fun _ _ => True) [])
    {job : Nat} {call : Σ op, Ans op}
    (h : JobRuns program condition (newer ++ .called job call :: older) s) :
    ∃ request, .began job request ∈ older ∧ ok request (callsOf job older) call.1 := by
  obtain ⟨before, after, hrun, hstep, -⟩ := h.step_of_append
  cases hstep with
  | call hjob ans =>
    obtain ⟨request, hbegan, hleads⟩ := leads_of_job hrun hjob
    exact ⟨request, hbegan, (hleads.guards (hguards request)).1⟩

/-- One job alone. -/
theorem run_of_leads {request : Req} {calls : List (Σ op, Ans op)} {p : Prog Op Ans α}
    (hcond : ∀ log s e, (∀ job other, .began job other ∈ log → other = request) → condition log s e)
    (h : (program request).Leads calls p) :
    JobRuns program condition (calls.map (JobEvent.called 0) ++ [.began 0 request])
      (Function.update (fun _ => none) 0 (some p)) := by
  have honly : ∀ calls : List (Σ op, Ans op), ∀ job other,
      JobEvent.began job other ∈ calls.map (JobEvent.called 0) ++ [.began 0 request] →
        other = request := by
    intro calls job other hmem
    have hsame : job = 0 ∧ other = request := by simpa using hmem
    exact hsame.2
  induction h with
  | refl =>
    refine .step (.start fun _ => rfl) (.start request rfl) (hcond _ _ _ ?_)
    exact fun job other hmem => nomatch hmem
  | @call calls op next _ ans ih =>
    have hjob : Function.update (fun _ : Nat => none) 0 (some (Prog.call op next)) 0 =
        some (Prog.call op next) := Function.update_self ..
    have hstep : JobStep program _ (.called 0 ⟨op, ans⟩) _ := .call hjob ans
    rw [Function.update_idem] at hstep
    exact .step ih hstep (hcond _ _ _ (honly calls))

end

end Piggy.Core
