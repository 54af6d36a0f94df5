import Mathlib.Data.List.Nodup
import Piggy.Core.Twins

/-!
# One attempt for each key

A loop over items tries each key once. An attempt is settled at once, or asks one question and is
settled by the answer; the loop ends with the first attempt that succeeds and goes on after any
other one. Two loops over items that correspond ask the same questions.
-/

namespace Piggy.Core

/-- What an attempt comes to. -/
inductive Verdict (φ α : Type) where
  | passed
  | failed (f : φ)
  | done (a : α)

/-- An attempt is settled, or has a question whose answer settles it. -/
inductive Attempt (Op Ans φ α : Type) where
  | settled (v : Verdict φ α)
  | ask (op : Op) (judge : Ans → Verdict φ α)

/-- How a loop over attempts ends: with what failed, or with what was found. -/
inductive Tried (φ α : Type) where
  | exhausted (failures : List φ)
  | done (a : α)

/-- Programs whose questions all have the same kind of answer. -/
abbrev Asks (Op Ans α : Type) : Type := Prog Op (fun _ => Ans) α

variable {Item Item' Key Key' Op Op' Ans φ α α' β β' : Type}

/-- The program of an attempt. -/
def Attempt.run : Attempt Op Ans φ α → Asks Op Ans (Verdict φ α)
  | settled v => .ret v
  | ask op judge => .call op fun ans => .ret (judge ans)

/-- The rest of the loop after an attempt. -/
def Verdict.next (rest : List φ → Asks Op Ans (Tried φ α)) (failures : List φ) :
    Verdict φ α → Asks Op Ans (Tried φ α)
  | passed => rest failures
  | failed f => rest (failures ++ [f])
  | done a => .ret (.done a)

/-- The loop over the items, with the keys that were tried. An item without a key is passed over. -/
def tryAll [DecidableEq Key] (key : Item → Option Key) (attempt : Item → Attempt Op Ans φ α) :
    List Item → List Key → List φ → Asks Op Ans (Tried φ α)
  | [], _, failures => .ret (.exhausted failures)
  | i :: is, tried, failures =>
    match key i with
    | none => tryAll key attempt is tried failures
    | some k =>
      if k ∈ tried then tryAll key attempt is tried failures
      else (attempt i).run >>= Verdict.next (tryAll key attempt is (tried ++ [k])) failures

/-! ## Runs -/

/-- The calls of an attempt and what it came to. -/
inductive Attempt.Comes : Attempt Op Ans φ α → List (Σ _ : Op, Ans) → Verdict φ α → Prop where
  | settled (v : Verdict φ α) : Comes (.settled v) [] v
  | ask (op : Op) (judge : Ans → Verdict φ α) (ans : Ans) : Comes (.ask op judge) [⟨op, ans⟩] (judge ans)

namespace Attempt.Comes

variable {att : Attempt Op Ans φ α} {own own' : List (Σ _ : Op, Ans)} {v v' : Verdict φ α}

/-- An attempt asks at most once. -/
theorem nodup (h : att.Comes own v) (keyOf : Op → Key) : (own.map fun call => keyOf call.1).Nodup := by
  cases h with
  | settled => exact .nil
  | ask => exact List.nodup_singleton _

/-- The answer settles an attempt. -/
theorem unique (h : att.Comes own v) (hsub : own' ⊆ own) (h' : att.Comes own' v') : v = v' := by
  cases h with
  | settled =>
    cases h'
    rfl
  | ask op judge ans =>
    cases h' with
    | ask _ _ ans' =>
      have hans := hsub (List.mem_singleton_self _)
      simp only [List.mem_singleton, Sigma.mk.injEq, heq_eq_eq, true_and] at hans
      rw [hans]

end Attempt.Comes

/-- The attempt on an item succeeded in a run. -/
def Succeeded (attempt : Item → Attempt Op Ans φ α) (calls : List (Σ _ : Op, Ans)) (i : Item) (a : α) :
    Prop :=
  ∃ own, own ⊆ calls ∧ (attempt i).Comes own (.done a)

/-- A finished run of a program that starts with an attempt. -/
theorem Attempt.run_bind {att : Attempt Op Ans φ α} {f : Verdict φ α → Asks Op Ans β}
    {calls : List (Σ _ : Op, Ans)} {b : β} (h : Prog.Leads (att.run >>= f) calls (.ret b)) :
    ∃ v own rest, calls = rest ++ own ∧ att.Comes own v ∧ Prog.Leads (f v) rest (.ret b) := by
  cases att with
  | settled v => exact ⟨v, [], calls, (List.append_nil calls).symm, .settled v, h⟩
  | ask op judge =>
    obtain ⟨ans, rest, rfl, hrest⟩ := Prog.Leads.first h
    exact ⟨judge ans, [⟨op, ans⟩], rest, rfl, .ask op judge ans, hrest⟩

/-- A finished run of a program with a function of its result. -/
theorem Asks.of_leads_map {p : Asks Op Ans α} {f : α → β} {calls : List (Σ _ : Op, Ans)} {b : β}
    (h : Prog.Leads (p >>= fun a => .ret (f a)) calls (.ret b)) :
    ∃ a, Prog.Leads p calls (.ret a) ∧ b = f a := by
  have hfrom : ∀ (q : Asks Op Ans α) (before calls : List (Σ _ : Op, Ans)), Prog.Leads p before q →
      Prog.Leads (q >>= fun a => .ret (f a)) calls (.ret b) →
        ∃ a, Prog.Leads p (calls ++ before) (.ret a) ∧ b = f a := by
    intro q
    induction q with
    | ret a =>
      intro before calls hbefore hrun
      obtain ⟨rfl, rfl⟩ := Prog.Leads.of_ret hrun
      exact ⟨a, hbefore, rfl⟩
    | call op next ih =>
      intro before calls hbefore hrun
      obtain ⟨ans, rest, rfl, hrest⟩ := Prog.Leads.first hrun
      rw [List.append_assoc]
      exact ih ans (⟨op, ans⟩ :: before) rest (hbefore.call ans) hrest
  have hall := hfrom p [] calls (.refl p) h
  rw [List.append_nil] at hall
  exact hall

section

variable {key : Item → Option Key} {keyOf : Op → Key} {attempt : Item → Attempt Op Ans φ α}

/-- What holds of a finished loop: each key is asked about once, for an item of the list, and not
behind an item whose attempt succeeded; and what was found, an attempt has found. -/
structure TriedOnce (key : Item → Option Key) (keyOf : Op → Key) (attempt : Item → Attempt Op Ans φ α)
    (items : List Item) (tried : List Key) (calls : List (Σ _ : Op, Ans)) (r : Tried φ α) : Prop where
  once : (calls.map fun call => keyOf call.1).Nodup
  fresh : ∀ call ∈ calls, keyOf call.1 ∉ tried
  asked : ∀ call ∈ calls, ∃ i ∈ items, ∃ judge, attempt i = .ask call.1 judge
  stops : ∀ pre i post k a, items = pre ++ i :: post → key i = some k → k ∉ tried →
    (∀ j ∈ pre, key j ≠ some k) → Succeeded attempt calls i a →
    ∀ call ∈ calls, ∃ j ∈ pre ++ [i], ∃ judge, attempt j = .ask call.1 judge
  found : ∀ a, r = .done a → ∃ i ∈ items, (key i).isSome ∧ Succeeded attempt calls i a

variable {items : List Item} {tried : List Key} {calls rest own : List (Σ _ : Op, Ans)} {r : Tried φ α}

/-- The calls of an attempt are about the key of its item. -/
theorem keyOf_of_comes (hkey : ∀ i op judge, attempt i = .ask op judge → key i = some (keyOf op))
    {i : Item} {v : Verdict φ α} (h : (attempt i).Comes own v) :
    ∀ call ∈ own, key i = some (keyOf call.1) ∧ ∃ judge, attempt i = .ask call.1 judge := by
  intro call hcall
  generalize hatt : attempt i = att at h
  cases h with
  | settled => cases hcall
  | ask op judge ans =>
    obtain rfl := List.mem_singleton.mp hcall
    exact ⟨hkey i op judge hatt, judge, rfl⟩

/-- An item that is passed over changes nothing. -/
theorem TriedOnce.skip {i : Item} (h : TriedOnce key keyOf attempt items tried calls r)
    (hskip : ∀ k, key i = some k → k ∈ tried) :
    TriedOnce key keyOf attempt (i :: items) tried calls r where
  once := h.once
  fresh := h.fresh
  asked call hcall := by
    obtain ⟨j, hj, hjudge⟩ := h.asked call hcall
    exact ⟨j, List.mem_cons_of_mem i hj, hjudge⟩
  stops := by
    intro pre j post k a hitems hj hk hpre hdone call hcall
    rcases pre with _ | ⟨i', pre⟩
    · obtain ⟨rfl, rfl⟩ := List.cons.inj hitems
      exact absurd (hskip k hj) hk
    · obtain ⟨rfl, htail⟩ := List.cons.inj hitems
      obtain ⟨x, hx, hjudge⟩ := h.stops pre j post k a htail hj hk
        (fun x hx => hpre x (List.mem_cons_of_mem _ hx)) hdone call hcall
      exact ⟨x, List.mem_cons_of_mem _ hx, hjudge⟩
  found a hr := by
    obtain ⟨j, hj, hdone⟩ := h.found a hr
    exact ⟨j, List.mem_cons_of_mem i hj, hdone⟩

/-- An attempt that succeeds is the last one. -/
theorem TriedOnce.succeed (hkey : ∀ i op judge, attempt i = .ask op judge → key i = some (keyOf op))
    {i : Item} {k : Key} (hi : key i = some k) (hk : k ∉ tried) {a : α}
    (hdone : (attempt i).Comes own (.done a)) :
    TriedOnce key keyOf attempt (i :: items) tried own (.done a) where
  once := hdone.nodup keyOf
  fresh call hcall := by
    obtain rfl := Option.some.inj (hi.symm.trans (keyOf_of_comes hkey hdone call hcall).1)
    exact hk
  asked call hcall := ⟨i, List.mem_cons_self, (keyOf_of_comes hkey hdone call hcall).2⟩
  stops := by
    intro pre j post k' b hitems _ _ _ _ call hcall
    refine ⟨i, ?_, (keyOf_of_comes hkey hdone call hcall).2⟩
    rcases pre with _ | ⟨i', pre⟩
    · obtain ⟨rfl, -⟩ := List.cons.inj hitems
      exact List.mem_cons_self
    · obtain ⟨rfl, -⟩ := List.cons.inj hitems
      exact List.mem_cons_self
  found b hr := by
    cases hr
    exact ⟨i, List.mem_cons_self, by rw [hi]; rfl, own, List.Subset.refl own, hdone⟩

/-- The loop goes on after an attempt that did not succeed. -/
theorem TriedOnce.go_on (hkey : ∀ i op judge, attempt i = .ask op judge → key i = some (keyOf op))
    {i : Item} {k : Key} (hi : key i = some k) (hk : k ∉ tried) {v : Verdict φ α}
    (hcomes : (attempt i).Comes own v) (hv : ∀ a, v ≠ .done a)
    (h : TriedOnce key keyOf attempt items (tried ++ [k]) rest r) :
    TriedOnce key keyOf attempt (i :: items) tried (rest ++ own) r where
  once := by
    rw [List.map_append]
    refine List.nodup_append.mpr ⟨h.once, hcomes.nodup keyOf, ?_⟩
    intro x hx y hy hxy
    obtain ⟨call, hcall, rfl⟩ := List.mem_map.mp hx
    obtain ⟨call', hcall', rfl⟩ := List.mem_map.mp hy
    obtain rfl := Option.some.inj (hi.symm.trans (keyOf_of_comes hkey hcomes call' hcall').1)
    exact h.fresh call hcall (by simp [hxy])
  fresh call hcall := by
    rcases List.mem_append.mp hcall with hcall | hcall
    · exact fun hmem => h.fresh call hcall (List.mem_append_left _ hmem)
    · obtain rfl := Option.some.inj (hi.symm.trans (keyOf_of_comes hkey hcomes call hcall).1)
      exact hk
  asked call hcall := by
    rcases List.mem_append.mp hcall with hcall | hcall
    · obtain ⟨j, hj, hjudge⟩ := h.asked call hcall
      exact ⟨j, List.mem_cons_of_mem i hj, hjudge⟩
    · exact ⟨i, List.mem_cons_self, (keyOf_of_comes hkey hcomes call hcall).2⟩
  stops := by
    intro pre j post k' a hitems hj hk' hpre hdone call hcall
    obtain ⟨done, hsub, hdone⟩ := hdone
    rcases pre with _ | ⟨i', pre⟩
    · -- the item itself: the call it made is the only one about its key
      obtain ⟨rfl, -⟩ := List.cons.inj hitems
      exfalso
      have hown : done ⊆ own := by
        intro x hx
        rcases List.mem_append.mp (hsub hx) with hrest | hown
        · have hx := (keyOf_of_comes hkey hdone x hx).1
          obtain rfl := Option.some.inj (hi.symm.trans hx)
          exact absurd (List.mem_append_right tried (List.mem_singleton_self _)) (h.fresh x hrest)
        · exact hown
      exact hv a (hcomes.unique hown hdone)
    · obtain ⟨rfl, htail⟩ := List.cons.inj hitems
      have hne := hpre i List.mem_cons_self
      have hdone' : Succeeded attempt rest j a := by
        refine ⟨done, ?_, hdone⟩
        intro x hx
        rcases List.mem_append.mp (hsub hx) with hrest | hown
        · exact hrest
        · have hx := (keyOf_of_comes hkey hdone x hx).1
          have hx' := (keyOf_of_comes hkey hcomes x hown).1
          exact absurd (hx'.trans (hx.symm.trans hj)) hne
      have hk'' : k' ∉ tried ++ [k] := by
        rintro hmem
        rcases List.mem_append.mp hmem with hmem | hmem
        · exact hk' hmem
        · obtain rfl := List.mem_singleton.mp hmem
          exact hne hi
      rcases List.mem_append.mp hcall with hcall | hcall
      · obtain ⟨x, hx, hjudge⟩ := h.stops pre j post k' a htail hj hk''
          (fun x hx => hpre x (List.mem_cons_of_mem _ hx)) hdone' call hcall
        exact ⟨x, List.mem_cons_of_mem _ hx, hjudge⟩
      · exact ⟨i, List.mem_cons_self, (keyOf_of_comes hkey hcomes call hcall).2⟩
  found a hr := by
    obtain ⟨j, hj, hsome, done, hsub, hdone⟩ := h.found a hr
    exact ⟨j, List.mem_cons_of_mem i hj, hsome, done, fun x hx => List.mem_append_left _ (hsub hx), hdone⟩

/-- Every finished loop tries each key once. -/
theorem triedOnce_tryAll [DecidableEq Key] (hkey : ∀ i op judge, attempt i = .ask op judge → key i = some (keyOf op))
    {failures : List φ} (h : Prog.Leads (tryAll key attempt items tried failures) calls (.ret r)) :
    TriedOnce key keyOf attempt items tried calls r := by
  induction items generalizing tried failures calls with
  | nil =>
    obtain ⟨rfl, rfl⟩ := Prog.Leads.of_ret h
    refine ⟨.nil, ?_, ?_, ?_, ?_⟩
    · intro call hcall
      cases hcall
    · intro call hcall
      cases hcall
    · intro pre i post k a hitems
      cases pre <;> cases hitems
    · intro a ha
      cases ha
  | cons i items ih =>
    rw [tryAll] at h
    rcases hi : key i with _ | k
    · simp only [hi] at h
      exact (ih h).skip fun k hk => by rw [hi] at hk; cases hk
    · simp only [hi] at h
      by_cases hk : k ∈ tried
      · rw [if_pos hk] at h
        refine (ih h).skip ?_
        intro k' hk'
        obtain rfl := Option.some.inj (hi.symm.trans hk')
        exact hk
      · rw [if_neg hk] at h
        obtain ⟨v, own, rest, rfl, hcomes, hrest⟩ := Attempt.run_bind h
        cases v with
        | passed => exact (ih hrest).go_on hkey hi hk hcomes fun a h => by cases h
        | failed f => exact (ih hrest).go_on hkey hi hk hcomes fun a h => by cases h
        | done a =>
          obtain ⟨rfl, rfl⟩ := Prog.Leads.of_ret hrest
          exact .succeed hkey hi hk hcomes

end

/-! ## Failures -/

section

variable {key : Item → Option Key} {failure : Ans → Option φ} {attempt : Item → Attempt Op Ans φ α}

/-- An attempt fails with what the answer to its question says, and with nothing else. -/
def Attempt.FailsWith (failure : Ans → Option φ) : Attempt Op Ans φ α → Prop
  | .settled v => ∀ f, v ≠ .failed f
  | .ask _ judge => ∀ ans f, judge ans = .failed f ↔ failure ans = some f

/-- The failures among some answers, from the first call on. -/
def failuresOf (failure : Ans → Option φ) (calls : List (Σ _ : Op, Ans)) : List φ :=
  calls.reverse.filterMap fun call => failure call.2

theorem failuresOf_append (rest own : List (Σ _ : Op, Ans)) :
    failuresOf failure (rest ++ own) = failuresOf failure own ++ failuresOf failure rest := by
  rw [failuresOf, List.reverse_append, List.filterMap_append]
  rfl

theorem failuresOf_singleton (op : Op) (ans : Ans) :
    failuresOf failure [(⟨op, ans⟩ : Σ _ : Op, Ans)] = (failure ans).toList := by
  rw [failuresOf, List.reverse_singleton, List.filterMap_cons]
  cases failure ans <;> rfl

/-- The failures that an attempt leaves behind. -/
theorem Attempt.Comes.failures {att : Attempt Op Ans φ α} {own : List (Σ _ : Op, Ans)} {v : Verdict φ α}
    (h : att.Comes own v) (hfail : att.FailsWith failure) (f : φ) :
    v = .failed f ↔ failuresOf failure own = [f] := by
  cases h with
  | settled =>
    refine iff_of_false (hfail f) ?_
    intro h
    cases h
  | ask op judge ans =>
    rw [hfail ans f, failuresOf_singleton]
    cases failure ans <;> simp

theorem Attempt.Comes.failuresOf_eq {att : Attempt Op Ans φ α} {own : List (Σ _ : Op, Ans)} {v : Verdict φ α}
    (h : att.Comes own v) (hfail : att.FailsWith failure) (hv : ∀ f, v ≠ .failed f) :
    failuresOf failure own = [] := by
  cases h with
  | settled => rfl
  | ask op judge ans =>
    have hnone : failure ans = none := by
      rcases hans : failure ans with _ | f
      · rfl
      · exact absurd ((hfail ans f).mpr hans) (hv f)
    rw [failuresOf_singleton, hnone]
    rfl

/-- A loop that nothing ended reports the failures of all its calls, in their order. -/
theorem failures_tryAll [DecidableEq Key] (hfail : ∀ i, (attempt i).FailsWith failure) {items : List Item}
    {tried : List Key} {failures all : List φ} {calls : List (Σ _ : Op, Ans)}
    (h : Prog.Leads (tryAll key attempt items tried failures) calls (.ret (.exhausted all))) :
    all = failures ++ failuresOf failure calls := by
  induction items generalizing tried failures calls with
  | nil =>
    obtain ⟨rfl, hall⟩ := Prog.Leads.of_ret h
    cases hall
    exact (List.append_nil _).symm
  | cons i items ih =>
    rw [tryAll] at h
    rcases hi : key i with _ | k
    · simp only [hi] at h
      exact ih h
    · simp only [hi] at h
      by_cases hk : k ∈ tried
      · rw [if_pos hk] at h
        exact ih h
      · rw [if_neg hk] at h
        obtain ⟨v, own, rest, rfl, hcomes, hrest⟩ := Attempt.run_bind h
        rw [failuresOf_append]
        cases v with
        | passed =>
          rw [hcomes.failuresOf_eq (hfail i) fun f h => by cases h]
          exact ih hrest
        | failed f =>
          rw [(hcomes.failures (hfail i) f).mp rfl, ← List.append_assoc]
          exact ih hrest
        | done a =>
          obtain ⟨-, hend⟩ := Prog.Leads.of_ret hrest
          cases hend

end

/-! ## Fixed answers -/

/-- The result of a program whose questions have fixed answers. -/
def Asks.answered (answer : Op → Ans) : Asks Op Ans α → α
  | .ret a => a
  | .call op next => Asks.answered answer (next (answer op))

theorem Asks.answered_bind (answer : Op → Ans) (p : Asks Op Ans α) (f : α → Asks Op Ans β) :
    Asks.answered answer (p >>= f) = Asks.answered answer (f (Asks.answered answer p)) := by
  induction p with
  | ret a => rfl
  | call op next ih => exact ih (answer op)

/-- Fixed answers are one way through a program. -/
theorem Asks.leads_answered (answer : Op → Ans) (p : Asks Op Ans α) :
    ∃ calls, Prog.Leads p calls (.ret (Asks.answered answer p)) ∧ ∀ call ∈ calls, call.2 = answer call.1 := by
  have hfrom : ∀ (q : Asks Op Ans α) (calls : List (Σ _ : Op, Ans)), Prog.Leads p calls q →
      (∀ call ∈ calls, call.2 = answer call.1) →
        ∃ calls, Prog.Leads p calls (.ret (Asks.answered answer q)) ∧
          ∀ call ∈ calls, call.2 = answer call.1 := by
    intro q
    induction q with
    | ret a => exact fun calls h hcalls => ⟨calls, h, hcalls⟩
    | call op next ih =>
      intro calls h hcalls
      exact ih (answer op) (⟨op, answer op⟩ :: calls) (h.call (answer op))
        (List.forall_mem_cons.mpr ⟨rfl, hcalls⟩)
  refine hfrom p [] (.refl p) ?_
  intro call hcall
  cases hcall

/-! ## Two loops side by side -/

/-- Two programs with the same answers that ask related questions, one for one. -/
def Asks.Alike (kin : Op → Op' → Prop) (post : β → β' → Prop) : Asks Op Ans β → Asks Op' Ans β' → Prop
  | .ret b, .ret b' => post b b'
  | .call op next, .call op' next' => kin op op' ∧ ∀ ans, Asks.Alike kin post (next ans) (next' ans)
  | _, _ => False

/-- Verdicts that differ in what was found only. -/
inductive Verdict.Alike (found : α → α' → Prop) : Verdict φ α → Verdict φ α' → Prop where
  | passed : Alike found .passed .passed
  | failed (f : φ) : Alike found (.failed f) (.failed f)
  | done {a : α} {a' : α'} (h : found a a') : Alike found (.done a) (.done a')

/-- Attempts that ask alike and judge alike. -/
inductive Attempt.Alike (kin : Op → Op' → Prop) (found : α → α' → Prop) :
    Attempt Op Ans φ α → Attempt Op' Ans φ α' → Prop where
  | settled {v : Verdict φ α} {v' : Verdict φ α'} (h : v.Alike found v') : Alike kin found (.settled v) (.settled v')
  | ask {op : Op} {op' : Op'} {judge : Ans → Verdict φ α} {judge' : Ans → Verdict φ α'} (hkin : kin op op')
      (h : ∀ ans, (judge ans).Alike found (judge' ans)) : Alike kin found (.ask op judge) (.ask op' judge')

/-- Outcomes that are alike. -/
inductive Tried.Alike (found : α → α' → Prop) : Tried φ α → Tried φ α' → Prop where
  | exhausted (failures : List φ) : Alike found (.exhausted failures) (.exhausted failures)
  | done {a : α} {a' : α'} (h : found a a') : Alike found (.done a) (.done a')

section

variable {kin : Op → Op' → Prop} {found : α → α' → Prop}

theorem Asks.Alike.bind {γ γ' : Type} {mid : β → β' → Prop} {post : γ → γ' → Prop} {p : Asks Op Ans β}
    {p' : Asks Op' Ans β'} {f : β → Asks Op Ans γ} {f' : β' → Asks Op' Ans γ'} (h : Asks.Alike kin mid p p')
    (hf : ∀ b b', mid b b' → Asks.Alike kin post (f b) (f' b')) : Asks.Alike kin post (p >>= f) (p' >>= f') := by
  induction p generalizing p' with
  | ret b =>
    cases p' with
    | ret b' => exact hf b b' h
    | call op' next' => exact h.elim
  | call op next ih =>
    cases p' with
    | ret b' => exact h.elim
    | call op' next' => exact ⟨h.1, fun ans => ih ans (h.2 ans)⟩

theorem Attempt.Alike.run {att : Attempt Op Ans φ α} {att' : Attempt Op' Ans φ α'}
    (h : att.Alike kin found att') : Asks.Alike kin (Verdict.Alike found) att.run att'.run := by
  cases h with
  | settled h => exact h
  | ask hkin h => exact ⟨hkin, h⟩

/-- Loops over items that correspond ask the same questions, when one's keys are told apart as the
other's are. -/
theorem alike_tryAll [DecidableEq Key] [DecidableEq Key'] {key : Item → Option Key} {key' : Item' → Option Key'}
    {attempt : Item → Attempt Op Ans φ α} {attempt' : Item' → Attempt Op' Ans φ α'} {name : Key → Key'}
    (hname : Function.Injective name) {items : List Item} {items' : List Item'}
    (h : List.Forall₂ (fun i i' => key' i' = (key i).map name ∧ (attempt i).Alike kin found (attempt' i'))
      items items') (tried : List Key) (failures : List φ) :
    Asks.Alike kin (Tried.Alike found) (tryAll key attempt items tried failures)
      (tryAll key' attempt' items' (tried.map name) failures) := by
  induction h generalizing tried failures with
  | nil => exact .exhausted failures
  | @cons i i' items items' hi _ ih =>
    obtain ⟨hkey, halike⟩ := hi
    rw [tryAll, tryAll, hkey]
    rcases key i with _ | k
    · exact ih tried failures
    · have hmem : name k ∈ tried.map name ↔ k ∈ tried := List.mem_map_of_injective hname
      dsimp only [Option.map_some]
      by_cases hk : k ∈ tried
      · rw [if_pos hk, if_pos (hmem.mpr hk)]
        exact ih tried failures
      · rw [if_neg hk, if_neg (mt hmem.mp hk)]
        refine halike.run.bind ?_
        intro v v' hv
        have hnext : ∀ failures, Asks.Alike kin (Tried.Alike found)
            (tryAll key attempt items (tried ++ [k]) failures)
            (tryAll key' attempt' items' (tried.map name ++ [name k]) failures) := by
          intro failures
          have hrest := ih (tried ++ [k]) failures
          rw [List.map_append] at hrest
          exact hrest
        cases hv with
        | passed => exact hnext failures
        | failed f => exact hnext (failures ++ [f])
        | done ha => exact .done ha

variable {post : β → β' → Prop} {p : Asks Op Ans β} {p' : Asks Op' Ans β'}

theorem Asks.Alike.symm (h : Asks.Alike kin post p p') :
    Asks.Alike (fun op' op => kin op op') (fun b' b => post b b') p' p := by
  induction p generalizing p' with
  | ret b =>
    cases p' with
    | ret b' => exact h
    | call op' next' => exact h.elim
  | call op next ih =>
    cases p' with
    | ret b' => exact h.elim
    | call op' next' => exact ⟨h.1, fun ans => ih ans (h.2 ans)⟩

/-- Every finished run of one has a finished run of the other: related questions with the same
answers. -/
theorem Asks.Alike.leads (h : Asks.Alike kin post p p') {calls : List (Σ _ : Op, Ans)} {b : β}
    (hrun : Prog.Leads p calls (.ret b)) :
    ∃ calls' b', Prog.Leads p' calls' (.ret b') ∧ post b b' ∧
      List.Forall₂ (fun call call' => kin call.1 call'.1 ∧ call'.2 = call.2) calls calls' := by
  have hpart : ∀ {q : Asks Op Ans β} {calls : List (Σ _ : Op, Ans)}, Prog.Leads p calls q →
      ∃ calls' q', Prog.Leads p' calls' q' ∧ Asks.Alike kin post q q' ∧
        List.Forall₂ (fun call call' => kin call.1 call'.1 ∧ call'.2 = call.2) calls calls' := by
    intro q calls hleads
    induction hleads with
    | refl => exact ⟨[], p', .refl p', h, .nil⟩
    | call _ ans ih =>
      obtain ⟨calls', q', hq', halike, hcalls⟩ := ih
      cases q' with
      | ret b' => exact halike.elim
      | call op' next' =>
        exact ⟨⟨op', ans⟩ :: calls', next' ans, hq'.call ans, halike.2 ans, .cons ⟨halike.1, rfl⟩ hcalls⟩
  obtain ⟨calls', q', hq', halike, hcalls⟩ := hpart hrun
  cases q' with
  | ret b' => exact ⟨calls', b', hq', halike, hcalls⟩
  | call op' next' => exact halike.elim

end

end Piggy.Core
