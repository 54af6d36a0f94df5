import Piggy.Core.Fallible
import Mathlib.Data.List.Forall2

/-!
# Two runs side by side

What two runs have in common when some of their answers differ. The two programs call related
operations one for one, as long as the answers are related too, so that a relation between their
results and one between their calls hold of every two finished runs.
-/

namespace Piggy.Core

/-- Two results that both failed or both succeeded. -/
inductive Related {ε ε' α α' : Type} (errors : ε → ε' → Prop) (values : α → α' → Prop) :
    Except ε α → Except ε' α' → Prop where
  | error {e : ε} {e' : ε'} (h : errors e e') : Related errors values (.error e) (.error e')
  | ok {a : α} {a' : α'} (h : values a a') : Related errors values (.ok a) (.ok a')

theorem Related.mono {ε ε' α α' : Type} {errors errors' : ε → ε' → Prop} {values values' : α → α' → Prop}
    {r : Except ε α} {r' : Except ε' α'} (h : Related errors values r r')
    (herrors : ∀ e e', errors e e' → errors' e e') (hvalues : ∀ a a', values a a' → values' a a') :
    Related errors' values' r r' := by
  cases h with
  | error h => exact .error (herrors _ _ h)
  | ok h => exact .ok (hvalues _ _ h)

/-- Equal results are related. -/
theorem related_of_eq {ε α : Type} {errors : ε → ε → Prop} {values : α → α → Prop}
    (herrors : ∀ e, errors e e) (hvalues : ∀ a, values a a) {r r' : Except ε α} (h : r = r') :
    Related errors values r r' := by
  subst h
  cases r with
  | error e => exact .error (herrors e)
  | ok a => exact .ok (hvalues a)

namespace Prog

variable {Op : Type} {Ans : Op → Type} {α α' β β' ε ε' : Type} {kin : Op → Op → Prop}
  {alike : (Σ op, Ans op) → (Σ op, Ans op) → Prop}

/-- Two programs that go side by side while their answers are alike. -/
def Twin (kin : Op → Op → Prop) (alike : (Σ op, Ans op) → (Σ op, Ans op) → Prop)
    (post : α → α' → Prop) : Prog Op Ans α → Prog Op Ans α' → Prop
  | .ret a, .ret a' => post a a'
  | .call op next, .call op' next' =>
    kin op op' ∧ ∀ ans ans', alike ⟨op, ans⟩ ⟨op', ans'⟩ → Twin kin alike post (next ans) (next' ans')
  | _, _ => False

section

variable {post : α → α' → Prop}

theorem Twin.bind {mid : α → α' → Prop} {post : β → β' → Prop} {p : Prog Op Ans α}
    {p' : Prog Op Ans α'} {f : α → Prog Op Ans β} {f' : α' → Prog Op Ans β'}
    (h : Twin kin alike mid p p') (hf : ∀ a a', mid a a' → Twin kin alike post (f a) (f' a')) :
    Twin kin alike post (p >>= f) (p' >>= f') := by
  induction p generalizing p' with
  | ret a =>
    cases p' with
    | ret a' => exact hf a a' h
    | call op' next' => exact h.elim
  | call op next ih =>
    cases p' with
    | ret a' => exact h.elim
    | call op' next' => exact ⟨h.1, fun ans ans' halike => ih ans (h.2 ans ans' halike)⟩

theorem Twin.andThen {errors : ε → ε' → Prop} {values : α → α' → Prop} {values' : β → β' → Prop}
    {p : Prog Op Ans (Except ε α)} {p' : Prog Op Ans (Except ε' α')}
    {f : α → Prog Op Ans (Except ε β)} {f' : α' → Prog Op Ans (Except ε' β')}
    (h : Twin kin alike (Related errors values) p p')
    (hf : ∀ a a', values a a' → Twin kin alike (Related errors values') (f a) (f' a')) :
    Twin kin alike (Related errors values') (p.andThen f) (p'.andThen f') := by
  refine h.bind ?_
  rintro r r' (⟨herror⟩ | ⟨hok⟩)
  · exact .error herror
  · exact hf _ _ hok

theorem Twin.orFail {γ γ' : Type} {errors : ε → ε' → Prop} {errors' : γ → γ' → Prop}
    {values : α → α' → Prop} {p : Prog Op Ans (Except ε α)} {p' : Prog Op Ans (Except ε' α')}
    {g : ε → γ} {g' : ε' → γ'} (h : Twin kin alike (Related errors values) p p')
    (hg : ∀ e e', errors e e' → errors' (g e) (g' e')) :
    Twin kin alike (Related errors' values) (p.orFail g) (p'.orFail g') := by
  refine h.bind ?_
  rintro r r' (⟨herror⟩ | ⟨hok⟩)
  · exact .error (hg _ _ herror)
  · exact .ok hok

theorem Twin.mono {post' : α → α' → Prop} {p : Prog Op Ans α} {p' : Prog Op Ans α'}
    (h : Twin kin alike post p p') (hpost : ∀ a a', post a a' → post' a a') :
    Twin kin alike post' p p' := by
  induction p generalizing p' with
  | ret a =>
    cases p' with
    | ret a' => exact hpost a a' h
    | call op' next' => exact h.elim
  | call op next ih =>
    cases p' with
    | ret a' => exact h.elim
    | call op' next' => exact ⟨h.1, fun ans ans' halike => ih ans (h.2 ans ans' halike)⟩

/-- A program goes side by side with itself where alike answers are equal. -/
theorem Only.twin {kind : Op → Prop} {p : Prog Op Ans α} (hp : p.Only kind)
    (hkin : ∀ op, kind op → kin op op)
    (halike : ∀ op ans ans', kind op → alike ⟨op, ans⟩ ⟨op, ans'⟩ → ans = ans') :
    Twin kin alike (fun a a' => a = a') p p := by
  induction p with
  | ret a => exact rfl
  | call op next ih =>
    refine ⟨hkin op hp.1, fun ans ans' h => ?_⟩
    obtain rfl := halike op ans ans' hp.1 h
    exact ih ans (hp.2 ans)

/-! ## Finished runs -/

/-- The first call of a finished run. -/
theorem Leads.first {op : Op} {next : Ans op → Prog Op Ans α} {calls : List (Σ op, Ans op)} {a : α}
    (h : Leads (.call op next) calls (.ret a)) :
    ∃ ans rest, calls = rest ++ [⟨op, ans⟩] ∧ Leads (next ans) rest (.ret a) := by
  have hfirst : ∀ {p q : Prog Op Ans α} {calls : List (Σ op, Ans op)}, Leads p calls q →
      p = .call op next → calls = [] ∧ q = p ∨
        ∃ ans rest, calls = rest ++ [⟨op, ans⟩] ∧ Leads (next ans) rest q := by
    intro p q calls hleads
    induction hleads with
    | refl =>
      intro hp
      exact .inl ⟨rfl, rfl⟩
    | call hleads ans ih =>
      intro hp
      rcases ih hp with ⟨rfl, hq⟩ | ⟨first, rest, rfl, hrest⟩
      · rw [hp] at hq
        cases hq
        exact .inr ⟨ans, [], rfl, .refl _⟩
      · exact .inr ⟨first, ⟨_, ans⟩ :: rest, rfl, hrest.call ans⟩
  rcases hfirst h rfl with ⟨-, hq⟩ | hrest
  · cases hq
  · exact hrest

theorem Leads.of_ret {calls : List (Σ op, Ans op)} {a b : α}
    (h : Leads (.ret a : Prog Op Ans α) calls (.ret b)) : calls = [] ∧ a = b := by
  have hnone : ∀ {p q : Prog Op Ans α} {calls : List (Σ op, Ans op)}, Leads p calls q →
      p = .ret a → calls = [] ∧ q = .ret a := by
    intro p q calls hleads
    induction hleads with
    | refl =>
      intro hp
      exact ⟨rfl, hp⟩
    | call _ _ ih =>
      intro hp
      cases (ih hp).2
  obtain ⟨hcalls, hq⟩ := hnone h rfl
  cases hq
  exact ⟨hcalls, rfl⟩

/-- Two finished runs, call by call from the first. -/
abbrev callPairs (calls calls' : List (Σ op, Ans op)) : List ((Σ op, Ans op) × (Σ op, Ans op)) :=
  calls.reverse.zip calls'.reverse

/-- Two finished runs whose answers are alike. -/
theorem Twin.runs {p : Prog Op Ans α} {p' : Prog Op Ans α'} (h : Twin kin alike post p p')
    {calls calls' : List (Σ op, Ans op)} {a : α} {a' : α'} (hrun : p.Leads calls (.ret a))
    (hrun' : p'.Leads calls' (.ret a')) (halike : ∀ x ∈ callPairs calls calls', alike x.1 x.2) :
    post a a' ∧ List.Forall₂ (fun c c' => kin c.1 c'.1) calls.reverse calls'.reverse := by
  induction p generalizing p' calls calls' with
  | ret b =>
    cases p' with
    | ret b' =>
      obtain ⟨rfl, rfl⟩ := hrun.of_ret
      obtain ⟨rfl, rfl⟩ := hrun'.of_ret
      exact ⟨h, .nil⟩
    | call op' next' => exact h.elim
  | call op next ih =>
    cases p' with
    | ret b' => exact h.elim
    | call op' next' =>
      obtain ⟨ans, rest, rfl, hrest⟩ := hrun.first
      obtain ⟨ans', rest', rfl, hrest'⟩ := hrun'.first
      simp only [callPairs, List.reverse_append, List.reverse_cons, List.reverse_nil, List.nil_append,
        List.cons_append, List.zip_cons_cons, List.mem_cons, forall_eq_or_imp] at halike ⊢
      obtain ⟨hpost, hkin⟩ := ih ans (h.2 ans ans' halike.1) hrest hrest' halike.2
      exact ⟨hpost, .cons h.1 hkin⟩

end

end Prog

end Piggy.Core
