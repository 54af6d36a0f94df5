import Mathlib.Data.List.Forall2
import Piggy.Core.Codec

/-!
# Lists

Lists related element by element, patterns that stand in a list, and a list with one element
replaced. A pattern is not disturbed by what is put around the elements it has none of.
-/

namespace Piggy.Core

/-- An element is first found behind a part that has none of it. -/
theorem idxOf?_eq_some_iff {α : Type} [DecidableEq α] {x : α} {s : List α} {i : Nat} :
    s.idxOf? x = some i ↔ ∃ front back, s = front ++ x :: back ∧ x ∉ front ∧ i = front.length := by
  constructor
  · intro h
    obtain ⟨hi, hx, hbefore⟩ := List.findIdx?_eq_some_iff_getElem.mp h
    refine ⟨s.take i, s.drop (i + 1), ?_, ?_, ?_⟩
    · conv_lhs => rw [← List.take_append_drop i s, List.drop_eq_getElem_cons hi, eq_of_beq hx]
    · intro hmem
      obtain ⟨j, hj, hget⟩ := List.mem_iff_getElem.mp hmem
      rw [List.length_take] at hj
      rw [List.getElem_take] at hget
      exact absurd (hbefore j (by omega)) (by simp [hget])
    · rw [List.length_take]
      omega
  · rintro ⟨front, back, rfl, hnot, rfl⟩
    have hno : front.findIdx? (· == x) = none := by
      rw [List.findIdx?_eq_none_iff]
      intro b hb
      exact beq_eq_false_iff_ne.mpr fun he => hnot (he ▸ hb)
    rw [List.idxOf?, List.findIdx?_append, hno, List.findIdx?_cons]
    simp

/-- An element on the right of a pointwise relation has its counterpart on the left. -/
theorem forall₂_mem_right {α β : Type} {R : α → β → Prop} {as : List α} {bs : List β}
    (h : List.Forall₂ R as bs) {b : β} (hb : b ∈ bs) : ∃ a ∈ as, R a b := by
  induction h with
  | nil => cases hb
  | cons hab _ ih =>
    rcases List.mem_cons.mp hb with rfl | hb
    · exact ⟨_, by simp, hab⟩
    · obtain ⟨a, ha, hR⟩ := ih hb
      exact ⟨a, by simp [ha], hR⟩

/-- An element on the left of a pointwise relation has its counterpart on the right. -/
theorem forall₂_mem_left {α β : Type} {R : α → β → Prop} {as : List α} {bs : List β}
    (h : List.Forall₂ R as bs) {a : α} (ha : a ∈ as) : ∃ b ∈ bs, R a b :=
  forall₂_mem_right h.flip ha

/-- Pointwise relations compose. -/
theorem forall₂_comp {α β γ : Type} {R : α → β → Prop} {S : β → γ → Prop} {T : α → γ → Prop}
    (hT : ∀ a b c, R a b → S b c → T a c) {as : List α} {bs : List β} {cs : List γ}
    (h : List.Forall₂ R as bs) (h' : List.Forall₂ S bs cs) : List.Forall₂ T as cs := by
  induction h generalizing cs with
  | nil =>
    cases h'
    exact .nil
  | cons hab _ ih =>
    cases h' with
    | cons hbc h' => exact .cons (hT _ _ _ hab hbc) (ih h')

/-- A relation of paired lists relates the first of them when the second is as long. -/
theorem forall₂_of_zip {α β γ : Type} {S : α → β → γ → Prop} {R : α → γ → Prop} {as : List α}
    {bs : List β} {cs : List γ} (hlen : bs.length = as.length)
    (h : List.Forall₂ (fun p c => S p.1 p.2 c) (as.zip bs) cs)
    (hR : ∀ a b c, b ∈ bs → c ∈ cs → S a b c → R a c) : List.Forall₂ R as cs := by
  induction as generalizing bs cs with
  | nil =>
    rw [List.zip_nil_left, List.forall₂_nil_left_iff] at h
    subst h
    exact .nil
  | cons a as ih =>
    obtain ⟨b, bs, rfl⟩ : ∃ b bs', bs = b :: bs' := List.exists_cons_of_length_eq_add_one hlen
    rw [List.zip_cons_cons, List.forall₂_cons_left_iff] at h
    obtain ⟨c, cs, hS, hcs, rfl⟩ := h
    refine .cons (hR a b c (by simp) (by simp) hS) (ih (by simpa using hlen) hcs ?_)
    intro a' b' c' hb' hc' hS'
    exact hR a' b' c' (by simp [hb']) (by simp [hc']) hS'

/-- Lists related there and back relate each element to its own counterpart. -/
theorem forall₂_there_back {α β : Type} {R : α → β → Prop} {S : β → α → Prop} {as : List α}
    {bs : List β} (h : List.Forall₂ R as bs) (h' : List.Forall₂ S bs as) :
    ∀ a ∈ as, ∃ b, R a b ∧ S b a := by
  induction h with
  | nil => exact fun a ha => nomatch ha
  | @cons a b as bs hab _ ih =>
    cases h' with
    | cons hba h' =>
      intro a' ha'
      rcases List.mem_cons.mp ha' with rfl | hmem
      · exact ⟨b, hab, hba⟩
      · exact ih h' a' hmem

/-- Counterparts of every element make up a list related there and back. -/
theorem exists_there_back {α β : Type} {R : α → β → Prop} {S : β → α → Prop} {as : List α}
    (h : ∀ a ∈ as, ∃ b, R a b ∧ S b a) : ∃ bs, List.Forall₂ R as bs ∧ List.Forall₂ S bs as := by
  induction as with
  | nil => exact ⟨[], .nil, .nil⟩
  | cons a as ih =>
    obtain ⟨b, hab, hba⟩ := h a List.mem_cons_self
    obtain ⟨bs, hR, hS⟩ := ih fun a' ha' => h a' (List.mem_cons_of_mem _ ha')
    exact ⟨b :: bs, .cons hab hR, .cons hba hS⟩

/-- A loop over a list gives the list of the results when every turn succeeds. -/
theorem mapM_ok {ε α β : Type} {f : α → Except ε β} {as : List α} {bs : List β} :
    as.mapM f = .ok bs ↔ List.Forall₂ (fun a b => f a = .ok b) as bs := by
  induction as generalizing bs with
  | nil =>
    rw [List.mapM_nil, pure_ok, List.forall₂_nil_left_iff]
    exact eq_comm
  | cons a as ih =>
    rw [List.mapM_cons]
    simp only [bind_ok, pure_ok, List.forall₂_cons_left_iff, ih]
    constructor
    · rintro ⟨b, hb, bs', hbs, rfl⟩
      exact ⟨b, bs', hb, hbs, rfl⟩
    · rintro ⟨b, bs', hb, hbs, rfl⟩
      exact ⟨b, hb, bs', hbs, rfl⟩

/-- A loop that ends has made every turn. -/
theorem turn_of_foldlM {ε α σ : Type} {f : σ → α → Except ε σ} {as : List α} {s s' : σ}
    (h : as.foldlM f s = .ok s') {a : α} (ha : a ∈ as) : ∃ t t', f t a = .ok t' := by
  induction as generalizing s with
  | nil => cases ha
  | cons b as ih =>
    rw [List.foldlM_cons, bind_ok] at h
    obtain ⟨mid, hmid, hrest⟩ := h
    rcases List.mem_cons.mp ha with rfl | hmem
    · exact ⟨s, mid, hmid⟩
    · exact ih hrest hmem

/-- Loops whose turns correspond end in corresponding states. -/
theorem foldlM_iff {ε ε' α β σ τ : Type} {f : σ → α → Except ε σ} {g : τ → β → Except ε' τ}
    {i : σ → τ} {j : α → β}
    (h : ∀ s a t, g (i s) (j a) = .ok t ↔ ∃ s', f s a = .ok s' ∧ t = i s') {as : List α} {s : σ}
    {t : τ} : (as.map j).foldlM g (i s) = .ok t ↔ ∃ s', as.foldlM f s = .ok s' ∧ t = i s' := by
  induction as generalizing s with
  | nil =>
    rw [List.map_nil, List.foldlM_nil, List.foldlM_nil, pure_ok]
    simp only [pure_ok, exists_eq_left']
    exact eq_comm
  | cons a as ih =>
    rw [List.map_cons, List.foldlM_cons, List.foldlM_cons]
    simp only [bind_ok]
    constructor
    · rintro ⟨_, hturn, hrest⟩
      obtain ⟨mid, hmid, rfl⟩ := (h s a _).mp hturn
      obtain ⟨s', hs', rfl⟩ := ih.mp hrest
      exact ⟨s', ⟨mid, hmid, hs'⟩, rfl⟩
    · rintro ⟨s', ⟨mid, hmid, hs'⟩, rfl⟩
      exact ⟨i mid, (h s a _).mpr ⟨mid, hmid, rfl⟩, ih.mpr ⟨s', hs', rfl⟩⟩

/-- Two lists that go on behind the first occurrence of an element are the same before it and
behind it. -/
theorem append_cons_inj {α : Type} {a : α} {x y z w : List α} (hx : a ∉ x) (hy : a ∉ y)
    (h : x ++ a :: z = y ++ a :: w) : x = y ∧ z = w := by
  induction x generalizing y with
  | nil =>
    cases y with
    | nil => exact ⟨rfl, (List.cons.inj h).2⟩
    | cons b y => exact absurd (List.cons.inj h).1 (List.ne_of_not_mem_cons hy)
  | cons c x ih =>
    cases y with
    | nil => exact absurd (List.cons.inj h).1.symm (List.ne_of_not_mem_cons hx)
    | cons b y =>
      obtain ⟨rfl, htail⟩ := List.cons.inj h
      obtain ⟨rfl, rfl⟩ := ih (List.not_mem_of_not_mem_cons hx) (List.not_mem_of_not_mem_cons hy) htail
      exact ⟨rfl, rfl⟩

/-! ## Patterns -/

section

variable {α : Type} {m w b : List α}

/-- A pattern stands at the start of a list also when something foreign follows. -/
theorem prefix_append_foreign (h : m.Disjoint b) : m <+: w ++ b ↔ m <+: w := by
  refine ⟨?_, fun hp => hp.trans (List.prefix_append w b)⟩
  intro hp
  induction m generalizing w with
  | nil => exact List.nil_prefix
  | cons x xs ih =>
    cases w with
    | nil => exact absurd (hp.subset List.mem_cons_self) (h List.mem_cons_self)
    | cons y ys =>
      rw [List.cons_append, List.cons_prefix_cons] at hp
      exact List.cons_prefix_cons.mpr ⟨hp.1, ih (List.disjoint_of_disjoint_cons_left h) hp.2⟩

/-- A pattern that stands in front of something foreign, or behind it, stands in the rest. -/
theorem infix_append_foreign (hm : m ≠ []) (h : m.Disjoint b) : m <:+: w ++ b ↔ m <:+: w := by
  induction w with
  | nil =>
    rw [List.nil_append, List.infix_nil]
    refine ⟨?_, fun he => absurd he hm⟩
    intro hi
    obtain ⟨x, hx⟩ := List.exists_mem_of_ne_nil m hm
    exact absurd (hi.subset hx) (h hx)
  | cons y ys ih =>
    rw [List.cons_append, List.infix_cons_iff, List.infix_cons_iff, ih, ← List.cons_append,
      prefix_append_foreign h]

theorem infix_foreign_append (hm : m ≠ []) (h : m.Disjoint b) : m <:+: b ++ w ↔ m <:+: w := by
  induction b with
  | nil => rfl
  | cons y ys ih =>
    have hy : ¬ m <+: y :: (ys ++ w) := by
      intro hp
      obtain ⟨x, xs, rfl⟩ := List.exists_cons_of_ne_nil hm
      obtain rfl := (List.cons_prefix_cons.mp hp).1
      exact h List.mem_cons_self List.mem_cons_self
    rw [List.cons_append, List.infix_cons_iff, ih (List.disjoint_of_disjoint_cons_right h)]
    exact or_iff_right hy

/-- A pattern that stands in two lists joined, but not in the second, stands in the first
when that one ends in nothing of the pattern's. -/
theorem infix_of_append (hlast : ∀ x ∈ w.getLast?, x ∉ m) (hb : ¬ m <:+: b)
    (h : m <:+: w ++ b) : m <:+: w := by
  induction w with
  | nil => exact absurd h hb
  | cons y ys ih =>
    rw [List.cons_append, List.infix_cons_iff] at h
    rcases h with hp | hi
    · rw [← List.cons_append] at hp
      rcases Nat.le_total m.length (y :: ys).length with hle | hle
      · exact (List.prefix_of_prefix_length_le hp (List.prefix_append _ _) hle).isInfix
      · have hys := List.prefix_of_prefix_length_le (List.prefix_append (y :: ys) b) hp hle
        exact absurd (hys.subset (List.getLast_mem (List.cons_ne_nil y ys)))
          (hlast _ (List.getLast?_eq_some_getLast (List.cons_ne_nil y ys)))
    · refine (ih ?_ hi).trans (List.suffix_cons y ys).isInfix
      intro x hx
      cases ys with
      | nil => cases hx
      | cons z zs => exact hlast x hx

/-- A spelling of the elements that leaves those of a pattern alone: any other element is
spelled by something foreign to the pattern. -/
def Spares (m : List α) (f : α → List α) : Prop :=
  ∀ a, f a = [a] ∨ (a ∉ m ∧ f a ≠ [] ∧ m.Disjoint (f a))

theorem prefix_flatMap_iff {f : α → List α} {m' : List α} (hsub : m' ⊆ m) (hf : Spares m f) :
    m' <+: w.flatMap f ↔ m' <+: w := by
  induction m' generalizing w with
  | nil => simp
  | cons x xs ih =>
    cases w with
    | nil => simp
    | cons y ys =>
      rw [List.flatMap_cons]
      rcases hf y with hy | ⟨hy, hne, hdis⟩
      · rw [hy, List.singleton_append, List.cons_prefix_cons, List.cons_prefix_cons,
          ih fun z hz => hsub (List.mem_cons_of_mem _ hz)]
      · have hx := hsub List.mem_cons_self
        obtain ⟨z, zs, hz⟩ := List.exists_cons_of_ne_nil hne
        refine iff_of_false ?_ ?_
        · intro hp
          rw [hz, List.cons_append, List.cons_prefix_cons] at hp
          exact hdis hx (by rw [hz, hp.1]; exact List.mem_cons_self)
        · intro hp
          exact hy ((List.cons_prefix_cons.mp hp).1 ▸ hx)

/-- A pattern stands in the spelled list exactly when it stands in the list. -/
theorem infix_flatMap_iff {f : α → List α} (hm : m ≠ []) (hf : Spares m f) :
    m <:+: w.flatMap f ↔ m <:+: w := by
  induction w with
  | nil => simp
  | cons y ys ih =>
    rcases hf y with hy | ⟨hy, -, hdis⟩
    · have hp := prefix_flatMap_iff (w := y :: ys) (List.Subset.refl m) hf
      rw [List.flatMap_cons, hy, List.singleton_append] at hp ⊢
      rw [List.infix_cons_iff, List.infix_cons_iff, ih, hp]
    · have hcons : m <:+: [y] ++ ys ↔ m <:+: ys :=
        infix_foreign_append hm (by simpa [List.disjoint_singleton] using hy)
      rw [List.flatMap_cons, infix_foreign_append hm hdis, ih, ← hcons, List.singleton_append]

end

/-! ## The first of its kind -/

/-- Of what a list holds, one is the first to meet a predicate, or none meets it. -/
theorem exists_first {α : Type} (P : α → Prop) (l : List α) :
    (∃ before a after, l = before ++ a :: after ∧ P a ∧ ∀ b ∈ before, ¬ P b) ∨
      ∀ b ∈ l, ¬ P b := by
  induction l with
  | nil => exact .inr fun b hb => absurd hb List.not_mem_nil
  | cons c l ih =>
    by_cases hc : P c
    · exact .inl ⟨[], c, l, rfl, hc, fun b hb => absurd hb List.not_mem_nil⟩
    · have hcons {l : List α} (h : ∀ b ∈ l, ¬ P b) : ∀ b ∈ c :: l, ¬ P b := by
        intro b hb
        rcases List.mem_cons.mp hb with rfl | hb
        · exact hc
        · exact h b hb
      rcases ih with ⟨before, a, after, rfl, ha, hbefore⟩ | hnone
      · exact .inl ⟨c :: before, a, after, rfl, ha, hcons hbefore⟩
      · exact .inr (hcons hnone)

/-! ## One element replaced -/

section Replace

variable {α : Type} {l : List α} {i : Nat} {a b : α}

theorem set_of_getElem? (h : l[i]? = some a) : l.set i a = l := by
  obtain ⟨hi, rfl⟩ := List.getElem?_eq_some_iff.mp h
  exact List.set_getElem_self hi

theorem mem_set_of_getElem? (h : l[i]? = some a) : b ∈ l.set i b := by
  obtain ⟨hi, -⟩ := List.getElem?_eq_some_iff.mp h
  exact List.mem_of_getElem? (List.getElem?_set_self hi)

/-- Only the element at the place is lost. -/
theorem mem_set_or_eq (h : a ∈ l) : a ∈ l.set i b ∨ l[i]? = some a := by
  obtain ⟨j, hj⟩ := List.getElem?_of_mem h
  by_cases he : i = j
  · subst he
    exact .inr hj
  · refine .inl (List.mem_of_getElem? (i := j) ?_)
    rw [List.getElem?_set_ne he, hj]

/-- A sum changes by what the replaced element adds to it. -/
theorem sum_map_set (h : l[i]? = some a) (b : α) (f : α → Nat) :
    ((l.set i b).map f).sum + f a = (l.map f).sum + f b := by
  induction l generalizing i with
  | nil => cases h
  | cons x xs ih =>
    cases i with
    | zero =>
      cases h
      simp only [List.set_cons_zero, List.map_cons, List.sum_cons]
      omega
    | succ i =>
      have hi := ih (i := i) (by simpa using h)
      simp only [List.set_cons_succ, List.map_cons, List.sum_cons]
      omega

end Replace

/-- An element of lists put together stands in one of them. -/
theorem flatMap_eq_append_cons {α β : Type} {f : α → List β} {l : List α} {front back : List β}
    {b : β} (h : l.flatMap f = front ++ b :: back) :
    ∃ before a after pre post, l = before ++ a :: after ∧ f a = pre ++ b :: post ∧
      front = before.flatMap f ++ pre ∧ back = post ++ after.flatMap f := by
  induction l generalizing front with
  | nil => cases front <;> cases h
  | cons a l ih =>
    rw [List.flatMap_cons, List.append_eq_append_iff] at h
    rcases h with ⟨rest, rfl, hrest⟩ | ⟨rest, ha, hrest⟩
    · obtain ⟨before, a', after, pre, post, rfl, hfa, rfl, rfl⟩ := ih hrest
      exact ⟨a :: before, a', after, pre, post, rfl, hfa, by simp, rfl⟩
    · cases rest with
      | nil =>
        have hbehind : l.flatMap f = [] ++ b :: back := hrest.symm
        obtain ⟨before, a', after, pre, post, rfl, hfa, hfront, rfl⟩ := ih hbehind
        refine ⟨a :: before, a', after, pre, post, rfl, hfa, ?_, rfl⟩
        rw [List.flatMap_cons, List.append_assoc, ← hfront, ha]
        simp
      | cons b' rest =>
        obtain ⟨rfl, hback⟩ := List.cons.inj hrest
        exact ⟨[], a, l, front, rest, rfl, ha, rfl, hback⟩

end Piggy.Core
