import Piggy.Box.Stream

/-!
# The queries of an unlock

Unlocking an ebox asks its oracle some of the queries of its PRIMARY parts, in order. What
every answer preserves is preserved by a whole walk over any number of eboxes.
-/

namespace Piggy.Box

open Piggy.Core

section

variable {Scalar Point Rng : Type} (ssl : OpenSsl Scalar Point Rng) {σ τ : Type}

/-- The state of an oracle after a sequence of queries. -/
def EcdhOracle.after (oracle : EcdhOracle σ) (s : σ) (queries : List (Bytes × Bytes)) : σ :=
  queries.foldl (fun s query => (oracle.ecdh s query.1 query.2).2) s

@[simp]
theorem EcdhOracle.after_nil (oracle : EcdhOracle σ) (s : σ) : oracle.after s [] = s := rfl

@[simp]
theorem EcdhOracle.after_cons (oracle : EcdhOracle σ) (s : σ) (query : Bytes × Bytes)
    (queries : List (Bytes × Bytes)) :
    oracle.after s (query :: queries) =
      oracle.after (oracle.ecdh s query.1 query.2).2 queries := rfl

theorem EcdhOracle.after_append (oracle : EcdhOracle σ) (s : σ) (front back : List (Bytes × Bytes)) :
    oracle.after s (front ++ back) = oracle.after (oracle.after s front) back :=
  List.foldl_append

/-- A sequence of queries that each meet a condition on the state before them. -/
def EcdhOracle.EachMeets (oracle : EcdhOracle σ) (condition : σ → Bytes × Bytes → Prop) :
    σ → List (Bytes × Bytes) → Prop
  | _, [] => True
  | s, query :: queries =>
    condition s query ∧ oracle.EachMeets condition (oracle.ecdh s query.1 query.2).2 queries

/-- What every query that meets the condition preserves, a whole sequence preserves. -/
theorem EcdhOracle.EachMeets.preserves {oracle : EcdhOracle σ}
    {condition : σ → Bytes × Bytes → Prop} {inv : σ → Prop}
    (hstep : ∀ s query, condition s query → inv s → inv (oracle.ecdh s query.1 query.2).2)
    {s : σ} {queries : List (Bytes × Bytes)} (h : oracle.EachMeets condition s queries)
    (hs : inv s) : inv (oracle.after s queries) := by
  induction queries generalizing s with
  | nil => exact hs
  | cons query queries ih => exact ih h.2 (hstep s query h.1 hs)

/-- The queries of a list of parts. -/
def partQueries (eks : List EphemeralKey) (parts : List EboxPart) : List (Bytes × Bytes) :=
  parts.filterMap fun part => partQuery ssl eks part.pivBox

/-- The queries of a config, by its index. -/
def configQueries (e : Ebox) (i : Nat) : List (Bytes × Bytes) :=
  match e.configs[i]? with
  | none => []
  | some c => partQueries ssl e.ephemeralKeys c.parts

/-- The queries of the PRIMARY configs of an ebox, in the order of the walk. -/
def primaryQueries (e : Ebox) : List (Bytes × Bytes) :=
  (primaryIndices e).flatMap (configQueries ssl e)

/-- Contents do not matter to the queries. -/
private theorem partQueries_locked (eks : List EphemeralKey) (parts : List EboxPart) :
    partQueries ssl eks (parts.map EboxPart.locked) = partQueries ssl eks parts := by
  simp only [partQueries, List.filterMap_map]
  rfl

private theorem configQueries_locked (e : Ebox) (i : Nat) :
    configQueries ssl e.locked i = configQueries ssl e i := by
  unfold configQueries
  simp only [Ebox.locked, List.getElem?_map]
  rcases e.configs[i]? with _ | c
  · rfl
  · exact partQueries_locked ssl _ _

/-- Trying the parts asks a first few of their queries. -/
private theorem tryParts_after (oracle : EcdhOracle σ) (eks : List EphemeralKey)
    (parts : List EboxPart) (reason : Option String) (s : σ) :
    ∃ calls, calls.Sublist (partQueries ssl eks parts) ∧
      (tryParts ssl oracle eks parts reason s).2 = oracle.after s calls := by
  induction parts generalizing reason s with
  | nil => exact ⟨[], List.Sublist.refl _, rfl⟩
  | cons part parts ih =>
    rcases hq : partQuery ssl eks part.pivBox with _ | ⟨self, partner⟩
    · have htry : tryPart ssl oracle eks part s = (.skipped, s) := by
        simp only [tryPart, hq]
      obtain ⟨calls, hsub, hcalls⟩ := ih reason s
      refine ⟨calls, ?_, ?_⟩
      · simpa [partQueries, hq] using hsub
      · simp only [tryParts, htry, hcalls]
    · have hstate : (tryPart ssl oracle eks part s).2 = (oracle.ecdh s self partner).2 := by
        simp only [tryPart, hq]
        rcases oracle.ecdh s self partner with ⟨(_ | _ | _ | _ | _) | secret, s'⟩
        all_goals try rfl
        dsimp only
        rcases openWithSecret ssl part.pivBox secret with _ | _ <;> rfl
      have hqueries : partQueries ssl eks (part :: parts) =
          (self, partner) :: partQueries ssl eks parts := by
        simp [partQueries, hq]
      rcases htry : tryPart ssl oracle eks part s with ⟨_ | why | part', s'⟩
      · obtain ⟨calls, hsub, hcalls⟩ := ih reason s'
        refine ⟨(self, partner) :: calls, ?_, ?_⟩
        · rw [hqueries]
          exact hsub.cons_cons _
        · rw [htry] at hstate
          simp only [tryParts, htry, hcalls, EcdhOracle.after_cons, ← hstate]
      · obtain ⟨calls, hsub, hcalls⟩ := ih (some why) s'
        refine ⟨(self, partner) :: calls, ?_, ?_⟩
        · rw [hqueries]
          exact hsub.cons_cons _
        · rw [htry] at hstate
          simp only [tryParts, htry, hcalls, EcdhOracle.after_cons, ← hstate]
      · refine ⟨[(self, partner)], ?_, ?_⟩
        · rw [hqueries]
          exact List.Sublist.cons_cons _ (List.nil_sublist _)
        · rw [htry] at hstate
          simp only [tryParts, htry, EcdhOracle.after_cons, EcdhOracle.after_nil, ← hstate]

/-- The state of an oracle that may be missing. -/
def afterQueries (oracle : Option (EcdhOracle σ)) (s : σ) (queries : List (Bytes × Bytes)) : σ :=
  match oracle with
  | none => s
  | some oracle => oracle.after s queries

private theorem afterQueries_nil (oracle : Option (EcdhOracle σ)) (s : σ) :
    afterQueries oracle s [] = s := by
  cases oracle <;> rfl

private theorem afterQueries_append (oracle : Option (EcdhOracle σ)) (s : σ)
    (front back : List (Bytes × Bytes)) :
    afterQueries oracle s (front ++ back) =
      afterQueries oracle (afterQueries oracle s front) back := by
  cases oracle with
  | none => rfl
  | some oracle => exact oracle.after_append s front back

private theorem attempt_after (oracle : Option (EcdhOracle σ)) (e : Ebox) (i : Nat)
    (reason : Option String) (s : σ) :
    ∃ calls, calls.Sublist (configQueries ssl e i) ∧
      (attempt ssl oracle e i reason s).2.2.2 = afterQueries oracle s calls := by
  cases oracle with
  | none => exact ⟨[], List.nil_sublist _, rfl⟩
  | some oracle =>
    have hstate : (attempt ssl (some oracle) e i reason s).2.2.2 =
        (tryUnlockWithOracle ssl oracle e i s).2.2 := by
      simp only [attempt]
      rcases tryUnlockWithOracle ssl oracle e i s with ⟨_ | ⟨⟩, e', s'⟩ <;> rfl
    rw [hstate]
    unfold tryUnlockWithOracle configQueries
    rcases e.configs[i]? with _ | c
    · exact ⟨[], List.nil_sublist _, rfl⟩
    · obtain ⟨calls, hsub, hcalls⟩ := tryParts_after ssl oracle e.ephemeralKeys c.parts none s
      refine ⟨calls, hsub, ?_⟩
      simp only [afterQueries, ← hcalls]
      split
      · split <;> rfl
      · rfl

private theorem unlockLoop_after (agent : Option (EcdhOracle σ)) (card : Option (EcdhOracle τ))
    (indices : List Nat) (e : Ebox) (reason : Option String) (s : σ) (t : τ) :
    ∃ asked calls, asked.Sublist (indices.flatMap (configQueries ssl e)) ∧
      calls.Sublist (indices.flatMap (configQueries ssl e)) ∧
      (unlockLoop ssl agent card indices e reason s t).2.2 =
        (afterQueries agent s asked, afterQueries card t calls) := by
  induction indices generalizing e reason s t with
  | nil =>
    refine ⟨[], [], List.nil_sublist _, List.nil_sublist _, ?_⟩
    rw [afterQueries_nil, afterQueries_nil]
    rfl
  | cons i indices ih =>
    obtain ⟨asked, hasked, hs⟩ := attempt_after ssl agent e i reason s
    have hlocked := attempt_locked ssl agent e i reason s
    rcases hagent : attempt ssl agent e i reason s with ⟨fault | ⟨⟩, e₁, reason₁, s₁⟩
    · rw [hagent] at hs hlocked
      have hsame : ∀ j, configQueries ssl e₁ j = configQueries ssl e j := fun j => by
        rw [← configQueries_locked ssl e₁, hlocked, configQueries_locked]
      obtain ⟨calls, hcalls, ht⟩ := attempt_after ssl card e₁ i reason₁ t
      have hlocked' := attempt_locked ssl card e₁ i reason₁ t
      rw [hsame] at hcalls
      rcases hcard : attempt ssl card e₁ i reason₁ t with ⟨fault' | ⟨⟩, e₂, reason₂, t₂⟩
      · rw [hcard] at ht hlocked'
        have hsame' : configQueries ssl e₂ = configQueries ssl e := by
          funext j
          rw [← configQueries_locked ssl e₂, hlocked', configQueries_locked, hsame]
        obtain ⟨asked', calls', hasked', hcalls', hrest⟩ := ih e₂ reason₂ s₁ t₂
        rw [hsame'] at hasked' hcalls'
        refine ⟨asked ++ asked', calls ++ calls', ?_, ?_, ?_⟩
        · exact hasked.append hasked'
        · exact hcalls.append hcalls'
        · simp only [unlockLoop, hagent, hcard, hrest, afterQueries_append, ← hs, ← ht]
      · rw [hcard] at ht
        refine ⟨asked, calls, ?_, ?_, ?_⟩
        · exact hasked.trans (List.sublist_append_left _ _)
        · exact hcalls.trans (List.sublist_append_left _ _)
        · simp only [unlockLoop, hagent, hcard, ← hs, ← ht]
    · rw [hagent] at hs
      refine ⟨asked, [], ?_, List.nil_sublist _, ?_⟩
      · exact hasked.trans (List.sublist_append_left _ _)
      · simp only [unlockLoop, hagent, afterQueries_nil, ← hs]

/-- Unlocking asks each oracle some queries of the PRIMARY parts, each at most once and in
order. -/
theorem unlockEbox_after (agent : Option (EcdhOracle σ)) (card : Option (EcdhOracle τ)) (e : Ebox)
    (s : σ) (t : τ) :
    ∃ asked calls, asked.Sublist (primaryQueries ssl e) ∧ calls.Sublist (primaryQueries ssl e) ∧
      (unlockEbox ssl agent card e s t).2.2 =
        (afterQueries agent s asked, afterQueries card t calls) :=
  unlockLoop_after ssl agent card (primaryIndices e) e _ s t

end

end Piggy.Box
