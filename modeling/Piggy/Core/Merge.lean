import Mathlib.Data.List.Nodup

/-!
# Merging lists of results

Tasks that run at the same time end in any order; their results are put where they belong by
number. Items with keys are merged so that the first one of a key wins.
-/

namespace Piggy.Core

/-! ## Results by number -/

variable {α κ : Type}

/-- Puts the result of a task in its place; a task that failed has none. -/
def place (out : List (Option α)) : Option (Nat × α) → List (Option α)
  | some (i, v) => out.set i (some v)
  | none => out

/-- The results of tasks in the order of the tasks, from the order in which they ended. -/
def gather (count : Nat) (ended : List (Option (Nat × α))) : List (Option α) :=
  ended.foldl place (List.replicate count none)

theorem length_place (out : List (Option α)) (e : Option (Nat × α)) :
    (place out e).length = out.length := by
  cases e with
  | none => rfl
  | some e => exact List.length_set

theorem length_foldl_place (ended : List (Option (Nat × α))) (out : List (Option α)) :
    (ended.foldl place out).length = out.length := by
  induction ended generalizing out with
  | nil => rfl
  | cons e ended ih => exact (ih _).trans (length_place out e)

/-- A place that no task ends for stays as it was. -/
theorem getElem?_foldl_place_of_notMem {ended : List (Option (Nat × α))} {i : Nat}
    (h : ∀ v, some (i, v) ∉ ended) (out : List (Option α)) :
    (ended.foldl place out)[i]? = out[i]? := by
  induction ended generalizing out with
  | nil => rfl
  | cons e ended ih =>
    have hrest : ∀ v, some (i, v) ∉ ended := fun v hv => h v (List.mem_cons_of_mem _ hv)
    rw [List.foldl_cons, ih hrest]
    rcases e with _ | ⟨j, v⟩
    · rfl
    · have hne : j ≠ i := by
        rintro rfl
        exact h v List.mem_cons_self
      exact List.getElem?_set_ne hne

/-- The place of a task has its result. -/
theorem getElem?_foldl_place {ended : List (Option (Nat × α))} {i : Nat} {v : α}
    (h : some (i, v) ∈ ended) (hone : ∀ v', some (i, v') ∈ ended → v' = v) {out : List (Option α)}
    (hi : i < out.length) : (ended.foldl place out)[i]? = some (some v) := by
  induction ended generalizing out with
  | nil => cases h
  | cons e ended ih =>
    rw [List.foldl_cons]
    by_cases hmem : some (i, v) ∈ ended
    · exact ih hmem (fun v' hv' => hone v' (List.mem_cons_of_mem _ hv'))
        (by rw [length_place]; exact hi)
    · obtain rfl : e = some (i, v) := ((List.mem_cons.mp h).resolve_right hmem).symm
      have hlater : ∀ v', some (i, v') ∉ ended := by
        intro v' hv'
        obtain rfl := hone v' (List.mem_cons_of_mem _ hv')
        exact hmem hv'
      rw [getElem?_foldl_place_of_notMem hlater]
      exact List.getElem?_set_self hi

/-- In whatever order tasks end, their results come in the order of the tasks. -/
theorem gather_of_perm {results : List (Option α)} {ended : List (Option (Nat × α))}
    (h : ended.Perm (results.zipIdx.map fun r => r.1.map fun v => (r.2, v))) :
    gather results.length ended = results := by
  have hmem : ∀ i v, some (i, v) ∈ ended ↔ results[i]? = some (some v) := by
    intro i v
    rw [h.mem_iff, List.mem_map]
    constructor
    · rintro ⟨⟨r, j⟩, hr, heq⟩
      rcases r with _ | v'
      · cases heq
      · obtain ⟨rfl, rfl⟩ := Prod.mk.inj (Option.some.inj heq)
        exact List.mk_mem_zipIdx_iff_getElem?.mp hr
    · intro hi
      exact ⟨(some v, i), List.mk_mem_zipIdx_iff_getElem?.mpr hi, rfl⟩
  apply List.ext_getElem?
  intro i
  rcases hi : results[i]? with _ | _ | v
  · apply List.getElem?_eq_none
    rw [gather, length_foldl_place, List.length_replicate]
    exact List.getElem?_eq_none_iff.mp hi
  · have hnone : ∀ v, some (i, v) ∉ ended := by
      intro v hv
      rw [hmem, hi] at hv
      cases hv
    have hlt : i < results.length := (List.getElem?_eq_some_iff.mp hi).1
    rw [gather, getElem?_foldl_place_of_notMem hnone, List.getElem?_replicate, if_pos hlt]
  · have hlt : i < results.length := (List.getElem?_eq_some_iff.mp hi).1
    refine getElem?_foldl_place ((hmem i v).mpr hi) ?_ (by rwa [List.length_replicate])
    intro v' hv'
    rw [hmem, hi] at hv'
    exact (Option.some.inj (Option.some.inj hv')).symm

/-! ## The first one wins -/

section

variable [DecidableEq κ] (key : α → κ)

/-- Adds an item unless there is one with its key. -/
def keepFirst (kept : List α) (x : α) : List α :=
  if kept.any fun k => key k = key x then kept else kept ++ [x]

theorem keepFirst_of_mem {kept : List α} {x : α} (h : key x ∈ kept.map key) :
    keepFirst key kept x = kept := by
  obtain ⟨k, hk, heq⟩ := List.mem_map.mp h
  exact if_pos (List.any_eq_true.mpr ⟨k, hk, decide_eq_true heq⟩)

theorem keepFirst_of_notMem {kept : List α} {x : α} (h : key x ∉ kept.map key) :
    keepFirst key kept x = kept ++ [x] := by
  refine if_neg fun hany => h ?_
  obtain ⟨k, hk, heq⟩ := List.any_eq_true.mp hany
  exact List.mem_map.mpr ⟨k, hk, of_decide_eq_true heq⟩

/-- What is added to the items that were there: for each key that was not there the first item, and
no item twice. -/
structure FirstOnes (kept xs added : List α) : Prop where
  nodup : (added.map key).Nodup
  fresh : ∀ x ∈ added, key x ∉ kept.map key
  covers : ∀ k, k ∉ kept.map key → (k ∈ added.map key ↔ k ∈ xs.map key)
  first : ∀ x ∈ added, ∃ before after, xs = before ++ x :: after ∧ key x ∉ before.map key

theorem foldl_keepFirst (kept xs : List α) :
    ∃ added, xs.foldl (keepFirst key) kept = kept ++ added ∧ FirstOnes key kept xs added := by
  induction xs generalizing kept with
  | nil =>
    refine ⟨[], (List.append_nil _).symm, .nil, nofun, fun _ _ => Iff.rfl, nofun⟩
  | cons x xs ih =>
    by_cases hx : key x ∈ kept.map key
    · obtain ⟨added, heq, hadded⟩ := ih kept
      refine ⟨added, ?_, hadded.nodup, hadded.fresh, ?_, ?_⟩
      · rw [List.foldl_cons, keepFirst_of_mem key hx, heq]
      · intro k hk
        rw [hadded.covers k hk, List.map_cons, List.mem_cons]
        refine ⟨.inr, fun h => h.resolve_left ?_⟩
        rintro rfl
        exact hk hx
      · intro y hy
        obtain ⟨before, after, rfl, hbefore⟩ := hadded.first y hy
        refine ⟨x :: before, after, rfl, ?_⟩
        rw [List.map_cons, List.mem_cons]
        rintro (hsame | hmem)
        · exact hadded.fresh y hy (hsame ▸ hx)
        · exact hbefore hmem
    · obtain ⟨added, heq, hadded⟩ := ih (kept ++ [x])
      have hkeys : (kept ++ [x]).map key = kept.map key ++ [key x] := List.map_append
      have hnew : ∀ y ∈ added, key y ∉ kept.map key ∧ key y ≠ key x := by
        intro y hy
        have hy' := hadded.fresh y hy
        rw [hkeys, List.mem_append, List.mem_singleton, not_or] at hy'
        exact hy'
      refine ⟨x :: added, ?_, ?_, ?_, ?_, ?_⟩
      · rw [List.foldl_cons, keepFirst_of_notMem key hx, heq, List.append_assoc]
        rfl
      · rw [List.map_cons, List.nodup_cons]
        refine ⟨?_, hadded.nodup⟩
        intro hmem
        obtain ⟨y, hy, hsame⟩ := List.mem_map.mp hmem
        exact (hnew y hy).2 hsame
      · intro y hy
        rcases List.mem_cons.mp hy with rfl | hy
        · exact hx
        · exact (hnew y hy).1
      · intro k hk
        rw [List.map_cons, List.map_cons, List.mem_cons, List.mem_cons]
        by_cases hkx : k = key x
        · exact iff_of_true (.inl hkx) (.inl hkx)
        · have hk' : k ∉ (kept ++ [x]).map key := by
            rw [hkeys, List.mem_append, List.mem_singleton, not_or]
            exact ⟨hk, hkx⟩
          rw [hadded.covers k hk']
      · intro y hy
        rcases List.mem_cons.mp hy with rfl | hy
        · exact ⟨[], xs, rfl, List.not_mem_nil⟩
        · obtain ⟨before, after, rfl, hbefore⟩ := hadded.first y hy
          refine ⟨x :: before, after, rfl, ?_⟩
          rw [List.map_cons, List.mem_cons]
          rintro (hsame | hmem)
          · exact (hnew y hy).2 hsame
          · exact hbefore hmem

end

end Piggy.Core
