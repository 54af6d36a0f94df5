import Piggy.Box.PivBox
import Mathlib.Data.List.Dedup
import Mathlib.Logic.Function.Basic

/-!
# Presence of cards

The agent serves the keys of the cards that are plugged in. A loop looks at the cards again
and again: a card that is missing for a number of passes in a row loses its keys and its PIN,
and a new card is adopted once it can be used. The passes missed are counted by card, while
the loop that counts them walks the keys.
-/

namespace Piggy.Agent

open Piggy.Box

/-- A key that is served, with the card and the reader it is in. -/
structure CachedKey where
  guid : Guid
  readerName : String
  slotId : UInt8
  publicKey : Bytes
  deriving DecidableEq

/-- The PINs the agent remembers. -/
structure PinCache where
  /-- PINs that a card took, by card. -/
  verified : Guid → Option String
  /-- A PIN that is offered to every card. -/
  offered : Option String
  /-- The cards that refused the offered PIN. -/
  offeredRejectedBy : List Guid

namespace PinCache

/-- Forgets a card that is gone. The offered PIN is dropped with it. -/
def forgetCard (pin : PinCache) (g : Guid) : PinCache where
  verified := Function.update pin.verified g none
  offered := none
  offeredRejectedBy := []

theorem verified_forgetCard (pin : PinCache) {g h : Guid} (hne : h ≠ g) :
    (pin.forgetCard g).verified h = pin.verified h := Function.update_of_ne hne _ _

end PinCache

/-- What the loop works on. A card without a counter has missed nothing. -/
structure AgentState where
  keys : List CachedKey
  pin : PinCache
  misses : Guid → Nat

/-- What a pass finds: nothing, because a request holds the card, or the keys of the cards that
are there, in which order new cards are tried, and whether one can be used. -/
inductive Pass where
  | skipped
  | looked (desired : List CachedKey) (order : List Guid) (verify : Guid → Bool)

/-- The cards of some keys. -/
def cardsOf (keys : List CachedKey) : List Guid := keys.map CachedKey.guid

/-- Counts the cards that are missing, key by key, and collects those to be dropped. -/
def countMisses (present : List Guid) (failLimit : Nat) (immediateReaders : List String) :
    List (Guid × String) → (Guid → Nat) → (Guid → Nat) × List Guid
  | [], misses => (misses, [])
  | (g, reader) :: served, misses =>
    if g ∈ present then
      countMisses present failLimit immediateReaders served (Function.update misses g 0)
    else
      let n := misses g + 1
      let limit := if reader ∈ immediateReaders then 1 else failLimit
      let (misses, toDrop) := countMisses present failLimit immediateReaders served
        (Function.update misses g n)
      (misses, if limit ≤ n then g :: toDrop else toDrop)

/-- Forgets the dropped cards: their counters and their PINs. -/
def forgetDropped : List Guid → (Guid → Nat) → PinCache → (Guid → Nat) × PinCache
  | [], misses, pin => (misses, pin)
  | g :: toDrop, misses, pin =>
    forgetDropped toDrop (Function.update misses g 0) (pin.forgetCard g)

/-- One pass. -/
def reconcileOnce (failLimit : Nat) (immediateReaders : List String) (s : AgentState) :
    Pass → AgentState
  | .skipped => s
  | .looked desired order verify =>
    let present := cardsOf desired
    let served := s.keys.map fun k => (k.guid, k.readerName)
    let (misses, toDrop) := countMisses present failLimit immediateReaders served s.misses
    let toAdopt := (order.filter verify).flatMap fun g => desired.filter fun k => k.guid = g
    let keys := s.keys.filter (fun k => !decide (k.guid ∈ toDrop)) ++ toAdopt
    let (misses, pin) := forgetDropped toDrop misses s.pin
    { keys, pin, misses }

/-- The order of a pass goes over the new cards, each once. -/
def Pass.Walks (s : AgentState) : Pass → Prop
  | skipped => True
  | looked desired order _ =>
    order.Perm ((cardsOf desired).dedup.filter fun g => !decide (g ∈ cardsOf s.keys))

/-- In how many passes in a row, up to the last one, a card was missing. Skipped passes do not
count; the newest pass stands first. -/
def missedInARow (g : Guid) : List Pass → Nat
  | [] => 0
  | .skipped :: passes => missedInARow g passes
  | .looked desired _ _ :: passes =>
    if g ∈ cardsOf desired then 0 else missedInARow g passes + 1

/-! ## Counting -/

section

variable {present : List Guid} {failLimit : Nat} {immediateReaders : List String}

/-- A card has missed as many passes more as it has keys, unless it is there. -/
theorem countMisses_fst (served : List (Guid × String)) (misses : Guid → Nat) (g : Guid) :
    (countMisses present failLimit immediateReaders served misses).1 g =
      if g ∈ present then (if g ∈ served.map Prod.fst then 0 else misses g)
      else misses g + (served.map Prod.fst).count g := by
  induction served generalizing misses with
  | nil => simp [countMisses]
  | cons x served ih =>
    obtain ⟨g', reader⟩ := x
    by_cases hsame : g = g'
    · subst hsame
      by_cases hg : g ∈ present
      · rw [countMisses, if_pos hg, ih]
        simp [hg]
      · rw [countMisses, if_neg hg]
        dsimp only
        rw [ih]
        simp only [hg, if_false, Function.update_self, List.map_cons, List.count_cons_self]
        omega
    · have hother : (countMisses present failLimit immediateReaders ((g', reader) :: served)
          misses).1 g = if g ∈ present then (if g ∈ served.map Prod.fst then 0 else misses g)
          else misses g + (served.map Prod.fst).count g := by
        by_cases hg' : g' ∈ present
        · rw [countMisses, if_pos hg', ih, Function.update_of_ne hsame]
        · rw [countMisses, if_neg hg']
          dsimp only
          rw [ih, Function.update_of_ne hsame]
      have hmem : g ∈ g' :: served.map Prod.fst ↔ g ∈ served.map Prod.fst := by
        rw [List.mem_cons]
        exact or_iff_right hsame
      rw [hother, List.map_cons, List.count_cons_of_ne (Ne.symm hsame)]
      simp only [hmem]

/-- Whether a card that is missing is dropped: one of its keys is in a reader that is known to
have changed, or the count reaches the limit at the last of them. -/
def Due (failLimit : Nat) (immediateReaders : List String) (served : List (Guid × String))
    (misses : Guid → Nat) (g : Guid) : Prop :=
  (∃ reader, (g, reader) ∈ served ∧ reader ∈ immediateReaders) ∨
    g ∈ served.map Prod.fst ∧ failLimit ≤ misses g + (served.map Prod.fst).count g

/-- The first key of a card counts one miss. -/
private theorem due_cons_self {served : List (Guid × String)} {misses : Guid → Nat} {g : Guid}
    {reader : String} :
    Due failLimit immediateReaders ((g, reader) :: served) misses g ↔
      (if reader ∈ immediateReaders then 1 else failLimit) ≤ misses g + 1 ∨
        Due failLimit immediateReaders served (Function.update misses g (misses g + 1)) g := by
  simp only [Due, List.mem_cons, Prod.mk.injEq, true_and, List.map_cons, true_or,
    List.count_cons_self, Function.update_self]
  by_cases hreader : reader ∈ immediateReaders
  · rw [if_pos hreader]
    exact iff_of_true (.inl ⟨reader, .inl rfl, hreader⟩) (.inl (Nat.le_add_left ..))
  · rw [if_neg hreader]
    constructor
    · rintro (⟨other, rfl | hmem, hother⟩ | hle)
      · exact absurd hother hreader
      · exact .inr (.inl ⟨other, hmem, hother⟩)
      · by_cases hmem : g ∈ served.map Prod.fst
        · exact .inr (.inr ⟨hmem, by omega⟩)
        · rw [List.count_eq_zero_of_not_mem hmem] at hle
          exact .inl (by omega)
    · rintro (hle | ⟨other, hmem, hother⟩ | ⟨-, hle⟩)
      · exact .inr (by omega)
      · exact .inl ⟨other, .inr hmem, hother⟩
      · exact .inr (by omega)

/-- The key of another card does not matter. -/
private theorem due_cons_of_ne {served : List (Guid × String)} {misses : Guid → Nat} {g g' : Guid}
    (hne : g ≠ g') (reader : String) (n : Nat) :
    Due failLimit immediateReaders ((g', reader) :: served) misses g ↔
      Due failLimit immediateReaders served (Function.update misses g' n) g := by
  simp only [Due, List.mem_cons, Prod.mk.injEq, hne, false_and, false_or, List.map_cons,
    List.count_cons_of_ne (Ne.symm hne), Function.update_of_ne hne]

/-- A card is dropped when it is missing and due. -/
theorem mem_countMisses_snd_iff {served : List (Guid × String)} {misses : Guid → Nat} {g : Guid} :
    g ∈ (countMisses present failLimit immediateReaders served misses).2 ↔
      g ∉ present ∧ Due failLimit immediateReaders served misses g := by
  induction served generalizing misses with
  | nil => simp [countMisses, Due]
  | cons x served ih =>
    obtain ⟨g', reader⟩ := x
    by_cases hg' : g' ∈ present
    · rw [countMisses, if_pos hg', ih]
      refine and_congr_right fun hg => (due_cons_of_ne ?_ _ _).symm
      rintro rfl
      exact hg hg'
    · rw [countMisses, if_neg hg']
      by_cases hsame : g = g'
      · subst hsame
        rw [due_cons_self]
        dsimp only
        generalize (if reader ∈ immediateReaders then 1 else failLimit) = limit
        split
        · next hle => exact iff_of_true List.mem_cons_self ⟨hg', .inl hle⟩
        · next hle =>
          rw [ih]
          exact and_congr_right fun _ => (or_iff_right hle).symm
      · rw [due_cons_of_ne hsame reader (misses g' + 1), ← ih]
        dsimp only
        generalize (if reader ∈ immediateReaders then 1 else failLimit) = limit
        split
        · rw [List.mem_cons]
          exact or_iff_right hsame
        · rfl

end

/-- A dropped card has no counter left, and the others keep theirs. -/
theorem forgetDropped_fst (toDrop : List Guid) (misses : Guid → Nat) (pin : PinCache)
    (g : Guid) :
    (forgetDropped toDrop misses pin).1 g = if g ∈ toDrop then 0 else misses g := by
  induction toDrop generalizing misses pin with
  | nil => rfl
  | cons g' toDrop ih =>
    rw [forgetDropped, ih]
    by_cases hsame : g = g'
    · subst hsame
      simp
    · simp [hsame]

theorem verified_forgetDropped {toDrop : List Guid} {g : Guid} (hg : g ∉ toDrop)
    (misses : Guid → Nat) (pin : PinCache) :
    (forgetDropped toDrop misses pin).2.verified g = pin.verified g := by
  induction toDrop generalizing misses pin with
  | nil => rfl
  | cons g' toDrop ih =>
    rw [List.mem_cons, not_or] at hg
    rw [forgetDropped, ih hg.2]
    exact pin.verified_forgetCard hg.1

/-! ## One pass -/

/-- The served cards with their readers, key by key. -/
def AgentState.served (s : AgentState) : List (Guid × String) :=
  s.keys.map fun k => (k.guid, k.readerName)

theorem AgentState.map_fst_served (s : AgentState) : s.served.map Prod.fst = cardsOf s.keys := by
  rw [served, List.map_map]
  rfl

theorem mem_cardsOf {keys : List CachedKey} {g : Guid} :
    g ∈ cardsOf keys ↔ keys.filter (fun k => k.guid = g) ≠ [] := by
  simp [cardsOf, List.filter_eq_nil_iff]

/-- Walking over cards, each once, finds the keys of a card at its place. -/
private theorem filter_flatMap_cards {desired : List CachedKey} {cards : List Guid}
    (hnodup : cards.Nodup) (g : Guid) :
    (cards.flatMap fun g' => desired.filter fun k => k.guid = g').filter (fun k => k.guid = g) =
      if g ∈ cards then desired.filter (fun k => k.guid = g) else [] := by
  induction cards with
  | nil => rfl
  | cons g' cards ih =>
    obtain ⟨hnot, hnodup⟩ := List.nodup_cons.mp hnodup
    rw [List.flatMap_cons, List.filter_append, ih hnodup, List.filter_filter]
    by_cases hsame : g = g'
    · subst hsame
      simp [hnot]
    · have hnone : (desired.filter fun k => decide (k.guid = g) && decide (k.guid = g')) = [] := by
        rw [List.filter_eq_nil_iff]
        intro k _
        rw [Bool.and_eq_true, decide_eq_true_eq, decide_eq_true_eq]
        rintro ⟨rfl, h⟩
        exact hsame h
      rw [hnone, List.nil_append]
      simp [hsame]

section

variable {failLimit : Nat} {immediateReaders : List String} {s : AgentState}
  {desired : List CachedKey} {order : List Guid} {verify : Guid → Bool}

/-- What a pass does to the keys of each card: a served card loses all of them or keeps all of
them, and a card that is not served gets those that are there. -/
theorem filter_keys_reconcileOnce (hwalks : (Pass.looked desired order verify).Walks s) (g : Guid) :
    (reconcileOnce failLimit immediateReaders s (.looked desired order verify)).keys.filter
        (fun k => k.guid = g) =
      if g ∈ (countMisses (cardsOf desired) failLimit immediateReaders s.served s.misses).2 then []
      else if g ∈ cardsOf s.keys then s.keys.filter (fun k => k.guid = g)
      else if verify g then desired.filter (fun k => k.guid = g) else [] := by
  have hnodup : (order.filter verify).Nodup :=
    (hwalks.nodup_iff.mpr ((List.nodup_dedup _).filter _)).filter _
  have horder : g ∈ order ↔ g ∈ cardsOf desired ∧ g ∉ cardsOf s.keys := by
    rw [hwalks.mem_iff]
    simp
  have hadopt : ((order.filter verify).flatMap fun g' => desired.filter fun k => k.guid = g').filter
      (fun k => k.guid = g) =
        if g ∈ cardsOf s.keys then [] else
          if verify g then desired.filter (fun k => k.guid = g) else [] := by
    simp only [filter_flatMap_cards hnodup, List.mem_filter, horder]
    by_cases hserved : g ∈ cardsOf s.keys
    · simp [hserved]
    · by_cases hverify : verify g = true
      · by_cases hg : g ∈ cardsOf desired
        · simp [hserved, hverify, hg]
        · simp only [hg, false_and, if_false, hserved, hverify, if_true]
          exact (not_not.mp (mt mem_cardsOf.mpr hg)).symm
      · simp [hverify]
  have hkept : (s.keys.filter fun k => !decide (k.guid ∈ (countMisses (cardsOf desired) failLimit
      immediateReaders s.served s.misses).2)).filter (fun k => k.guid = g) =
        if g ∈ (countMisses (cardsOf desired) failLimit immediateReaders s.served s.misses).2 then []
        else s.keys.filter (fun k => k.guid = g) := by
    rw [List.filter_filter]
    split
    · next hdrop =>
      rw [List.filter_eq_nil_iff]
      intro k _ hk
      rw [Bool.and_eq_true, decide_eq_true_eq] at hk
      obtain ⟨rfl, hk⟩ := hk
      simp [hdrop] at hk
    · next hdrop =>
      refine List.filter_congr fun k _ => ?_
      by_cases hk : k.guid = g
      · subst hk
        simp [hdrop]
      · simp [hk]
  change List.filter _ (_ ++ _) = _
  rw [List.filter_append, hadopt]
  change List.filter _ (List.filter (fun k => !decide (k.guid ∈ (countMisses (cardsOf desired)
    failLimit immediateReaders s.served s.misses).2)) s.keys) ++ _ = _
  rw [hkept]
  by_cases hserved : g ∈ cardsOf s.keys
  · simp only [hserved, if_true, List.append_nil]
  · have hnone : s.keys.filter (fun k => k.guid = g) = [] :=
      not_not.mp (mt mem_cardsOf.mpr hserved)
    have hdrop : g ∉ (countMisses (cardsOf desired) failLimit immediateReaders s.served
        s.misses).2 := by
      intro hdrop
      obtain ⟨-, ⟨reader, hmem, -⟩ | ⟨hmem, -⟩⟩ := mem_countMisses_snd_iff.mp hdrop
      · exact hserved (s.map_fst_served ▸ List.mem_map_of_mem hmem)
      · exact hserved (s.map_fst_served ▸ hmem)
    simp only [hdrop, if_false, hserved, hnone, List.nil_append]

/-- What a pass does to the counter of each card. -/
theorem misses_reconcileOnce (g : Guid) :
    (reconcileOnce failLimit immediateReaders s (.looked desired order verify)).misses g =
      if g ∈ (countMisses (cardsOf desired) failLimit immediateReaders s.served s.misses).2 then 0
      else if g ∈ cardsOf desired then (if g ∈ cardsOf s.keys then 0 else s.misses g)
      else s.misses g + (cardsOf s.keys).count g := by
  have hcount := @countMisses_fst (cardsOf desired) failLimit immediateReaders s.served s.misses g
  rw [s.map_fst_served] at hcount
  rw [← hcount]
  exact forgetDropped_fst _ _ _ g

end

/-! ## Runs -/

/-- The states that passes lead to, the newest pass first, when each of them meets a condition.
The counters start empty; between two passes requests may change the PINs. -/
inductive Reached (failLimit : Nat) (condition : AgentState → Pass → Prop) :
    List Pass → AgentState → Prop where
  | start (keys : List CachedKey) (pin : PinCache) :
      Reached failLimit condition [] { keys, pin, misses := fun _ => 0 }
  | request {passes : List Pass} {s : AgentState} (h : Reached failLimit condition passes s)
      (pin : PinCache) : Reached failLimit condition passes { s with pin }
  | pass {passes : List Pass} {s : AgentState} (h : Reached failLimit condition passes s) (p : Pass)
      (hwalks : p.Walks s) (hp : condition s p) :
      Reached failLimit condition (p :: passes) (reconcileOnce failLimit [] s p)

/-- After a pass every served key is still there and its card still has its PIN, unless the card
was missing as often in a row as the limit says, this pass included. -/
def Debounced (failLimit : Nat) (passes : List Pass) (s : AgentState) (p : Pass) : Prop :=
  ∀ k ∈ s.keys,
    (k ∈ (reconcileOnce failLimit [] s p).keys ∧
      (reconcileOnce failLimit [] s p).pin.verified k.guid = s.pin.verified k.guid) ∨
    failLimit ≤ missedInARow k.guid (p :: passes)

/-- The condition on a pass: a served card that is missing has one key, or the limit is one. -/
def OneKey (failLimit : Nat) (s : AgentState) : Pass → Prop
  | .skipped => True
  | .looked desired _ _ => ∀ g ∈ cardsOf s.keys, g ∉ cardsOf desired →
    failLimit ≤ 1 ∨ (cardsOf s.keys).count g = 1

/-- The counters count no more than the passes missed in a row, and only for served cards. -/
structure Counted (passes : List Pass) (s : AgentState) : Prop where
  le : ∀ g, s.misses g ≤ missedInARow g passes
  served : ∀ g, g ∉ cardsOf s.keys → s.misses g = 0

section

variable {failLimit : Nat} {passes : List Pass} {s : AgentState}

/-- A card that is dropped has been missing often enough. -/
private theorem le_missedInARow_of_dropped {desired : List CachedKey} {order : List Guid}
    {verify : Guid → Bool} (h : Counted passes s)
    (hp : OneKey failLimit s (.looked desired order verify)) {g : Guid}
    (hg : g ∈ (countMisses (cardsOf desired) failLimit [] s.served s.misses).2) :
    failLimit ≤ missedInARow g (.looked desired order verify :: passes) := by
  obtain ⟨habsent, ⟨_, _, hreader⟩ | ⟨hserved, hle⟩⟩ := mem_countMisses_snd_iff.mp hg
  · cases hreader
  rw [s.map_fst_served] at hserved hle
  rw [missedInARow, if_neg habsent]
  have hmisses := h.le g
  rcases hp g hserved habsent with hlimit | hone
  · omega
  · omega

/-- A pass keeps the counters right. -/
private theorem Counted.pass (h : Counted passes s) {p : Pass} (hp : OneKey failLimit s p) :
    Counted (p :: passes) (reconcileOnce failLimit [] s p) := by
  cases p with
  | skipped => exact ⟨h.le, h.served⟩
  | looked desired order verify =>
    refine ⟨?_, ?_⟩
    · intro g
      rw [misses_reconcileOnce, missedInARow]
      have hle := h.le g
      by_cases hpresent : g ∈ cardsOf desired
      · -- A card that is there has no counter, served or not.
        have hzero : (if g ∈ cardsOf s.keys then 0 else s.misses g) = 0 := by
          split
          · rfl
          · next hserved => exact h.served g hserved
        rw [if_pos hpresent, if_pos hpresent, hzero]
        split <;> exact Nat.le_refl 0
      · rw [if_neg hpresent, if_neg hpresent]
        split
        · exact Nat.zero_le _
        · next hkept =>
          by_cases hserved : g ∈ cardsOf s.keys
          · rcases hp g hserved hpresent with hlimit | hone
            · have hdue : Due failLimit [] s.served s.misses g := by
                have hcount := List.count_pos_iff.mpr hserved
                rw [Due, s.map_fst_served]
                exact .inr ⟨hserved, by omega⟩
              exact absurd (mem_countMisses_snd_iff.mpr ⟨hpresent, hdue⟩) hkept
            · omega
          · rw [List.count_eq_zero_of_not_mem hserved]
            omega
    · intro g hg
      rw [misses_reconcileOnce]
      split
      · rfl
      · next hkept =>
        -- A card whose keys are all gone was dropped.
        have hserved : g ∉ cardsOf s.keys := by
          intro hserved
          obtain ⟨k, hk, rfl⟩ := List.mem_map.mp hserved
          refine hg (List.mem_map_of_mem (List.mem_append_left _ (List.mem_filter.mpr ⟨hk, ?_⟩)))
          simpa [AgentState.served] using hkept
        rw [if_neg hserved, List.count_eq_zero_of_not_mem hserved, h.served g hserved]
        split <;> rfl

/-- The counters are right in every run whose missing cards have one key each. -/
private theorem Reached.counted (h : Reached failLimit (OneKey failLimit) passes s) :
    Counted passes s := by
  induction h with
  | start keys pin => exact ⟨fun g => Nat.le_refl 0, fun g _ => rfl⟩
  | request _ pin ih => exact ⟨ih.le, ih.served⟩
  | pass _ p _ hp ih => exact ih.pass hp

/-- In every run whose missing cards have one key each, a card loses its keys and its PIN only
after it was missing as often in a row as the limit says. -/
theorem debounced_of_oneKey (h : Reached failLimit (OneKey failLimit) passes s) {p : Pass}
    (hp : OneKey failLimit s p) : Debounced failLimit passes s p := by
  intro k hk
  cases p with
  | skipped => exact .inl ⟨hk, rfl⟩
  | looked desired order verify =>
    by_cases hdropped : k.guid ∈ (countMisses (cardsOf desired) failLimit [] s.served s.misses).2
    · exact .inr (le_missedInARow_of_dropped h.counted hp hdropped)
    · refine .inl ⟨List.mem_append_left _ (List.mem_filter.mpr ⟨hk, ?_⟩), ?_⟩
      · simpa [AgentState.served] using hdropped
      · exact verified_forgetDropped hdropped _ _

end

/-! ## A card with several keys -/

/-- The keys of a card in some slots. -/
def sampleKeys (slots : List UInt8) : List CachedKey :=
  slots.map fun slotId =>
    { guid := ⟨List.replicate 16 7, rfl⟩, readerName := "MockReader", slotId, publicKey := [] }

/-- The PIN of the sample card. -/
def samplePin : PinCache where
  verified _ := some "1234"
  offered := none
  offeredRejectedBy := []

/-- A card with three keys is dropped at its first missed pass, though the limit is three. -/
theorem not_debounced_threeKeys :
    ¬ ∀ passes s p, Reached 3 (fun _ _ => True) passes s → p.Walks s → Debounced 3 passes s p := by
  intro h
  have hkept := h [] _ (.looked [] [] fun _ => true) (.start (sampleKeys [0x9a, 0x9c, 0x9e]) samplePin)
    (List.Perm.refl []) _ List.mem_cons_self
  rcases hkept with ⟨hmem, -⟩ | hlimit
  · revert hmem
    decide
  · revert hlimit
    decide

/-- A card with one key outlives a pass in which it is missing. -/
theorem debounced_of_oneKey_sample :
    Debounced 3 [] { keys := sampleKeys [0x9d], pin := samplePin, misses := fun _ => 0 }
      (.looked [] [] fun _ => true) :=
  debounced_of_oneKey (.start (sampleKeys [0x9d]) samplePin) fun g hg _ => by
    obtain rfl := List.mem_singleton.mp hg
    exact .inr rfl

end Piggy.Agent
