import Piggy.Agent.Requests

/-!
# Tries that requests spend

An offered PIN is a guess, so it is not to cost a card its last try; and no request is to
spend more than its own prompt and one more. A request that finds too few tries left begins
again without counting, which it can do only as often as a PIN is offered.
-/

namespace Piggy.Agent

open Piggy.Core Piggy.Box Piggy.Card

/-! ## What a step leaves alone -/

/-- A step of one request is not one of another. -/
theorem Step.requests_other {s s' : System} {e : Event} (h : Step s e s') {r : Nat}
    (hr : e.request ≠ some r) : s'.requests r = s.requests r := by
  have hne : ∀ {r' : Nat} {q : Request}, some r' ≠ some r →
      Function.update s.requests r' (some q) r = s.requests r :=
    fun hne => Function.update_of_ne (fun he => hne (congrArg some he.symm)) ..
  cases h with
  | lock => rfl
  | unlock pin => rfl
  | remove g _ => rfl
  | _ => exact hne hr

/-- The card after a VERIFY has the PIN and the number of tries it had. -/
theorem PinCard.Verifies.same {card card' : PinCard} {pin : String}
    {answer : Except PivError StatusWord} (h : card.Verifies pin answer card') :
    card'.pin = card.pin ∧ card'.maxRetries = card.maxRetries := by
  induction h with
  | right _ _ => exact ⟨rfl, rfl⟩
  | wrong _ _ sw _ => exact ⟨rfl, rfl⟩
  | blocked _ => exact ⟨rfl, rfl⟩
  | lost e _ ih => exact ih
  | unsent e => exact ⟨rfl, rfl⟩

/-- No step changes the PIN of a card or the number of its tries. -/
theorem Step.cards_same {s s' : System} {e : Event} (h : Step s e s') (g : Guid) :
    (s'.cards g).pin = (s.cards g).pin ∧ (s'.cards g).maxRetries = (s.cards g).maxRetries := by
  cases h with
  | @verify r q acq answer card _ _ _ _ hcard =>
    by_cases hg : g = q.guid
    · subst hg
      simpa using hcard.same
    · simp [Function.update_of_ne hg]
  | _ => exact ⟨rfl, rfl⟩

/-- A PIN that the cache has for a card was there before, or a request has just put it there. -/
theorem Step.verified_cases {s s' : System} {e : Event} (h : Step s e s') {g : Guid} {pin : String}
    (hpin : s'.pins.verified g = some pin) :
    e ≠ .locked ∧ (s.pins.verified g = some pin ∨ ∃ r q acq, e = .recorded r ∧
      s.requests r = some q ∧ q.phase = .taken acq ∧ acq.fresh = true ∧ q.guid = g ∧
      acq.pin = pin) := by
  cases h with
  | lock => cases hpin
  | unlock p => exact ⟨nofun, .inl hpin⟩
  | remove g' _ =>
    refine ⟨nofun, .inl ?_⟩
    by_cases hg : g = g'
    · subst hg
      simp [PinCache.forgetCard] at hpin
    · rwa [PinCache.verified_forgetCard _ hg] at hpin
  | @forget r q _ _ =>
    refine ⟨nofun, .inl ?_⟩
    by_cases hg : g = q.guid
    · subst hg
      simp [PinCache.forgetFor] at hpin
    · rw [← hpin]
      exact (Function.update_of_ne hg ..).symm
  | @cache r q acq hq hphase =>
    refine ⟨nofun, ?_⟩
    cases hf : acq.fresh with
    | false =>
      rw [hf] at hpin
      exact .inl hpin
    | true =>
      rw [hf] at hpin
      by_cases hg : q.guid = g
      · subst hg
        have hsame : acq.pin = pin := by simpa [PinCache.cacheVerified] using hpin
        exact .inr ⟨r, q, acq, rfl, hq, hphase, hf, rfl, hsame⟩
      · left
        rw [← hpin]
        exact (Function.update_of_ne (Ne.symm hg) ..).symm
  | _ => exact ⟨nofun, .inl hpin⟩

/-- A PIN that is offered was offered before, or has just come with an unlock. -/
theorem Step.offered_cases {s s' : System} {e : Event} (h : Step s e s') {pin : String}
    (hpin : s'.pins.offered = some pin) :
    e ≠ .locked ∧ (s.pins.offered = some pin ∨ e = .unlocked pin) := by
  cases h with
  | lock => cases hpin
  | unlock p =>
    obtain rfl := Option.some.inj hpin
    exact ⟨nofun, .inr rfl⟩
  | remove g' _ => cases hpin
  | @cache r q acq _ _ =>
    refine ⟨nofun, .inl ?_⟩
    dsimp only at hpin
    split at hpin
    · exact hpin
    · exact hpin
  | _ => exact ⟨nofun, .inl hpin⟩

/-! ## Offers -/

/-- The cache offers its PIN to a card. -/
def PinCache.Offers (pins : PinCache) (g : Guid) : Prop :=
  pins.verified g = none ∧ pins.offered ≠ none ∧ g ∉ pins.offeredRejectedBy

theorem fromCache_cases {pins : PinCache} {g : Guid} {acq : AcquiredPin}
    (h : fromCache pins g = some acq) :
    (pins.verified g = some acq.pin ∧ acq.fresh = false ∧ acq.offered = false) ∨
      (pins.Offers g ∧ pins.offered = some acq.pin ∧ acq.fresh = true ∧ acq.offered = true) := by
  rw [fromCache, PinCache.lookup] at h
  rcases hv : pins.verified g with _ | p
  · rcases ho : pins.offered with _ | p
    · simp [hv, ho] at h
    · by_cases hg : g ∈ pins.offeredRejectedBy
      · simp [hv, ho, hg] at h
      · simp only [hv, ho, hg, if_false, Option.map_some, Option.some.injEq] at h
        subst h
        exact .inr ⟨⟨hv, by simp [ho], hg⟩, rfl, rfl, rfl⟩
  · simp only [hv, Option.map_some, Option.some.injEq] at h
    subst h
    exact .inl ⟨rfl, rfl, rfl⟩

/-- Only an unlock makes an offer. -/
theorem Step.offers {s s' : System} {e : Event} (h : Step s e s') {g : Guid}
    (ho : s'.pins.Offers g) : s.pins.Offers g ∨ ∃ pin, e = .unlocked pin := by
  obtain ⟨hv, hoff, hrej⟩ := ho
  cases h with
  | lock => exact absurd rfl hoff
  | unlock pin => exact .inr ⟨pin, rfl⟩
  | remove g' _ => exact absurd rfl hoff
  | @forget r q _ _ =>
    have hg : g ≠ q.guid := fun he => hrej (by simp [PinCache.forgetFor, he])
    refine .inl ⟨?_, hoff, fun hmem => hrej (List.mem_cons_of_mem _ hmem)⟩
    rw [← hv]
    exact (Function.update_of_ne hg ..).symm
  | @cache r q acq _ _ =>
    left
    dsimp only at hv hoff hrej
    cases hf : acq.fresh with
    | false =>
      rw [hf] at hv hoff hrej
      exact ⟨hv, hoff, hrej⟩
    | true =>
      rw [hf] at hv hoff hrej
      have hg : g ≠ q.guid := by
        rintro rfl
        simp [PinCache.cacheVerified] at hv
      refine ⟨?_, hoff, hrej⟩
      rw [← hv]
      exact (Function.update_of_ne hg ..).symm
  | _ => exact .inl ⟨hv, hoff, hrej⟩

/-! ## Counting -/

/-- The event sends a PIN for a request. -/
def Event.isSent (r : Nat) : Event → Bool
  | sent r' _ _ _ _ _ => r' = r
  | _ => false

/-- The event unlocks the agent. -/
def Event.isUnlock : Event → Bool
  | unlocked _ => true
  | _ => false

/-- The PINs that a request has sent. -/
def sends (r : Nat) (log : List Event) : Nat := log.countP (Event.isSent r)

/-- How often a request has given an offered PIN up. -/
def guards (r : Nat) (log : List Event) : Nat := log.countP (· = .guarded r)

/-- The steps of a request. -/
def steps (r : Nat) (log : List Event) : Nat := log.countP (·.request = some r)

/-- How often a PIN was offered. -/
def unlocks (log : List Event) : Nat := log.countP Event.isUnlock

theorem sends_cons (r : Nat) (e : Event) (log : List Event) :
    sends r (e :: log) = sends r log + if e.isSent r then 1 else 0 := List.countP_cons ..

theorem guards_cons (r : Nat) (e : Event) (log : List Event) :
    guards r (e :: log) = guards r log + if e = .guarded r then 1 else 0 := by
  simp [guards, List.countP_cons]

theorem steps_cons (r : Nat) (e : Event) (log : List Event) :
    steps r (e :: log) = steps r log + if e.request = some r then 1 else 0 := by
  simp [steps, List.countP_cons]

theorem steps_own {r : Nat} {e : Event} (h : e.request = some r) (log : List Event) :
    steps r (e :: log) = steps r log + 1 := by
  rw [steps_cons, if_pos h]

theorem unlocks_cons (e : Event) (log : List Event) :
    unlocks (e :: log) = unlocks log + if e.isUnlock then 1 else 0 := List.countP_cons ..

/-- A step that is not one of a request counts for nothing of it. -/
theorem counts_other {e : Event} {r : Nat} (h : e.request ≠ some r) (log : List Event) :
    sends r (e :: log) = sends r log ∧ guards r (e :: log) = guards r log ∧
      steps r (e :: log) = steps r log := by
  have hsent : e.isSent r = false := by
    cases e with
    | sent r' _ _ _ _ _ => simpa [Event.isSent, Event.request] using h
    | _ => rfl
  have hguard : e ≠ .guarded r := by
    rintro rfl
    exact h rfl
  rw [sends_cons, guards_cons, steps_cons, if_neg hguard, if_neg h, hsent]
  exact ⟨rfl, rfl, rfl⟩

/-- The steps of the turn that a request is in; one that is about to begin again has finished
its turn. -/
def Phase.weight : Phase → Nat
  | refused => 0
  | wantPin => 1
  | waitPrompt => 2
  | prompting => 3
  | holding _ => 4
  | onCard _ => 5
  | taken _ => 6
  | finishing => 7
  | done => 8

theorem Phase.weight_le (phase : Phase) : phase.weight ≤ 8 := by
  cases phase <;> simp [weight]

/-- A phase after the VERIFY of the last turn. -/
def Phase.verified : Phase → Bool
  | taken _ | finishing | done => true
  | _ => false

/-- The offered PIN that a request is about to try. -/
def Phase.holdsOffer : Phase → Bool
  | holding (some acq) | onCard (some acq) => acq.offered
  | _ => false

/-- What a request has done so far. The offers it gave up, and the one it holds or may still
take, were all made by an unlock. -/
structure Tallied (log : List Event) (s : System) (r : Nat) (q : Request) : Prop where
  attempts : q.attempt ≤ pinRetryLimit
  spent : sends r log ≤ q.attempt + if q.phase.verified then 1 else 0
  taken : steps r log ≤ 6 * (guards r log + q.attempt) + q.phase.weight
  gaveUp : guards r log ≤ unlocks log
  holds : q.phase.holdsOffer = true → guards r log + 1 ≤ unlocks log
  offers : q.phase ≠ .refused → s.pins.Offers q.guid → guards r log + 1 ≤ unlocks log

/-- What is so in every run: the requests that have begun, and those that have not. -/
structure Tally (log : List Event) (s : System) : Prop where
  begun : ∀ r q, s.requests r = some q → Tallied log s r q
  idle : ∀ r, s.requests r = none → sends r log = 0 ∧ guards r log = 0 ∧ steps r log = 0
  offered : s.pins.offered ≠ none → 1 ≤ unlocks log

section

variable {log : List Event} {s s' : System} {r : Nat} {q q' : Request} {e : Event}

/-- A request on its way through a turn. -/
private theorem Tallied.move (h : Tallied log s r q) (hguid : q'.guid = q.guid)
    (hattempt : q'.attempt = q.attempt) (hsent : e.isSent r = false) (hguard : e ≠ .guarded r)
    (hverified : q.phase.verified = true → q'.phase.verified = true)
    (hweight : q.phase.weight < q'.phase.weight)
    (hholds : q'.phase.holdsOffer = true → q.phase.holdsOffer = true ∨
      q.phase ≠ .refused ∧ s.pins.Offers q.guid)
    (hoffers : s'.pins.Offers q.guid → q.phase ≠ .refused ∧ s.pins.Offers q.guid) :
    Tallied (e :: log) s' r q' := by
  have hguards : guards r (e :: log) = guards r log := by rw [guards_cons, if_neg hguard]; rfl
  have hunlocks : unlocks log ≤ unlocks (e :: log) := by
    rw [unlocks_cons]
    exact Nat.le_add_right ..
  refine ⟨hattempt ▸ h.attempts, ?_, ?_, ?_, ?_, ?_⟩
  · rw [sends_cons, hsent, hattempt]
    have hspent := h.spent
    cases hv : q.phase.verified with
    | false =>
      rw [hv] at hspent
      simp only [Bool.false_eq_true, if_false] at hspent ⊢
      omega
    | true =>
      rw [hv] at hspent
      simp only [hverified hv, Bool.false_eq_true, if_false, if_true] at hspent ⊢
      omega
  · rw [hguards, steps_cons, hattempt]
    have htaken := h.taken
    split <;> omega
  · rw [hguards]
    exact h.gaveUp.trans hunlocks
  · intro hq'
    rw [hguards]
    rcases hholds hq' with hq | ⟨hphase, ho⟩
    · exact (h.holds hq).trans hunlocks
    · exact (h.offers hphase ho).trans hunlocks
  · intro _ ho
    rw [hguid] at ho
    obtain ⟨hphase, ho⟩ := hoffers ho
    rw [hguards]
    exact (h.offers hphase ho).trans hunlocks

/-- A request that gives an offered PIN up. -/
private theorem Tallied.guard (h : Tallied log s r q) {acq : AcquiredPin}
    (hphase : q.phase = .onCard (some acq)) (hoffered : acq.offered = true) :
    Tallied (.guarded r :: log) s' r { q with phase := .refused } := by
  have hguards : guards r (.guarded r :: log) = guards r log + 1 := by
    rw [guards_cons, if_pos rfl]
  have hunlocks : unlocks (.guarded r :: log) = unlocks log := by
    rw [unlocks_cons]
    rfl
  have hholds := h.holds (by rw [hphase]; exact hoffered)
  have hspent := h.spent
  have htaken := h.taken
  rw [hphase] at hspent htaken
  refine ⟨h.attempts, ?_, ?_, ?_, nofun, fun hne => absurd rfl hne⟩
  · rw [sends_cons]
    exact hspent
  · rw [hguards, steps_own rfl]
    change steps r log + 1 ≤ 6 * (guards r log + 1 + q.attempt) + 0
    change steps r log ≤ 6 * (guards r log + q.attempt) + 5 at htaken
    omega
  · rw [hguards, hunlocks]
    exact hholds

/-- A request that has sent its PIN. -/
private theorem Tallied.verify (h : Tallied log s r q) {acq : AcquiredPin} {g : Guid}
    {answer : Except PivError Unit} {before after : PinCard}
    (hphase : q.phase = .onCard (some acq)) (hpins : s'.pins = s.pins) :
    Tallied (.sent r g acq answer before after :: log) s' r (q.afterVerify acq answer) := by
  have hsends : sends r (.sent r g acq answer before after :: log) = sends r log + 1 := by
    rw [sends_cons]
    simp [Event.isSent]
  have hguards : guards r (.sent r g acq answer before after :: log) = guards r log := by
    rw [guards_cons, if_neg nofun]
    rfl
  have hsteps : steps r (.sent r g acq answer before after :: log) = steps r log + 1 :=
    steps_own rfl log
  have hunlocks : unlocks (.sent r g acq answer before after :: log) = unlocks log := by
    rw [unlocks_cons]
    rfl
  have hne : q.phase ≠ .refused := by
    rw [hphase]
    nofun
  have hoffers := h.offers hne
  have hattempts := h.attempts
  have hgaveUp := h.gaveUp
  have hspent : sends r log ≤ q.attempt := by
    have hspent := h.spent
    rw [hphase] at hspent
    exact hspent
  have htaken : steps r log ≤ 6 * (guards r log + q.attempt) + 5 := by
    have htaken := h.taken
    rw [hphase] at htaken
    exact htaken
  rw [← hpins] at hoffers
  -- A wrong PIN starts another turn while one is left; every other answer ends the last one.
  have hlast : ∀ phase : Phase, phase.verified = true → 6 ≤ phase.weight →
      phase.holdsOffer = false →
      Tallied (.sent r g acq answer before after :: log) s' r { q with phase } := by
    intro phase hverified hweight hno
    refine ⟨hattempts, ?_, ?_, ?_, ?_, ?_⟩
    · rw [hsends, if_pos hverified]
      exact Nat.succ_le_succ hspent
    · rw [hsteps, hguards]
      dsimp only
      omega
    · rw [hguards, hunlocks]
      exact hgaveUp
    · intro hoffer
      rw [hno] at hoffer
      cases hoffer
    · intro _ ho
      rw [hguards, hunlocks]
      exact hoffers ho
  rcases answer with e | _
  · cases e with
    | pinIncorrect n =>
      rw [Request.afterVerify]
      by_cases hlimit : q.attempt < pinRetryLimit
      · rw [if_pos hlimit]
        refine ⟨hlimit, ?_, ?_, ?_, nofun, fun hno => absurd rfl hno⟩
        · rw [hsends]
          exact Nat.succ_le_succ hspent
        · rw [hsteps, hguards]
          change steps r log + 1 ≤ 6 * (guards r log + (q.attempt + 1)) + 0
          omega
        · rw [hguards, hunlocks]
          exact hgaveUp
      · rw [if_neg hlimit]
        exact hlast .done rfl (by decide) rfl
    | _ => exact hlast .done rfl (by decide) rfl
  · exact hlast (.taken acq) rfl (Nat.le_refl 6) rfl

/-- A request that begins again. -/
private theorem Tallied.forget (h : Tallied log s r q) (hphase : q.phase = .refused)
    (hpins : s'.pins = s.pins.forgetFor q.guid) :
    Tallied (.recorded r :: log) s' r { q with phase := .wantPin } := by
  refine h.move rfl rfl rfl nofun ?_ ?_ nofun ?_
  · rw [hphase]
    nofun
  · rw [hphase]
    simp [Phase.weight]
  · rintro ⟨-, -, hrej⟩
    rw [hpins] at hrej
    exact absurd (List.mem_cons_self ..) hrej

/-- A step keeps the tally of the request that takes it. -/
private theorem Step.tallied_own (h : Step s e s') (htally : Tally log s)
    (hr : e.request = some r) : ∃ q', s'.requests r = some q' ∧ Tallied (e :: log) s' r q' := by
  have hput : ∀ q', (s.put r q').requests r = some q' := s.put_self r
  cases h with
  | @start r' g slotId hnew =>
    obtain rfl : r' = r := Option.some.inj hr
    obtain ⟨hsends, hguards, hsteps⟩ := htally.idle r' hnew
    refine ⟨_, hput _, Nat.zero_le _, ?_, ?_, ?_, ?_, ?_⟩
    · rw [sends_cons, hsends]
      exact Nat.zero_le _
    · rw [steps_own rfl, hsteps]
      dsimp only
      split
      · simp [Phase.weight]
      · simp [Phase.weight]
    · rw [guards_cons, hguards]
      exact Nat.zero_le _
    · intro hholds
      dsimp only at hholds
      split at hholds
      · cases hholds
      · cases hholds
    · intro _ ho
      rw [guards_cons, hguards, unlocks_cons]
      exact htally.offered ho.2.1
  | @acquire r' q acq hq hphase hacq =>
    obtain rfl : r' = r := Option.some.inj hr
    refine ⟨_, hput _, (htally.begun _ _ hq).move rfl rfl rfl nofun ?_ ?_ ?_ ?_⟩
    · rcases hphase with hp | ⟨hp, -⟩ <;> rw [hp] <;> nofun
    · rcases hphase with hp | ⟨hp, -⟩ <;> rw [hp] <;> simp [Phase.weight]
    · intro hoffered
      refine .inr ⟨?_, ?_⟩
      · rcases hphase with hp | ⟨hp, -⟩ <;> rw [hp] <;> nofun
      · rcases fromCache_cases hacq with ⟨-, -, hno⟩ | ⟨ho, -⟩
        · exact absurd (hno.symm.trans hoffered) (by decide)
        · exact ho
    · intro ho
      refine ⟨?_, ho⟩
      rcases hphase with hp | ⟨hp, -⟩ <;> rw [hp] <;> nofun
  | @miss r' q hq hphase hmiss =>
    obtain rfl : r' = r := Option.some.inj hr
    refine ⟨_, hput _, (htally.begun _ _ hq).move rfl rfl rfl nofun ?_ ?_ nofun ?_⟩
    all_goals rw [hphase]
    · nofun
    · simp [Phase.weight]
    · exact fun ho => ⟨nofun, ho⟩
  | @prompt r' q hq hphase hfree hmiss =>
    obtain rfl : r' = r := Option.some.inj hr
    refine ⟨_, hput _, (htally.begun _ _ hq).move rfl rfl rfl nofun ?_ ?_ nofun ?_⟩
    all_goals rw [hphase]
    · nofun
    · simp [Phase.weight]
    · exact fun ho => ⟨nofun, ho⟩
  | @answer r' q hq hphase pin =>
    obtain rfl : r' = r := Option.some.inj hr
    refine ⟨_, hput _, (htally.begun _ _ hq).move rfl rfl rfl nofun ?_ ?_ nofun ?_⟩
    all_goals rw [hphase]
    · nofun
    · exact Nat.lt_succ_self 3
    · exact fun ho => ⟨nofun, ho⟩
  | @cancel r' q hq hphase =>
    obtain rfl : r' = r := Option.some.inj hr
    refine ⟨_, hput _, (htally.begun _ _ hq).move rfl rfl rfl nofun ?_ ?_ nofun ?_⟩
    all_goals rw [hphase]
    · nofun
    · simp [Phase.weight]
    · exact fun ho => ⟨nofun, ho⟩
  | @enter r' q acq hq hphase hfree =>
    obtain rfl : r' = r := Option.some.inj hr
    refine ⟨_, hput _, (htally.begun _ _ hq).move rfl rfl rfl nofun ?_ ?_ ?_ ?_⟩
    all_goals rw [hphase]
    · nofun
    · exact Nat.lt_succ_self 4
    · intro hholds
      left
      cases acq <;> exact hholds
    · exact fun ho => ⟨nofun, ho⟩
  | @fail r' q acq hq hphase =>
    obtain rfl : r' = r := Option.some.inj hr
    refine ⟨_, hput _, (htally.begun _ _ hq).move rfl rfl rfl nofun ?_ ?_ nofun ?_⟩
    all_goals rw [hphase]
    · nofun
    · exact (by decide : 5 < 8)
    · exact fun ho => ⟨nofun, ho⟩
  | @guard r' q acq answer hq hphase hoffered _ _ =>
    obtain rfl : r' = r := Option.some.inj hr
    exact ⟨_, hput _, (htally.begun _ _ hq).guard hphase hoffered⟩
  | @verify r' q acq answer card hq hphase _ _ _ =>
    obtain rfl : r' = r := Option.some.inj hr
    exact ⟨_, hput _, (htally.begun _ _ hq).verify hphase rfl⟩
  | @forget r' q hq hphase =>
    obtain rfl : r' = r := Option.some.inj hr
    exact ⟨_, hput _, (htally.begun _ _ hq).forget hphase rfl⟩
  | @cache r' q acq hq hphase =>
    obtain rfl : r' = r := Option.some.inj hr
    have hstep : Step s (.recorded r') _ := .cache hq hphase
    refine ⟨_, hput _, (htally.begun _ _ hq).move rfl rfl rfl nofun ?_ ?_ nofun ?_⟩
    · exact fun _ => rfl
    · rw [hphase]
      exact Nat.lt_succ_self 6
    · intro ho
      rw [hphase]
      refine ⟨nofun, ?_⟩
      rcases hstep.offers ho with ho | ⟨pin, he⟩
      · exact ho
      · cases he
  | @finish r' q hq hphase =>
    obtain rfl : r' = r := Option.some.inj hr
    refine ⟨_, hput _, (htally.begun _ _ hq).move rfl rfl rfl nofun ?_ ?_ nofun ?_⟩
    · exact fun _ => rfl
    · rcases hphase with hp | hp <;> rw [hp] <;> simp [Phase.weight]
    · intro ho
      refine ⟨?_, ho⟩
      rcases hphase with hp | hp <;> rw [hp] <;> nofun
  | _ => cases hr

/-- The tally is kept by every step. -/
theorem Tally.step (htally : Tally log s) (h : Step s e s') : Tally (e :: log) s' := by
  have hunlocks : unlocks log ≤ unlocks (e :: log) := by
    rw [unlocks_cons]
    exact Nat.le_add_right ..
  have hunlocked : ∀ {pin : String}, e = .unlocked pin → unlocks (e :: log) = unlocks log + 1 := by
    rintro pin rfl
    rw [unlocks_cons]
    rfl
  refine ⟨?_, ?_, ?_⟩
  · intro r q' hq'
    by_cases hr : e.request = some r
    · obtain ⟨q, hq, hown⟩ := h.tallied_own htally hr
      obtain rfl : q = q' := Option.some.inj (hq.symm.trans hq')
      exact hown
    · have hold := htally.begun r q' (h.requests_other hr ▸ hq')
      obtain ⟨hsends, hguards, hsteps⟩ := counts_other hr log
      refine ⟨hold.attempts, ?_, ?_, ?_, ?_, ?_⟩
      · rw [hsends]
        exact hold.spent
      · rw [hsteps, hguards]
        exact hold.taken
      · rw [hguards]
        exact hold.gaveUp.trans hunlocks
      · intro hholds
        rw [hguards]
        exact (hold.holds hholds).trans hunlocks
      · intro hphase ho
        rw [hguards]
        rcases h.offers ho with ho | ⟨pin, he⟩
        · exact (hold.offers hphase ho).trans hunlocks
        · rw [hunlocked he]
          exact Nat.succ_le_succ hold.gaveUp
  · intro r hr
    have hother : e.request ≠ some r := by
      intro hown
      obtain ⟨q, hq, -⟩ := h.tallied_own htally hown
      rw [hr] at hq
      cases hq
    obtain ⟨hsends, hguards, hsteps⟩ := counts_other hother log
    rw [hsends, hguards, hsteps]
    exact htally.idle r (h.requests_other hother ▸ hr)
  · intro ho
    obtain ⟨pin, hpin⟩ := Option.ne_none_iff_exists'.mp ho
    obtain ⟨-, hold | he⟩ := h.offered_cases hpin
    · exact (htally.offered (by rw [hold]; nofun)).trans hunlocks
    · rw [hunlocked he]
      exact Nat.le_add_left ..

end

theorem tally {condition : List Event → System → Event → Prop} {log : List Event} {s : System}
    (h : Runs condition log s) : Tally log s := by
  refine h.invariant (motive := Tally) ?_ ?_
  · intro s hfresh
    refine ⟨?_, ?_, ?_⟩
    · intro r q hq
      rw [hfresh.requests r] at hq
      cases hq
    · exact fun r _ => ⟨rfl, rfl, rfl⟩
    · intro ho
      rw [hfresh.pins] at ho
      exact absurd rfl ho
  · exact fun _ _ _ _ _ htally hstep _ => htally.step hstep

/-! ## The last try -/

/-- A PIN that nobody typed for this card costs it no last try: an offered one is not sent
where it would leave none, and one that the card took before leaves none only where none was
left. -/
def Spares (acq : AcquiredPin) (before after : PinCard) : Prop :=
  (acq.offered = true → after.retries ≠ 0) ∧
    (acq.fresh = false → after.retries = 0 → before.retries = 0)

/-- The condition on a step: an offered PIN is sent only to a card that may have two tries. -/
def TwoTries (_ : List Event) (_ : System) : Event → Prop
  | .sent _ _ acq _ before _ => acq.offered = true → 2 ≤ before.maxRetries
  | _ => True

/-- Tries are left for an offered PIN, if the answer to the empty VERIFY says so. -/
theorem retries_of_offeredRetriesOk {card : PinCard} {answer : Except PivError StatusWord}
    (h : card.AnswersEmpty answer) (hok : offeredRetriesOk (pinRetriesRemaining answer) = true) :
    2 ≤ card.retries ∨ card.retries = card.maxRetries := by
  rcases answer with e | sw
  · cases hok
  · obtain ⟨hmax, hleft⟩ := h
    rw [pinRetriesRemaining] at hok
    by_cases hs : sw.isSuccess = true
    · exact .inr (hmax hs)
    by_cases hp : sw.isPinIncorrect = true
    · obtain ⟨hlt, hsw⟩ := hleft hp
      rw [if_neg hs, if_pos hp, hsw] at hok
      have hle : (2 : UInt8) ≤ UInt8.ofNat card.retries := of_decide_eq_true hok
      rw [UInt8.le_iff_toNat_le, UInt8.toNat_ofNat_of_lt' (Nat.lt_trans hlt (by decide))] at hle
      exact .inl hle
    · rw [if_neg hs, if_neg hp] at hok
      by_cases hb : sw.asU16 = 0x6983
      · rw [if_pos hb] at hok
        exact absurd hok (by decide)
      · rw [if_neg hb] at hok
        cases hok

/-- A VERIFY costs at most one try, and none when the PIN is right and tries are left. -/
theorem PinCard.Verifies.retries {card card' : PinCard} {pin : String}
    {answer : Except PivError StatusWord} (h : card.Verifies pin answer card')
    (hle : card.retries ≤ card.maxRetries) :
    card'.retries ≤ card'.maxRetries ∧ card.retries ≤ card'.retries + 1 ∧
      (pin = card.pin → card.retries ≤ card'.retries) := by
  induction h with
  | right _ _ => exact ⟨Nat.le_refl _, by dsimp only; omega, fun _ => hle⟩
  | wrong _ hpin sw _ => exact ⟨by dsimp only; omega, by dsimp only; omega, fun hp => absurd hp hpin⟩
  | blocked hb =>
    dsimp only
    refine ⟨Nat.zero_le _, by omega, ?_⟩
    intro hp
    rcases hb with hzero | ⟨-, hne⟩
    · omega
    · exact absurd hp hne
  | lost e _ ih => exact ih
  | unsent e => exact ⟨hle, by omega, fun _ => Nat.le_refl _⟩

/-- A VERIFY that was answered with success took the PIN of the card. -/
theorem PinCard.Verifies.pin_of_ok {card card' : PinCard} {pin : String}
    {answer : Except PivError StatusWord} (h : card.Verifies pin answer card')
    (hok : verifyAnswer answer = .ok ()) : pin = card.pin := by
  cases h with
  | right _ hpin => exact hpin
  | wrong _ _ sw hsw =>
    have hp : sw.isPinIncorrect = true := by
      by_contra hp
      rw [StatusWord.pinRetriesRemaining, if_neg hp] at hsw
      cases hsw
    have hs : sw.isSuccess = false := by
      simp only [StatusWord.isPinIncorrect, decide_eq_true_eq] at hp
      simp [StatusWord.isSuccess, hp.1]
    simp [verifyAnswer, hs, hp] at hok
  | blocked _ => exact absurd hok (by decide)
  | lost e _ => cases hok
  | unsent e => cases hok

/-- The PINs that stand for a card that took them. -/
structure Proven (log : List Event) (s : System) : Prop where
  cards : ∀ g, (s.cards g).retries ≤ (s.cards g).maxRetries
  cached : ∀ g pin, s.pins.verified g = some pin → pin = (s.cards g).pin
  held : ∀ r q acq, s.requests r = some q →
    q.phase = .holding (some acq) ∨ q.phase = .onCard (some acq) →
    acq.fresh = false → acq.pin = (s.cards q.guid).pin
  taken : ∀ r q acq, s.requests r = some q → q.phase = .taken acq →
    acq.pin = (s.cards q.guid).pin
  spared : ∀ r g acq answer before after, .sent r g acq answer before after ∈ log →
    Spares acq before after

section

variable {log : List Event} {s s' : System} {e : Event}

/-- What a step does to the cache: a PIN is added to it only when its card took it. -/
private theorem Step.cached (h : Step s e s') (hp : Proven log s) {g : Guid} {pin : String}
    (hpin : s'.pins.verified g = some pin) : pin = (s.cards g).pin := by
  obtain ⟨-, hold | ⟨r, q, acq, -, hq, hphase, -, rfl, rfl⟩⟩ := h.verified_cases hpin
  · exact hp.cached g pin hold
  · exact hp.taken r q acq hq hphase

/-- What a request does to the PIN it holds: it takes one from the cache or from a prompt,
carries it to the card, and keeps it there once the card took it. -/
private theorem Step.held_own (h : Step s e s') (hp : Proven log s) {r : Nat} {q : Request}
    (hq : s'.requests r = some q) (hr : e.request = some r) {acq : AcquiredPin} :
    ((q.phase = .holding (some acq) ∨ q.phase = .onCard (some acq)) → acq.fresh = false →
      acq.pin = (s.cards q.guid).pin) ∧
    (q.phase = .taken acq → acq.pin = (s.cards q.guid).pin) := by
  have hput : ∀ {q'}, (s.put r q').requests r = some q → q' = q := by
    intro q' hq'
    exact Option.some.inj ((s.put_self r q').symm.trans hq')
  cases h with
  | start g slotId _ =>
    obtain rfl := Option.some.inj hr
    obtain rfl := hput hq
    dsimp only
    refine ⟨?_, ?_⟩
    · intro hphase
      split at hphase
      · rcases hphase with hphase | hphase <;> cases hphase
      · rcases hphase with hphase | hphase <;> cases hphase
    · intro hphase
      split at hphase
      · cases hphase
      · cases hphase
  | @acquire r' q' acq' hq' _ hacq =>
    obtain rfl := Option.some.inj hr
    obtain rfl := hput hq
    refine ⟨?_, nofun⟩
    rintro (hphase | hphase) hfresh
    · obtain rfl := Option.some.inj (Phase.holding.inj hphase)
      rcases fromCache_cases hacq with ⟨hv, -⟩ | ⟨-, -, hno, -⟩
      · exact hp.cached _ _ hv
      · rw [hfresh] at hno
        cases hno
    · cases hphase
  | @answer r' q' hq' _ pin =>
    obtain rfl := Option.some.inj hr
    obtain rfl := hput hq
    refine ⟨?_, nofun⟩
    rintro (hphase | hphase) hfresh
    · obtain rfl := Option.some.inj (Phase.holding.inj hphase)
      cases hfresh
    · cases hphase
  | @enter r' q' acq' hq' hphase' _ =>
    obtain rfl := Option.some.inj hr
    obtain rfl := hput hq
    refine ⟨?_, nofun⟩
    rintro (hphase | hphase) hfresh
    · cases hphase
    · obtain rfl := Phase.onCard.inj hphase
      exact hp.held _ q' acq hq' (.inl hphase') hfresh
  | @verify r' q' acq' answer card hq' hphase' _ _ hcard =>
    obtain rfl := Option.some.inj hr
    obtain rfl := hput hq
    have hguid : (q'.afterVerify acq' (verifyAnswer answer)).guid = q'.guid := by
      unfold Request.afterVerify
      split
      · rfl
      · split <;> rfl
      · rfl
    rw [hguid]
    rcases hanswer : verifyAnswer answer with e | _
    · have hno : ∀ acq, (q'.afterVerify acq' (.error e)).phase ≠ .holding (some acq) ∧
          (q'.afterVerify acq' (.error e)).phase ≠ .onCard (some acq) ∧
          (q'.afterVerify acq' (.error e)).phase ≠ .taken acq := by
        intro acq
        unfold Request.afterVerify
        split
        · next heq => cases heq
        · split
          · exact ⟨nofun, nofun, nofun⟩
          · exact ⟨nofun, nofun, nofun⟩
        · exact ⟨nofun, nofun, nofun⟩
      obtain ⟨h₁, h₂, h₃⟩ := hno acq
      exact ⟨fun hphase _ => (hphase.elim h₁ h₂).elim, fun hphase => (h₃ hphase).elim⟩
    · refine ⟨?_, ?_⟩
      · rintro (hphase | hphase)
        · cases hphase
        · cases hphase
      · intro hphase
        obtain rfl := Phase.taken.inj hphase
        exact hcard.pin_of_ok hanswer
  | lock => cases hr
  | unlock _ => cases hr
  | remove _ _ => cases hr
  | _ =>
    obtain rfl := Option.some.inj hr
    obtain rfl := hput hq
    exact ⟨fun hphase => hphase.elim nofun nofun, nofun⟩

/-- A PIN that is sent spares the last try. -/
private theorem Step.spared (h : Step s e s') (hp : Proven log s) (hc : TwoTries log s e) {r : Nat}
    {g : Guid} {acq : AcquiredPin} {answer : Except PivError Unit} {before after : PinCard}
    (he : e = .sent r g acq answer before after) : Spares acq before after := by
  cases h with
  | @verify r' q acq' answer' card hq hphase _ hrisk hcard =>
    obtain ⟨-, rfl, rfl, -, rfl, rfl⟩ := Event.sent.inj he
    obtain ⟨-, hcost, hright⟩ := hcard.retries (hp.cards _)
    refine ⟨?_, ?_⟩
    · intro hoffered
      obtain ⟨empty, hempty, hok⟩ := hrisk hoffered
      have htwo : 2 ≤ (s.cards q.guid).maxRetries := hc hoffered
      rcases retries_of_offeredRetriesOk hempty hok with hleft | hmax
      · omega
      · omega
    · intro hfresh hzero
      have hle := hright (hp.held r' q acq' hq (.inr hphase) hfresh)
      omega
  | _ => cases he

/-- The PINs are right after every step whose condition holds. -/
private theorem Proven.step (hp : Proven log s) (h : Step s e s') (hc : TwoTries log s e) :
    Proven (e :: log) s' := by
  have hsame : ∀ g, (s'.cards g).pin = (s.cards g).pin := fun g => (h.cards_same g).1
  refine ⟨?_, ?_, ?_, ?_, ?_⟩
  · intro g
    cases h with
    | @verify r q acq answer card _ _ _ _ hcard =>
      by_cases hg : g = q.guid
      · subst hg
        simpa using (hcard.retries (hp.cards _)).1
      · simpa [Function.update_of_ne hg] using hp.cards g
    | _ => exact hp.cards g
  · intro g pin hpin
    rw [hsame]
    exact h.cached hp hpin
  · intro r q acq hq hphase hfresh
    rw [hsame]
    by_cases hr : e.request = some r
    · exact (h.held_own hp hq hr).1 hphase hfresh
    · exact hp.held r q acq (h.requests_other hr ▸ hq) hphase hfresh
  · intro r q acq hq hphase
    rw [hsame]
    by_cases hr : e.request = some r
    · exact (h.held_own hp hq hr).2 hphase
    · exact hp.taken r q acq (h.requests_other hr ▸ hq) hphase
  · intro r g acq answer before after hmem
    rcases List.mem_cons.mp hmem with he | hmem
    · exact h.spared hp hc he.symm
    · exact hp.spared r g acq answer before after hmem

end

private theorem proven {log : List Event} {s : System} (h : Runs TwoTries log s) : Proven log s := by
  refine h.invariant (motive := Proven) ?_ ?_
  · intro s hfresh
    refine ⟨hfresh.cards, ?_, ?_, ?_, nofun⟩
    · intro g pin hpin
      rw [hfresh.pins] at hpin
      cases hpin
    · intro r q acq hq
      rw [hfresh.requests r] at hq
      cases hq
    · intro r q acq hq
      rw [hfresh.requests r] at hq
      cases hq
  · exact fun _ _ _ _ _ hp hstep hc => hp.step hstep hc

/-! ## Bounds -/

/-- While a request is not done, some request can go on: nothing waits for a lock that is not
given back. -/
theorem System.progress (s : System) (h : ∃ r q, s.requests r = some q ∧ q.phase ≠ .done) :
    ∃ r q e s', s.requests r = some q ∧ q.phase ≠ .done ∧ e.request = some r ∧ Step s e s' := by
  by_cases hcard : s.CardFree
  · by_cases hprompt : s.PromptFree
    · obtain ⟨r, q, hq, hne⟩ := h
      rcases hphase : q.phase with _ | _ | _ | acq | acq | _ | acq | _ | _
      · -- The cache has a PIN or it has none.
        rcases hc : fromCache s.pins q.guid with _ | acq
        · exact ⟨r, q, _, _, hq, hne, rfl, .miss hq hphase hc⟩
        · exact ⟨r, q, _, _, hq, hne, rfl, .acquire hq (.inl hphase) hc⟩
      · rcases hc : fromCache s.pins q.guid with _ | acq
        · exact ⟨r, q, _, _, hq, hne, rfl, .prompt hq hphase hprompt hc⟩
        · exact ⟨r, q, _, _, hq, hne, rfl, .acquire hq (.inr ⟨hphase, hprompt⟩) hc⟩
      · exact absurd hphase (hprompt r q hq)
      · exact ⟨r, q, _, _, hq, hne, rfl, .enter hq hphase hcard⟩
      all_goals
        have hno := hcard r q hq
        rw [hphase] at hno
        first
          | exact absurd hphase hne
          | cases hno
    · simp only [System.PromptFree, not_forall, not_not] at hprompt
      obtain ⟨r, q, hq, hphase⟩ := hprompt
      exact ⟨r, q, _, _, hq, hphase ▸ nofun, rfl, .cancel hq hphase⟩
  · simp only [System.CardFree, not_forall, Bool.not_eq_false] at hcard
    obtain ⟨r, q, hq, hholds⟩ := hcard
    rcases hphase : q.phase with _ | _ | _ | acq | acq | _ | acq | _ | _
    · rw [hphase] at hholds
      cases hholds
    · rw [hphase] at hholds
      cases hholds
    · rw [hphase] at hholds
      cases hholds
    · rw [hphase] at hholds
      cases hholds
    · exact ⟨r, q, _, _, hq, hphase ▸ nofun, rfl, .fail hq hphase⟩
    · exact ⟨r, q, _, _, hq, hphase ▸ nofun, rfl, .forget hq hphase⟩
    · exact ⟨r, q, _, _, hq, hphase ▸ nofun, rfl, .cache hq hphase⟩
    · exact ⟨r, q, _, _, hq, hphase ▸ nofun, rfl, .finish hq (.inl hphase)⟩
    · rw [hphase] at hholds
      cases hholds

/-- What requests spend: no last try on a PIN that was not typed for the card, at most two
PINs each, and a number of steps that only unlocks can raise, while some request can always go
on. -/
structure Restrained (log : List Event) (s : System) : Prop where
  spared : ∀ r g acq answer before after, .sent r g acq answer before after ∈ log →
    Spares acq before after
  spent : ∀ r, sends r log ≤ pinRetryLimit + 1
  ends : ∀ r, steps r log ≤ 6 * (unlocks log + pinRetryLimit) + 8
  progress : (∃ r q, s.requests r = some q ∧ q.phase ≠ .done) →
    ∃ r q e s', s.requests r = some q ∧ q.phase ≠ .done ∧ e.request = some r ∧ Step s e s'

/-- In every run whose offered PINs are sent to cards that may have two tries, requests spend
no more than they may. -/
theorem restrained_of_twoTries {log : List Event} {s : System} (h : Runs TwoTries log s) :
    Restrained log s := by
  have htally := tally h
  refine ⟨(proven h).spared, ?_, ?_, s.progress⟩
  · intro r
    rcases hq : s.requests r with _ | q
    · rw [(htally.idle r hq).1]
      exact Nat.zero_le _
    · have hspent := (htally.begun r q hq).spent
      have hattempts := (htally.begun r q hq).attempts
      split at hspent <;> omega
  · intro r
    rcases hq : s.requests r with _ | q
    · rw [(htally.idle r hq).2.2]
      exact Nat.zero_le _
    · have htaken := (htally.begun r q hq).taken
      have hattempts := (htally.begun r q hq).attempts
      have hgaveUp := (htally.begun r q hq).gaveUp
      have hweight := q.phase.weight_le
      omega

/-! ## A card that may have one try -/

def sampleGuid : Guid := .ofByte 7

/-- An agent with one kind of card. -/
def sampleSystem (card : PinCard) : System := ⟨PinCache.new, fun _ => card, fun _ => none⟩

def sampleOffer : AcquiredPin := ⟨"0000", true, true⟩

/-- A request that has taken the offered PIN to the card. -/
def sampleRequest : Request := ⟨sampleGuid, 0x9D, 0, .onCard (some sampleOffer)⟩

/-- The agent once a PIN was offered and some requests have taken it from the cache. -/
def sampleOffered (card : PinCard) : System :=
  { sampleSystem card with pins := PinCache.new.offer "0000" }

/-- A PIN is offered and a request goes to the card with it. -/
theorem run_sampleRequest (condition : List Event → System → Event → Prop) (card : PinCard)
    (hle : card.retries ≤ card.maxRetries)
    (hcond : ∀ log s e, (∀ r, e.isSent r = false) → condition log s e) :
    Runs condition [.entered 0, .acquired 0 sampleOffer, .started 0 sampleGuid 0x9D, .unlocked "0000"]
      ((((sampleOffered card).put 0 ⟨sampleGuid, 0x9D, 0, .wantPin⟩).put 0
        ⟨sampleGuid, 0x9D, 0, .holding (some sampleOffer)⟩).put 0 sampleRequest) := by
  have hfresh : (sampleSystem card).Fresh := ⟨rfl, fun _ => rfl, fun _ => hle⟩
  have h₁ : Runs condition [.unlocked "0000"] (sampleOffered card) :=
    .step (.start hfresh) (.unlock "0000") (hcond _ _ _ fun _ => rfl)
  have h₂ := h₁.step (.start (r := 0) sampleGuid 0x9D rfl) (hcond _ _ _ fun _ => rfl)
  have h₃ := h₂.step (.acquire (System.put_self ..) (.inl rfl) rfl) (hcond _ _ _ fun _ => rfl)
  refine h₃.step (.enter (System.put_self ..) rfl ?_) (hcond _ _ _ fun _ => rfl)
  -- No other request has begun.
  intro r q hq
  by_cases hr : r = 0
  · subst hr
    rw [System.put_self] at hq
    cases hq
    rfl
  · simp [System.put, hr, sampleOffered, sampleSystem] at hq

/-- A card answers a wrong PIN when its last try is spent, or the last but one. -/
theorem verifies_sample (retries maxRetries : Nat) (h : retries < 3) :
    PinCard.Verifies ⟨"1234", retries + 1, maxRetries⟩ "0000" (.ok ⟨0x63, 0xC0 + UInt8.ofNat retries⟩)
      ⟨"1234", retries, maxRetries⟩ := by
  have hword : ∀ n < 3, (⟨0x63, 0xC0 + UInt8.ofNat n⟩ : StatusWord).pinRetriesRemaining =
      some (UInt8.ofNat n) := by
    decide
  exact .wrong (Nat.succ_pos _) (by decide : "0000" ≠ "1234") _ (hword retries h)

/-- A card with one try that says that a PIN is verified loses it to an offered PIN. -/
theorem not_restrained_oneTry : ¬ ∀ log s, Runs anyStep log s → Restrained log s := by
  intro h
  have hrun := run_sampleRequest anyStep ⟨"1234", 1, 1⟩ (Nat.le_refl 1)
    fun _ _ _ _ => trivial
  have hsent := hrun.step (.verify (System.put_self ..) rfl (by decide)
    (fun _ => ⟨.ok ⟨0x90, 0x00⟩, ⟨fun _ => rfl, by decide⟩, by decide⟩)
    (verifies_sample 0 1 (by decide))) trivial
  exact ((h _ _ hsent).spared _ _ _ _ _ _ (List.mem_cons_self ..)).1 rfl rfl

/-- On a card with three tries an offered PIN leaves two. -/
theorem restrained_of_twoTries_sample :
    ∃ log s, Runs TwoTries log s ∧ sends 0 log = 1 ∧ Restrained log s := by
  have hrun := run_sampleRequest TwoTries ⟨"1234", 3, 3⟩ (Nat.le_refl 3) fun _ _ e he => by
    cases e with
    | sent r _ _ _ _ _ => simpa [Event.isSent] using he r
    | _ => trivial
  have hsent := hrun.step (.verify (System.put_self ..) rfl (by decide)
    (fun _ => ⟨.ok ⟨0x63, 0xC3⟩, ⟨by decide, fun _ => ⟨by decide, by decide⟩⟩, by decide⟩)
    (verifies_sample 2 3 (by decide))) fun _ => by decide
  exact ⟨_, _, hsent, by decide, restrained_of_twoTries hsent⟩

end Piggy.Agent
