import Piggy.Agent.Retries

/-!
# What a lock forgets

To lock the agent is to make it forget every PIN. The cache is emptied, but a request that
already holds a PIN is not stopped: it may still put that PIN into the cache.
-/

namespace Piggy.Agent

open Piggy.Core Piggy.Box Piggy.Card

/-- A PIN comes from a prompt or from an unlock. -/
def Event.provides (pin : String) : Event → Bool
  | answered _ p | unlocked p => p = pin
  | _ => false

/-- A request gets a PIN from the cache or from its prompt. -/
def Event.acquires (r : Nat) : Event → Bool
  | acquired r' _ | answered r' _ => r' = r
  | _ => false

/-- What has happened since the agent was locked last. -/
def sinceLock (log : List Event) : List Event := log.takeWhile (· ≠ .locked)

/-- Every PIN that a request sends, when the request was started after a lock, was typed or
came with an unlock between that lock and the send. -/
def LockForgets (log : List Event) : Prop :=
  ∀ newest r g acq answer before after mid older,
    log = newest ++ .sent r g acq answer before after :: (mid ++ .locked :: older) →
    (∃ g' slotId, .started r g' slotId ∈ mid) → ∃ e ∈ mid, e.provides acq.pin = true

/-- The condition on a step: a request that caches its PIN has got it since the last lock. -/
def CachesNoOld (log : List Event) (s : System) : Event → Prop
  | .recorded r => ∀ q acq, s.requests r = some q → q.phase = .taken acq → acq.fresh = true →
    ∃ e ∈ sinceLock log, e.acquires r = true
  | _ => True

/-! ## Since the last lock -/

theorem sinceLock_cons {e : Event} (h : e ≠ .locked) (log : List Event) :
    sinceLock (e :: log) = e :: sinceLock log := List.takeWhile_cons_of_pos (by simpa using h)

/-- What has happened since the last lock has happened since every lock. -/
theorem mem_of_mem_sinceLock {e : Event} {mid older : List Event}
    (h : e ∈ sinceLock (mid ++ .locked :: older)) : e ∈ mid := by
  induction mid with
  | nil => simp [sinceLock] at h
  | cons e' mid ih =>
    by_cases he : e' = .locked
    · subst he
      simp [sinceLock] at h
    · rw [List.cons_append, sinceLock_cons he] at h
      rcases List.mem_cons.mp h with rfl | h
      · exact List.mem_cons_self
      · exact List.mem_cons_of_mem _ (ih h)

/-- A PIN that was provided since the last lock. -/
def Known (log : List Event) (pin : String) : Prop := ∃ e ∈ sinceLock log, e.provides pin = true

theorem Known.cons {log : List Event} {pin : String} (h : Known log pin) {e : Event}
    (he : e ≠ .locked) : Known (e :: log) pin := by
  obtain ⟨e', hmem, hp⟩ := h
  rw [Known, sinceLock_cons he]
  exact ⟨e', List.mem_cons_of_mem _ hmem, hp⟩

theorem known_self {e : Event} {log : List Event} {pin : String} (hp : e.provides pin = true) :
    Known (e :: log) pin := by
  have he : e ≠ .locked := by
    rintro rfl
    cases hp
  rw [Known, sinceLock_cons he]
  exact ⟨e, List.mem_cons_self, hp⟩

/-- The PIN that a request has with it. -/
def Phase.pin : Phase → Option AcquiredPin
  | holding acq | onCard acq => acq
  | taken acq => some acq
  | _ => none

/-- The PINs that the agent has, and where they come from. -/
structure Traced (log : List Event) (s : System) : Prop where
  cached : ∀ g pin, s.pins.verified g = some pin → Known log pin
  offered : ∀ pin, s.pins.offered = some pin → Known log pin
  /-- A PIN that a request got since the last lock was provided since then. -/
  recent : ∀ r q acq, s.requests r = some q → q.phase.pin = some acq →
    (∃ e ∈ sinceLock log, e.acquires r = true) → Known log acq.pin
  /-- A request that was started after a lock has a PIN that was provided after it. -/
  held : ∀ r q acq, s.requests r = some q → q.phase.pin = some acq →
    ∀ mid older, log = mid ++ .locked :: older → (∃ g slotId, .started r g slotId ∈ mid) →
      ∃ e ∈ mid, e.provides acq.pin = true

section

variable {log : List Event} {s s' : System} {e : Event}

/-- A request gets its PIN in one of two steps, and keeps it in all others. -/
theorem Step.pin_cases (h : Step s e s') {r : Nat} {q' : Request} {acq : AcquiredPin}
    (hq' : s'.requests r = some q') (hpin : q'.phase.pin = some acq) :
    (e = .acquired r acq ∧ ∃ g, fromCache s.pins g = some acq) ∨
      (e = .answered r acq.pin) ∨
      (e.acquires r = false ∧ (∀ g slotId, e ≠ .started r g slotId) ∧
        ∃ q, s.requests r = some q ∧ q.phase.pin = some acq) := by
  by_cases hr : e.request = some r
  · have hput : ∀ {q}, (s.put r q).requests r = some q' → q = q' := by
      intro q hq
      exact Option.some.inj ((s.put_self r q).symm.trans hq)
    cases h with
    | start g slotId _ =>
      obtain rfl := Option.some.inj hr
      obtain rfl := hput hq'
      dsimp only at hpin
      split at hpin
      · cases hpin
      · cases hpin
    | @acquire r' q acq' hq _ hacq =>
      obtain rfl := Option.some.inj hr
      obtain rfl := hput hq'
      obtain rfl := Option.some.inj hpin
      exact .inl ⟨rfl, q.guid, hacq⟩
    | @answer r' q hq _ pin =>
      obtain rfl := Option.some.inj hr
      obtain rfl := hput hq'
      obtain rfl := Option.some.inj hpin
      exact .inr (.inl rfl)
    | @enter r' q acq' hq hphase _ =>
      obtain rfl := Option.some.inj hr
      obtain rfl := hput hq'
      exact .inr (.inr ⟨rfl, nofun, q, hq, by rw [hphase]; exact hpin⟩)
    | @verify r' q acq' answer card hq hphase _ _ _ =>
      obtain rfl := Option.some.inj hr
      obtain rfl := hput hq'
      refine .inr (.inr ⟨rfl, nofun, q, hq, ?_⟩)
      rw [hphase]
      unfold Request.afterVerify at hpin
      split at hpin
      · exact hpin
      · split at hpin
        · cases hpin
        · cases hpin
      · cases hpin
    | lock => cases hr
    | unlock _ => cases hr
    | remove _ _ => cases hr
    | _ =>
      obtain rfl := Option.some.inj hr
      obtain rfl := hput hq'
      cases hpin
  · rw [h.requests_other hr] at hq'
    refine .inr (.inr ⟨?_, ?_, q', hq', hpin⟩)
    · cases e with
      | acquired r' _ => simpa [Event.acquires, Event.request] using hr
      | answered r' _ => simpa [Event.acquires, Event.request] using hr
      | _ => rfl
    · rintro g slotId rfl
      exact hr rfl

/-- The PINs are traced after every step whose condition holds. -/
private theorem Traced.step (ht : Traced log s) (h : Step s e s') (hc : CachesNoOld log s e) :
    Traced (e :: log) s' := by
  refine ⟨?_, ?_, ?_, ?_⟩
  · intro g pin hpin
    obtain ⟨hne, hold | ⟨r, q, acq, rfl, hq, hphase, hfresh, -, rfl⟩⟩ := h.verified_cases hpin
    · exact (ht.cached g pin hold).cons hne
    · have hgot := hc q acq hq hphase hfresh
      exact (ht.recent r q acq hq (by rw [hphase]; rfl) hgot).cons hne
  · intro pin hpin
    obtain ⟨hne, hold | rfl⟩ := h.offered_cases hpin
    · exact (ht.offered pin hold).cons hne
    · exact known_self (by simp [Event.provides])
  · intro r q' acq hq' hpin hgot
    rcases h.pin_cases hq' hpin with ⟨rfl, g, hcache⟩ | rfl | ⟨hacq, -, q, hq, hpin'⟩
    · rcases fromCache_cases hcache with ⟨hv, -⟩ | ⟨-, ho, -⟩
      · exact (ht.cached g _ hv).cons nofun
      · exact (ht.offered _ ho).cons nofun
    · exact known_self (by simp [Event.provides])
    · -- The request got its PIN before, and there was no lock since.
      by_cases hlocked : e = .locked
      · subst hlocked
        simp [sinceLock] at hgot
      · rw [sinceLock_cons hlocked] at hgot
        obtain ⟨e', hmem, he'⟩ := hgot
        rcases List.mem_cons.mp hmem with rfl | hmem
        · rw [hacq] at he'
          cases he'
        · exact (ht.recent r q acq hq hpin' ⟨e', hmem, he'⟩).cons hlocked
  · intro r q' acq hq' hpin mid older hlog hstarted
    cases mid with
    | nil =>
      obtain ⟨g, slotId, hmem⟩ := hstarted
      cases hmem
    | cons e' mid =>
      obtain ⟨rfl, rfl⟩ := List.cons.inj hlog
      have hknown : ∀ {pin : String}, Known (mid ++ .locked :: older) pin →
          ∃ e'' ∈ e :: mid, e''.provides pin = true := by
        rintro pin ⟨e'', hmem, hp⟩
        exact ⟨e'', List.mem_cons_of_mem _ (mem_of_mem_sinceLock hmem), hp⟩
      rcases h.pin_cases hq' hpin with ⟨rfl, g, hcache⟩ | rfl | ⟨-, hnew, q, hq, hpin'⟩
      · rcases fromCache_cases hcache with ⟨hv, -⟩ | ⟨-, ho, -⟩
        · exact hknown (ht.cached g _ hv)
        · exact hknown (ht.offered _ ho)
      · exact ⟨_, List.mem_cons_self, by simp [Event.provides]⟩
      · have hstarted' : ∃ g slotId, .started r g slotId ∈ mid := by
          obtain ⟨g, slotId, hmem⟩ := hstarted
          rcases List.mem_cons.mp hmem with he | hmem
          · exact absurd he.symm (hnew g slotId)
          · exact ⟨g, slotId, hmem⟩
        obtain ⟨e'', hmem, hp⟩ := ht.held r q acq hq hpin' mid older rfl hstarted'
        exact ⟨e'', List.mem_cons_of_mem _ hmem, hp⟩

end

private theorem traced {log : List Event} {s : System} (h : Runs CachesNoOld log s) :
    Traced log s := by
  refine h.invariant (motive := Traced) ?_ ?_
  · intro s hfresh
    refine ⟨?_, ?_, ?_, ?_⟩
    · intro g pin hpin
      rw [hfresh.pins] at hpin
      cases hpin
    · intro pin hpin
      rw [hfresh.pins] at hpin
      cases hpin
    · intro r q acq hq
      rw [hfresh.requests r] at hq
      cases hq
    · intro r q acq hq
      rw [hfresh.requests r] at hq
      cases hq
  · exact fun _ _ _ _ _ ht hstep hc => ht.step hstep hc

/-- In every run whose requests cache only PINs that they got since the last lock, a lock
forgets every PIN. -/
theorem lockForgets_of_cachesNoOld {log : List Event} {s : System} (h : Runs CachesNoOld log s) :
    LockForgets log := by
  rintro newest r g acq answer before after mid older rfl hstarted
  obtain ⟨s₁, s₂, hrun, hstep, -⟩ := h.step_of_append
  generalize he : Event.sent r g acq answer before after = e at hstep
  cases hstep with
  | @verify r' q acq' answer' card hq hphase _ _ _ =>
    obtain ⟨rfl, -, rfl, -, -, -⟩ := Event.sent.inj he
    exact (traced hrun).held r q acq hq (by rw [hphase]; rfl) mid older rfl hstarted
  | _ => cases he

/-! ## A lock while a request waits -/

/-- The PIN of the sample card, typed. -/
def sampleTyped : AcquiredPin := typed "1234"

/-- A request asks for the PIN of its card and waits for the card with it. -/
theorem run_sampleTyped (condition : List Event → System → Event → Prop)
    (hcond : ∀ log s e, (∀ r, e ≠ .recorded r) → condition log s e) :
    Runs condition [.answered 0 "1234", .prompted 0, .missed 0, .started 0 sampleGuid 0x9D]
      (((((sampleSystem ⟨"1234", 3, 3⟩).put 0 ⟨sampleGuid, 0x9D, 0, .wantPin⟩).put 0
        ⟨sampleGuid, 0x9D, 0, .waitPrompt⟩).put 0 ⟨sampleGuid, 0x9D, 0, .prompting⟩).put 0
        ⟨sampleGuid, 0x9D, 0, .holding (some sampleTyped)⟩) := by
  have hfresh : (sampleSystem ⟨"1234", 3, 3⟩).Fresh := ⟨rfl, fun _ => rfl, fun _ => Nat.le_refl 3⟩
  have h₁ : Runs condition [.started 0 sampleGuid 0x9D] _ :=
    .step (.start hfresh) (.start (r := 0) sampleGuid 0x9D rfl) (hcond _ _ _ nofun)
  have h₂ := h₁.step (.miss (System.put_self ..) rfl rfl) (hcond _ _ _ nofun)
  have h₃ := h₂.step (.prompt (System.put_self ..) rfl (by
    intro r q hq
    rcases r with _ | r
    · cases hq
      nofun
    · cases hq) rfl) (hcond _ _ _ nofun)
  exact h₃.step (.answer (System.put_self ..) rfl "1234") (hcond _ _ _ nofun)

/-- What happens after the lock when a request caches a PIN that was typed before it. -/
def sampleAfterLock : List Event :=
  [.entered 1, .acquired 1 ⟨"1234", false, false⟩, .started 1 sampleGuid 0x9D, .finished 0,
    .recorded 0, .sent 0 sampleGuid sampleTyped (.ok ()) ⟨"1234", 3, 3⟩ ⟨"1234", 3, 3⟩, .entered 0]

/-- Two requests, none of which holds the card. -/
theorem cardFree_of_two {s : System} {q₀ q₁ : Option Request} (h₀ : s.requests 0 = q₀)
    (h₁ : s.requests 1 = q₁) (hq₀ : q₀.all fun q => !q.phase.holdsCard)
    (hq₁ : q₁.all fun q => !q.phase.holdsCard) (hrest : ∀ r, s.requests (r + 2) = none) :
    s.CardFree := by
  intro r q hq
  rcases r with _ | _ | r
  · rw [← h₀, hq] at hq₀
    simpa using hq₀
  · rw [← h₁, hq] at hq₁
    simpa using hq₁
  · rw [hrest r] at hq
    cases hq

/-- A request that waits for the card when the agent is locked caches its PIN afterwards, and
the next request sends it. -/
theorem not_lockForgets_waiting : ¬ ∀ log s, Runs anyStep log s → LockForgets log := by
  intro h
  have hok : verifyAnswer (.ok ⟨0x90, 0x00⟩) = .ok () := by decide
  have h₁ := (run_sampleTyped anyStep fun _ _ _ _ => trivial).step .lock trivial
  have h₂ := h₁.step (.enter (r := 0) rfl rfl (cardFree_of_two rfl rfl rfl rfl fun _ => rfl)) trivial
  have h₃ := h₂.step (.verify (r := 0) rfl rfl (by decide) nofun (.right (by decide) rfl)) trivial
  rw [hok] at h₃
  have h₄ := h₃.step (.cache (r := 0) rfl rfl) trivial
  have h₅ := h₄.step (.finish (r := 0) rfl (.inl rfl)) trivial
  have h₆ := h₅.step (.start (r := 1) sampleGuid 0x9D rfl) trivial
  have h₇ := h₆.step (.acquire (r := 1) rfl (.inl rfl) rfl) trivial
  have h₈ := h₇.step (.enter (r := 1) rfl rfl (cardFree_of_two rfl rfl rfl rfl fun _ => rfl)) trivial
  have h₉ := h₈.step (.verify (r := 1) rfl rfl (by decide) nofun (.right (by decide) rfl)) trivial
  obtain ⟨e, hmem, hp⟩ := h _ _ h₉ [] _ _ _ _ _ _ sampleAfterLock _ rfl
    ⟨sampleGuid, 0x9D, by decide⟩
  revert e
  decide

/-- A request that is started after a lock asks for its PIN again. -/
theorem lockForgets_of_cachesNoOld_sample :
    ∃ log s, Runs CachesNoOld log s ∧ .locked ∈ log ∧ sends 0 log = 1 ∧ sends 1 log = 1 ∧
      LockForgets log := by
  have hok : verifyAnswer (.ok ⟨0x90, 0x00⟩) = .ok () := by decide
  have h₁ := run_sampleTyped CachesNoOld fun _ _ e he => by
    cases e with
    | recorded r => exact absurd rfl (he r)
    | _ => trivial
  have h₂ := h₁.step (.enter (r := 0) rfl rfl (cardFree_of_two rfl rfl rfl rfl fun _ => rfl)) trivial
  have h₃ := h₂.step (.verify (r := 0) rfl rfl (by decide) nofun (.right (by decide) rfl)) trivial
  rw [hok] at h₃
  have h₄ := h₃.step (.cache (r := 0) rfl rfl) fun _ _ _ _ _ => ⟨.answered 0 "1234", by decide, by decide⟩
  have h₅ := h₄.step (.finish (r := 0) rfl (.inl rfl)) trivial
  have h₆ := h₅.step .lock trivial
  have h₇ := h₆.step (.start (r := 1) sampleGuid 0x9D rfl) trivial
  have h₈ := h₇.step (.miss (r := 1) rfl rfl rfl) trivial
  have h₉ := h₈.step (.prompt (r := 1) rfl rfl (by
    intro r q hq
    rcases r with _ | _ | r
    · cases hq
      nofun
    · cases hq
      nofun
    · cases hq) rfl) trivial
  have h₁₀ := h₉.step (.answer (r := 1) rfl rfl "1234") trivial
  have h₁₁ := h₁₀.step (.enter (r := 1) rfl rfl (cardFree_of_two rfl rfl rfl rfl fun _ => rfl)) trivial
  have h₁₂ := h₁₁.step (.verify (r := 1) rfl rfl (by decide) nofun (.right (by decide) rfl)) trivial
  exact ⟨_, _, h₁₂, by decide, by decide, by decide, lockForgets_of_cachesNoOld h₁₂⟩

end Piggy.Agent
