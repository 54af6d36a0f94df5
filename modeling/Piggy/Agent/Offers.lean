import Piggy.Agent.Retries

/-!
# One try for an offered PIN

An offered PIN is to be tried once on each card. The cache keeps that a card refused it, but a
request looks into the cache before it waits for the card: the PIN it holds may have been
refused by then.
-/

namespace Piggy.Agent

open Piggy.Core Piggy.Box Piggy.Card

/-- An offer, and what ends one. -/
def Event.endsOffer : Event → Bool
  | locked | unlocked _ | removed _ => true
  | _ => false

/-- An offered PIN that is sent to a card with another PIN. -/
def Event.wrongOffer (g : Guid) : Event → Bool
  | sent _ g' acq _ before _ => g' = g && acq.offered && acq.pin ≠ before.pin
  | _ => false

/-- Between an offer and what ends it, no card that rejects the offered PIN gets it twice. -/
def TriedOnce (log : List Event) : Prop :=
  ∀ newer pin older, log = newer ++ .unlocked pin :: older → (∀ e ∈ newer, e.endsOffer = false) →
    ∀ g, (newer.filter (·.wrongOffer g)).length ≤ 1

/-- The condition on a step: an offered PIN that the card rejects is one that the cache still
offers to the card; it is not the last PIN that the request may try, and the card answers that
it is wrong. -/
def StillOffered (_ : List Event) (s : System) : Event → Prop
  | .sent r g acq answer before _ => acq.offered = true → acq.pin ≠ before.pin →
    s.pins.Offers g ∧ (∀ q, s.requests r = some q → q.attempt < pinRetryLimit) ∧
      ∃ n, answer = .error (.pinIncorrect n)
  | _ => True

/-! ## The card is held by one request -/

/-- At most one request holds the card. -/
def Exclusive (s : System) : Prop :=
  ∀ r r' q q', s.requests r = some q → s.requests r' = some q' → q.phase.holdsCard = true →
    q'.phase.holdsCard = true → r = r'

/-- A request gets to the card only when it is free. -/
theorem Step.holdsCard {s s' : System} {e : Event} (h : Step s e s') {r : Nat} {q' : Request}
    (hq' : s'.requests r = some q') (hholds : q'.phase.holdsCard = true) :
    (∃ q, s.requests r = some q ∧ q.phase.holdsCard = true) ∨ (e.request = some r ∧ s.CardFree) := by
  by_cases hr : e.request = some r
  · have hput : ∀ {q}, (s.put r q).requests r = some q' → q = q' := by
      intro q hq
      exact Option.some.inj ((s.put_self r q).symm.trans hq)
    cases h with
    | start g slotId _ =>
      obtain rfl := Option.some.inj hr
      obtain rfl := hput hq'
      dsimp only at hholds
      split at hholds
      · cases hholds
      · cases hholds
    | enter hq hphase hfree => exact .inr ⟨hr, hfree⟩
    | @guard r' q _ _ hq hphase _ _ _ =>
      obtain rfl := Option.some.inj hr
      exact .inl ⟨q, hq, by rw [hphase]; rfl⟩
    | @verify r' q _ _ _ hq hphase _ _ _ =>
      obtain rfl := Option.some.inj hr
      exact .inl ⟨q, hq, by rw [hphase]; rfl⟩
    | @cache r' q _ hq hphase =>
      obtain rfl := Option.some.inj hr
      exact .inl ⟨q, hq, by rw [hphase]; rfl⟩
    | lock => cases hr
    | unlock _ => cases hr
    | remove _ _ => cases hr
    | _ =>
      obtain rfl := Option.some.inj hr
      obtain rfl := hput hq'
      cases hholds
  · rw [h.requests_other hr] at hq'
    exact .inl ⟨q', hq', hholds⟩

theorem Exclusive.step {s s' : System} {e : Event} (hex : Exclusive s) (h : Step s e s') :
    Exclusive s' := by
  intro r r' q q' hq hq' hholds hholds'
  rcases h.holdsCard hq hholds with ⟨p, hp, hpholds⟩ | ⟨hr, hfree⟩
  · rcases h.holdsCard hq' hholds' with ⟨p', hp', hpholds'⟩ | ⟨hr', hfree⟩
    · exact hex r r' p p' hp hp' hpholds hpholds'
    · rw [hfree r p hp] at hpholds
      cases hpholds
  · rcases h.holdsCard hq' hholds' with ⟨p', hp', hpholds'⟩ | ⟨hr', -⟩
    · rw [hfree r' p' hp'] at hpholds'
      cases hpholds'
    · exact Option.some.inj (hr.symm.trans hr')

/-! ## Refusals -/

/-- A card that refused the offered PIN is known to have refused it, or the request that has
found out is about to say so. -/
def Refused (s : System) (g : Guid) : Prop :=
  g ∈ s.pins.offeredRejectedBy ∨ ∃ r q, s.requests r = some q ∧ q.phase = .refused ∧ q.guid = g

/-- What an offer has come to since it was made. -/
structure OfferUsed (log : List Event) (s : System) : Prop where
  exclusive : Exclusive s
  used : ∀ g, ((log.takeWhile fun e => !e.endsOffer).filter (·.wrongOffer g)).length ≤ 1 ∧
    ((log.takeWhile fun e => !e.endsOffer).filter (·.wrongOffer g) ≠ [] → Refused s g)

section

variable {log : List Event} {s s' : System} {e : Event}

/-- Only what ends an offer makes a refusal of it unknown. -/
theorem Step.refused (h : Step s e s') (hends : e.endsOffer = false) {g : Guid}
    (hg : Refused s g) : Refused s' g := by
  have hrejected : s.pins.offeredRejectedBy ⊆ s'.pins.offeredRejectedBy := by
    cases h with
    | lock => cases hends
    | unlock _ => cases hends
    | remove _ _ => cases hends
    | forget _ _ => exact List.subset_cons_self ..
    | @cache _ _ acq _ _ =>
      dsimp only
      split
      · exact List.Subset.refl _
      · exact List.Subset.refl _
    | _ => exact List.Subset.refl _
  rcases hg with hg | ⟨r, q, hq, hphase, hguid⟩
  · exact .inl (hrejected hg)
  by_cases hr : e.request = some r
  · -- The next step of the request is to record what it has found out.
    have hsame : ∀ {q'}, s.requests r = some q' → q' = q := fun hq' =>
      Option.some.inj (hq'.symm.trans hq)
    cases h with
    | start _ _ hnew =>
      obtain rfl := Option.some.inj hr
      rw [hnew] at hq
      cases hq
    | @forget r' q' hq' _ =>
      obtain rfl := Option.some.inj hr
      obtain rfl := hsame hq'
      exact .inl (by simp [PinCache.forgetFor, hguid])
    | acquire hq' hphase' _ =>
      obtain rfl := Option.some.inj hr
      obtain rfl := hsame hq'
      rw [hphase] at hphase'
      rcases hphase' with hno | ⟨hno, -⟩ <;> cases hno
    | finish hq' hphase' =>
      obtain rfl := Option.some.inj hr
      obtain rfl := hsame hq'
      rw [hphase] at hphase'
      rcases hphase' with hno | hno <;> cases hno
    | miss hq' hphase' _ | prompt hq' hphase' _ _ | answer hq' hphase' _ | cancel hq' hphase'
    | enter hq' hphase' _ | fail hq' hphase' | guard hq' hphase' _ _ _ | verify hq' hphase' _ _ _
    | cache hq' hphase' =>
      obtain rfl := Option.some.inj hr
      obtain rfl := hsame hq'
      rw [hphase] at hphase'
      cases hphase'
    | lock => cases hr
    | unlock _ => cases hr
    | remove _ _ => cases hr
  · exact .inr ⟨r, q, (h.requests_other hr).trans hq, hphase, hguid⟩

/-- A wrong offered PIN goes to a card that has not refused it, and is refused there. -/
private theorem Step.wrongOffer (h : Step s e s') (hex : Exclusive s) (hc : StillOffered log s e)
    {g : Guid} (he : e.wrongOffer g = true) : ¬ Refused s g ∧ Refused s' g := by
  cases h with
  | @verify r q acq answer card hq hphase _ _ _ =>
    simp only [Event.wrongOffer, Bool.and_eq_true, decide_eq_true_eq] at he
    obtain ⟨⟨rfl, hoffered⟩, hwrong⟩ := he
    obtain ⟨hoffers, hattempt, n, hanswer⟩ := hc hoffered hwrong
    refine ⟨?_, .inr ⟨r, _, System.put_self .., ?_, ?_⟩⟩
    · rintro (hrejected | ⟨r', q', hq', hphase', -⟩)
      · exact hoffers.2.2 hrejected
      · -- Another request would hold the card as well.
        obtain rfl := hex r r' q q' hq hq' (by rw [hphase]; rfl) (by rw [hphase']; rfl)
        obtain rfl := Option.some.inj (hq.symm.trans hq')
        rw [hphase] at hphase'
        cases hphase'
    · rw [hanswer, Request.afterVerify, if_pos (hattempt q hq)]
    · rw [hanswer, Request.afterVerify, if_pos (hattempt q hq)]
  | _ => cases he

private theorem OfferUsed.step (hu : OfferUsed log s) (h : Step s e s')
    (hc : StillOffered log s e) : OfferUsed (e :: log) s' := by
  refine ⟨hu.exclusive.step h, ?_⟩
  intro g
  obtain ⟨hle, hrefused⟩ := hu.used g
  cases hends : e.endsOffer with
  | true => simp [hends]
  | false =>
    rw [List.takeWhile_cons_of_pos (by simp [hends])]
    cases he : e.wrongOffer g with
    | true =>
      obtain ⟨hnot, hnow⟩ := h.wrongOffer hu.exclusive hc he
      have hnil := not_not.mp (mt hrefused hnot)
      rw [List.filter_cons_of_pos he, hnil]
      exact ⟨Nat.le_refl 1, fun _ => hnow⟩
    | false =>
      rw [List.filter_cons_of_neg (by simp [he])]
      exact ⟨hle, fun hne => h.refused hends (hrefused hne)⟩

end

private theorem offerUsed {log : List Event} {s : System} (h : Runs StillOffered log s) :
    OfferUsed log s := by
  refine h.invariant (motive := OfferUsed) ?_ ?_
  · intro s hfresh
    refine ⟨?_, fun g => ⟨Nat.zero_le _, fun hne => absurd rfl hne⟩⟩
    intro r r' q q' hq
    rw [hfresh.requests r] at hq
    cases hq
  · exact fun _ _ _ _ _ hu hstep hc => hu.step hstep hc

/-- In every run whose steps meet the condition, an offered PIN is tried once on each card that
rejects it. -/
theorem triedOnce_of_stillOffered {log : List Event} {s : System} (h : Runs StillOffered log s) :
    TriedOnce log := by
  rintro newer pin older rfl hnewer g
  have hused := ((offerUsed h).used g).1
  have hall : ∀ e ∈ newer, (!e.endsOffer) = true := by simpa using hnewer
  rw [List.takeWhile_append_of_pos hall] at hused
  simpa [Event.endsOffer] using hused

/-! ## Two requests with one offer -/

/-- What happens after the offer when two requests take it. -/
def sampleTwice : List Event :=
  [.sent 1 sampleGuid sampleOffer (.error (.pinIncorrect 1)) ⟨"1234", 2, 3⟩ ⟨"1234", 1, 3⟩,
    .entered 1, .recorded 0,
    .sent 0 sampleGuid sampleOffer (.error (.pinIncorrect 2)) ⟨"1234", 3, 3⟩ ⟨"1234", 2, 3⟩,
    .acquired 1 sampleOffer, .started 1 sampleGuid 0x9D, .entered 0, .acquired 0 sampleOffer,
    .started 0 sampleGuid 0x9D]

/-- A second request takes the offered PIN while the first is on the card with it, and sends it
again. -/
theorem not_triedOnce_twoRequests : ¬ ∀ log s, Runs anyStep log s → TriedOnce log := by
  intro h
  have h₁ := run_sampleRequest anyStep ⟨"1234", 3, 3⟩ (Nat.le_refl 3)
    fun _ _ _ _ => trivial
  have h₂ := h₁.step (.start (r := 1) sampleGuid 0x9D rfl) trivial
  have h₃ := h₂.step (.acquire (System.put_self ..) (.inl rfl) rfl) trivial
  have h₄ := h₃.step (.verify (r := 0) rfl rfl (by decide)
    (fun _ => ⟨.ok ⟨0x63, 0xC3⟩, ⟨by decide, fun _ => ⟨by decide, by decide⟩⟩, by decide⟩)
    (verifies_sample 2 3 (by decide))) trivial
  have hanswer : verifyAnswer (.ok ⟨0x63, 0xC0 + UInt8.ofNat 2⟩) = .error (.pinIncorrect 2) ∧
      verifyAnswer (.ok ⟨0x63, 0xC0 + UInt8.ofNat 1⟩) = .error (.pinIncorrect 1) := by
    decide
  rw [hanswer.1] at h₄
  have h₅ := h₄.step (.forget (r := 0) rfl rfl) trivial
  have h₆ := h₅.step (.enter (r := 1) rfl rfl (by
    intro r q hq
    rcases r with _ | _ | r
    · cases hq
      rfl
    · cases hq
      rfl
    · cases hq)) trivial
  have h₇ := h₆.step (.verify (System.put_self ..) rfl (by decide)
    (fun _ => ⟨.ok ⟨0x63, 0xC2⟩, ⟨by decide, fun _ => ⟨by decide, by decide⟩⟩, by decide⟩)
    (verifies_sample 1 3 (by decide))) trivial
  rw [hanswer.2] at h₇
  exact absurd (h _ _ h₇ sampleTwice "0000" [] rfl (by decide) sampleGuid) (by decide)

/-- One request alone tries the offered PIN once. -/
theorem triedOnce_of_stillOffered_sample :
    ∃ log s, Runs StillOffered log s ∧ log.countP (·.wrongOffer sampleGuid) = 1 ∧ TriedOnce log := by
  have hrun := run_sampleRequest StillOffered ⟨"1234", 3, 3⟩ (Nat.le_refl 3) fun _ _ e he => by
    cases e with
    | sent r _ _ _ _ _ => simpa [Event.isSent] using he r
    | _ => trivial
  have hsent := hrun.step (.verify (System.put_self ..) rfl (by decide)
    (fun _ => ⟨.ok ⟨0x63, 0xC3⟩, ⟨by decide, fun _ => ⟨by decide, by decide⟩⟩, by decide⟩)
    (verifies_sample 2 3 (by decide))) (by
      intro _ _
      refine ⟨⟨rfl, (fun h => by cases h), (fun h => by cases h)⟩, ?_, 2, by decide⟩
      intro q hq
      cases hq
      decide)
  exact ⟨_, _, hsent, by decide, triedOnce_of_stillOffered hsent⟩

end Piggy.Agent
