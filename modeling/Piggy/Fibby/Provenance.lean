import Piggy.Fibby.FactoryReset
import Piggy.Fibby.Seeding

/-!
# Where the key of a slot is from

A card attests a key that it generated itself. It keeps the key, the policy and the origin of a
slot in three places, and they have to tell of the same command: the last one that changed the
slot.
-/

namespace Piggy.Fibby

open Piggy.Core Piggy.Box

/-! ## The policy bytes of a request -/

/-- The tagged values that bytes consist of. -/
inductive Tlvs : Bytes → List (UInt8 × Bytes) → Prop where
  | nil : Tlvs [] []
  | cons {bytes value rest : Bytes} {tag : UInt8} {tlvs : List (UInt8 × Bytes)}
      (h : splitTlv bytes = some (tag, value, rest)) (hrest : Tlvs rest tlvs) :
      Tlvs bytes ((tag, value) :: tlvs)

/-- The byte of the last value with a tag. -/
def policyByte (tag : UInt8) : List (UInt8 × Bytes) → Option UInt8
  | [] => none
  | (t, value) :: tlvs => (policyByte tag tlvs).or (if t = tag then value.head? else none)

/-- What a GENERATE ASYMMETRIC asks for: the bytes of `AA` and `AB` in its template, or zero. -/
def RequestedPolicy (apdu : Bytes) (policy : Policy) : Prop :=
  ∃ body inner tlvs, apduBody apdu = some body ∧ template 0xAC body = some inner ∧
    Tlvs inner tlvs ∧
    policy = ⟨(policyByte 0xAA tlvs).getD 0x00, (policyByte 0xAB tlvs).getD 0x00⟩

theorem Tlvs.unique {bytes : Bytes} {tlvs tlvs' : List (UInt8 × Bytes)} (h : Tlvs bytes tlvs)
    (h' : Tlvs bytes tlvs') : tlvs = tlvs' := by
  induction h generalizing tlvs' with
  | nil =>
    cases h' with
    | nil => rfl
    | cons hsplit => cases hsplit
  | cons hsplit hrest ih =>
    cases h' with
    | nil => cases hsplit
    | cons hsplit' hrest' =>
      cases hsplit.symm.trans hsplit'
      rw [ih hrest']

theorem RequestedPolicy.unique {apdu : Bytes} {policy policy' : Policy}
    (h : RequestedPolicy apdu policy) (h' : RequestedPolicy apdu policy') : policy = policy' := by
  obtain ⟨body, inner, tlvs, hbody, hinner, htlvs, rfl⟩ := h
  obtain ⟨body', inner', tlvs', hbody', hinner', htlvs', rfl⟩ := h'
  obtain rfl := Option.some.inj (hbody.symm.trans hbody')
  obtain rfl := Option.some.inj (hinner.symm.trans hinner')
  rw [htlvs.unique htlvs']

namespace RequestFields

theorem generateTlv_policies {f f' : RequestFields} {tag : UInt8} {value : Bytes}
    (h : f.generateTlv tag value = some f') :
    f'.pinPolicy = (if tag = 0xAA then value.head? else none).or f.pinPolicy ∧
      f'.touchPolicy = (if tag = 0xAB then value.head? else none).or f.touchPolicy := by
  unfold generateTlv at h
  split at h
  · next htag =>
    subst htag
    obtain ⟨alg, -, rfl⟩ := Option.map_eq_some_iff.mp h
    exact ⟨rfl, rfl⟩
  split at h
  · next htag =>
    subst htag
    split at h
    · cases h
      exact ⟨rfl, rfl⟩
    · cases h
  next hpin =>
  split at h
  · next htag =>
    subst htag
    split at h
    · cases h
      exact ⟨rfl, rfl⟩
    · cases h
  · next htouch =>
    cases h
    rw [if_neg hpin, if_neg htouch]
    exact ⟨rfl, rfl⟩

theorem generateTlvs_policies {fuel : Nat} {cur : Bytes} {f f' : RequestFields}
    (h : generateTlvs fuel cur f = some f') :
    ∃ tlvs, Tlvs cur tlvs ∧ f'.pinPolicy = (policyByte 0xAA tlvs).or f.pinPolicy ∧
      f'.touchPolicy = (policyByte 0xAB tlvs).or f.touchPolicy := by
  induction fuel generalizing cur f with
  | zero =>
    cases cur with
    | nil =>
      cases h
      exact ⟨[], .nil, rfl, rfl⟩
    | cons b cur => cases h
  | succ fuel ih =>
    cases cur with
    | nil =>
      cases h
      exact ⟨[], .nil, rfl, rfl⟩
    | cons b cur =>
      rw [generateTlvs] at h
      split at h
      · cases h
      · next tag value rest hsplit =>
        obtain ⟨g, hg, hrest⟩ := Option.bind_eq_some_iff.mp h
        obtain ⟨hpin, htouch⟩ := generateTlv_policies hg
        obtain ⟨tlvs, htlvs, hpins, htouches⟩ := ih hrest
        refine ⟨(tag, value) :: tlvs, .cons hsplit htlvs, ?_, ?_⟩
        · rw [hpins, hpin, policyByte, Option.or_assoc]
        · rw [htouches, htouch, policyByte, Option.or_assoc]

end RequestFields

theorem eq_of_validatedPolicy {pin touch : Option UInt8} {policy : Policy}
    (h : validatedPolicy pin touch = some policy) : policy = ⟨pin.getD 0x00, touch.getD 0x00⟩ := by
  rw [validatedPolicy] at h
  split at h
  · exact (Option.some.inj h).symm
  · cases h

theorem requestedPolicy {apdu : Bytes} {request : GenerateRequest} {policy : Policy}
    (hrequest : (apduBody apdu).bind parseGenerateRequest = some request)
    (hpolicy : validatedPolicy request.pinPolicy request.touchPolicy = some policy) :
    RequestedPolicy apdu policy := by
  obtain ⟨body, hbody, hparse⟩ := Option.bind_eq_some_iff.mp hrequest
  rw [parseGenerateRequest] at hparse
  split at hparse
  · cases hparse
  · next inner hinner =>
    split at hparse
    · next alg pin touch hfields =>
      cases hparse
      obtain ⟨tlvs, htlvs, hpin, htouch⟩ := RequestFields.generateTlvs_policies hfields
      refine ⟨body, inner, tlvs, hbody, hinner, htlvs, ?_⟩
      rw [eq_of_validatedPolicy hpolicy]
      dsimp only at hpin htouch ⊢
      rw [hpin, htouch, Option.or_none, Option.or_none]
    · cases hparse

namespace VirtualCard

variable {crypto : CardCrypto} {around : Surroundings} {c : VirtualCard} {ins p1 p2 : UInt8}
  {apdu : Bytes}

/-! ## What a command does to a slot -/

/-- A command for a slot that is answered with success. -/
inductive Changes (ins p1 p2 slot : UInt8) (response : Bytes) : Prop where
  | generated (hins : ins = 0x47) (hp1 : p1 = 0x00) (hslot : p2 = slot) (point : Bytes)
      (hresponse : response = publicKeyTemplate point) : Changes ins p1 p2 slot response
  | imported (hins : ins = 0xFE) (hslot : p2 = slot) (hresponse : response = sw 0x90 0x00) :
      Changes ins p1 p2 slot response
  | wiped (hins : ins = 0xFB) (hp1 : p1 = 0x00) (hp2 : p2 = 0x00)
      (hresponse : response = sw 0x90 0x00) : Changes ins p1 p2 slot response

theorem not_changes_of_ins {slot : UInt8} {response : Bytes} (hgenerate : ins ≠ 0x47)
    (himport : ins ≠ 0xFE) (hreset : ins ≠ 0xFB) : ¬ Changes ins p1 p2 slot response := by
  intro h
  cases h with
  | generated hins => exact hgenerate hins
  | imported hins => exact himport hins
  | wiped hins => exact hreset hins

theorem length_publicKeyTemplate (point : Bytes) : 2 < (publicKeyTemplate point).length := by
  simp only [publicKeyTemplate, List.length_append, List.length_cons, sw]
  omega

/-- A refusal is no success. -/
theorem not_changes_refused {slot sw1 sw2 : UInt8} (h : ins = 0x20 ∨ sw1 ≠ 0x90) :
    ¬ Changes ins p1 p2 slot (sw sw1 sw2) := by
  intro hchanges
  rcases h with rfl | hsw
  · exact not_changes_of_ins (by decide) (by decide) (by decide) hchanges
  · cases hchanges with
    | generated hins hp1 hslot point hresponse =>
      have hlength := length_publicKeyTemplate point
      rw [← hresponse] at hlength
      exact absurd hlength (by simp [sw])
    | imported hins hslot hresponse => exact hsw (List.cons.inj hresponse).1
    | wiped hins hp1 hp2 hresponse => exact hsw (List.cons.inj hresponse).1

/-- What becomes of a slot: nothing, without success of a command for it; or the key, the policy
and the origin of a GENERATE ASYMMETRIC; or it has none that this card generated. -/
inductive SlotChange (crypto : CardCrypto) (c : VirtualCard) (ins p1 p2 : UInt8) (apdu : Bytes)
    (slot : UInt8) (r : Bytes × VirtualCard) : Prop where
  | kept (hno : ¬ Changes ins p1 p2 slot r.1) (h : r.2.slotState slot = c.slotState slot) :
      SlotChange crypto c ins p1 p2 apdu slot r
  | generated (scalar : Bytes) (policy : Policy) (hins : ins = 0x47) (hp1 : p1 = 0x00)
      (hslot : p2 = slot) (hresponse : r.1 = publicKeyTemplate (crypto.verifyingKey scalar))
      (hkey : crypto.signingKey scalar = true) (hpolicy : RequestedPolicy apdu policy)
      (h : r.2.slotState slot = ⟨some scalar, some policy, some .generated⟩) :
      SlotChange crypto c ins p1 p2 apdu slot r
  | lost (hchanges : Changes ins p1 p2 slot r.1) (hins : ins ≠ 0x47)
      (h : r.2.slotOrigins slot ≠ some .generated) : SlotChange crypto c ins p1 p2 apdu slot r

theorem slotState_consumePin (c : VirtualCard) (pin slot : UInt8) :
    (c.consumePin pin).slotState slot = c.slotState slot := by
  rw [consumePin]
  split
  · rfl
  · rfl

theorem CommandResult.slotChange {r : Bytes × VirtualCard}
    (h : CommandResult crypto around c ins p1 p2 apdu r) (slot : UInt8) :
    SlotChange crypto c ins p1 p2 apdu slot r := by
  have hother (hins : ins ∉ ([0x47, 0xFE, 0xFB] : List UInt8)) :
      ¬ Changes ins p1 p2 slot r.1 := by
    simp only [List.mem_cons, List.not_mem_nil, or_false, not_or] at hins
    exact not_changes_of_ins hins.1 hins.2.1 hins.2.2
  cases h with
  | refused sw1 sw2 hsw => exact .kept (not_changes_refused hsw) rfl
  | answered response hins =>
    refine .kept (hother fun hmem => ?_) rfl
    simp only [List.mem_cons, List.not_mem_nil, or_false] at hins hmem
    rcases hins with rfl | rfl | rfl | rfl | rfl <;> simp at hmem
  | read hins => exact .kept (hother (by rw [hins.1]; decide)) rfl
  | selected response piv otp hins => exact .kept (hother (by rw [hins]; decide)) rfl
  | objectPut tag value hins => exact .kept (hother (by rw [hins.1]; decide)) rfl
  | verified hins => exact .kept (hother (by rw [hins]; decide)) rfl
  | tried sw1 sw2 s hacts =>
    obtain ⟨body, -, ⟨rfl, -⟩ | ⟨rfl, -⟩ | ⟨rfl, -⟩⟩ := hacts
    · exact .kept (hother (by decide)) rfl
    · exact .kept (hother (by decide)) rfl
    · exact .kept (hother (by decide)) rfl
  | reset hins =>
    obtain ⟨rfl, rfl, rfl⟩ := hins
    exact .lost (.wiped rfl rfl rfl rfl) (by decide) nofun
  | challenged response witness hins => exact .kept (hother (by rw [hins.1]; decide)) rfl
  | authenticated hins => exact .kept (hother (by rw [hins.1]; decide)) rfl
  | notAuthenticated hins => exact .kept (hother (by rw [hins.1]; decide)) rfl
  | mgmtKeySet key hins => exact .kept (hother (by rw [hins.1]; decide)) rfl
  | generated scalar policy hins hgenerates =>
    obtain ⟨request, hrequest, -, hpolicy⟩ := hgenerates.request
    have hkeySlot : KeySlot p2 := by
      rcases hgenerates.slot with hslot | hslot | hslot
      · exact .inl hslot
      · exact .inr (.inl hslot)
      · exact .inr (.inr (.inl hslot))
    have hstate := slotState_installSlotKey (c := c) hkeySlot scalar policy .generated slot
    by_cases hslot : slot = p2
    · rw [if_pos hslot] at hstate
      exact .generated scalar policy hins.1 hins.2 hslot.symm rfl hgenerates.key
        (requestedPolicy hrequest hpolicy) hstate
    · rw [if_neg hslot] at hstate
      refine .kept (fun hchanges => ?_) hstate
      cases hchanges with
      | generated _ _ hp2 => exact hslot hp2.symm
      | imported hins' => exact absurd (hins.1.symm.trans hins') (by decide)
      | wiped hins' => exact absurd (hins.1.symm.trans hins') (by decide)
  | imported scalar policy hins himports =>
    have hstate := slotState_installSlotKey (c := c) himports.slot scalar policy .imported slot
    by_cases hslot : slot = p2
    · rw [if_pos hslot] at hstate
      refine .lost (.imported hins hslot.symm rfl) (by rw [hins]; decide) ?_
      have horigin := congrArg SlotState.origin hstate
      exact fun hgenerated => absurd (hgenerated.symm.trans horigin) nofun
    · rw [if_neg hslot] at hstate
      refine .kept (fun hchanges => ?_) hstate
      cases hchanges with
      | generated hins' => exact absurd (hins.symm.trans hins') (by decide)
      | imported _ hp2 => exact hslot hp2.symm
      | wiped hins' => exact absurd (hins.symm.trans hins') (by decide)
  | blocked generation hins => exact .kept (hother (by rw [hins.1]; decide)) rfl
  | used data touch hins =>
    exact .kept (hother (by rw [hins.1]; decide)) (slotState_consumePin _ _ _)

/-- What a command makes of a slot. -/
theorem dispatch_slotChange (crypto : CardCrypto) (around : Surroundings) (c : VirtualCard)
    (apdu : Bytes) (slot : UInt8) :
    (c.received apdu = none ∧ (c.dispatch crypto around apdu).2.slotState slot = c.slotState slot) ∨
      ∃ ins p1 p2, c.received apdu = some (ins, p1, p2) ∧
        SlotChange crypto c ins p1 p2 apdu slot (c.dispatch crypto around apdu) := by
  have hfinish (r : Bytes × VirtualCard) :
      (finish apdu r).2.slotState slot = r.2.slotState slot := by
    rw [finish]
    split
    · rfl
    · rfl
  have hresult := dispatch_result crypto around c apdu
  generalize c.dispatch crypto around apdu = r at hresult ⊢
  cases hresult with
  | notSelected hin hreceived => exact .inl ⟨hreceived, rfl⟩
  | unheard hin hreceived => exact .inl ⟨hreceived, hfinish _⟩
  | @ran hin ins p1 p2 hreceived hins r hr =>
    refine .inr ⟨ins, p1, p2, hreceived, ?_⟩
    cases hr.slotChange slot with
    | kept hno h => exact .kept (by rwa [finish_fst]) ((hfinish r).trans h)
    | generated scalar policy hins hp1 hslot hresponse hkey hpolicy h =>
      exact .generated scalar policy hins hp1 hslot ((finish_fst _ _).trans hresponse) hkey hpolicy
        ((hfinish r).trans h)
    | lost hchanges hins h =>
      refine .lost (by rwa [finish_fst]) hins ?_
      have horigin := congrArg SlotState.origin (hfinish r)
      exact fun hgenerated => h (horigin.symm.trans hgenerated)

/-- A command that is not answered with success changes no slot. -/
theorem slotState_of_failed (hfailed : ¬ ∃ data,
      (c.dispatch crypto around apdu).1 = data ++ sw 0x90 0x00) (slot : UInt8) :
    (c.dispatch crypto around apdu).2.slotState slot = c.slotState slot := by
  rcases dispatch_slotChange crypto around c apdu slot with ⟨-, h⟩ | ⟨ins, p1, p2, -, hchange⟩
  · exact h
  · cases hchange with
    | kept hno h => exact h
    | generated scalar policy hins hp1 hslot hresponse =>
      exact absurd ⟨_, hresponse⟩ hfailed
    | lost hchanges =>
      cases hchanges with
      | generated _ _ _ point hresponse => exact absurd ⟨_, hresponse⟩ hfailed
      | imported _ _ hresponse => exact absurd ⟨[], hresponse⟩ hfailed
      | wiped _ _ _ hresponse => exact absurd ⟨[], hresponse⟩ hfailed

theorem slotState_endTransaction (c : VirtualCard) (disposition : UInt32) (slot : UInt8) :
    (c.endTransaction disposition).slotState slot = c.slotState slot := by
  rw [endTransaction]
  split
  · rfl
  · rfl

theorem slotState_setPresent (c : VirtualCard) (present : Bool) (slot : UInt8) :
    (c.setPresent present).slotState slot = c.slotState slot := by
  simp only [setPresent]
  split
  · rfl
  · rfl

theorem slotState_injectFault (c : VirtualCard) (fault : Fault) (slot : UInt8) :
    (c.injectFault fault).slotState slot = c.slotState slot := by
  rw [injectFault]
  split
  · rfl
  · rfl

end VirtualCard

/-! ## Runs -/

namespace LifeEntry

variable {crypto : CardCrypto}

/-- A command that reaches the applet, with its response. -/
def Answered (crypto : CardCrypto) (e : LifeEntry) (ins p1 p2 : UInt8) (apdu response : Bytes) :
    Prop :=
  ∃ around, e.event = .card (.transmit apdu around) ∧ e.card.received apdu = some (ins, p1, p2) ∧
    (e.card.dispatch crypto around apdu).1 = response

/-- A GENERATE ASYMMETRIC that succeeds, the key that it leaves in its slot, and the policy that
it asks for. -/
def Generated (crypto : CardCrypto) (e : LifeEntry) (slot : UInt8) (scalar : Bytes)
    (policy : Policy) : Prop :=
  ∃ apdu, e.Answered crypto 0x47 0x00 slot apdu
      (VirtualCard.publicKeyTemplate (crypto.verifyingKey scalar)) ∧
    (e.card.live crypto e.event).slotPriv slot = some scalar ∧ RequestedPolicy apdu policy

/-- What puts another key into a slot, or none. -/
inductive Replaces (crypto : CardCrypto) (e : LifeEntry) (slot : UInt8) : Prop where
  | generated (scalar : Bytes) (policy : Policy) (h : e.Generated crypto slot scalar policy) :
      Replaces crypto e slot
  | imported (apdu : Bytes) (alg : UInt8) (h : e.Answered crypto 0xFE alg slot apdu (sw 0x90 0x00)) :
      Replaces crypto e slot
  | seeded (call : SeedCall) (he : e.event = .seed call) (h : call.slot? = some slot) :
      Replaces crypto e slot
  | wiped (apdu : Bytes) (h : e.Answered crypto 0xFB 0x00 0x00 apdu (sw 0x90 0x00)) :
      Replaces crypto e slot

/-- What an event does to a slot. -/
inductive SlotStep (crypto : CardCrypto) (e : LifeEntry) (slot : UInt8) : Prop where
  | kept (hno : ¬ e.Replaces crypto slot)
      (h : (e.card.live crypto e.event).slotState slot = e.card.slotState slot) :
      SlotStep crypto e slot
  | generated (scalar : Bytes) (policy : Policy) (hgenerated : e.Generated crypto slot scalar policy)
      (hkey : crypto.signingKey scalar = true)
      (h : (e.card.live crypto e.event).slotState slot =
        ⟨some scalar, some policy, some .generated⟩) : SlotStep crypto e slot
  | lost (hreplaces : e.Replaces crypto slot)
      (hno : ∀ scalar policy, ¬ e.Generated crypto slot scalar policy)
      (h : (e.card.live crypto e.event).slotOrigins slot ≠ some .generated) :
      SlotStep crypto e slot

theorem changes_of_replaces {e : LifeEntry} {slot ins p1 p2 : UInt8} {apdu : Bytes}
    {around : VirtualCard.Surroundings} (he : e.event = .card (.transmit apdu around))
    (hreceived : e.card.received apdu = some (ins, p1, p2)) (h : e.Replaces crypto slot) :
    VirtualCard.Changes ins p1 p2 slot (e.card.dispatch crypto around apdu).1 := by
  cases h with
  | generated scalar policy h =>
    obtain ⟨apdu', ⟨around', he', hreceived', hresponse⟩, -⟩ := h
    cases he.symm.trans he'
    cases hreceived.symm.trans hreceived'
    exact .generated rfl rfl rfl _ hresponse
  | imported apdu' alg h =>
    obtain ⟨around', he', hreceived', hresponse⟩ := h
    cases he.symm.trans he'
    cases hreceived.symm.trans hreceived'
    exact .imported rfl rfl hresponse
  | seeded call he' => cases he.symm.trans he'
  | wiped apdu' h =>
    obtain ⟨around', he', hreceived', hresponse⟩ := h
    cases he.symm.trans he'
    cases hreceived.symm.trans hreceived'
    exact .wiped rfl rfl rfl hresponse

/-- An event that is neither a command that reaches the applet nor a seed replaces no key. -/
theorem not_replaces {e : LifeEntry} {slot : UInt8}
    (hcommand : ∀ apdu around, e.event = .card (.transmit apdu around) →
      e.card.received apdu = none)
    (hseed : ∀ call, e.event = .seed call → call.slot? ≠ some slot) : ¬ e.Replaces crypto slot := by
  have hanswered {ins p1 p2 : UInt8} {apdu response : Bytes} :
      ¬ e.Answered crypto ins p1 p2 apdu response := by
    rintro ⟨around, he, hreceived, -⟩
    exact absurd (hreceived.symm.trans (hcommand apdu around he)) nofun
  intro h
  cases h with
  | generated scalar policy h => exact hanswered h.choose_spec.1
  | imported apdu alg h => exact hanswered h
  | seeded call he h => exact hseed call he h
  | wiped apdu h => exact hanswered h

theorem not_generated {e : LifeEntry} {slot : UInt8} {scalar : Bytes} {policy : Policy}
    (hcommand : ∀ apdu around, e.event = .card (.transmit apdu around) →
      ∀ p1 p2, e.card.received apdu ≠ some (0x47, p1, p2)) :
    ¬ e.Generated crypto slot scalar policy := by
  rintro ⟨apdu, ⟨around, he, hreceived, -⟩, -⟩
  exact hcommand apdu around he _ _ hreceived

theorem slotStep_seed (c : VirtualCard) (call : SeedCall) (slot : UInt8) :
    SlotStep crypto ⟨c, .seed call⟩ slot := by
  rcases VirtualCard.seeded_apply call c slot with ⟨hother, h⟩ | ⟨hslot, h⟩
  · refine .kept (not_replaces (fun apdu around he => nomatch he) fun call' he => ?_) h
    cases he
    exact hother
  · refine .lost (.seeded call rfl hslot) (fun scalar policy => not_generated ?_) ?_
    · exact fun apdu around he => nomatch he
    · exact fun hgenerated => absurd (h.symm.trans hgenerated) nofun

theorem slotStep_transmit (c : VirtualCard) (apdu : Bytes) (around : VirtualCard.Surroundings)
    (slot : UInt8) : SlotStep crypto ⟨c, .card (.transmit apdu around)⟩ slot := by
  rcases VirtualCard.dispatch_slotChange crypto around c apdu slot with
    ⟨hreceived, h⟩ | ⟨ins, p1, p2, hreceived, hchange⟩
  · refine .kept (not_replaces (fun apdu' around' he => ?_) fun call he => nomatch he) h
    cases he
    exact hreceived
  · cases hchange with
    | kept hno h => exact .kept (fun hreplaces => hno (changes_of_replaces rfl hreceived hreplaces)) h
    | generated scalar policy hins hp1 hslot hresponse hkey hpolicy h =>
      subst hins hp1 hslot
      refine .generated scalar policy ⟨apdu, ⟨around, rfl, hreceived, hresponse⟩, ?_, hpolicy⟩ hkey h
      exact congrArg SlotState.priv h
    | lost hchanges hins h =>
      have hreplaces : Replaces crypto ⟨c, .card (.transmit apdu around)⟩ slot := by
        cases hchanges with
        | generated hins' => exact absurd hins' hins
        | imported hins' hslot hresponse =>
          subst hins' hslot
          exact .imported apdu p1 ⟨around, rfl, hreceived, hresponse⟩
        | wiped hins' hp1 hp2 hresponse =>
          subst hins' hp1 hp2
          exact .wiped apdu ⟨around, rfl, hreceived, hresponse⟩
      refine .lost hreplaces (fun scalar policy => not_generated fun apdu' around' he p1' p2' => ?_) h
      cases he
      intro hgenerate
      cases hreceived.symm.trans hgenerate
      exact hins rfl

theorem slotStep (crypto : CardCrypto) (e : LifeEntry) (slot : UInt8) : SlotStep crypto e slot := by
  obtain ⟨c, event⟩ := e
  cases event with
  | seed call => exact slotStep_seed c call slot
  | card event =>
    have hquiet (hevent : ∀ apdu around, event ≠ .transmit apdu around) :
        ¬ Replaces crypto ⟨c, .card event⟩ slot := by
      refine not_replaces (fun apdu around he => ?_) fun call he => nomatch he
      cases he
      exact absurd rfl (hevent apdu around)
    cases event with
    | transmit apdu around => exact slotStep_transmit c apdu around slot
    | endTransaction disposition =>
      exact .kept (hquiet nofun) (VirtualCard.slotState_endTransaction c disposition slot)
    | setPresent present =>
      exact .kept (hquiet nofun) (VirtualCard.slotState_setPresent c present slot)
    | injectFault fault =>
      exact .kept (hquiet nofun) (VirtualCard.slotState_injectFault c fault slot)
    | connect | disconnect disposition | clearFaults | grantTouch => exact .kept (hquiet nofun) rfl

/-- One GENERATE ASYMMETRIC leaves one key with one policy. -/
theorem Generated.unique {e : LifeEntry} {slot : UInt8} {scalar scalar' : Bytes}
    {policy policy' : Policy} (h : e.Generated crypto slot scalar policy)
    (h' : e.Generated crypto slot scalar' policy') : scalar = scalar' ∧ policy = policy' := by
  obtain ⟨apdu, ⟨around, he, -⟩, hpriv, hpolicy⟩ := h
  obtain ⟨apdu', ⟨around', he', -⟩, hpriv', hpolicy'⟩ := h'
  cases he.symm.trans he'
  exact ⟨Option.some.inj (hpriv.symm.trans hpriv'), hpolicy.unique hpolicy'⟩

end LifeEntry

/-- The last event that put a key into a slot, or took it out, generated it. -/
def LastGenerated (crypto : CardCrypto) (log : List LifeEntry) (slot : UInt8) (scalar : Bytes)
    (policy : Policy) : Prop :=
  ∃ newer e older, log = newer ++ e :: older ∧ e.Generated crypto slot scalar policy ∧
    ∀ x ∈ newer, ¬ x.Replaces crypto slot

section Runs

variable {crypto : CardCrypto} {log : List LifeEntry} {c : VirtualCard} {slot : UInt8}
  {scalar : Bytes} {policy : Policy}

theorem lastGenerated_cons {e : LifeEntry} :
    LastGenerated crypto (e :: log) slot scalar policy ↔
      e.Generated crypto slot scalar policy ∨
        ¬ e.Replaces crypto slot ∧ LastGenerated crypto log slot scalar policy := by
  constructor
  · rintro ⟨newer, x, older, hlog, hx, hnewer⟩
    cases newer with
    | nil =>
      obtain ⟨rfl, -⟩ := List.cons.inj hlog
      exact .inl hx
    | cons y newer =>
      obtain ⟨rfl, rfl⟩ := List.cons.inj hlog
      exact .inr ⟨hnewer _ List.mem_cons_self, newer, x, older, rfl, hx,
        fun z hz => hnewer z (List.mem_cons_of_mem _ hz)⟩
  · rintro (h | ⟨hno, newer, x, older, rfl, hx, hnewer⟩)
    · exact ⟨[], e, log, rfl, h, fun x hx => absurd hx List.not_mem_nil⟩
    · refine ⟨e :: newer, x, older, rfl, hx, fun z hz => ?_⟩
      rcases List.mem_cons.mp hz with rfl | hz
      · exact hno
      · exact hnewer z hz

/-- What the card knows of a slot is what the run says of it. -/
structure Traced (crypto : CardCrypto) (log : List LifeEntry) (c : VirtualCard) (slot : UInt8) :
    Prop where
  known : ∀ scalar policy, LastGenerated crypto log slot scalar policy →
    crypto.signingKey scalar = true ∧
      c.slotState slot = ⟨some scalar, some policy, some .generated⟩
  told : c.slotOrigins slot = some .generated →
    ∃ scalar policy, LastGenerated crypto log slot scalar policy

theorem traced_step {e : LifeEntry} (h : Traced crypto log e.card slot) :
    Traced crypto (e :: log) (e.card.live crypto e.event) slot := by
  cases LifeEntry.slotStep crypto e slot with
  | kept hno hstate =>
    have hiff {scalar : Bytes} {policy : Policy} :
        LastGenerated crypto (e :: log) slot scalar policy ↔
          LastGenerated crypto log slot scalar policy := by
      rw [lastGenerated_cons]
      exact ⟨fun h => h.elim (fun h => absurd (.generated _ _ h) hno) And.right,
        fun h => .inr ⟨hno, h⟩⟩
    constructor
    · intro scalar policy hlast
      rw [hstate]
      exact h.known scalar policy (hiff.mp hlast)
    · intro horigin
      have hbefore := (congrArg SlotState.origin hstate).symm.trans horigin
      obtain ⟨scalar, policy, hlast⟩ := h.told hbefore
      exact ⟨scalar, policy, hiff.mpr hlast⟩
  | generated scalar policy hgenerated hkey hstate =>
    constructor
    · intro scalar' policy' hlast
      rcases lastGenerated_cons.mp hlast with hgenerated' | ⟨hno, -⟩
      · obtain ⟨rfl, rfl⟩ := hgenerated.unique hgenerated'
        exact ⟨hkey, hstate⟩
      · exact absurd (.generated _ _ hgenerated) hno
    · exact fun _ => ⟨scalar, policy, lastGenerated_cons.mpr (.inl hgenerated)⟩
  | lost hreplaces hno horigin =>
    constructor
    · intro scalar policy hlast
      rcases lastGenerated_cons.mp hlast with hgenerated | ⟨hkept, -⟩
      · exact absurd hgenerated (hno scalar policy)
      · exact absurd hreplaces hkept
    · exact fun hgenerated => absurd hgenerated horigin

theorem traced_run (h : Run Built (LifeEntry.Step crypto) anyStep log c) (slot : UInt8) :
    Traced crypto log c slot := by
  induction h with
  | start hbuilt =>
    obtain ⟨model, rfl⟩ := hbuilt
    refine ⟨fun scalar policy hlast => ?_, nofun⟩
    obtain ⟨newer, e, older, hlog, -⟩ := hlast
    exact absurd hlog (by simp)
  | step hrun hstep _ ih =>
    obtain ⟨rfl, rfl⟩ := hstep
    exact traced_step ih

end Runs

/-! ## What the card tells of a key -/

namespace VirtualCard

variable {crypto : CardCrypto} {around : Surroundings} {c : VirtualCard} {slot : UInt8}
  {apdu scalar : Bytes} {policy : Policy}

theorem attest_eq (h : c.received apdu = some (0xF9, slot, 0x00)) :
    (c.dispatch crypto around apdu).1 = c.handleAttest crypto slot := by
  rw [dispatch_of_received crypto around h, finish_fst]
  simp [command, pinCommand, keyCommand]
  rfl

theorem metadata_eq (h : c.received apdu = some (0xF7, 0x00, slot)) :
    (c.dispatch crypto around apdu).1 = c.handleGetMetadata crypto slot := by
  rw [dispatch_of_received crypto around h, finish_fst]
  simp [command, pinCommand, keyCommand]
  rfl

theorem storedPolicy_of_slotState
    (h : c.slotState slot = ⟨some scalar, some policy, some .generated⟩) :
    c.storedPolicy slot = policy := by
  have hpolicy : c.slotPolicies slot = some policy := congrArg SlotState.policy h
  rw [storedPolicy, hpolicy]
  rfl

theorem handleAttest_generated
    (h : c.slotState slot = ⟨some scalar, some policy, some .generated⟩)
    (hkey : crypto.signingKey scalar = true) :
    c.handleAttest crypto slot =
      crypto.attestation.attestSlot slot (crypto.verifyingKey scalar) policy c.model.firmwareVersion ++
        sw 0x90 0x00 := by
  have horigin : c.slotOrigins slot = some .generated := congrArg SlotState.origin h
  have hpriv : c.slotPriv slot = some scalar := congrArg SlotState.priv h
  simp only [handleAttest, horigin, hpriv, storedPolicy_of_slotState h, Option.bind_some, publicPoint,
    hkey, if_true]

/-- A key that the card did not generate is not attested. -/
theorem generated_of_handleAttest {data : Bytes}
    (h : c.handleAttest crypto slot = data ++ sw 0x90 0x00) :
    c.slotOrigins slot = some .generated := by
  by_contra hother
  simp only [handleAttest, if_neg hother] at h
  cases data with
  | nil => exact absurd h (by decide)
  | cons b data =>
    have hlength := congrArg List.length h
    simp only [sw, List.length_append, List.length_cons, List.length_nil] at hlength
    omega

/-- What GET METADATA tells of a key that was generated with a policy. -/
def generatedMetadata (point : Bytes) (policy : Policy) : Bytes :=
  [0x01, 0x01, 0x11, 0x02, 0x02, policy.pin, policy.touch, 0x03, 0x01, 0x01, 0x04] ++
    pushBerLen (2 + point.length) ++ 0x86 :: pushBerLen point.length ++ point

theorem handleGetMetadata_generated
    (h : c.slotState slot = ⟨some scalar, some policy, some .generated⟩)
    (hkey : crypto.signingKey scalar = true) :
    c.handleGetMetadata crypto slot =
      generatedMetadata (crypto.verifyingKey scalar) policy ++ sw 0x90 0x00 := by
  have horigin : c.slotOrigins slot = some .generated := congrArg SlotState.origin h
  have hpriv : c.slotPriv slot = some scalar := congrArg SlotState.priv h
  simp only [handleGetMetadata, horigin, hpriv, storedPolicy_of_slotState h, Option.bind_some,
    publicPoint, hkey, if_true]
  rfl

end VirtualCard

/-- What a card tells of its keys is what the run says of them: it attests the keys that it
generated, with their policies, and what fails changes no key, no policy and no origin. -/
structure TellsTheTruth (crypto : CardCrypto) (log : List LifeEntry) (c : VirtualCard) : Prop where
  attested : ∀ apdu around slot, c.received apdu = some (0xF9, slot, 0x00) →
    ((∃ data, (c.dispatch crypto around apdu).1 = data ++ sw 0x90 0x00) ↔
      ∃ scalar policy, LastGenerated crypto log slot scalar policy)
  attestation : ∀ slot scalar policy, LastGenerated crypto log slot scalar policy →
    c.slotPriv slot = some scalar ∧
      ∀ apdu around, c.received apdu = some (0xF9, slot, 0x00) →
        (c.dispatch crypto around apdu).1 =
          crypto.attestation.attestSlot slot (crypto.verifyingKey scalar) policy c.model.firmwareVersion ++
            sw 0x90 0x00
  /-- The key and its policy are read off the certificate. -/
  certificate : ∀ slot scalar policy, LastGenerated crypto log slot scalar policy →
    ∃ cert : TbsCertificate, cert.subjectPublicKey = crypto.verifyingKey scalar ∧
      cert.policy = some policy ∧
      crypto.attestation.attestSlot slot (crypto.verifyingKey scalar) policy c.model.firmwareVersion =
        crypto.attestation.issueCertificate cert
  metadata : ∀ slot scalar policy, LastGenerated crypto log slot scalar policy →
    ∀ apdu around, c.received apdu = some (0xF7, 0x00, slot) →
      (c.dispatch crypto around apdu).1 =
        VirtualCard.generatedMetadata (crypto.verifyingKey scalar) policy ++ sw 0x90 0x00
  failed : ∀ apdu around slot,
    (¬ ∃ data, (c.dispatch crypto around apdu).1 = data ++ sw 0x90 0x00) →
      (c.dispatch crypto around apdu).2.slotState slot = c.slotState slot

theorem tellsTheTruth (crypto : CardCrypto) {log : List LifeEntry} {c : VirtualCard}
    (h : Run Built (LifeEntry.Step crypto) anyStep log c) : TellsTheTruth crypto log c := by
  constructor
  · intro apdu around slot hreceived
    rw [VirtualCard.attest_eq hreceived]
    constructor
    · rintro ⟨data, hdata⟩
      exact (traced_run h slot).told (VirtualCard.generated_of_handleAttest hdata)
    · rintro ⟨scalar, policy, hlast⟩
      obtain ⟨hkey, hstate⟩ := (traced_run h slot).known scalar policy hlast
      exact ⟨_, VirtualCard.handleAttest_generated hstate hkey⟩
  · intro slot scalar policy hlast
    obtain ⟨hkey, hstate⟩ := (traced_run h slot).known scalar policy hlast
    refine ⟨congrArg SlotState.priv hstate, fun apdu around hreceived => ?_⟩
    rw [VirtualCard.attest_eq hreceived]
    exact VirtualCard.handleAttest_generated hstate hkey
  · intro slot scalar policy _
    exact ⟨_, rfl, policy_slotCertificate slot _ policy _, rfl⟩
  · intro slot scalar policy hlast apdu around hreceived
    obtain ⟨hkey, hstate⟩ := (traced_run h slot).known scalar policy hlast
    rw [VirtualCard.metadata_eq hreceived]
    exact VirtualCard.handleGetMetadata_generated hstate hkey
  · exact fun apdu around slot hfailed => VirtualCard.slotState_of_failed hfailed slot

/-! ## A card that generates a key -/

/-- The public point of the scalar of the tests. -/
def rfc6979Point : Bytes :=
  [0x04, 0x60, 0xFE, 0xD4, 0xBA, 0x25, 0x5A, 0x9D, 0x31, 0xC9, 0x61, 0xEB, 0x74, 0xC6, 0x35, 0x6D,
    0x68, 0xC0, 0x49, 0xB8, 0x92, 0x3B, 0x61, 0xFA, 0x6C, 0xE6, 0x69, 0x62, 0x2E, 0x60, 0xF2, 0x9F,
    0xB6, 0x79, 0x03, 0xFE, 0x10, 0x08, 0xB8, 0xBC, 0x99, 0xA4, 0x1A, 0xE9, 0xE9, 0x56, 0x28, 0xBC,
    0x64, 0xF2, 0xF1, 0xB2, 0x0C, 0x2D, 0x7E, 0x9F, 0x51, 0x77, 0xA3, 0xC2, 0x94, 0xD4, 0x46, 0x22,
    0x99]

/-- The libraries, as far as this one key needs them. -/
def samplePoint : CardCrypto :=
  { sampleTdes with verifyingKey := fun scalar => if scalar = rfc6979Priv then rfc6979Point else [] }

/-- A GENERATE ASYMMETRIC for slot 9A: the PIN once, a touch that is cached. -/
def generateApdu : Bytes :=
  [0x00, 0x47, 0x00, 0x9A, 0x0B, 0xAC, 0x09, 0x80, 0x01, 0x11, 0xAA, 0x01, 0x02, 0xAB, 0x01, 0x03]

/-- A card that is prepared to generate that key, with its management key authenticated. -/
def preparedCard : VirtualCard := (VirtualCard.withModel .yk5).setGenerateOverride 0x9A rfc6979Priv

def challengedCard : VirtualCard :=
  preparedCard.after samplePoint (sent [0x00, 0x87, 0x03, 0x9B, 0x04, 0x7C, 0x02, 0x81, 0x00])

def readyCard : VirtualCard :=
  challengedCard.after samplePoint (sent (VirtualCard.responseApdu zerosEncrypted))

def generatingCard : VirtualCard := readyCard.after samplePoint (sent generateApdu)

theorem generated_generateApdu :
    LifeEntry.Generated samplePoint ⟨readyCard, .card (sent generateApdu)⟩ 0x9A rfc6979Priv
      ⟨0x02, 0x03⟩ := by
  refine ⟨generateApdu, ⟨⟨0, []⟩, rfl, rfl, rfl⟩, rfl, ?_⟩
  exact ⟨_, _, [(0x80, [0x11]), (0xAA, [0x02]), (0xAB, [0x03])], rfl, rfl,
    .cons rfl (.cons rfl (.cons rfl .nil)), rfl⟩

theorem tellsTheTruth_generatingCard :
    (generatingCard.dispatch samplePoint ⟨0, []⟩ [0x00, 0xF7, 0x00, 0x9A]).1 =
      VirtualCard.generatedMetadata rfc6979Point ⟨0x02, 0x03⟩ ++ sw 0x90 0x00 := by
  have hrun : Run Built (LifeEntry.Step samplePoint) anyStep
      [⟨readyCard, .card (sent generateApdu)⟩,
        ⟨challengedCard, .card (sent (VirtualCard.responseApdu zerosEncrypted))⟩,
        ⟨preparedCard, .card (sent [0x00, 0x87, 0x03, 0x9B, 0x04, 0x7C, 0x02, 0x81, 0x00])⟩,
        ⟨VirtualCard.withModel .yk5, .seed (.generateOverride 0x9A rfc6979Priv)⟩]
      generatingCard :=
    .step (.step (.step (.step (.start ⟨.yk5, rfl⟩) ⟨rfl, rfl⟩ trivial) ⟨rfl, rfl⟩ trivial)
      ⟨rfl, rfl⟩ trivial) ⟨rfl, rfl⟩ trivial
  refine (tellsTheTruth samplePoint hrun).metadata 0x9A rfc6979Priv ⟨0x02, 0x03⟩ ?_ _ _ rfl
  exact lastGenerated_cons.mpr (.inl generated_generateApdu)

end Piggy.Fibby
