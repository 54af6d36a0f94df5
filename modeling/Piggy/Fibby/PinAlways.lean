import Piggy.Fibby.Results

/-!
# Slots that want the PIN every time

A key with the PIN policy `always` is used right behind a VERIFY: only attempts that wait for a
touch, and VERIFYs that ask for the state, may stand between. The card keeps this with one flag,
which every command sets but a VERIFY, whatever comes of it, and an attempt that waits.
-/

namespace Piggy.Fibby

open Piggy.Core Piggy.Box

namespace VirtualCard

variable {crypto : CardCrypto} {around : Surroundings} {c : VirtualCard} {apdu : Bytes}

/-- A VERIFY that asks for the state. -/
structure StatusQuery (c : VirtualCard) (apdu : Bytes) : Prop where
  received : c.received apdu = some (0x20, 0x00, 0x80)
  body : apduBody apdu = none

/-- An attempt that waits for a touch. -/
def Blocks (crypto : CardCrypto) (c : VirtualCard) (apdu : Bytes) (around : Surroundings) : Prop :=
  (c.dispatch crypto around apdu).2.touchBlocked ≠ none

/-- Nothing came since the PIN was verified, and commands are let in. -/
structure Ready (c : VirtualCard) : Prop where
  verified : c.pinVerified = true
  nothingSince : c.commandSinceVerify = false
  selected : c.requireSelect = true → c.selectedPiv = true ∨ c.selectedOtp = true

/-- The instruction of a command that reaches the applet. -/
theorem ins_of_received {ins p1 p2 : UInt8} (h : c.received apdu = some (ins, p1, p2)) :
    apdu[1]? = some ins := by
  match apdu with
  | cla :: ins' :: p1' :: p2' :: rest =>
    rw [received] at h
    split at h
    · cases h
    · split at h
      · cases h
      · split at h
        · cases h
          rfl
        · cases h
  | [] | [_] | [_, _] | [_, _, _] => cases h

theorem not_usesKey_of_statusQuery {slot : UInt8} (h : c.StatusQuery apdu) :
    ¬ UsesKey crypto c apdu around slot := fun huse =>
  absurd (h.received.symm.trans huse.received) (by simp)

theorem not_usesKey_of_blocks {slot : UInt8} (h : Blocks crypto c apdu around) :
    ¬ UsesKey crypto c apdu around slot := by
  intro huse
  obtain ⟨-, -, touch, -, hafter⟩ := huse.dispatch_eq
  rw [Blocks, hafter] at h
  exact h (touchBlocked_consumePin _ _)

/-- A slot with the policy `always` is only used when nothing came since the VERIFY. -/
theorem UsesKey.ready {slot : UInt8} (h : UsesKey crypto c apdu around slot)
    (hpolicy : c.effectivePinPolicy slot = PinPolicy.always) : c.Ready := by
  obtain ⟨hin, hgate, -⟩ := h.dispatch_eq
  rw [pinGate, hpolicy] at hgate
  have hverified : c.pinVerified = true := by
    by_contra hv
    rw [if_pos ⟨by decide, Bool.eq_false_iff.mpr hv⟩] at hgate
    cases hgate
  have hsince : c.commandSinceVerify = false := by
    by_contra hs
    rw [if_neg (by simp [hverified]), if_pos ⟨rfl, by simpa using hs⟩] at hgate
    cases hgate
  refine ⟨hverified, hsince, fun hrequire => ?_⟩
  by_contra hselected
  rw [not_or] at hselected
  have hins := hin hrequire (Bool.eq_false_iff.mpr hselected.1)
    (Bool.eq_false_iff.mpr hselected.2) 0x87 (ins_of_received h.received)
  exact absurd hins (by decide)

/-- A VERIFY that is none of the right PIN leaves the flags as they are. -/
theorem CommandResult.ready_of_verify {p1 p2 : UInt8} {r : Bytes × VirtualCard}
    (h : CommandResult crypto around c 0x20 p1 p2 apdu r) (hr : r.2.Ready) :
    c.RightVerify apdu ∨ c.Ready := by
  cases h with
  | refused | answered => exact .inr hr
  | verified hins hright => exact .inl hright
  | tried sw1 sw2 s hacts hverified => exact .inr ⟨hverified hr.verified, hr.nothingSince, hr.selected⟩
  | read hins => exact absurd hins.1 (by decide)
  | selected response piv otp hins => exact absurd hins (by decide)
  | objectPut tag value hins => exact absurd hins.1 (by decide)
  | reset hins => exact absurd hins.1 (by decide)
  | challenged response witness hins => exact absurd hins.1 (by decide)
  | authenticated hins => exact absurd hins.1 (by decide)
  | notAuthenticated hins => exact absurd hins.1 (by decide)
  | mgmtKeySet key hins => exact absurd hins.1 (by decide)
  | generated scalar policy hins => exact absurd hins.1 (by decide)
  | imported scalar policy hins => exact absurd hins (by decide)
  | blocked generation hins => exact absurd hins.1 (by decide)
  | used data touch hins => exact absurd hins.1 (by decide)

/-- If nothing came since the VERIFY after a command, it was that VERIFY, or nothing came before
it either and it is an attempt that waits or a VERIFY. -/
theorem ready_of_dispatch (h : (c.dispatch crypto around apdu).2.Ready) :
    c.RightVerify apdu ∨
      c.Ready ∧ (Blocks crypto c apdu around ∨ c.LetIn apdu ∧ apdu[1]? = some 0x20) := by
  by_cases hblocks : Blocks crypto c apdu around
  · obtain ⟨b, hb⟩ := Option.ne_none_iff_exists'.mp hblocks
    obtain ⟨-, -, hdispatch⟩ := dispatch_blocked hb
    rw [hdispatch] at h
    exact .inr ⟨⟨h.verified, h.nothingSince, h.selected⟩, .inl hblocks⟩
  · have hunblocked : (c.dispatch crypto around apdu).2.touchBlocked = none := not_not.mp hblocks
    have hresult := dispatch_result crypto around c apdu
    generalize c.dispatch crypto around apdu = r at h hunblocked hresult
    -- a command that is let in and is no VERIFY sets the flag
    have hverify {r' : Bytes × VirtualCard} (hr : r = finish apdu r') :
        apdu[1]? = some 0x20 := by
      by_contra hne
      rw [hr, touchBlocked_finish] at hunblocked
      have hsince := h.nothingSince
      rw [hr, finish_of_ne hne hunblocked] at hsince
      cases hsince
    cases hresult with
    | notSelected hin =>
      refine absurd ?_ hin
      intro hrequire hpiv hotp
      rcases h.selected hrequire with hselected | hselected
      · exact absurd (hselected.symm.trans hpiv) nofun
      · exact absurd (hselected.symm.trans hotp) nofun
    | unheard hin hreceived sw1 sw2 faults =>
      have hins := hverify rfl
      rw [finish_of_verify hins] at h
      exact .inr ⟨⟨h.verified, h.nothingSince, h.selected⟩, .inr ⟨hin, hins⟩⟩
    | @ran hin ins p1 p2 hreceived hins r hr =>
      have hins' := hverify rfl
      obtain rfl : ins = 0x20 := Option.some.inj (hins.symm.trans hins')
      rw [finish_of_verify hins'] at h
      rcases hr.ready_of_verify h with hright | hready
      · exact .inl ⟨hright.received, hright.body, hright.length, hright.retries⟩
      · exact .inr ⟨⟨hready.verified, hready.nothingSince, hready.selected⟩, .inr ⟨hin, hins'⟩⟩

/-- What is no command does not make a card ready. -/
theorem ready_of_after {e : CardEvent} (h : (c.after crypto e).Ready)
    (he : ∀ apdu around, e ≠ .transmit apdu around) : c.Ready := by
  cases e with
  | connect =>
    refine ⟨h.verified, h.nothingSince, fun hrequire => ?_⟩
    rcases h.selected hrequire with hselected | hselected
    · cases hselected
    · cases hselected
  | disconnect disposition => exact absurd h.verified (fun h => by cases h)
  | endTransaction disposition =>
    simp only [after, endTransaction] at h
    split at h
    · exact absurd h.verified (fun h => by cases h)
    · exact h
  | setPresent present =>
    simp only [after, setPresent] at h
    split at h
    · exact absurd h.verified (fun h => by cases h)
    · exact ⟨h.verified, h.nothingSince, h.selected⟩
  | injectFault fault =>
    simp only [after, injectFault] at h
    split at h
    · exact h
    · exact ⟨h.verified, h.nothingSince, h.selected⟩
  | clearFaults => exact ⟨h.verified, h.nothingSince, h.selected⟩
  | grantTouch => exact ⟨h.verified, h.nothingSince, h.selected⟩
  | transmit apdu around => exact absurd rfl (he apdu around)

end VirtualCard

/-! ## Runs -/

namespace Entry

variable {crypto : CardCrypto}

/-- An event between a VERIFY and the use of a key: if it is a command, it waits for a touch or
asks for the state. -/
def Passing (crypto : CardCrypto) (e : Entry) : Prop :=
  ∀ apdu around, e.event = .transmit apdu around →
    e.card.StatusQuery apdu ∨ VirtualCard.Blocks crypto e.card apdu around

/-- A slot with the policy `always` is used. -/
def UsesAlways (crypto : CardCrypto) (e : Entry) : Prop :=
  ∃ slot, e.UsesKey crypto slot ∧ e.card.effectivePinPolicy slot = PinPolicy.always

/-- Right behind a VERIFY, a VERIFY that is let in asks for the state or has the right PIN. -/
def KeepsFresh (e : Entry) : Prop :=
  e.card.pinVerified = true → e.card.commandSinceVerify = false → ∀ apdu around,
    e.event = .transmit apdu around → e.card.LetIn apdu → apdu[1]? = some 0x20 →
    e.card.RightVerify apdu ∨ e.card.StatusQuery apdu

theorem not_usesAlways_of_passing {e : Entry} (h : e.Passing crypto) : ¬ e.UsesAlways crypto := by
  rintro ⟨slot, ⟨apdu, around, he, huse⟩, -⟩
  rcases h apdu around he with hquery | hblocks
  · exact VirtualCard.not_usesKey_of_statusQuery hquery huse
  · exact VirtualCard.not_usesKey_of_blocks hblocks huse

theorem not_usesAlways_of_rightVerify {e : Entry} (h : e.RightVerify) : ¬ e.UsesAlways crypto := by
  rintro ⟨slot, ⟨apdu, around, he, huse⟩, -⟩
  obtain ⟨apdu', around', he', hright⟩ := h
  cases he.symm.trans he'
  exact absurd (hright.received.symm.trans huse.received) (by simp)

end Entry

/-- The PIN was verified, and no command came since but those that may. -/
def FreshlyVerified (crypto : CardCrypto) (log : List Entry) : Prop :=
  ∃ between verify older, log = between ++ verify :: older ∧ verify.RightVerify ∧
    ∀ e ∈ between, e.Passing crypto

/-- Every use of a slot with the policy `always` is right behind a VERIFY, and no two are behind
the same one. -/
structure AlwaysVerified (crypto : CardCrypto) (log : List Entry) : Prop where
  fresh : ∀ newer e older, log = newer ++ e :: older → e.UsesAlways crypto →
    FreshlyVerified crypto older
  once : ∀ newer second between first older,
    log = newer ++ second :: (between ++ first :: older) → second.UsesAlways crypto →
    first.UsesAlways crypto → ∃ e ∈ between, e.RightVerify

section Runs

variable {crypto : CardCrypto} {log : List Entry} {c : VirtualCard}

theorem FreshlyVerified.cons {e : Entry} (h : FreshlyVerified crypto log) (he : e.Passing crypto) :
    FreshlyVerified crypto (e :: log) := by
  obtain ⟨between, verify, older, rfl, hverify, hbetween⟩ := h
  refine ⟨e :: between, verify, older, rfl, hverify, fun x hx => ?_⟩
  rcases List.mem_cons.mp hx with rfl | hx
  · exact he
  · exact hbetween x hx

/-- One event of a run that keeps the flag honest. -/
theorem freshlyVerified_step {e : Entry} (hkeeps : e.KeepsFresh)
    (hbefore : e.card.Ready → FreshlyVerified crypto log)
    (hafter : (e.card.after crypto e.event).Ready) : FreshlyVerified crypto (e :: log) := by
  by_cases hcommand : ∃ apdu around, e.event = .transmit apdu around
  · obtain ⟨apdu, around, he⟩ := hcommand
    rw [he] at hafter
    rcases VirtualCard.ready_of_dispatch hafter with hright | ⟨hready, hpasses⟩
    · exact ⟨[], e, log, rfl, ⟨apdu, around, he, hright⟩, fun x hx => absurd hx List.not_mem_nil⟩
    · rcases hpasses with hblocks | ⟨hin, hins⟩
      · refine (hbefore hready).cons fun apdu' around' he' => ?_
        cases he.symm.trans he'
        exact .inr hblocks
      · rcases hkeeps hready.verified hready.nothingSince apdu around he hin hins with
          hright | hquery
        · exact ⟨[], e, log, rfl, ⟨apdu, around, he, hright⟩,
            fun x hx => absurd hx List.not_mem_nil⟩
        · refine (hbefore hready).cons fun apdu' around' he' => ?_
          cases he.symm.trans he'
          exact .inl hquery
  · have hother : ∀ apdu around, e.event ≠ .transmit apdu around := fun apdu around he =>
      hcommand ⟨apdu, around, he⟩
    exact (hbefore (VirtualCard.ready_of_after hafter hother)).cons fun apdu around he =>
      absurd he (hother apdu around)

theorem freshlyVerified_run (h : Run Fresh (Entry.Step crypto) anyStep log c)
    (hkeeps : ∀ e ∈ log, e.KeepsFresh) (hready : c.Ready) : FreshlyVerified crypto log := by
  induction h with
  | start hfresh => exact absurd (hfresh.pinVerified.symm.trans hready.verified) nofun
  | step hrun hstep _ ih =>
    obtain ⟨rfl, rfl⟩ := hstep
    exact freshlyVerified_step (hkeeps _ List.mem_cons_self)
      (ih fun x hx => hkeeps x (List.mem_cons_of_mem _ hx)) hready

/-- In a log that ends with the use of a slot, the VERIFY of a later use comes after it. -/
theorem FreshlyVerified.of_append {between older : List Entry} {first : Entry}
    (h : FreshlyVerified crypto (between ++ first :: older)) (hfirst : first.UsesAlways crypto) :
    ∃ e ∈ between, e.RightVerify := by
  obtain ⟨passing, verify, older', hlog, hverify, hpassing⟩ := h
  rcases List.append_eq_append_iff.mp hlog with ⟨rest, hbetween, hrest⟩ | ⟨rest, hpass, hrest⟩
  · -- the first use stands among what may pass
    cases rest with
    | nil =>
      obtain ⟨rfl, -⟩ := List.cons.inj hrest
      exact absurd hfirst (Entry.not_usesAlways_of_rightVerify hverify)
    | cons x rest =>
      obtain ⟨rfl, -⟩ := List.cons.inj hrest
      exact absurd hfirst (Entry.not_usesAlways_of_passing (hpassing _ (by simp [hbetween])))
  · cases rest with
    | nil =>
      obtain ⟨rfl, -⟩ := List.cons.inj hrest
      exact absurd hfirst (Entry.not_usesAlways_of_rightVerify hverify)
    | cons x rest =>
      obtain ⟨rfl, -⟩ := List.cons.inj hrest
      exact ⟨_, by simp [hpass], hverify⟩

/-- In every run in which no VERIFY is refused right behind a VERIFY, slots with the policy
`always` are used right behind a VERIFY of their own. -/
theorem alwaysVerified_of_keepsFresh (crypto : CardCrypto) {log : List Entry} {c : VirtualCard}
    (h : Run Fresh (Entry.Step crypto) anyStep log c) (hkeeps : ∀ e ∈ log, e.KeepsFresh) :
    AlwaysVerified crypto log := by
  have hfresh : ∀ newer e older, log = newer ++ e :: older → e.UsesAlways crypto →
      FreshlyVerified crypto older := by
    rintro newer e older rfl ⟨slot, ⟨apdu, around, he, huse⟩, hpolicy⟩
    obtain ⟨before, after, hrun, ⟨rfl, -⟩, -⟩ := h.step_of_append
    exact freshlyVerified_run hrun (fun x hx => hkeeps x (by simp [hx])) (huse.ready hpolicy)
  refine ⟨hfresh, fun newer second between first older hlog hsecond hfirst => ?_⟩
  exact (hfresh newer second _ hlog hsecond).of_append hfirst

end Runs

/-! ## A card with a key for digital signatures -/

/-- A card with the key of the tests in slot 9C, whose policy is `always` by default. -/
def signatureCard : VirtualCard := { VirtualCard.withModel .yk4 with slot9cPriv := some rfc6979Priv }

theorem fresh_signatureCard : Fresh signatureCard :=
  ⟨rfl, (by decide : defaultPinRetries ≤ defaultPinRetries),
    (by decide : defaultPukRetries ≤ defaultPukRetries)⟩

/-- The request for a signature of the digest with slot 9C. -/
def signatureApdu : Bytes :=
  [0x00, 0x87, 0x11, 0x9C, 0x26, 0x7C, 0x24, 0x82, 0x00, 0x81, 0x20] ++ sampleDigest

/-- That card, right behind a VERIFY. -/
def verifiedSignatureCard : VirtualCard :=
  signatureCard.after sampleCrypto (sent (verifyApdu defaultPin))

theorem usesAlways_signatureApdu {c : VirtualCard}
    (hreceived : c.received signatureApdu = some (0x87, 0x11, 0x9C))
    (hresponse : (c.dispatch sampleCrypto ⟨0, []⟩ signatureApdu).1 =
      [0x7C, 0x4A, 0x82, 0x48] ++ sampleSignature ++ sw 0x90 0x00)
    (hpolicy : c.effectivePinPolicy 0x9C = PinPolicy.always) :
    Entry.UsesAlways sampleCrypto ⟨c, sent signatureApdu⟩ :=
  ⟨0x9C, ⟨signatureApdu, ⟨0, []⟩, rfl, hreceived, _, by simp, hresponse⟩, hpolicy⟩

theorem alwaysVerified_of_keepsFresh_sample :
    FreshlyVerified sampleCrypto [⟨signatureCard, sent (verifyApdu defaultPin)⟩] := by
  have hrun : Run Fresh (Entry.Step sampleCrypto) anyStep
      [⟨verifiedSignatureCard, sent signatureApdu⟩, ⟨signatureCard, sent (verifyApdu defaultPin)⟩]
      (verifiedSignatureCard.after sampleCrypto (sent signatureApdu)) :=
    .step (.step (.start fresh_signatureCard) ⟨rfl, rfl⟩ trivial) ⟨rfl, rfl⟩ trivial
  have hkeeps : ∀ e ∈ [(⟨verifiedSignatureCard, sent signatureApdu⟩ : Entry),
      ⟨signatureCard, sent (verifyApdu defaultPin)⟩], e.KeepsFresh := by
    intro e he hverified hsince apdu around hsent hin hins
    rcases List.mem_cons.mp he with rfl | he
    · cases hsent
      exact absurd hins (by decide)
    · obtain rfl := List.mem_singleton.mp he
      cases hverified
  exact (alwaysVerified_of_keepsFresh sampleCrypto hrun hkeeps).fresh [] _ _ rfl
    (usesAlways_signatureApdu rfl rfl rfl)

/-- A VERIFY of a wrong PIN comes between the right one and the signature. -/
theorem not_alwaysVerified_refusedVerify :
    ¬ ∀ log c, Run Fresh (Entry.Step sampleCrypto) anyStep log c →
      AlwaysVerified sampleCrypto log := by
  intro h
  have hrun : Run Fresh (Entry.Step sampleCrypto) anyStep
      [⟨mistyped verifiedSignatureCard, sent signatureApdu⟩,
        ⟨verifiedSignatureCard, sent (verifyApdu zerosPin)⟩,
        ⟨signatureCard, sent (verifyApdu defaultPin)⟩]
      ((mistyped verifiedSignatureCard).after sampleCrypto (sent signatureApdu)) :=
    .step (.step (.step (.start fresh_signatureCard) ⟨rfl, rfl⟩ trivial) ⟨rfl, rfl⟩ trivial)
      ⟨rfl, rfl⟩ trivial
  obtain ⟨between, verify, older, hlog, hverify, hbetween⟩ :=
    (h _ _ hrun).fresh [] _ _ rfl (usesAlways_signatureApdu rfl rfl rfl)
  cases between with
  | nil =>
    obtain ⟨rfl, -⟩ := List.cons.inj hlog
    obtain ⟨apdu, around, he, hright⟩ := hverify
    cases he
    exact absurd hright.body (by decide)
  | cons e between =>
    obtain ⟨rfl, -⟩ := List.cons.inj hlog
    rcases hbetween _ List.mem_cons_self _ _ rfl with hquery | hblocks
    · exact absurd hquery.body (by decide)
    · exact hblocks rfl

end Piggy.Fibby
