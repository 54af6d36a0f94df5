import Piggy.Fibby.VirtualCard
import Piggy.Core.Runs

/-!
# The PIN gate of the virtual card

Whether a private-key operation may run depends on a flag that VERIFY sets, and the counters of
PIN and PUK on everything that was tried. One theorem says what an event can do to these five
fields; the gate and the counters over whole runs follow from it.
-/

namespace Piggy.Fibby

open Piggy.Core Piggy.Box

/-! ## Events -/

/-- What happens to a card. -/
inductive CardEvent where
  | connect
  | disconnect (disposition : UInt32)
  | endTransaction (disposition : UInt32)
  | setPresent (present : Bool)
  | injectFault (fault : Fault)
  | clearFaults
  | grantTouch
  | transmit (apdu : Bytes) (around : VirtualCard.Surroundings)

namespace VirtualCard

variable {crypto : CardCrypto} {c : VirtualCard}

/-- The card after an event. -/
def after (crypto : CardCrypto) (c : VirtualCard) : CardEvent → VirtualCard
  | .connect => c.connect
  | .disconnect _ => c.disconnect
  | .endTransaction disposition => c.endTransaction disposition
  | .setPresent present => c.setPresent present
  | .injectFault fault => c.injectFault fault
  | .clearFaults => c.clearFaults
  | .grantTouch => c.grantTouch
  | .transmit apdu around => (c.dispatch crypto around apdu).2

/-- A command that reaches the applet: its instruction and parameters. -/
def received (c : VirtualCard) (apdu : Bytes) : Option (UInt8 × UInt8 × UInt8) :=
  match apdu with
  | cla :: ins :: p1 :: p2 :: _ =>
    if c.requireSelect ∧ c.selectedPiv = false ∧ c.selectedOtp = false ∧ ins ≠ 0xA4 then none
    else if (takeFault ins c.faults).isSome then none
    else if cla = 0x00 then some (ins, p1, p2)
    else none
  | _ => none

/-! ## What the PIN and the PUK are in -/

/-- The fields that PIN and PUK are about. -/
structure PinState where
  pin : Bytes
  pinRetries : Nat
  puk : Bytes
  pukRetries : Nat
  pinVerified : Bool

/-- The PIN and the PUK of a card. -/
def pinState (c : VirtualCard) : PinState :=
  ⟨c.pin, c.pinRetries, c.puk, c.pukRetries, c.pinVerified⟩

/-- A VERIFY of the current PIN, which the card takes. -/
structure RightVerify (c : VirtualCard) (apdu : Bytes) : Prop where
  received : c.received apdu = some (0x20, 0x00, 0x80)
  body : apduBody apdu = some c.pin
  length : c.pin.length = 8
  retries : c.pinRetries ≠ 0

/-- A VERIFY of a PIN that is not the current one. -/
structure WrongVerify (c : VirtualCard) (apdu : Bytes) : Prop where
  received : c.received apdu = some (0x20, 0x00, 0x80)
  body : ∃ pin, apduBody apdu = some pin ∧ pin.length = 8 ∧ pin ≠ c.pin

/-- A CHANGE REFERENCE DATA of the PIN with an old PIN that is not the current one. -/
structure WrongChange (c : VirtualCard) (apdu : Bytes) : Prop where
  received : c.received apdu = some (0x24, 0x00, 0x80)
  body : ∃ body, apduBody apdu = some body ∧ body.length = 16 ∧ body.take 8 ≠ c.pin

/-- A RESET RETRY COUNTER with the right PUK. -/
structure RetryReset (c : VirtualCard) (apdu : Bytes) : Prop where
  received : c.received apdu = some (0x2C, 0x00, 0x80)
  body : ∃ body, apduBody apdu = some body ∧ body.length = 16 ∧ body.take 8 = c.puk
  retries : c.pukRetries ≠ 0

/-- A factory reset that the card lets through. -/
structure FactoryReset (c : VirtualCard) (apdu : Bytes) : Prop where
  received : c.received apdu = some (0xFB, 0x00, 0x00)
  pin : c.pinRetries = 0
  puk : c.pukRetries = 0

/-- What an event can do to PIN and PUK. -/
inductive PinEffect (c : VirtualCard) (e : CardEvent) : PinState → Prop where
  | same : PinEffect c e c.pinState
  | cleared : PinEffect c e { c.pinState with pinVerified := false }
  | verified (apdu : Bytes) (around : Surroundings) (he : e = .transmit apdu around)
      (h : c.RightVerify apdu) :
      PinEffect c e { c.pinState with pinRetries := defaultPinRetries, pinVerified := true }
  | refused (apdu : Bytes) (around : Surroundings) (he : e = .transmit apdu around)
      (h : c.WrongVerify apdu ∨ c.WrongChange apdu) (hretries : c.pinRetries ≠ 0) :
      PinEffect c e { c.pinState with pinRetries := c.pinRetries - 1 }
  | changed (pin : Bytes) (hretries : c.pinRetries ≠ 0) :
      PinEffect c e { c.pinState with pin := pin, pinRetries := defaultPinRetries }
  | pukRefused (hretries : c.pukRetries ≠ 0) :
      PinEffect c e { c.pinState with pukRetries := c.pukRetries - 1 }
  | pukChanged (puk : Bytes) (hretries : c.pukRetries ≠ 0) :
      PinEffect c e { c.pinState with puk := puk, pukRetries := defaultPukRetries }
  | unblocked (apdu : Bytes) (around : Surroundings) (he : e = .transmit apdu around)
      (h : c.RetryReset apdu) (pin : Bytes) :
      PinEffect c e ⟨pin, defaultPinRetries, c.puk, defaultPukRetries, false⟩
  | wiped (apdu : Bytes) (around : Surroundings) (he : e = .transmit apdu around)
      (h : c.FactoryReset apdu) :
      PinEffect c e ⟨defaultPin, defaultPinRetries, defaultPuk, defaultPukRetries, false⟩

variable {apdu : Bytes} {around : Surroundings} {body : Option Bytes} {e : CardEvent}

/-! ## The effect of each handler -/

theorem handleVerify_effect (hreceived : c.received apdu = some (0x20, 0x00, 0x80)) :
    PinEffect c (.transmit apdu around) (c.handleVerify (apduBody apdu)).2.pinState := by
  cases hbody : apduBody apdu with
  | none =>
    simp only [handleVerify]
    split
    · exact .same
    · exact .same
  | some pin =>
    simp only [handleVerify]
    split
    · exact .same
    · next hlength =>
      have hlength : pin.length = 8 := not_not.mp hlength
      split
      · exact .same
      · next hretries =>
        split
        · next hpin =>
          subst hpin
          exact .verified apdu around rfl ⟨hreceived, hbody, hlength, hretries⟩
        · next hpin =>
          exact .refused apdu around rfl (.inl ⟨hreceived, pin, hbody, hlength, hpin⟩) hretries

theorem handleChangeReferenceData_effect {p2 : UInt8}
    (hreceived : c.received apdu = some (0x24, 0x00, p2)) :
    PinEffect c (.transmit apdu around)
      (c.handleChangeReferenceData p2 (apduBody apdu)).2.pinState := by
  cases hbody : apduBody apdu with
  | none => exact .same
  | some body =>
    simp only [handleChangeReferenceData]
    split
    · exact .same
    · next hlength =>
      have hlength : body.length = 16 := not_not.mp hlength
      split
      · next hp2 =>
        subst hp2
        split
        · exact .same
        · next hretries =>
          split
          · next hold =>
            exact .refused apdu around rfl (.inr ⟨hreceived, body, hbody, hlength, hold⟩) hretries
          · exact .changed _ hretries
      · split
        · exact .same
        · next hretries =>
          split
          · exact .pukRefused hretries
          · exact .pukChanged _ hretries

theorem handleResetRetryCounter_effect (hreceived : c.received apdu = some (0x2C, 0x00, 0x80)) :
    PinEffect c (.transmit apdu around)
      (c.handleResetRetryCounter (apduBody apdu)).2.pinState := by
  cases hbody : apduBody apdu with
  | none => exact .same
  | some body =>
    simp only [handleResetRetryCounter]
    split
    · exact .same
    · next hlength =>
      have hlength : body.length = 16 := not_not.mp hlength
      split
      · exact .same
      · next hretries =>
        split
        · exact .pukRefused hretries
        · next hpuk =>
          exact .unblocked apdu around rfl
            ⟨hreceived, ⟨body, hbody, hlength, not_not.mp hpuk⟩, hretries⟩ _

theorem handleFactoryReset_effect (hreceived : c.received apdu = some (0xFB, 0x00, 0x00)) :
    PinEffect c (.transmit apdu around) c.handleFactoryReset.2.pinState := by
  rw [handleFactoryReset]
  split
  · exact .same
  · next hretries =>
    obtain ⟨hpin, hpuk⟩ := not_or.mp hretries
    exact .wiped apdu around rfl ⟨hreceived, not_not.mp hpin, not_not.mp hpuk⟩

theorem pinState_passTouchGate (c : VirtualCard) (slot : UInt8) (now : Nat) :
    (c.passTouchGate slot now).2.pinState = c.pinState := by
  rw [passTouchGate]
  split
  · rfl
  · split
    · rfl
    · split
      · rfl
      · rfl

theorem consumePin_effect {c' : VirtualCard} (h : c'.pinState = c.pinState) (pin : UInt8) :
    PinEffect c e (c'.consumePin pin).pinState := by
  rw [consumePin]
  split
  · have hcleared : ({ c' with pinVerified := false } : VirtualCard).pinState =
        { c.pinState with pinVerified := false } := by
      rw [← h]
      rfl
    rw [hcleared]
    exact .cleared
  · rw [h]
    exact .same

theorem PinEffect.of_eq {s : PinState} (h : s = c.pinState) : PinEffect c e s := by
  rw [h]
  exact .same

theorem signEcdsaSlot_effect (now : Nat) (slot : UInt8) :
    PinEffect c e (c.signEcdsaSlot crypto now body slot).2.pinState := by
  rw [signEcdsaSlot]
  dsimp only
  split
  · exact .same
  · split
    · exact .same
    · split
      · exact .same
      · split
        · exact .same
        · split
          · exact .same
          · split
            · next c' hgate =>
              exact .of_eq ((congrArg (fun r => r.2.pinState) hgate).symm.trans
                (pinState_passTouchGate c slot now))
            · next c' hgate =>
              exact consumePin_effect ((congrArg (fun r => r.2.pinState) hgate).symm.trans
                (pinState_passTouchGate c slot now)) _

theorem handleGeneralAuthenticateEcdhSlot9d_effect (now : Nat) :
    PinEffect c e (c.handleGeneralAuthenticateEcdhSlot9d crypto now body).2.pinState := by
  rw [handleGeneralAuthenticateEcdhSlot9d]
  split
  · exact .same
  · split
    · exact .same
    · split
      · exact .same
      · split
        · exact .same
        · split
          · exact .same
          · split
            · next c' hgate =>
              exact .of_eq ((congrArg (fun r => r.2.pinState) hgate).symm.trans
                (pinState_passTouchGate c 0x9D now))
            · next c' hgate =>
              exact consumePin_effect ((congrArg (fun r => r.2.pinState) hgate).symm.trans
                (pinState_passTouchGate c 0x9D now)) _

theorem pinState_handleGeneralAuthenticateMgmtKey :
    (c.handleGeneralAuthenticateMgmtKey crypto body).2.pinState = c.pinState := by
  unfold handleGeneralAuthenticateMgmtKey
  split
  · rfl
  · split
    · rfl
    · split
      · split
        · rfl
        · dsimp only
          split
          · rfl
          · rfl
      · rfl

theorem pinState_handleSetMgmtKey : (c.handleSetMgmtKey body).2.pinState = c.pinState := by
  unfold handleSetMgmtKey
  split
  · rfl
  · split
    · rfl
    · split
      · rfl
      · rfl

theorem pinState_handlePutData : (c.handlePutData apdu).2.pinState = c.pinState := by
  rw [handlePutData]
  split
  · rfl
  · split
    · rfl
    · split
      · rfl
      · rfl

theorem pinState_handleGenerateAsymmetric (random : Bytes) (slot : UInt8) :
    (c.handleGenerateAsymmetric crypto random slot body).2.pinState = c.pinState := by
  rw [handleGenerateAsymmetric]
  split
  · rfl
  · split
    · rfl
    · split
      · rfl
      · split
        · rfl
        · split
          · rfl
          · dsimp only
            split
            · rfl
            · rfl

theorem pinState_handleImportAsymmetric (alg slot : UInt8) :
    (c.handleImportAsymmetric crypto alg slot body).2.pinState = c.pinState := by
  rw [handleImportAsymmetric]
  split
  · rfl
  · split
    · rfl
    · split
      · rfl
      · split
        · rfl
        · split
          · rfl
          · split
            · rfl
            · rfl

theorem pinState_handleSelect (aid : Bytes) : (c.handleSelect aid).2.pinState = c.pinState := by
  rw [handleSelect]
  split
  · rfl
  · split
    · rfl
    · rfl

/-! ## The effect of an event -/

theorem keyCommand_effect (ins p1 p2 : UInt8) :
    PinEffect c e (c.keyCommand crypto around ins p1 p2 body).2.pinState := by
  unfold keyCommand
  split
  · split
    · exact signEcdsaSlot_effect _ _
    · exact handleGeneralAuthenticateEcdhSlot9d_effect _
  split
  · exact signEcdsaSlot_effect _ _
  split
  · exact .of_eq pinState_handleGeneralAuthenticateMgmtKey
  split
  · exact .of_eq pinState_handleSetMgmtKey
  split
  · exact .of_eq (pinState_handleImportAsymmetric _ _)
  split
  · exact .same
  split
  · exact .same
  · exact .same

theorem pinCommand_effect {ins p1 p2 : UInt8} (hreceived : c.received apdu = some (ins, p1, p2)) :
    PinEffect c (.transmit apdu around)
      (c.pinCommand crypto around ins p1 p2 (apduBody apdu)).2.pinState := by
  unfold pinCommand
  split
  · next hins =>
    subst hins
    split
    · exact .same
    · next hp =>
      obtain ⟨hp1, hp2⟩ := not_or.mp hp
      obtain rfl := not_not.mp hp1
      obtain rfl := not_not.mp hp2
      exact handleVerify_effect hreceived
  split
  · next hins =>
    subst hins
    split
    · exact .same
    · next hp =>
      obtain rfl := not_not.mp (not_or.mp hp).1
      exact handleChangeReferenceData_effect hreceived
  split
  · next hins =>
    subst hins
    split
    · exact .same
    · next hp =>
      obtain ⟨hp1, hp2⟩ := not_or.mp hp
      obtain rfl := not_not.mp hp1
      obtain rfl := not_not.mp hp2
      exact handleResetRetryCounter_effect hreceived
  split
  · next hins =>
    obtain ⟨rfl, rfl, rfl⟩ := hins
    exact handleFactoryReset_effect hreceived
  · exact keyCommand_effect _ _ _

theorem command_effect {ins p1 p2 : UInt8} (hreceived : c.received apdu = some (ins, p1, p2)) :
    PinEffect c (.transmit apdu around) (c.command crypto around ins p1 p2 apdu).2.pinState := by
  unfold command
  split
  · exact .of_eq (pinState_handleSelect _)
  split
  · exact .same
  split
  · exact .of_eq pinState_handlePutData
  split
  · exact .of_eq (pinState_handleGenerateAsymmetric _ _)
  split
  · exact .same
  split
  · split
    · exact .same
    · exact .same
  split
  · exact .same
  · exact pinCommand_effect hreceived

/-- The flag of a blocked operation plays no part. -/
theorem PinEffect.of_touchBlocked {s : PinState}
    (h : PinEffect { c with touchBlocked := none } e s) : PinEffect c e s := by
  cases h with
  | same => exact .same
  | cleared => exact .cleared
  | verified apdu around he h =>
    exact .verified apdu around he ⟨h.received, h.body, h.length, h.retries⟩
  | refused apdu around he h hretries =>
    refine .refused apdu around he ?_ hretries
    rcases h with h | h
    · exact .inl ⟨h.received, h.body⟩
    · exact .inr ⟨h.received, h.body⟩
  | changed pin hretries => exact .changed pin hretries
  | pukRefused hretries => exact .pukRefused hretries
  | pukChanged puk hretries => exact .pukChanged puk hretries
  | unblocked apdu around he h pin =>
    exact PinEffect.unblocked (c := c) apdu around he ⟨h.received, h.body, h.retries⟩ pin
  | wiped apdu around he h => exact .wiped apdu around he ⟨h.received, h.pin, h.puk⟩

/-- The end of every command that is let in. -/
theorem marked_eq (r : Bytes × VirtualCard) (ins : Option UInt8) :
    ∃ marked, (if ins ≠ some 0x20 ∧ r.2.touchBlocked = none then
      (r.1, { r.2 with commandSinceVerify := true }) else r : Bytes × VirtualCard) =
      (r.1, { r.2 with commandSinceVerify := marked }) := by
  split
  · exact ⟨true, rfl⟩
  · exact ⟨r.2.commandSinceVerify, rfl⟩

/-- A command that is let in does what it does, up to the mark at its end. -/
theorem dispatch_of_letIn {cla ins p1 p2 : UInt8} {rest : Bytes}
    (h : ¬ (c.requireSelect = true ∧ c.selectedPiv = false ∧ c.selectedOtp = false ∧ ins ≠ 0xA4)) :
    ∃ marked, c.dispatch crypto around (cla :: ins :: p1 :: p2 :: rest) =
      ((({ c with touchBlocked := none } : VirtualCard).dispatchCommand crypto around
          (cla :: ins :: p1 :: p2 :: rest)).1,
        { (({ c with touchBlocked := none } : VirtualCard).dispatchCommand crypto around
          (cla :: ins :: p1 :: p2 :: rest)).2 with commandSinceVerify := marked }) := by
  rw [dispatch, if_neg fun h' => h ⟨h'.1, h'.2.1, h'.2.2.1, fun hins =>
    h'.2.2.2.2 (congrArg some hins)⟩]
  exact marked_eq _ _

/-- What a command does that reaches the applet. -/
theorem dispatch_received {ins p1 p2 : UInt8} (h : c.received apdu = some (ins, p1, p2)) :
    ∃ marked, c.dispatch crypto around apdu =
      ((({ c with touchBlocked := none } : VirtualCard).command crypto around ins p1 p2 apdu).1,
        { (({ c with touchBlocked := none } : VirtualCard).command crypto around ins p1 p2
          apdu).2 with commandSinceVerify := marked }) := by
  match apdu with
  | cla :: ins' :: p1' :: p2' :: rest =>
    rw [received] at h
    split at h
    · cases h
    next hselect =>
    split at h
    · cases h
    next hfault =>
    split at h
    · next hcla =>
      cases h
      have hnone : takeFault ins c.faults = none := Option.not_isSome_iff_eq_none.mp hfault
      obtain ⟨marked, hdispatch⟩ := dispatch_of_letIn hselect
      refine ⟨marked, ?_⟩
      rw [hdispatch, dispatchCommand]
      simp only [hnone, if_pos hcla]
    · cases h
  | [] | [_] | [_, _] | [_, _, _] => cases h

/-- A command that does not reach the applet is answered with two bytes. -/
theorem dispatch_not_received (h : c.received apdu = none) :
    ∃ sw1 sw2 faults marked, c.dispatch crypto around apdu = (sw sw1 sw2,
      { c with touchBlocked := none, faults := faults, commandSinceVerify := marked }) := by
  match apdu with
  | cla :: ins :: p1 :: p2 :: rest =>
    by_cases hselect : c.requireSelect = true ∧ c.selectedPiv = false ∧ c.selectedOtp = false ∧
        ins ≠ 0xA4
    · refine ⟨0x6D, 0x00, c.faults, c.commandSinceVerify, ?_⟩
      rw [dispatch]
      exact if_pos ⟨hselect.1, hselect.2.1, hselect.2.2.1, rfl,
        fun h => hselect.2.2.2 (Option.some.inj h)⟩
    · obtain ⟨marked, hdispatch⟩ := dispatch_of_letIn hselect
      rw [received, if_neg hselect] at h
      rw [hdispatch, dispatchCommand]
      cases hfault : takeFault ins c.faults with
      | some fault => exact ⟨_, _, fault.2, marked, rfl⟩
      | none =>
        rw [hfault] at h
        have hcla : cla ≠ 0x00 := fun hcla => by
          rw [if_neg (by decide), if_pos hcla] at h
          cases h
        simp only [if_neg hcla]
        exact ⟨_, _, c.faults, marked, rfl⟩
  | [] | [_] | [_, _] | [_, _, _] =>
    rw [dispatch]
    dsimp only
    split
    · exact ⟨_, _, c.faults, c.commandSinceVerify, rfl⟩
    · obtain ⟨marked, hmarked⟩ := marked_eq (sw 0x6F 0x00, { c with touchBlocked := none }) _
      exact ⟨_, _, c.faults, marked, hmarked⟩

/-- A command does not reach the applet, and is answered with two bytes, or what it does is
what its handler does. -/
theorem dispatch_cases (crypto : CardCrypto) (around : Surroundings) (c : VirtualCard)
    (apdu : Bytes) :
    (c.received apdu = none ∧ (∃ sw1 sw2, (c.dispatch crypto around apdu).1 = sw sw1 sw2) ∧
      (c.dispatch crypto around apdu).2.pinState = c.pinState) ∨
    ∃ ins p1 p2, c.received apdu = some (ins, p1, p2) ∧
      (c.dispatch crypto around apdu).1 =
        (({ c with touchBlocked := none } : VirtualCard).command crypto around ins p1 p2 apdu).1 ∧
      (c.dispatch crypto around apdu).2.pinState =
        (({ c with touchBlocked := none } : VirtualCard).command crypto around ins p1 p2
          apdu).2.pinState := by
  cases hreceived : c.received apdu with
  | none =>
    obtain ⟨sw1, sw2, faults, marked, hdispatch⟩ :=
      dispatch_not_received hreceived
    rw [hdispatch]
    exact .inl ⟨rfl, ⟨sw1, sw2, rfl⟩, rfl⟩
  | some command =>
    obtain ⟨ins, p1, p2⟩ := command
    obtain ⟨marked, hdispatch⟩ := dispatch_received hreceived
    rw [hdispatch]
    exact .inr ⟨ins, p1, p2, rfl, rfl, rfl⟩

/-- What an event does to PIN and PUK. -/
theorem after_effect (crypto : CardCrypto) (c : VirtualCard) (e : CardEvent) :
    PinEffect c e (c.after crypto e).pinState := by
  cases e with
  | connect => exact .same
  | disconnect disposition => exact .cleared
  | endTransaction disposition =>
    simp only [after, endTransaction]
    split
    · exact .cleared
    · exact .same
  | setPresent present =>
    simp only [after, setPresent]
    split
    · exact .cleared
    · exact .same
  | injectFault fault =>
    simp only [after, injectFault]
    split
    · exact .same
    · exact .same
  | clearFaults => exact .same
  | grantTouch => exact .same
  | transmit apdu around =>
    rcases dispatch_cases crypto around c apdu with
      ⟨-, -, hstate⟩ | ⟨ins, p1, p2, hreceived, -, hstate⟩
    · exact .of_eq hstate
    · simp only [after]
      rw [hstate]
      exact .of_touchBlocked (command_effect (c := { c with touchBlocked := none }) hreceived)

/-- What takes a verification away. -/
def Clears (c : VirtualCard) : CardEvent → Prop
  | .disconnect _ => True
  | .endTransaction disposition => Disposition.resets disposition = true
  | .setPresent present => present = false ∧ c.inserted = true
  | .transmit apdu _ => c.RetryReset apdu ∨ c.FactoryReset apdu
  | _ => False

theorem command_resetRetryCounter (crypto : CardCrypto) (around : Surroundings) (c : VirtualCard)
    (apdu : Bytes) : c.command crypto around 0x2C 0x00 0x80 apdu =
      c.handleResetRetryCounter (apduBody apdu) := by
  simp [command, pinCommand]

theorem command_factoryReset (crypto : CardCrypto) (around : Surroundings) (c : VirtualCard)
    (apdu : Bytes) : c.command crypto around 0xFB 0x00 0x00 apdu = c.handleFactoryReset := by
  simp [command, pinCommand]

theorem pinVerified_of_clears (h : c.Clears e) : (c.after crypto e).pinVerified = false := by
  cases e with
  | connect => exact h.elim
  | disconnect disposition => rfl
  | endTransaction disposition =>
    have hresets : Disposition.resets disposition = true := h
    simp only [after, endTransaction, if_pos hresets]
    rfl
  | setPresent present =>
    obtain ⟨rfl, hinserted⟩ := h
    simp [after, setPresent, hinserted]
  | injectFault fault => exact h.elim
  | clearFaults => exact h.elim
  | grantTouch => exact h.elim
  | transmit apdu around =>
    have hstate : (c.after crypto (.transmit apdu around)).pinState.pinVerified = false := by
      simp only [after]
      rcases dispatch_cases crypto around c apdu with
        ⟨hreceived, -, -⟩ | ⟨ins, p1, p2, hreceived, -, hstate⟩
      · rcases h with h | h
        · exact absurd (hreceived.symm.trans h.received) nofun
        · exact absurd (hreceived.symm.trans h.received) nofun
      · rw [hstate]
        rcases h with h | h
        · obtain ⟨rfl, rfl, rfl⟩ : ins = 0x2C ∧ p1 = 0x00 ∧ p2 = 0x80 := by
            simpa only [Option.some.injEq, Prod.mk.injEq] using hreceived.symm.trans h.received
          obtain ⟨body, hbody, hlength, hpuk⟩ := h.body
          rw [command_resetRetryCounter, hbody, handleResetRetryCounter]
          simp only [hlength, h.retries, hpuk, ne_eq, not_true_eq_false, if_false]
          rfl
        · obtain ⟨rfl, rfl, rfl⟩ : ins = 0xFB ∧ p1 = 0x00 ∧ p2 = 0x00 := by
            simpa only [Option.some.injEq, Prod.mk.injEq] using hreceived.symm.trans h.received
          rw [command_factoryReset, handleFactoryReset]
          simp only [h.pin, h.puk, ne_eq, not_true_eq_false, or_self, if_false]
          rfl
    exact hstate

/-! ## Private-key operations -/

/-- A GENERAL AUTHENTICATE that is answered with a signature or a shared secret. -/
structure UsesKey (crypto : CardCrypto) (c : VirtualCard) (apdu : Bytes) (around : Surroundings)
    (slot : UInt8) : Prop where
  received : c.received apdu = some (0x87, 0x11, slot)
  answered : ∃ data, data ≠ [] ∧ (c.dispatch crypto around apdu).1 = data ++ sw 0x90 0x00

theorem length_answer {response data : Bytes} {sw1 sw2 : UInt8} (hdata : data ≠ [])
    (h : response = data ++ sw sw1 sw2) : response.length ≠ 2 := by
  have hpos := List.length_pos_of_ne_nil hdata
  rw [h, List.length_append]
  simp only [sw, List.length_cons, List.length_nil]
  omega

theorem pinGate_of_unverified {slot : UInt8} (hv : c.pinVerified = false)
    (hpolicy : c.effectivePinPolicy slot ≠ PinPolicy.never) :
    c.pinGate slot = some (sw 0x69 0x82) := if_pos ⟨hpolicy, hv⟩

/-- Without a verified PIN there are only two bytes for an answer. -/
theorem length_keyCommand {slot : UInt8} (hv : c.pinVerified = false)
    (hpolicy : c.effectivePinPolicy slot ≠ PinPolicy.never) :
    (c.keyCommand crypto around 0x87 0x11 slot body).1.length = 2 := by
  unfold keyCommand
  split
  · next h =>
    obtain ⟨-, -, rfl⟩ := h
    split
    · rw [signEcdsaSlot, pinGate_of_unverified hv hpolicy]
      rfl
    · rw [handleGeneralAuthenticateEcdhSlot9d, pinGate_of_unverified hv hpolicy]
      rfl
  split
  · rw [signEcdsaSlot, pinGate_of_unverified hv hpolicy]
    rfl
  · simp [sw]

theorem command_keyCommand (crypto : CardCrypto) (around : Surroundings) (c : VirtualCard)
    (apdu : Bytes) (p1 p2 : UInt8) : c.command crypto around 0x87 p1 p2 apdu =
      c.keyCommand crypto around 0x87 p1 p2 (apduBody apdu) := by
  simp [command, pinCommand]

/-- A key with a PIN policy is only used with a verified PIN. -/
theorem UsesKey.verified {slot : UInt8} (h : UsesKey crypto c apdu around slot)
    (hpolicy : c.effectivePinPolicy slot ≠ PinPolicy.never) : c.pinVerified = true := by
  by_contra hv
  obtain ⟨data, hdata, hanswer⟩ := h.answered
  have hlength := length_answer hdata hanswer
  rcases dispatch_cases crypto around c apdu with
    ⟨hreceived, -, -⟩ | ⟨ins, p1, p2, hreceived, hresponse, -⟩
  · exact absurd (hreceived.symm.trans h.received) nofun
  · obtain ⟨rfl, rfl, rfl⟩ : ins = 0x87 ∧ p1 = 0x11 ∧ p2 = slot := by
      simpa only [Option.some.injEq, Prod.mk.injEq] using hreceived.symm.trans h.received
    rw [hresponse, command_keyCommand] at hlength
    exact hlength (length_keyCommand (c := { c with touchBlocked := none })
      (Bool.eq_false_iff.mpr hv) hpolicy)

end VirtualCard

/-! ## Runs -/

/-- A card before its first event: no PIN is verified, and no counter is above its start. -/
structure Fresh (c : VirtualCard) : Prop where
  pinVerified : c.pinVerified = false
  pinRetries : c.pinRetries ≤ defaultPinRetries
  pukRetries : c.pukRetries ≤ defaultPukRetries

/-- An event, and the card that it happens to. -/
structure Entry where
  card : VirtualCard
  event : CardEvent

namespace Entry

variable {crypto : CardCrypto} {log : List Entry} {c : VirtualCard}

/-- An event happens to a card. -/
def Step (crypto : CardCrypto) (c : VirtualCard) (e : Entry) (c' : VirtualCard) : Prop :=
  e.card = c ∧ c' = c.after crypto e.event

/-- The entry is a right VERIFY. -/
def RightVerify (e : Entry) : Prop :=
  ∃ apdu around, e.event = .transmit apdu around ∧ e.card.RightVerify apdu

/-- The entry is a wrong VERIFY. -/
def WrongVerify (e : Entry) : Prop :=
  ∃ apdu around, e.event = .transmit apdu around ∧ e.card.WrongVerify apdu

/-- The entry sets the retry counts. -/
def RetryReset (e : Entry) : Prop :=
  ∃ apdu around, e.event = .transmit apdu around ∧ e.card.RetryReset apdu

/-- The entry is a factory reset. -/
def FactoryReset (e : Entry) : Prop :=
  ∃ apdu around, e.event = .transmit apdu around ∧ e.card.FactoryReset apdu

/-- The entry forgets that the PIN was verified. -/
def Clears (e : Entry) : Prop := e.card.Clears e.event

/-- The entry uses the key of a slot. -/
def UsesKey (crypto : CardCrypto) (e : Entry) (slot : UInt8) : Prop :=
  ∃ apdu around, e.event = .transmit apdu around ∧ e.card.UsesKey crypto apdu around slot

/-- While the PIN is verified, no wrong PIN is sent to VERIFY, and none to CHANGE REFERENCE DATA
as the last try. -/
def Careful (e : Entry) : Prop :=
  e.card.pinVerified = true → ∀ apdu around, e.event = .transmit apdu around →
    ¬ e.card.WrongVerify apdu ∧ (e.card.WrongChange apdu → e.card.pinRetries ≠ 1)

end Entry

/-- The PIN was verified, and nothing has taken that away since. -/
def VerifiedSince (log : List Entry) : Prop :=
  ∃ between verify older, log = between ++ verify :: older ∧ verify.RightVerify ∧
    ∀ e ∈ between, ¬ e.Clears ∧ ¬ e.WrongVerify

/-- Every use of a key with a PIN policy has a verified PIN that is not blocked. -/
def Gated (crypto : CardCrypto) (log : List Entry) : Prop :=
  ∀ newer e older slot, log = newer ++ e :: older → e.UsesKey crypto slot →
    e.card.effectivePinPolicy slot ≠ PinPolicy.never →
    e.card.pinRetries ≠ 0 ∧ VerifiedSince older

/-- A counter that is down stays down, but for a RESET RETRY COUNTER with the right PUK, which
is for the PIN only, and the factory reset. -/
def StaysBlocked (log : List Entry) (c : VirtualCard) : Prop :=
  ∀ newer e older, log = newer ++ e :: older →
    (e.card.pinRetries = 0 → (∀ x ∈ newer ++ [e], ¬ x.RetryReset ∧ ¬ x.FactoryReset) →
      c.pinRetries = 0) ∧
    (e.card.pukRetries = 0 → (∀ x ∈ newer ++ [e], ¬ x.FactoryReset) → c.pukRetries = 0)

section Runs

variable {crypto : CardCrypto} {log : List Entry} {c : VirtualCard}

theorem VerifiedSince.cons {e : Entry} (h : VerifiedSince log) (hclears : ¬ e.Clears)
    (hwrong : ¬ e.WrongVerify) : VerifiedSince (e :: log) := by
  obtain ⟨between, verify, older, rfl, hverify, hbetween⟩ := h
  refine ⟨e :: between, verify, older, rfl, hverify, fun x hx => ?_⟩
  rcases List.mem_cons.mp hx with rfl | hx
  · exact ⟨hclears, hwrong⟩
  · exact hbetween x hx

/-- What the step lemma of the gate says of one event. -/
theorem verified_step {e : Entry} (hcareful : e.Careful)
    (hbefore : e.card.pinVerified = true → e.card.pinRetries ≠ 0 ∧ VerifiedSince log)
    (hafter : (e.card.after crypto e.event).pinVerified = true) :
    (e.card.after crypto e.event).pinRetries ≠ 0 ∧ VerifiedSince (e :: log) := by
  have hclears : ¬ e.Clears := by
    intro h
    have hunset : (e.card.after crypto e.event).pinVerified = false :=
      VirtualCard.pinVerified_of_clears h
    rw [hafter] at hunset
    cases hunset
  have hwrong : e.card.pinVerified = true → ¬ e.WrongVerify := by
    rintro hv ⟨apdu, around, he, h⟩
    exact (hcareful hv apdu around he).1 h
  have hkept : e.card.pinVerified = true → VerifiedSince (e :: log) := fun hv =>
    (hbefore hv).2.cons hclears (hwrong hv)
  have heffect := VirtualCard.after_effect crypto e.card e.event
  generalize hs : (e.card.after crypto e.event).pinState = s at heffect
  have hv : s.pinVerified = true := by
    rw [← hs]
    exact hafter
  have hretries : (e.card.after crypto e.event).pinRetries = s.pinRetries := by
    rw [← hs]
    rfl
  rw [hretries]
  cases heffect with
  | same => exact ⟨(hbefore hv).1, hkept hv⟩
  | cleared => cases hv
  | verified apdu around he h =>
    exact ⟨(by decide : defaultPinRetries ≠ 0), [], e, log, rfl, ⟨apdu, around, he, h⟩, fun x hx => absurd hx List.not_mem_nil⟩
  | refused apdu around he h hpositive =>
    refine ⟨?_, hkept hv⟩
    obtain ⟨hnoVerify, hnotLast⟩ := hcareful hv apdu around he
    rcases h with h | h
    · exact absurd h hnoVerify
    · have hne := hnotLast h
      simp only
      omega
  | changed pin hpositive => exact ⟨(by decide : defaultPinRetries ≠ 0), hkept hv⟩
  | pukRefused hpositive => exact ⟨(hbefore hv).1, hkept hv⟩
  | pukChanged puk hpositive => exact ⟨(hbefore hv).1, hkept hv⟩
  | unblocked apdu around he h pin => cases hv
  | wiped apdu around he h => cases hv

/-- In a run of careful steps a verified PIN is not blocked, and its VERIFY still counts. -/
theorem verified_run (h : Run Fresh (Entry.Step crypto) anyStep log c)
    (hcareful : ∀ e ∈ log, e.Careful) (hv : c.pinVerified = true) :
    c.pinRetries ≠ 0 ∧ VerifiedSince log := by
  induction h with
  | start hfresh => exact absurd hv (by rw [hfresh.pinVerified]; nofun)
  | step hrun hstep _ ih =>
    obtain ⟨rfl, rfl⟩ := hstep
    have hbefore := ih fun x hx => hcareful x (List.mem_cons_of_mem _ hx)
    exact verified_step (hcareful _ List.mem_cons_self) hbefore hv

/-- No counter is above its start, ever. -/
theorem retries_le (h : Run Fresh (Entry.Step crypto) anyStep log c) :
    c.pinRetries ≤ defaultPinRetries ∧ c.pukRetries ≤ defaultPukRetries := by
  induction h with
  | start hfresh => exact ⟨hfresh.pinRetries, hfresh.pukRetries⟩
  | @step log c c' e hrun hstep _ ih =>
    obtain ⟨rfl, rfl⟩ := hstep
    obtain ⟨hpin, hpuk⟩ := ih
    have heffect := VirtualCard.after_effect crypto e.card e.event
    generalize hs : (e.card.after crypto e.event).pinState = s at heffect
    have hgoal : s.pinRetries ≤ defaultPinRetries ∧ s.pukRetries ≤ defaultPukRetries := by
      cases heffect with
      | same => exact ⟨hpin, hpuk⟩
      | cleared => exact ⟨hpin, hpuk⟩
      | verified => exact ⟨le_refl _, hpuk⟩
      | refused => exact ⟨(Nat.sub_le _ _).trans hpin, hpuk⟩
      | changed => exact ⟨le_refl _, hpuk⟩
      | pukRefused => exact ⟨hpin, (Nat.sub_le _ _).trans hpuk⟩
      | pukChanged => exact ⟨hpin, le_refl _⟩
      | unblocked => exact ⟨le_refl _, le_refl _⟩
      | wiped => exact ⟨le_refl _, le_refl _⟩
    rw [← hs] at hgoal
    exact hgoal

/-- One event leaves a counter down. -/
theorem blocked_step (crypto : CardCrypto) (e : Entry) :
    (e.card.pinRetries = 0 → ¬ e.RetryReset → ¬ e.FactoryReset →
      (e.card.after crypto e.event).pinRetries = 0) ∧
    (e.card.pukRetries = 0 → ¬ e.FactoryReset →
      (e.card.after crypto e.event).pukRetries = 0) := by
  have heffect := VirtualCard.after_effect crypto e.card e.event
  generalize hs : (e.card.after crypto e.event).pinState = s at heffect
  have hgoal : (e.card.pinRetries = 0 → ¬ e.RetryReset → ¬ e.FactoryReset → s.pinRetries = 0) ∧
      (e.card.pukRetries = 0 → ¬ e.FactoryReset → s.pukRetries = 0) := by
    cases heffect with
    | same => exact ⟨fun h _ _ => h, fun h _ => h⟩
    | cleared => exact ⟨fun h _ _ => h, fun h _ => h⟩
    | verified apdu around he h => exact ⟨fun hzero => absurd hzero h.retries, fun h _ => h⟩
    | refused apdu around he h hpositive =>
      exact ⟨fun hzero => absurd hzero hpositive, fun h _ => h⟩
    | changed pin hpositive => exact ⟨fun hzero => absurd hzero hpositive, fun h _ => h⟩
    | pukRefused hpositive => exact ⟨fun h _ _ => h, fun hzero => absurd hzero hpositive⟩
    | pukChanged puk hpositive => exact ⟨fun h _ _ => h, fun hzero => absurd hzero hpositive⟩
    | unblocked apdu around he h pin =>
      exact ⟨fun _ hno => absurd ⟨apdu, around, he, h⟩ hno, fun hzero => absurd hzero h.retries⟩
    | wiped apdu around he h =>
      exact ⟨fun _ _ hno => absurd ⟨apdu, around, he, h⟩ hno,
        fun _ hno => absurd ⟨apdu, around, he, h⟩ hno⟩
  rw [← hs] at hgoal
  exact hgoal

theorem staysBlocked (h : Run Fresh (Entry.Step crypto) anyStep log c) : StaysBlocked log c := by
  induction h with
  | start => exact fun newer e older hlog => absurd hlog (by simp)
  | @step log c c' last hrun hstep _ ih =>
    obtain ⟨rfl, rfl⟩ := hstep
    obtain ⟨hpin, hpuk⟩ := blocked_step crypto last
    intro newer e older hlog
    cases newer with
    | nil =>
      -- the counter was down before the last event
      obtain ⟨rfl, rfl⟩ : last = e ∧ log = older := by simpa using hlog
      exact ⟨fun hzero hno => hpin hzero (hno _ (by simp)).1 (hno _ (by simp)).2,
        fun hzero hno => hpuk hzero (hno _ (by simp))⟩
    | cons first newer =>
      obtain ⟨rfl, rfl⟩ : last = first ∧ log = newer ++ e :: older := by simpa using hlog
      obtain ⟨ihPin, ihPuk⟩ := ih newer e older rfl
      constructor
      · intro hzero hno
        have hbefore := ihPin hzero fun x hx => hno x (List.mem_cons_of_mem _ hx)
        exact hpin hbefore (hno _ List.mem_cons_self).1 (hno _ List.mem_cons_self).2
      · intro hzero hno
        have hbefore := ihPuk hzero fun x hx => hno x (List.mem_cons_of_mem _ hx)
        exact hpuk hbefore (hno _ List.mem_cons_self)

/-- In every run the counters stay within their bounds and stay down once they are; in a run in
which no wrong PIN is tried while the PIN is verified, keys are only used behind the gate. -/
theorem gated_of_careful (crypto : CardCrypto) {log : List Entry} {c : VirtualCard}
    (h : Run Fresh (Entry.Step crypto) anyStep log c) :
    ((∀ e ∈ log, e.Careful) → Gated crypto log) ∧ c.pinRetries ≤ 3 ∧ c.pukRetries ≤ 3 ∧
      StaysBlocked log c := by
  refine ⟨?_, (retries_le h).1, (retries_le h).2, staysBlocked h⟩
  rintro hcareful newer e older slot rfl ⟨apdu, around, he, huse⟩ hpolicy
  obtain ⟨before, after, hrun, ⟨rfl, -⟩, -⟩ := h.step_of_append
  exact verified_run hrun (fun x hx => hcareful x (by simp [hx])) (huse.verified hpolicy)

end Runs

/-! ## A card with the signing key of the tests -/

/-- The scalar of RFC 6979, A.2.5. -/
def rfc6979Priv : Bytes :=
  [0xC9, 0xAF, 0xA9, 0xD8, 0x45, 0xBA, 0x75, 0x16, 0x6B, 0x5C, 0x21, 0x57, 0x67, 0xB1, 0xD6, 0x93,
    0x4E, 0x50, 0xC3, 0xDB, 0x36, 0xE8, 0x9B, 0x12, 0x7B, 0x8A, 0x62, 0x2B, 0x12, 0x0F, 0x67, 0x21]

/-- The SHA-256 digest of `sample`. -/
def sampleDigest : Bytes :=
  [0xAF, 0x2B, 0xDB, 0xE1, 0xAA, 0x9B, 0x6E, 0xC1, 0xE2, 0xAD, 0xE1, 0xD6, 0x94, 0xF4, 0x1F, 0xC7,
    0x1A, 0x83, 0x1D, 0x02, 0x68, 0xE9, 0x89, 0x15, 0x62, 0x11, 0x3D, 0x8A, 0x62, 0xAD, 0xD1, 0xBF]

/-- The deterministic signature of that digest with that scalar. -/
def sampleSignature : Bytes :=
  [0x30, 0x46, 0x02, 0x21, 0x00, 0xEF, 0xD4, 0x8B, 0x2A, 0xAC, 0xB6, 0xA8, 0xFD, 0x11, 0x40, 0xDD,
    0x9C, 0xD4, 0x5E, 0x81, 0xD6, 0x9D, 0x2C, 0x87, 0x7B, 0x56, 0xAA, 0xF9, 0x91, 0xC3, 0x4D, 0x0E,
    0xA8, 0x4E, 0xAF, 0x37, 0x16, 0x02, 0x21, 0x00, 0xF7, 0xCB, 0x1C, 0x94, 0x2D, 0x65, 0x7C, 0x41,
    0xD4, 0x36, 0xC7, 0xA1, 0xB6, 0xE2, 0x9F, 0x65, 0xF3, 0xE9, 0x00, 0xDB, 0xB9, 0xAF, 0xF4, 0x06,
    0x4D, 0xC4, 0xAB, 0x2F, 0x84, 0x3A, 0xCD, 0xA8]

/-- The libraries, as far as this one signature needs them. -/
def sampleCrypto : CardCrypto where
  signingKey scalar := scalar = rfc6979Priv
  nonZeroScalar scalar := scalar = rfc6979Priv
  verifyingKey _ := []
  publicKey _ := false
  diffieHellman _ _ := []
  signPrehash scalar digest :=
    if scalar = rfc6979Priv ∧ digest = sampleDigest then some sampleSignature else none
  tdesDecryptBlock _ block := block
  attestation := ⟨[], fun _ => []⟩

/-- A card with that key in slot 9A. -/
def signingCard : VirtualCard := { VirtualCard.withModel .yk4 with slot9aPriv := some rfc6979Priv }

theorem fresh_signingCard : Fresh signingCard :=
  ⟨rfl, (by decide : defaultPinRetries ≤ defaultPinRetries),
    (by decide : defaultPukRetries ≤ defaultPukRetries)⟩

/-- A command as an event, at time 0 and without random bytes. -/
def sent (apdu : Bytes) : CardEvent := .transmit apdu ⟨0, []⟩

/-- The VERIFY of a PIN. -/
def verifyApdu (pin : Bytes) : Bytes := [0x00, 0x20, 0x00, 0x80, 0x08] ++ pin

/-- The request for a signature of the digest with slot 9A. -/
def signApdu : Bytes :=
  [0x00, 0x87, 0x11, 0x9A, 0x26, 0x7C, 0x24, 0x82, 0x00, 0x81, 0x20] ++ sampleDigest

/-- The PIN `00000000`. -/
def zerosPin : Bytes := List.replicate 8 0x30

/-- The card once its PIN is verified. -/
def verifiedCard : VirtualCard := signingCard.after sampleCrypto (sent (verifyApdu defaultPin))

/-- One more wrong PIN. -/
def mistyped (c : VirtualCard) : VirtualCard := c.after sampleCrypto (sent (verifyApdu zerosPin))

/-- The card after three wrong PINs more. -/
def blockedCard : VirtualCard := mistyped (mistyped (mistyped verifiedCard))

theorem usesKey_signApdu {c : VirtualCard}
    (hreceived : c.received signApdu = some (0x87, 0x11, 0x9A))
    (hresponse : (c.dispatch sampleCrypto ⟨0, []⟩ signApdu).1 =
      [0x7C, 0x4A, 0x82, 0x48] ++ sampleSignature ++ sw 0x90 0x00) :
    Entry.UsesKey sampleCrypto ⟨c, sent signApdu⟩ 0x9A :=
  ⟨signApdu, ⟨0, []⟩, rfl, hreceived, _, by simp, hresponse⟩

theorem gated_of_careful_sample :
    verifiedCard.pinRetries ≠ 0 ∧
      VerifiedSince [⟨signingCard, sent (verifyApdu defaultPin)⟩] := by
  have hrun : Run Fresh (Entry.Step sampleCrypto) anyStep
      [⟨verifiedCard, sent signApdu⟩, ⟨signingCard, sent (verifyApdu defaultPin)⟩]
      (verifiedCard.after sampleCrypto (sent signApdu)) :=
    .step (.step (.start fresh_signingCard) ⟨rfl, rfl⟩ trivial) ⟨rfl, rfl⟩ trivial
  have hcareful : ∀ e ∈ [(⟨verifiedCard, sent signApdu⟩ : Entry),
      ⟨signingCard, sent (verifyApdu defaultPin)⟩], e.Careful := by
    intro e he hverified apdu around hsent
    rcases List.mem_cons.mp he with rfl | he
    · -- a signature is neither a VERIFY nor a change of the PIN
      cases hsent
      have hreceived : verifiedCard.received signApdu = some (0x87, 0x11, 0x9A) := rfl
      exact ⟨fun h => absurd (hreceived.symm.trans h.received) (by decide),
        fun h => absurd (hreceived.symm.trans h.received) (by decide)⟩
    · obtain rfl := List.mem_singleton.mp he
      cases hverified
  exact (gated_of_careful sampleCrypto hrun).1 hcareful [] _ _ 0x9A rfl
    (usesKey_signApdu rfl rfl) (by decide)

/-- Three wrong PINs after the right one block the PIN, and the key still signs. -/
theorem not_gated :
    ¬ ∀ log c, Run Fresh (Entry.Step sampleCrypto) anyStep log c → Gated sampleCrypto log := by
  intro h
  have hrun : Run Fresh (Entry.Step sampleCrypto) anyStep
      [⟨blockedCard, sent signApdu⟩, ⟨mistyped (mistyped verifiedCard), sent (verifyApdu zerosPin)⟩,
        ⟨mistyped verifiedCard, sent (verifyApdu zerosPin)⟩,
        ⟨verifiedCard, sent (verifyApdu zerosPin)⟩,
        ⟨signingCard, sent (verifyApdu defaultPin)⟩]
      (blockedCard.after sampleCrypto (sent signApdu)) :=
    .step (.step (.step (.step (.step (.start fresh_signingCard) ⟨rfl, rfl⟩ trivial) ⟨rfl, rfl⟩
      trivial) ⟨rfl, rfl⟩ trivial) ⟨rfl, rfl⟩ trivial) ⟨rfl, rfl⟩ trivial
  have hretries : blockedCard.pinRetries = 0 := rfl
  exact (h _ _ hrun [] _ _ 0x9A rfl (usesKey_signApdu rfl rfl) (by decide)).1 hretries

end Piggy.Fibby
