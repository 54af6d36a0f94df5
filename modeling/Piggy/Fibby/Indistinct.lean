import Piggy.Fibby.Results

/-!
# Cards that answer alike

The answers of a card do not depend on its reader, on the numbers that count the changes of the
touch pad, or, while no PIN is verified, on whether a command came since a VERIFY. Two cards
that differ in these only answer every sequence of commands alike.
-/

namespace Piggy.Fibby

open Piggy.Core Piggy.Box

namespace VirtualCard

/-- What cannot be told from the answers. -/
structure Hidden where
  inserted : Bool
  eventCounter : UInt32
  powered : Bool
  commandSinceVerify : Bool
  generation : UInt64
  touchBlocked : Option (UInt8 × UInt64)

/-- The card with other hidden values. -/
def hide (c : VirtualCard) (x : Hidden) : VirtualCard :=
  { c with
    inserted := x.inserted
    eventCounter := x.eventCounter
    powered := x.powered
    commandSinceVerify := x.commandSinceVerify
    touch := { c.touch with generation := x.generation }
    touchBlocked := x.touchBlocked }

/-- Two cards that cannot be told apart. -/
def Alike (a b : VirtualCard) : Prop :=
  ∃ x : Hidden, b = a.hide x ∧
    (a.pinVerified = true → x.commandSinceVerify = a.commandSinceVerify) ∧
    (x.touchBlocked = none ↔ a.touchBlocked = none)

/-- Two results that cannot be told apart. -/
def AlikeResults (r s : Bytes × VirtualCard) : Prop := r.1 = s.1 ∧ Alike r.2 s.2

variable {crypto : CardCrypto} {around : Surroundings} {a b : VirtualCard} {apdu : Bytes}
  {body : Option Bytes}

/-! ## The handlers -/

theorem handlePutData_alike (h : Alike a b) :
    AlikeResults (a.handlePutData apdu) (b.handlePutData apdu) := by
  obtain ⟨x, rfl, hsince, hblocked⟩ := h
  unfold handlePutData
  split
  · exact ⟨rfl, x, rfl, hsince, hblocked⟩
  · split
    · exact ⟨rfl, x, rfl, hsince, hblocked⟩
    · split
      · exact ⟨rfl, x, rfl, hsince, hblocked⟩
      · exact ⟨rfl, x, rfl, hsince, hblocked⟩

theorem handleSelect_alike (aid : Bytes) (h : Alike a b) :
    AlikeResults (a.handleSelect aid) (b.handleSelect aid) := by
  obtain ⟨x, rfl, hsince, hblocked⟩ := h
  unfold handleSelect
  split
  · exact ⟨rfl, x, rfl, hsince, hblocked⟩
  · split
    · exact ⟨rfl, x, rfl, hsince, hblocked⟩
    · exact ⟨rfl, x, rfl, hsince, hblocked⟩

theorem handleSetMgmtKey_alike (h : Alike a b) :
    AlikeResults (a.handleSetMgmtKey body) (b.handleSetMgmtKey body) := by
  obtain ⟨x, rfl, hsince, hblocked⟩ := h
  have hauth : (a.hide x).mgmtAuthenticated = a.mgmtAuthenticated := rfl
  unfold handleSetMgmtKey
  rw [hauth]
  split
  · exact ⟨rfl, x, rfl, hsince, hblocked⟩
  · split
    · exact ⟨rfl, x, rfl, hsince, hblocked⟩
    · split
      · exact ⟨rfl, x, rfl, hsince, hblocked⟩
      · exact ⟨rfl, x, rfl, hsince, hblocked⟩

theorem handleGeneralAuthenticateMgmtKey_alike (h : Alike a b) :
    AlikeResults (a.handleGeneralAuthenticateMgmtKey crypto body)
      (b.handleGeneralAuthenticateMgmtKey crypto body) := by
  obtain ⟨x, rfl, hsince, hblocked⟩ := h
  have hwitness : (a.hide x).pendingMgmtWitness = a.pendingMgmtWitness := rfl
  have hkey : (a.hide x).mgmtKey = a.mgmtKey := rfl
  unfold handleGeneralAuthenticateMgmtKey
  rw [hwitness]
  split
  · exact ⟨rfl, x, rfl, hsince, hblocked⟩
  · split
    · exact ⟨rfl, x, rfl, hsince, hblocked⟩
    · split
      · split
        · exact ⟨rfl, x, rfl, hsince, hblocked⟩
        · dsimp only
          rw [hkey]
          split
          · exact ⟨rfl, x, rfl, hsince, hblocked⟩
          · exact ⟨rfl, x, rfl, hsince, hblocked⟩
      · exact ⟨rfl, x, rfl, hsince, hblocked⟩

theorem handleGenerateAsymmetric_alike (random : Bytes) (slot : UInt8) (h : Alike a b) :
    AlikeResults (a.handleGenerateAsymmetric crypto random slot body)
      (b.handleGenerateAsymmetric crypto random slot body) := by
  obtain ⟨x, rfl, hsince, hblocked⟩ := h
  have hauth : (a.hide x).mgmtAuthenticated = a.mgmtAuthenticated := rfl
  have hoverride : (a.hide x).generateOverrides = a.generateOverrides := rfl
  unfold handleGenerateAsymmetric
  rw [hauth, hoverride]
  split
  · exact ⟨rfl, x, rfl, hsince, hblocked⟩
  split
  · exact ⟨rfl, x, rfl, hsince, hblocked⟩
  split
  · exact ⟨rfl, x, rfl, hsince, hblocked⟩
  split
  · exact ⟨rfl, x, rfl, hsince, hblocked⟩
  split
  · exact ⟨rfl, x, rfl, hsince, hblocked⟩
  dsimp only
  split
  · exact ⟨rfl, x, rfl, hsince, hblocked⟩
  · exact ⟨rfl, x, rfl, hsince, hblocked⟩

theorem handleImportAsymmetric_alike (alg slot : UInt8) (h : Alike a b) :
    AlikeResults (a.handleImportAsymmetric crypto alg slot body)
      (b.handleImportAsymmetric crypto alg slot body) := by
  obtain ⟨x, rfl, hsince, hblocked⟩ := h
  have hauth : (a.hide x).mgmtAuthenticated = a.mgmtAuthenticated := rfl
  unfold handleImportAsymmetric
  rw [hauth]
  split
  · exact ⟨rfl, x, rfl, hsince, hblocked⟩
  split
  · exact ⟨rfl, x, rfl, hsince, hblocked⟩
  split
  · exact ⟨rfl, x, rfl, hsince, hblocked⟩
  split
  · exact ⟨rfl, x, rfl, hsince, hblocked⟩
  split
  · exact ⟨rfl, x, rfl, hsince, hblocked⟩
  split
  · exact ⟨rfl, x, rfl, hsince, hblocked⟩
  · exact ⟨rfl, x, rfl, hsince, hblocked⟩

theorem handleVerify_alike (h : Alike a b) :
    AlikeResults (a.handleVerify body) (b.handleVerify body) := by
  obtain ⟨x, rfl, hsince, hblocked⟩ := h
  have hverified : (a.hide x).pinVerified = a.pinVerified := rfl
  have hretries : (a.hide x).pinRetries = a.pinRetries := rfl
  have hpin : (a.hide x).pin = a.pin := rfl
  cases body with
  | none =>
    simp only [handleVerify, hverified, hretries]
    split
    · exact ⟨rfl, x, rfl, hsince, hblocked⟩
    · exact ⟨rfl, x, rfl, hsince, hblocked⟩
  | some pin =>
    simp only [handleVerify, hretries, hpin]
    split
    · exact ⟨rfl, x, rfl, hsince, hblocked⟩
    split
    · exact ⟨rfl, x, rfl, hsince, hblocked⟩
    split
    · exact ⟨rfl, { x with commandSinceVerify := false }, rfl, fun _ => rfl, hblocked⟩
    · split
      · exact ⟨rfl, x, rfl, hsince, hblocked⟩
      · exact ⟨rfl, x, rfl, hsince, hblocked⟩

theorem handleChangeReferenceData_alike (p2 : UInt8) (h : Alike a b) :
    AlikeResults (a.handleChangeReferenceData p2 body) (b.handleChangeReferenceData p2 body) := by
  obtain ⟨x, rfl, hsince, hblocked⟩ := h
  have hretries : (a.hide x).pinRetries = a.pinRetries := rfl
  have hpin : (a.hide x).pin = a.pin := rfl
  have hpukRetries : (a.hide x).pukRetries = a.pukRetries := rfl
  have hpuk : (a.hide x).puk = a.puk := rfl
  cases body with
  | none => exact ⟨rfl, x, rfl, hsince, hblocked⟩
  | some body =>
    simp only [handleChangeReferenceData, hretries, hpin, hpukRetries, hpuk]
    split
    · exact ⟨rfl, x, rfl, hsince, hblocked⟩
    split
    · split
      · exact ⟨rfl, x, rfl, hsince, hblocked⟩
      · split
        · exact ⟨rfl, x, rfl, hsince, hblocked⟩
        · exact ⟨rfl, x, rfl, hsince, hblocked⟩
    · split
      · exact ⟨rfl, x, rfl, hsince, hblocked⟩
      · split
        · exact ⟨rfl, x, rfl, hsince, hblocked⟩
        · exact ⟨rfl, x, rfl, hsince, hblocked⟩

theorem handleResetRetryCounter_alike (h : Alike a b) :
    AlikeResults (a.handleResetRetryCounter body) (b.handleResetRetryCounter body) := by
  obtain ⟨x, rfl, hsince, hblocked⟩ := h
  have hpukRetries : (a.hide x).pukRetries = a.pukRetries := rfl
  have hpuk : (a.hide x).puk = a.puk := rfl
  cases body with
  | none => exact ⟨rfl, x, rfl, hsince, hblocked⟩
  | some body =>
    simp only [handleResetRetryCounter, hpukRetries, hpuk]
    split
    · exact ⟨rfl, x, rfl, hsince, hblocked⟩
    split
    · exact ⟨rfl, x, rfl, hsince, hblocked⟩
    split
    · exact ⟨rfl, x, rfl, hsince, hblocked⟩
    · exact ⟨rfl, x, rfl, (fun h => by cases h), hblocked⟩

theorem handleFactoryReset_alike (h : Alike a b) :
    AlikeResults a.handleFactoryReset b.handleFactoryReset := by
  obtain ⟨x, rfl, hsince, hblocked⟩ := h
  have hretries : (a.hide x).pinRetries = a.pinRetries := rfl
  have hpukRetries : (a.hide x).pukRetries = a.pukRetries := rfl
  unfold handleFactoryReset
  rw [hretries, hpukRetries]
  split
  · exact ⟨rfl, x, rfl, hsince, hblocked⟩
  · exact ⟨rfl, x, rfl, nofun, hblocked⟩

/-! ## The gates -/

/-- Both cards ask for the PIN, or neither does. -/
theorem pinGate_alike (slot : UInt8) (h : Alike a b) : a.pinGate slot = b.pinGate slot := by
  obtain ⟨x, rfl, hsince, -⟩ := h
  have hpolicy : (a.hide x).effectivePinPolicy slot = a.effectivePinPolicy slot := rfl
  have hverified : (a.hide x).pinVerified = a.pinVerified := rfl
  have hmark : (a.hide x).commandSinceVerify = x.commandSinceVerify := rfl
  rw [pinGate, pinGate, hpolicy, hverified, hmark]
  cases hv : a.pinVerified with
  | true => rw [hsince hv]
  | false =>
    by_cases hnever : a.effectivePinPolicy slot = PinPolicy.never
    · rw [hnever]
      rfl
    · rw [if_pos ⟨hnever, rfl⟩, if_pos ⟨hnever, rfl⟩]

/-- Both cards let an operation through or make it wait. -/
theorem passTouchGate_alike (slot : UInt8) (now : Nat) (h : Alike a b) :
    (a.passTouchGate slot now).1 = (b.passTouchGate slot now).1 ∧
      Alike (a.passTouchGate slot now).2 (b.passTouchGate slot now).2 := by
  obtain ⟨x, rfl, hsince, hblocked⟩ := h
  have hpolicy : (a.hide x).effectiveTouchPolicy slot = a.effectiveTouchPolicy slot := rfl
  have hauto : (a.hide x).autoTouch = a.autoTouch := rfl
  have htouch : (a.hide x).touch = { a.touch with generation := x.generation } := rfl
  simp only [passTouchGate, hpolicy, hauto, htouch, TouchPad.tryConsume]
  split
  · exact ⟨rfl, x, rfl, hsince, hblocked⟩
  split
  · exact ⟨rfl, x, rfl, hsince, hblocked⟩
  by_cases hcached : decide (a.effectiveTouchPolicy slot = TouchPolicy.cached) = true ∧
      (a.touch.cachedUntil slot).any (now < ·) = true
  · rw [if_pos hcached, if_pos hcached]
    exact ⟨rfl, x, rfl, hsince, hblocked⟩
  rw [if_neg hcached, if_neg hcached]
  by_cases hnone : a.touch.pending = 0
  · rw [if_pos hnone, if_pos hnone]
    exact ⟨rfl, { x with touchBlocked := some (slot, x.generation) }, rfl, hsince,
      iff_of_false (fun h => by cases h) (fun h => by cases h)⟩
  rw [if_neg hnone, if_neg hnone]
  by_cases hpolicy : decide (a.effectiveTouchPolicy slot = TouchPolicy.cached) = true
  · rw [if_pos hpolicy, if_pos hpolicy]
    exact ⟨rfl, { x with generation := x.generation + 1 }, rfl, hsince, hblocked⟩
  · rw [if_neg hpolicy, if_neg hpolicy]
    exact ⟨rfl, x, rfl, hsince, hblocked⟩

theorem consumePin_alike (pin : UInt8) (h : Alike a b) :
    Alike (a.consumePin pin) (b.consumePin pin) := by
  obtain ⟨x, rfl, hsince, hblocked⟩ := h
  rw [consumePin, consumePin]
  split
  · exact ⟨x, rfl, (fun h => by cases h), hblocked⟩
  · exact ⟨x, rfl, hsince, hblocked⟩

/-- What stands behind the touch gate. -/
theorem gated_alike (slot : UInt8) (now : Nat) (pin : UInt8) (response : Bytes) (h : Alike a b) :
    AlikeResults
      (match a.passTouchGate slot now with
        | (false, c) => (swTouchTimeout, c)
        | (true, c) => (response, c.consumePin pin))
      (match b.passTouchGate slot now with
        | (false, c) => (swTouchTimeout, c)
        | (true, c) => (response, c.consumePin pin)) := by
  obtain ⟨hpassed, hcards⟩ := passTouchGate_alike slot now h
  generalize a.passTouchGate slot now = r at hpassed hcards ⊢
  generalize b.passTouchGate slot now = s at hpassed hcards ⊢
  obtain ⟨passed, a'⟩ := r
  obtain ⟨passed', b'⟩ := s
  obtain rfl : passed = passed' := hpassed
  cases passed with
  | false => exact ⟨rfl, hcards⟩
  | true => exact ⟨rfl, consumePin_alike pin hcards⟩

theorem handleGeneralAuthenticateEcdhSlot9d_alike (now : Nat) (h : Alike a b) :
    AlikeResults (a.handleGeneralAuthenticateEcdhSlot9d crypto now body)
      (b.handleGeneralAuthenticateEcdhSlot9d crypto now body) := by
  have hpriv : b.slot9dPriv = a.slot9dPriv := by
    obtain ⟨x, rfl, -⟩ := h
    rfl
  have hpolicy : b.effectivePinPolicy 0x9D = a.effectivePinPolicy 0x9D := by
    obtain ⟨x, rfl, -⟩ := h
    rfl
  rw [handleGeneralAuthenticateEcdhSlot9d, handleGeneralAuthenticateEcdhSlot9d,
    ← pinGate_alike 0x9D h, hpriv, hpolicy]
  split
  · exact ⟨rfl, h⟩
  split
  · exact ⟨rfl, h⟩
  split
  · exact ⟨rfl, h⟩
  split
  · exact ⟨rfl, h⟩
  split
  · exact ⟨rfl, h⟩
  · exact gated_alike 0x9D now _ _ h

theorem signEcdsaSlot_alike (now : Nat) (slot : UInt8) (h : Alike a b) :
    AlikeResults (a.signEcdsaSlot crypto now body slot) (b.signEcdsaSlot crypto now body slot) := by
  have hpriv : b.slotPriv slot = a.slotPriv slot := by
    obtain ⟨x, rfl, -⟩ := h
    rfl
  have hpolicy : b.effectivePinPolicy slot = a.effectivePinPolicy slot := by
    obtain ⟨x, rfl, -⟩ := h
    rfl
  rw [signEcdsaSlot, signEcdsaSlot, ← pinGate_alike slot h, hpriv, hpolicy]
  split
  · exact ⟨rfl, h⟩
  split
  · exact ⟨rfl, h⟩
  split
  · exact ⟨rfl, h⟩
  split
  · exact ⟨rfl, h⟩
  split
  · exact ⟨rfl, h⟩
  · exact gated_alike slot now _ _ h

/-! ## Commands -/

theorem keyCommand_alike (ins p1 p2 : UInt8) (h : Alike a b) :
    AlikeResults (a.keyCommand crypto around ins p1 p2 body)
      (b.keyCommand crypto around ins p1 p2 body) := by
  unfold keyCommand
  split
  · split
    · exact signEcdsaSlot_alike _ _ h
    · exact handleGeneralAuthenticateEcdhSlot9d_alike _ h
  split
  · exact signEcdsaSlot_alike _ _ h
  split
  · exact handleGeneralAuthenticateMgmtKey_alike h
  split
  · exact handleSetMgmtKey_alike h
  split
  · exact handleImportAsymmetric_alike _ _ h
  split
  · obtain ⟨x, rfl, hx⟩ := h
    exact ⟨rfl, x, rfl, hx⟩
  split
  · obtain ⟨x, rfl, hx⟩ := h
    exact ⟨rfl, x, rfl, hx⟩
  · exact ⟨rfl, h⟩

theorem pinCommand_alike (ins p1 p2 : UInt8) (h : Alike a b) :
    AlikeResults (a.pinCommand crypto around ins p1 p2 body)
      (b.pinCommand crypto around ins p1 p2 body) := by
  unfold pinCommand
  split
  · split
    · exact ⟨rfl, h⟩
    · exact handleVerify_alike h
  split
  · split
    · exact ⟨rfl, h⟩
    · exact handleChangeReferenceData_alike _ h
  split
  · split
    · exact ⟨rfl, h⟩
    · exact handleResetRetryCounter_alike h
  split
  · exact handleFactoryReset_alike h
  · exact keyCommand_alike _ _ _ h

theorem command_alike (ins p1 p2 : UInt8) (h : Alike a b) :
    AlikeResults (a.command crypto around ins p1 p2 apdu)
      (b.command crypto around ins p1 p2 apdu) := by
  have hotp : b.selectedOtp = a.selectedOtp := by
    obtain ⟨x, rfl, -⟩ := h
    rfl
  have hserial : b.pivSerial = a.pivSerial := by
    obtain ⟨x, rfl, -⟩ := h
    rfl
  unfold command
  rw [hotp, hserial]
  split
  · exact handleSelect_alike _ h
  split
  · obtain ⟨x, rfl, hx⟩ := h
    exact ⟨rfl, x, rfl, hx⟩
  split
  · exact handlePutData_alike h
  split
  · exact handleGenerateAsymmetric_alike _ _ h
  split
  · obtain ⟨x, rfl, hx⟩ := h
    exact ⟨rfl, x, rfl, hx⟩
  split
  · split
    · exact ⟨rfl, h⟩
    · exact ⟨rfl, h⟩
  split
  · obtain ⟨x, rfl, hx⟩ := h
    exact ⟨rfl, x, rfl, hx⟩
  · exact pinCommand_alike _ _ _ h

theorem dispatchCommand_alike (h : Alike a b) :
    AlikeResults (a.dispatchCommand crypto around apdu) (b.dispatchCommand crypto around apdu) := by
  match apdu with
  | cla :: ins :: p1 :: p2 :: rest =>
    have hfaults : b.faults = a.faults := by
      obtain ⟨x, rfl, -⟩ := h
      rfl
    rw [dispatchCommand, dispatchCommand, hfaults]
    split
    · obtain ⟨x, rfl, hx⟩ := h
      exact ⟨rfl, x, rfl, hx⟩
    · split
      · exact command_alike _ _ _ h
      · exact ⟨rfl, h⟩
  | [] | [_] | [_, _] | [_, _, _] => exact ⟨rfl, h⟩

/-- The end of a command marks both cards, or neither. -/
theorem finish_alike {r s : Bytes × VirtualCard} (h : AlikeResults r s) :
    AlikeResults (finish apdu r) (finish apdu s) := by
  obtain ⟨hresponse, x, hcard, hsince, hblocked⟩ := h
  have hmark : s.2.touchBlocked = none ↔ r.2.touchBlocked = none := by
    rw [hcard]
    exact hblocked
  rw [finish, finish]
  by_cases hend : apdu[1]? ≠ some 0x20 ∧ r.2.touchBlocked = none
  · rw [if_pos hend, if_pos ⟨hend.1, hmark.mpr hend.2⟩]
    refine ⟨hresponse, { x with commandSinceVerify := true }, ?_, fun _ => rfl, hblocked⟩
    dsimp only
    rw [hcard]
    rfl
  · rw [if_neg hend, if_neg fun h' => hend ⟨h'.1, hmark.mp h'.2⟩]
    exact ⟨hresponse, x, hcard, hsince, hblocked⟩

theorem dispatch_alike (crypto : CardCrypto) (around : Surroundings) (apdu : Bytes)
    (h : Alike a b) :
    AlikeResults (a.dispatch crypto around apdu) (b.dispatch crypto around apdu) := by
  have hstart : Alike { a with touchBlocked := none } { b with touchBlocked := none } := by
    obtain ⟨x, rfl, hsince, -⟩ := h
    exact ⟨{ x with touchBlocked := none }, rfl, hsince, Iff.rfl⟩
  have hin : b.LetIn apdu ↔ a.LetIn apdu := by
    obtain ⟨x, rfl, -⟩ := h
    exact Iff.rfl
  by_cases hletIn : a.LetIn apdu
  · rw [dispatch_letIn crypto around hletIn, dispatch_letIn crypto around (hin.mpr hletIn)]
    exact finish_alike (dispatchCommand_alike hstart)
  · rw [dispatch_notSelected crypto around hletIn,
      dispatch_notSelected crypto around fun h' => hletIn (hin.mp h')]
    exact ⟨rfl, hstart⟩

/-- Cards that cannot be told apart answer every sequence of commands alike. -/
theorem responses_alike (crypto : CardCrypto) (h : Alike a b)
    (later : List (Bytes × Surroundings)) : responses crypto a later = responses crypto b later := by
  induction later generalizing a b with
  | nil => rfl
  | cons command later ih =>
    obtain ⟨apdu, around⟩ := command
    obtain ⟨hresponse, hcards⟩ := dispatch_alike crypto around apdu h
    have hnext : Alike (a.transmit crypto around apdu).2 (b.transmit crypto around apdu).2 := by
      obtain ⟨x, hcard, hsince, -⟩ := hcards
      refine ⟨{ x with touchBlocked := none }, ?_, hsince, Iff.rfl⟩
      simp only [transmit]
      rw [hcard]
      rfl
    rw [responses, responses, ih hnext]
    exact congrArg (· :: _) hresponse

end VirtualCard

end Piggy.Fibby
