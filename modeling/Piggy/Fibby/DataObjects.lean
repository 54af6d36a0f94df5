import Piggy.Fibby.PinGate

/-!
# The data objects of the virtual card

An object changes when it is put, and is gone after a factory reset; nothing else touches it.
-/

namespace Piggy.Fibby

open Piggy.Core Piggy.Box

namespace VirtualCard

variable {crypto : CardCrypto} {around : Surroundings} {c : VirtualCard} {apdu : Bytes}
  {body : Option Bytes} {e : CardEvent}

/-- A PUT DATA of an object. -/
structure Puts (c : VirtualCard) (tag : Bytes) (apdu : Bytes) : Prop where
  received : c.received apdu = some (0xDB, 0x3F, 0xFF)
  body : ∃ body rest, apduBody apdu = some body ∧ parse5cTagWithRest body = some (tag, rest)

/-! ## Handlers that leave the objects alone -/

theorem dataObjects_handleVerify : (c.handleVerify body).2.dataObjects = c.dataObjects := by
  cases body with
  | none =>
    rw [handleVerify]
    split
    · rfl
    · rfl
  | some pin =>
    rw [handleVerify]
    split
    · rfl
    split
    · rfl
    split
    · rfl
    · rfl

theorem dataObjects_handleChangeReferenceData (p2 : UInt8) :
    (c.handleChangeReferenceData p2 body).2.dataObjects = c.dataObjects := by
  unfold handleChangeReferenceData
  split
  · rfl
  split
  · rfl
  dsimp only
  split
  · split
    · rfl
    split
    · rfl
    · rfl
  · split
    · rfl
    split
    · rfl
    · rfl

theorem dataObjects_handleResetRetryCounter :
    (c.handleResetRetryCounter body).2.dataObjects = c.dataObjects := by
  unfold handleResetRetryCounter
  split
  · rfl
  split
  · rfl
  dsimp only
  split
  · rfl
  split
  · rfl
  · rfl

theorem dataObjects_passTouchGate (c : VirtualCard) (slot : UInt8) (now : Nat) :
    (c.passTouchGate slot now).2.dataObjects = c.dataObjects := by
  rw [passTouchGate]
  split
  · rfl
  split
  · rfl
  split
  · rfl
  · rfl

theorem dataObjects_consumePin (c : VirtualCard) (pin : UInt8) :
    (c.consumePin pin).dataObjects = c.dataObjects := by
  rw [consumePin]
  split
  · rfl
  · rfl

theorem dataObjects_signEcdsaSlot (now : Nat) (slot : UInt8) :
    (c.signEcdsaSlot crypto now body slot).2.dataObjects = c.dataObjects := by
  have hgate := dataObjects_passTouchGate c slot now
  rw [signEcdsaSlot]
  dsimp only
  split
  · rfl
  split
  · rfl
  split
  · rfl
  split
  · rfl
  split
  · rfl
  split
  · next c' h =>
    rw [h] at hgate
    exact hgate
  · next c' h =>
    rw [h] at hgate
    exact (dataObjects_consumePin c' _).trans hgate

theorem dataObjects_handleGeneralAuthenticateEcdhSlot9d (now : Nat) :
    (c.handleGeneralAuthenticateEcdhSlot9d crypto now body).2.dataObjects = c.dataObjects := by
  have hgate := dataObjects_passTouchGate c 0x9D now
  rw [handleGeneralAuthenticateEcdhSlot9d]
  split
  · rfl
  split
  · rfl
  split
  · rfl
  split
  · rfl
  split
  · rfl
  split
  · next c' h =>
    rw [h] at hgate
    exact hgate
  · next c' h =>
    rw [h] at hgate
    exact (dataObjects_consumePin c' _).trans hgate

theorem dataObjects_handleGeneralAuthenticateMgmtKey :
    (c.handleGeneralAuthenticateMgmtKey crypto body).2.dataObjects = c.dataObjects := by
  unfold handleGeneralAuthenticateMgmtKey
  split
  · rfl
  split
  · rfl
  split
  · split
    · rfl
    · dsimp only
      split
      · rfl
      · rfl
  · rfl

theorem dataObjects_handleSetMgmtKey : (c.handleSetMgmtKey body).2.dataObjects = c.dataObjects := by
  unfold handleSetMgmtKey
  split
  · rfl
  split
  · rfl
  split
  · rfl
  · rfl

theorem dataObjects_handleGenerateAsymmetric (random : Bytes) (slot : UInt8) :
    (c.handleGenerateAsymmetric crypto random slot body).2.dataObjects = c.dataObjects := by
  rw [handleGenerateAsymmetric]
  split
  · rfl
  split
  · rfl
  split
  · rfl
  split
  · rfl
  split
  · rfl
  dsimp only
  split
  · rfl
  · rfl

theorem dataObjects_handleImportAsymmetric (alg slot : UInt8) :
    (c.handleImportAsymmetric crypto alg slot body).2.dataObjects = c.dataObjects := by
  rw [handleImportAsymmetric]
  split
  · rfl
  split
  · rfl
  split
  · rfl
  split
  · rfl
  split
  · rfl
  split
  · rfl
  · rfl

theorem dataObjects_handleSelect (aid : Bytes) :
    (c.handleSelect aid).2.dataObjects = c.dataObjects := by
  rw [handleSelect]
  split
  · rfl
  split
  · rfl
  · rfl

theorem dataObjects_keyCommand (ins p1 p2 : UInt8) :
    (c.keyCommand crypto around ins p1 p2 body).2.dataObjects = c.dataObjects := by
  unfold keyCommand
  split
  · split
    · exact dataObjects_signEcdsaSlot _ _
    · exact dataObjects_handleGeneralAuthenticateEcdhSlot9d _
  split
  · exact dataObjects_signEcdsaSlot _ _
  split
  · exact dataObjects_handleGeneralAuthenticateMgmtKey
  split
  · exact dataObjects_handleSetMgmtKey
  split
  · exact dataObjects_handleImportAsymmetric _ _
  split
  · rfl
  split
  · rfl
  · rfl

/-! ## What changes an object -/

/-- A PUT DATA changes the object that it names. -/
theorem dataObjects_handlePutData (tag : Bytes)
    (h : ∀ body rest, apduBody apdu = some body → parse5cTagWithRest body ≠ some (tag, rest)) :
    (c.handlePutData apdu).2.dataObjects tag = c.dataObjects tag := by
  rw [handlePutData]
  cases hbody : apduBody apdu with
  | none => rfl
  | some body =>
    dsimp only
    cases hparse : parse5cTagWithRest body with
    | none => rfl
    | some found =>
      obtain ⟨tag', rest⟩ := found
      dsimp only
      split
      · rfl
      · have hne : tag ≠ tag' := fun heq => h body rest hbody (heq ▸ hparse)
        exact Function.update_of_ne hne _ _

theorem dataObjects_pinCommand {tag : Bytes} {ins p1 p2 : UInt8}
    (hreset : (ins, p1, p2) = (0xFB, 0x00, 0x00) → c.pinRetries = 0 → c.pukRetries ≠ 0) :
    (c.pinCommand crypto around ins p1 p2 body).2.dataObjects tag = c.dataObjects tag := by
  unfold pinCommand
  split
  · split
    · rfl
    · rw [dataObjects_handleVerify]
  split
  · split
    · rfl
    · rw [dataObjects_handleChangeReferenceData]
  split
  · split
    · rfl
    · rw [dataObjects_handleResetRetryCounter]
  split
  · next hins =>
    obtain ⟨rfl, rfl, rfl⟩ := hins
    rw [handleFactoryReset, if_pos]
    by_cases hpin : c.pinRetries = 0
    · exact .inr (hreset rfl hpin)
    · exact .inl hpin
  · rw [dataObjects_keyCommand]

theorem dataObjects_command {tag : Bytes} {ins p1 p2 : UInt8}
    (hreceived : c.received apdu = some (ins, p1, p2)) (hput : ¬ c.Puts tag apdu)
    (hreset : ¬ c.FactoryReset apdu) :
    (c.command crypto around ins p1 p2 apdu).2.dataObjects tag = c.dataObjects tag := by
  unfold command
  split
  · rw [dataObjects_handleSelect]
  split
  · rfl
  split
  · next hins =>
    obtain ⟨rfl, rfl, rfl⟩ := hins
    exact dataObjects_handlePutData tag fun body rest hbody hparse =>
      hput ⟨hreceived, body, rest, hbody, hparse⟩
  split
  · rw [dataObjects_handleGenerateAsymmetric]
  split
  · rfl
  split
  · split
    · rfl
    · rfl
  split
  · rfl
  · apply dataObjects_pinCommand
    intro hins hpin hpuk
    obtain ⟨rfl, rfl, rfl⟩ : ins = 0xFB ∧ p1 = 0x00 ∧ p2 = 0x00 := by
      simpa only [Prod.mk.injEq] using hins
    exact hreset ⟨hreceived, hpin, hpuk⟩

/-- An object stays what it is unless it is put or the card is reset. -/
theorem dataObjects_after {tag : Bytes}
    (hput : ∀ apdu around, e = .transmit apdu around → ¬ c.Puts tag apdu)
    (hreset : ∀ apdu around, e = .transmit apdu around → ¬ c.FactoryReset apdu) :
    (c.after crypto e).dataObjects tag = c.dataObjects tag := by
  cases e with
  | connect => rfl
  | disconnect disposition => rfl
  | endTransaction disposition =>
    simp only [after, endTransaction]
    split
    · rfl
    · rfl
  | setPresent present =>
    simp only [after, setPresent]
    split
    · rfl
    · rfl
  | injectFault fault =>
    simp only [after, injectFault]
    split
    · rfl
    · rfl
  | clearFaults => rfl
  | grantTouch => rfl
  | transmit apdu around =>
    have hput := hput apdu around rfl
    have hreset := hreset apdu around rfl
    simp only [after]
    cases hreceived : c.received apdu with
    | none =>
      obtain ⟨sw1, sw2, faults, marked, hdispatch⟩ :=
        dispatch_not_received hreceived
      rw [hdispatch]
    | some command =>
      obtain ⟨ins, p1, p2⟩ := command
      obtain ⟨marked, hdispatch⟩ :=
        dispatch_received hreceived
      rw [hdispatch]
      exact dataObjects_command (c := { c with touchBlocked := none }) hreceived
        (fun h => hput ⟨h.received, h.body⟩) (fun h => hreset ⟨h.received, h.pin, h.puk⟩)

end VirtualCard

/-- What happens to a card between a moment and a later one, without a PUT DATA of an object or a
factory reset. -/
def Keeps (crypto : CardCrypto) (tag : Bytes) (c c' : VirtualCard) : Prop :=
  ∃ log, Run (· = c) (Entry.Step crypto) (fun _ _ e => ∀ apdu around,
    e.event = .transmit apdu around → ¬ e.card.Puts tag apdu ∧ ¬ e.card.FactoryReset apdu) log c'

theorem Keeps.dataObjects {crypto : CardCrypto} {tag : Bytes} {c c' : VirtualCard}
    (h : Keeps crypto tag c c') : c'.dataObjects tag = c.dataObjects tag := by
  obtain ⟨log, hrun⟩ := h
  refine Run.invariant (motive := fun _ s => s.dataObjects tag = c.dataObjects tag) ?_ ?_ hrun
  · rintro s rfl
    rfl
  · rintro log s e s' - hkept ⟨rfl, rfl⟩ hcond
    rw [VirtualCard.dataObjects_after (fun apdu around he => (hcond apdu around he).1)
      (fun apdu around he => (hcond apdu around he).2), hkept]

end Piggy.Fibby
