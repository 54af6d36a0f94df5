import Piggy.Fibby.PinGate

/-!
# Cards that are prepared

Before it serves, a card may be given keys, objects and secrets without a command, as if they
had been there before. A key that is given so carries no policy and no origin.
-/

namespace Piggy.Fibby

open Piggy.Core Piggy.Box

namespace VirtualCard

/-- Nothing is known any more of how the slot's key came to be. -/
def forgetSlotProvenance (c : VirtualCard) (slot : UInt8) : VirtualCard :=
  { c with
    slotPolicies := Function.update c.slotPolicies slot none
    slotOrigins := Function.update c.slotOrigins slot none }

/-- Puts a key into slot 9A. -/
def seedSlot9aPriv (c : VirtualCard) (scalar : Bytes) : VirtualCard :=
  ({ c with slot9aPriv := some scalar } : VirtualCard).forgetSlotProvenance 0x9A

/-- Puts a key into slot 9C. -/
def seedSlot9cPriv (c : VirtualCard) (scalar : Bytes) : VirtualCard :=
  ({ c with slot9cPriv := some scalar } : VirtualCard).forgetSlotProvenance 0x9C

/-- Puts a key into slot 9D. -/
def seedSlot9dPriv (c : VirtualCard) (scalar : Bytes) : VirtualCard :=
  ({ c with slot9dPriv := some scalar } : VirtualCard).forgetSlotProvenance 0x9D

/-- Puts a key into slot 9E. -/
def seedSlot9ePriv (c : VirtualCard) (scalar : Bytes) : VirtualCard :=
  ({ c with slot9ePriv := some scalar } : VirtualCard).forgetSlotProvenance 0x9E

/-- Puts in a data object. -/
def seedDataObject (c : VirtualCard) (tag payload : Bytes) : VirtualCard :=
  { c with dataObjects := Function.update c.dataObjects tag (some payload) }

/-- Sets the management key. -/
def seedMgmtKey (c : VirtualCard) (key : Bytes) : VirtualCard := { c with mgmtKey := key }

/-- Leaves a challenge of the management key open. -/
def seedMgmtKeyWitness (c : VirtualCard) (witness : Bytes) : VirtualCard :=
  { c with pendingMgmtWitness := some witness }

/-- The PIN is padded to eight bytes. -/
def seedPin (c : VirtualCard) (pin : Bytes) : VirtualCard :=
  { c with pin := pin ++ List.replicate (8 - pin.length) 0xFF }

/-- Sets how many tries the PIN has. -/
def seedPinRetries (c : VirtualCard) (retries : Nat) : VirtualCard := { c with pinRetries := retries }

/-- Blocks the PIN and the PUK. -/
def seedPinPukBlocked (c : VirtualCard) : VirtualCard := { c with pinRetries := 0, pukRetries := 0 }

/-- The key that the next GENERATE of a slot makes. -/
def setGenerateOverride (c : VirtualCard) (slot : UInt8) (scalar : Bytes) : VirtualCard :=
  { c with generateOverrides := Function.update c.generateOverrides slot (some scalar) }

/-- Sets the serial number. -/
def setSerial (c : VirtualCard) (serial : Bytes) : VirtualCard :=
  { c with serialOverride := some serial }

/-- Names the reader. -/
def setReaderName (c : VirtualCard) (name : String) : VirtualCard := { c with readerName := name }

/-- Grants every touch at once, or not. -/
def setAutoTouch (c : VirtualCard) (autoTouch : Bool) : VirtualCard :=
  { c with autoTouch := autoTouch }

/-- Answers PIV commands only behind a SELECT, or always. -/
def setRequireSelect (c : VirtualCard) (requireSelect : Bool) : VirtualCard :=
  { c with requireSelect := requireSelect }

end VirtualCard

/-- One call that prepares a card. What puts in a certificate, a CHUID or the printed
information is a sequence of these. -/
inductive SeedCall where
  | slot9aPriv (scalar : Bytes)
  | slot9cPriv (scalar : Bytes)
  | slot9dPriv (scalar : Bytes)
  | slot9ePriv (scalar : Bytes)
  | dataObject (tag payload : Bytes)
  | mgmtKey (key : Bytes)
  | mgmtKeyWitness (witness : Bytes)
  | pin (text : Bytes)
  | pinRetries (retries : Nat)
  | pinPukBlocked
  | generateOverride (slot : UInt8) (scalar : Bytes)
  | serial (bytes : Bytes)
  | readerName (name : String)
  | autoTouch (flag : Bool)
  | requireSelect (flag : Bool)

namespace SeedCall

/-- The slot that a key is put into. -/
def slot? : SeedCall → Option UInt8
  | slot9aPriv _ => some 0x9A
  | slot9cPriv _ => some 0x9C
  | slot9dPriv _ => some 0x9D
  | slot9ePriv _ => some 0x9E
  | _ => none

/-- The card behind a call. -/
def apply (c : VirtualCard) : SeedCall → VirtualCard
  | .slot9aPriv scalar => c.seedSlot9aPriv scalar
  | .slot9cPriv scalar => c.seedSlot9cPriv scalar
  | .slot9dPriv scalar => c.seedSlot9dPriv scalar
  | .slot9ePriv scalar => c.seedSlot9ePriv scalar
  | .dataObject tag payload => c.seedDataObject tag payload
  | .mgmtKey key => c.seedMgmtKey key
  | .mgmtKeyWitness witness => c.seedMgmtKeyWitness witness
  | .pin text => c.seedPin text
  | .pinRetries retries => c.seedPinRetries retries
  | .pinPukBlocked => c.seedPinPukBlocked
  | .generateOverride slot scalar => c.setGenerateOverride slot scalar
  | .serial bytes => c.setSerial bytes
  | .readerName name => c.setReaderName name
  | .autoTouch flag => c.setAutoTouch flag
  | .requireSelect flag => c.setRequireSelect flag

end SeedCall

/-! ## Runs with such calls -/

/-- What happens to a card, its preparation included. -/
inductive LifeEvent where
  | seed (call : SeedCall)
  | card (event : CardEvent)

/-- The card behind an event of its life. -/
def VirtualCard.live (crypto : CardCrypto) (c : VirtualCard) : LifeEvent → VirtualCard
  | .seed call => call.apply c
  | .card event => c.after crypto event

/-- An event, and the card that it happens to. -/
structure LifeEntry where
  card : VirtualCard
  event : LifeEvent

/-- An event happens to a card. -/
def LifeEntry.Step (crypto : CardCrypto) (c : VirtualCard) (e : LifeEntry) (c' : VirtualCard) :
    Prop :=
  e.card = c ∧ c' = c.live crypto e.event

/-- A card as it is built. -/
def Built (c : VirtualCard) : Prop := ∃ model, c = VirtualCard.withModel model

/-! ## The key of a slot -/

/-- The three places that know of the key of a slot. -/
structure SlotState where
  priv : Option Bytes
  policy : Option Policy
  origin : Option KeyOrigin

namespace VirtualCard

variable {crypto : CardCrypto} {around : Surroundings} {c : VirtualCard}

/-- What the card knows of the key of a slot. -/
def slotState (c : VirtualCard) (slot : UInt8) : SlotState :=
  ⟨c.slotPriv slot, c.slotPolicies slot, c.slotOrigins slot⟩

/-- A slot that a key can be put into. -/
def KeySlot (slot : UInt8) : Prop := slot = 0x9A ∨ slot = 0x9C ∨ slot = 0x9D ∨ slot = 0x9E

theorem slotPriv_installSlotKey {slot : UInt8} (h : KeySlot slot) (scalar : Bytes)
    (policy : Policy) (origin : KeyOrigin) (slot' : UInt8) :
    (c.installSlotKey slot scalar policy origin).slotPriv slot' =
      if slot' = slot then some scalar else c.slotPriv slot' := by
  rcases h with rfl | rfl | rfl | rfl
  · by_cases hslot : slot' = 0x9A
    · subst hslot
      rfl
    · simp [slotPriv, installSlotKey, hslot]
  · by_cases hslot : slot' = 0x9C
    · subst hslot
      rfl
    · simp [slotPriv, installSlotKey, hslot]
  · by_cases hslot : slot' = 0x9D
    · subst hslot
      rfl
    · simp [slotPriv, installSlotKey, hslot]
  · by_cases hslot : slot' = 0x9E
    · subst hslot
      rfl
    · simp [slotPriv, installSlotKey, hslot]

/-- A key that is installed is known in all three places, and the other slots are as before. -/
theorem slotState_installSlotKey {slot : UInt8} (h : KeySlot slot) (scalar : Bytes)
    (policy : Policy) (origin : KeyOrigin) (slot' : UInt8) :
    (c.installSlotKey slot scalar policy origin).slotState slot' =
      if slot' = slot then ⟨some scalar, some policy, some origin⟩ else c.slotState slot' := by
  rw [slotState, slotPriv_installSlotKey h]
  by_cases hslot : slot' = slot
  · subst hslot
    simp [installSlotKey]
  · simp [installSlotKey, slotState, hslot]

/-- Whether a key was put into a slot, or the slot is as it was. -/
def Seeded (c c' : VirtualCard) (seeded : Option UInt8) (slot : UInt8) : Prop :=
  (seeded ≠ some slot ∧ c'.slotState slot = c.slotState slot) ∨
    seeded = some slot ∧ c'.slotOrigins slot = none

theorem seeded_forget {c' : VirtualCard} {seeded : UInt8}
    (hpriv : ∀ slot, slot ≠ seeded → c'.slotPriv slot = c.slotPriv slot)
    (hpolicies : c'.slotPolicies = c.slotPolicies) (horigins : c'.slotOrigins = c.slotOrigins)
    (slot : UInt8) : Seeded c (c'.forgetSlotProvenance seeded) (some seeded) slot := by
  by_cases hslot : slot = seeded
  · subst hslot
    exact .inr ⟨rfl, Function.update_self _ _ _⟩
  · refine .inl ⟨fun h => hslot (Option.some.inj h).symm, ?_⟩
    have hkept : (c'.forgetSlotProvenance seeded).slotState slot = c'.slotState slot := by
      simp only [slotState, forgetSlotProvenance, Function.update_of_ne hslot]
      rfl
    rw [hkept, slotState, slotState, hpriv slot hslot, hpolicies, horigins]

/-- A key that is put in without a command has no policy and no origin. -/
theorem seeded_apply (call : SeedCall) (c : VirtualCard) (slot : UInt8) :
    Seeded c (call.apply c) call.slot? slot := by
  cases call with
  | slot9aPriv scalar =>
    exact @seeded_forget c { c with slot9aPriv := some scalar } 0x9A
      (fun slot h => by simp only [slotPriv, if_neg h]) rfl rfl slot
  | slot9cPriv scalar =>
    exact @seeded_forget c { c with slot9cPriv := some scalar } 0x9C
      (fun slot h => by simp only [slotPriv, if_neg h]) rfl rfl slot
  | slot9dPriv scalar =>
    exact @seeded_forget c { c with slot9dPriv := some scalar } 0x9D
      (fun slot h => by simp only [slotPriv, if_neg h]) rfl rfl slot
  | slot9ePriv scalar =>
    exact @seeded_forget c { c with slot9ePriv := some scalar } 0x9E
      (fun slot h => by simp only [slotPriv, if_neg h]) rfl rfl slot
  | dataObject | mgmtKey | mgmtKeyWitness | pin | pinRetries | pinPukBlocked | generateOverride
  | serial | readerName | autoTouch | requireSelect => exact .inl ⟨nofun, rfl⟩

end VirtualCard

end Piggy.Fibby
