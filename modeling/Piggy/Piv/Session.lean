import Piggy.Piv.Apdu

/-!
# PIN sessions

A session talks to a card inside a transaction. It keeps a flag, set when the card's answer
to a VERIFY says that the PIN was right, and the flag decides how the transaction ends. On its
way to the card a command may get lost, and so may the answer of a command that the card has
executed.
-/

namespace Piggy.Piv

open Piggy.Core Piggy.Box Piggy.Card

/-- What the reader does with the card at the end. -/
inductive EndDisposition where
  | leaveCard
  | resetCard
  deriving DecidableEq

/-! ## The transport -/

/-- What becomes of a command. -/
inductive Delivery where
  | delivered
  | answerLost (e : PivError)
  | notSent (e : PivError)

/-- A command that was handed over, what the card answered if it got it, and whether the answer
arrived. -/
structure Exchange where
  command : Bytes
  response : Option Bytes
  arrived : Bool
  deriving DecidableEq

/-- What a card does with its n-th command, and at the end of a transaction. -/
structure CardModel (κ : Type) where
  respond : Nat → κ → Bytes → Bytes × κ
  finish : EndDisposition → κ → κ

/-- A transaction with a card: what is to become of each command, whether the end of the
transaction fails, the commands so far, the newest first, and how it was ended. -/
structure Transaction (κ : Type) where
  card : κ
  deliveries : Nat → Delivery
  endError : Option PivError
  sent : List Exchange
  ended : Option EndDisposition

variable {κ : Type}

/-- One command to the card, whose answer may be lost. -/
def transmitRaw (m : CardModel κ) : Link (Transaction κ) := fun t command =>
  let (response, card) := m.respond t.sent.length t.card command
  match t.deliveries t.sent.length with
  | .delivered => (.ok response, { t with card := card, sent := ⟨command, some response, true⟩ :: t.sent })
  | .answerLost e => (.error e, { t with card := card, sent := ⟨command, some response, false⟩ :: t.sent })
  | .notSent e => (.error e, { t with sent := ⟨command, none, false⟩ :: t.sent })

/-- Ends the transaction; if that fails the card is left as it is. -/
def Transaction.finish (m : CardModel κ) (t : Transaction κ) (disposition : EndDisposition) :
    Except PivError Unit × Transaction κ :=
  match t.endError with
  | some e => (.error e, { t with ended := some disposition })
  | none => (.ok (), { t with card := m.finish disposition t.card, ended := some disposition })

/-! ## The session -/

/-- A transaction, and whether a PIN was verified in it. -/
structure PinSession (κ : Type) where
  session : Transaction κ
  pinVerified : Bool

namespace PinSession

/-- Verifies a PIN. One of more than eight bytes is not sent. -/
def verifyPin (m : CardModel κ) (fuel : Nat) (pin : Bytes) (s : PinSession κ) :
    Option (Except PivError Unit × PinSession κ) :=
  if 8 < pin.length then
    some (.error (.other s!"PIV PIN must be at most 8 bytes, got {pin.length}"), s)
  else do
    let apdu ← Apdu.verifyPin pin
    let (answer, session) ← transmitOn (transmitRaw m) fuel apdu s.session
    match answer with
    | .error e => some (.error e, { s with session := session })
    | .ok (_, sw) =>
      some (verifyAnswer (.ok sw),
        { session := session, pinVerified := if sw.isSuccess then true else s.pinVerified })

/-- Asks for the tries that are left; a PIN that is verified has no end of them. -/
def pinRetriesRemaining (m : CardModel κ) (fuel : Nat) (s : PinSession κ) :
    Option (Except PivError UInt8 × PinSession κ) := do
  let (answer, session) ← transmitOn (transmitRaw m) fuel Apdu.verifyPinStatus s.session
  let retries : Except PivError UInt8 := do
    let (_, sw) ← answer
    if sw.isSuccess then .ok 0xFF
    else if sw.isPinIncorrect then .ok (sw.pinRetriesRemaining.getD 0)
    else if sw.asU16 = 0x6983 then .ok 0
    else .error (.apdu sw.asU16)
  some (retries, { s with session := session })

/-- Sends one command. -/
def transmit (m : CardModel κ) (fuel : Nat) (apdu : Apdu) (s : PinSession κ) :
    Option (Except PivError (Bytes × StatusWord) × PinSession κ) := do
  let (answer, session) ← transmitOn (transmitRaw m) fuel apdu s.session
  some (answer, { s with session := session })

/-- The card is reset when a PIN was verified. -/
def disposition (s : PinSession κ) : EndDisposition :=
  if s.pinVerified then .resetCard else .leaveCard

/-- The explicit end of a session. -/
def endSession (m : CardModel κ) (s : PinSession κ) : Except PivError Unit × Transaction κ :=
  s.session.finish m s.disposition

/-- The end of a session that is given up: an error is only logged. -/
def dropSession (m : CardModel κ) (s : PinSession κ) : Transaction κ :=
  (s.session.finish m s.disposition).2

end PinSession

/-- Begins a session in a transaction: the applet is selected first. If that fails there is no
session, and the transaction is dropped. -/
def beginPinSession (m : CardModel κ) (fuel : Nat) (t : Transaction κ) :
    Option (Except (PivError × Transaction κ) (PinSession κ)) := do
  let (answer, t) ← transmitOn (transmitRaw m) fuel (Apdu.select Apdu.pivAid) t
  match answer with
  | .error e => some (.error (e, (t.finish m .leaveCard).2))
  | .ok (_, sw) =>
    if sw.isSuccess then some (.ok ⟨t, false⟩)
    else some (.error (.apdu sw.asU16, (t.finish m .leaveCard).2))

/-! ## Whole sessions -/

/-- A command of another operation: a signature, a key agreement, a data object, a key, a new
PIN. None of them is a VERIFY. -/
structure OtherCommand where
  apdu : Apdu
  ins_ne : apdu.ins ≠ 0x20

/-- What a caller asks of a session; an operation of several commands is several of these. -/
inductive SessionOp where
  | verifyPin (pin : Bytes)
  | pinRetriesRemaining
  | other (command : OtherCommand)

/-- How a caller gets rid of a session: by ending it, or by leaving its scope. -/
inductive Ending where
  | ended
  | dropped
  deriving DecidableEq

namespace PinSession

/-- An operation of a session. -/
def perform (m : CardModel κ) (fuel : Nat) (s : PinSession κ) : SessionOp → Option (PinSession κ)
  | .verifyPin pin => (s.verifyPin m fuel pin).map Prod.snd
  | .pinRetriesRemaining => (s.pinRetriesRemaining m fuel).map Prod.snd
  | .other command => (s.transmit m fuel command.apdu).map Prod.snd

/-- Operations one after the other. -/
def performAll (m : CardModel κ) (fuel : Nat) (s : PinSession κ) (ops : List SessionOp) :
    Option (PinSession κ) := ops.foldlM (fun s op => s.perform m fuel op) s

/-- The end of a session, by a call or by going out of scope. -/
def close (m : CardModel κ) (s : PinSession κ) : Ending → Transaction κ
  | .ended => (s.endSession m).2
  | .dropped => s.dropSession m

end PinSession

/-- A session from its beginning to its end. -/
def runSession (m : CardModel κ) (fuel : Nat) (ops : List SessionOp) (ending : Ending)
    (t : Transaction κ) : Option (Transaction κ) := do
  match ← beginPinSession m fuel t with
  | .error (_, t) => some t
  | .ok s =>
    let s ← s.performAll m fuel ops
    some (s.close m ending)

end Piggy.Piv
