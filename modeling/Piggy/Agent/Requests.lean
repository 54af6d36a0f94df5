import Piggy.Agent.Presence
import Piggy.Card.Session
import Piggy.Core.Runs

/-!
# Requests that need a PIN

A sign, an ecdh and an ecdh-rebox request all get their PIN in the same loop. The PIN is
taken from the cache or asked for while the card is not held; then the card is held, the PIN
is sent to it and the cache is told the outcome. Any number of requests are in the loop at
once, and between their steps the agent is locked and unlocked and cards are removed. Only one
request holds the card, and only one has a dialog open.
-/

namespace Piggy.Agent

open Piggy.Core Piggy.Box Piggy.Card

/-! ## The cache -/

/-- Where a PIN that was looked up comes from. -/
inductive PinSource where
  | verified
  | offered
  deriving DecidableEq

namespace PinCache

/-- The cache of a new agent. -/
def new : PinCache := ⟨fun _ => none, none, []⟩

/-- The PIN to try on a card: the one that the card took, or the offered one unless the card
refused it. -/
def lookup (pin : PinCache) (g : Guid) : Option (String × PinSource) :=
  match pin.verified g with
  | some p => some (p, .verified)
  | none =>
    match pin.offered with
    | some p => if g ∈ pin.offeredRejectedBy then none else some (p, .offered)
    | none => none

/-- The PIN with which a card was verified is kept. -/
def cacheVerified (pin : PinCache) (g : Guid) (p : String) : PinCache :=
  { pin with verified := Function.update pin.verified g (some p) }

/-- The card refused the PIN it was given. -/
def forgetFor (pin : PinCache) (g : Guid) : PinCache where
  verified := Function.update pin.verified g none
  offered := pin.offered
  offeredRejectedBy := g :: pin.offeredRejectedBy

/-- A PIN that comes without a card. -/
def offer (pin : PinCache) (p : String) : PinCache :=
  { pin with offered := some p, offeredRejectedBy := [] }

/-- Forgets all PINs. -/
def clear (_ : PinCache) : PinCache := new

end PinCache

/-- A PIN for one attempt. One that was asked for or offered is fresh: it is cached once the
card took it. -/
structure AcquiredPin where
  pin : String
  fresh : Bool
  offered : Bool
  deriving DecidableEq

/-- The PIN that the cache has for a card. -/
def fromCache (pins : PinCache) (g : Guid) : Option AcquiredPin :=
  (pins.lookup g).map fun (pin, source) => ⟨pin, source = .offered, source = .offered⟩

/-- The PIN that was typed at a prompt. -/
def typed (pin : String) : AcquiredPin := ⟨pin, true, false⟩

/-- Extra prompts after a wrong PIN, within one request. -/
def pinRetryLimit : Nat := 1

/-- The least number of tries left at which an offered PIN is risked. -/
def minRetriesForOfferedPin : UInt8 := 2

/-- Enough tries are left for a PIN that nobody typed for this card. -/
def offeredRetriesOk : Except PivError UInt8 → Bool
  | .ok n => minRetriesForOfferedPin ≤ n
  | .error _ => false

/-- The tries left, from the answer to a VERIFY without a PIN. -/
def pinRetriesRemaining : Except PivError StatusWord → Except PivError UInt8
  | .error e => .error e
  | .ok sw =>
    if sw.isSuccess then .ok 255
    else if sw.isPinIncorrect then .ok (sw.pinRetriesRemaining.getD 0)
    else if sw.asU16 = 0x6983 then .ok 0
    else .error (.apdu sw.asU16)

/-! ## Cards -/

/-- A card, as far as its PIN goes. -/
structure PinCard where
  pin : String
  retries : Nat
  maxRetries : Nat
  deriving DecidableEq

namespace PinCard

/-- What may come of a VERIFY with a PIN: the answer and the card after it. The answer may be
lost, and so may the command. -/
inductive Verifies (card : PinCard) (pin : String) : Except PivError StatusWord → PinCard → Prop where
  | right (h : 0 < card.retries) (hpin : pin = card.pin) :
      Verifies card pin (.ok ⟨0x90, 0x00⟩) { card with retries := card.maxRetries }
  | wrong (h : 0 < card.retries) (hpin : pin ≠ card.pin) (sw : StatusWord)
      (hsw : sw.pinRetriesRemaining = some (UInt8.ofNat (card.retries - 1))) :
      Verifies card pin (.ok sw) { card with retries := card.retries - 1 }
  | blocked (h : card.retries = 0 ∨ (card.retries = 1 ∧ pin ≠ card.pin)) :
      Verifies card pin (.ok ⟨0x69, 0x83⟩) { card with retries := 0 }
  | lost {answer : Except PivError StatusWord} {card' : PinCard} (e : PcscError)
      (h : Verifies card pin answer card') : Verifies card pin (.error (.pcsc e)) card'
  | unsent (e : PcscError) : Verifies card pin (.error (.pcsc e)) card

/-- What a card may answer to a VERIFY without a PIN: the tries that are left; that the PIN
is verified, only while no try is missing; or something that says nothing about the tries. -/
def AnswersEmpty (card : PinCard) : Except PivError StatusWord → Prop
  | .error _ => True
  | .ok sw => (sw.isSuccess = true → card.retries = card.maxRetries) ∧
    (sw.isPinIncorrect = true →
      card.retries < 16 ∧ sw.pinRetriesRemaining = some (UInt8.ofNat card.retries))

end PinCard

/-! ## Requests -/

/-- Where a request is in its loop. -/
inductive Phase where
  /-- About to look into the cache. -/
  | wantPin
  /-- Waiting for its turn to ask. -/
  | waitPrompt
  /-- Its dialog is open. -/
  | prompting
  /-- Waiting for the card. -/
  | holding (acq : Option AcquiredPin)
  /-- On the card, before the VERIFY. -/
  | onCard (acq : Option AcquiredPin)
  /-- On the card, about to forget the PIN and to begin again. -/
  | refused
  /-- On the card, about to cache the PIN that the card took. -/
  | taken (acq : AcquiredPin)
  /-- On the card, about to sign or derive. -/
  | finishing
  | done
  deriving DecidableEq

/-- The phases in which a request holds the card. -/
def Phase.holdsCard : Phase → Bool
  | onCard _ | refused | taken _ | finishing => true
  | _ => false

/-- A request for a key of a card. -/
structure Request where
  guid : Guid
  slotId : UInt8
  attempt : Nat
  phase : Phase
  deriving DecidableEq

/-- A request whose VERIFY was answered. -/
def Request.afterVerify (q : Request) (acq : AcquiredPin) : Except PivError Unit → Request
  | .ok _ => { q with phase := .taken acq }
  | .error (.pinIncorrect _) =>
    if q.attempt < pinRetryLimit then { q with attempt := q.attempt + 1, phase := .refused }
    else { q with phase := .done }
  | .error _ => { q with phase := .done }

/-! ## The agent with its requests -/

/-- The cached PINs, the cards and the requests that are open. -/
structure System where
  pins : PinCache
  cards : Guid → PinCard
  requests : Nat → Option Request

namespace System

/-- Replaces a request. -/
def put (s : System) (r : Nat) (q : Request) : System :=
  { s with requests := Function.update s.requests r (some q) }

@[simp] theorem put_self (s : System) (r : Nat) (q : Request) : (s.put r q).requests r = some q :=
  Function.update_self ..

/-- No request holds the card. -/
def CardFree (s : System) : Prop := ∀ r q, s.requests r = some q → q.phase.holdsCard = false

/-- No dialog is open. -/
def PromptFree (s : System) : Prop := ∀ r q, s.requests r = some q → q.phase ≠ .prompting

/-- An agent before its first request: an empty cache, and cards that have not more tries
left than they may have. -/
structure Fresh (s : System) : Prop where
  pins : s.pins = PinCache.new
  requests : ∀ r, s.requests r = none
  cards : ∀ g, (s.cards g).retries ≤ (s.cards g).maxRetries

end System

/-- What happens. -/
inductive Event where
  | started (r : Nat) (guid : Guid) (slotId : UInt8)
  | acquired (r : Nat) (acq : AcquiredPin)
  | missed (r : Nat)
  | prompted (r : Nat)
  | answered (r : Nat) (pin : String)
  | cancelled (r : Nat)
  | entered (r : Nat)
  | failed (r : Nat)
  /-- The offered PIN is not risked. -/
  | guarded (r : Nat)
  /-- A VERIFY with a PIN, and the card before and after it. -/
  | sent (r : Nat) (guid : Guid) (acq : AcquiredPin) (answer : Except PivError Unit)
      (before after : PinCard)
  | recorded (r : Nat)
  | finished (r : Nat)
  | locked
  | unlocked (pin : String)
  | removed (guid : Guid)
  deriving DecidableEq

/-- The request that a step is one of. -/
def Event.request : Event → Option Nat
  | started r _ _ | acquired r _ | missed r | prompted r | answered r _ | cancelled r
  | entered r | failed r | guarded r | sent r _ _ _ _ _ | recorded r | finished r => some r
  | locked | unlocked _ | removed _ => none

/-- The steps of the requests, and those of the lock, the unlock and the loop that looks for
cards. -/
inductive Step : System → Event → System → Prop where
  | start {s : System} {r : Nat} (g : Guid) (slotId : UInt8) (h : s.requests r = none) :
      Step s (.started r g slotId)
        (s.put r ⟨g, slotId, 0, if slotId = 0x9E then .holding none else .wantPin⟩)
  | acquire {s : System} {r : Nat} {q : Request} {acq : AcquiredPin} (h : s.requests r = some q)
      (hphase : q.phase = .wantPin ∨ q.phase = .waitPrompt ∧ s.PromptFree)
      (hacq : fromCache s.pins q.guid = some acq) :
      Step s (.acquired r acq) (s.put r { q with phase := .holding (some acq) })
  | miss {s : System} {r : Nat} {q : Request} (h : s.requests r = some q)
      (hphase : q.phase = .wantPin) (hmiss : fromCache s.pins q.guid = none) :
      Step s (.missed r) (s.put r { q with phase := .waitPrompt })
  | prompt {s : System} {r : Nat} {q : Request} (h : s.requests r = some q)
      (hphase : q.phase = .waitPrompt) (hfree : s.PromptFree)
      (hmiss : fromCache s.pins q.guid = none) :
      Step s (.prompted r) (s.put r { q with phase := .prompting })
  | answer {s : System} {r : Nat} {q : Request} (h : s.requests r = some q)
      (hphase : q.phase = .prompting) (pin : String) :
      Step s (.answered r pin) (s.put r { q with phase := .holding (some (typed pin)) })
  | cancel {s : System} {r : Nat} {q : Request} (h : s.requests r = some q)
      (hphase : q.phase = .prompting) : Step s (.cancelled r) (s.put r { q with phase := .done })
  | enter {s : System} {r : Nat} {q : Request} {acq : Option AcquiredPin}
      (h : s.requests r = some q) (hphase : q.phase = .holding acq) (hfree : s.CardFree) :
      Step s (.entered r) (s.put r { q with phase := .onCard acq })
  /-- The card is gone, the session or the slot cannot be had, or the PIN is too long. -/
  | fail {s : System} {r : Nat} {q : Request} {acq : Option AcquiredPin}
      (h : s.requests r = some q) (hphase : q.phase = .onCard acq) :
      Step s (.failed r) (s.put r { q with phase := .done })
  | guard {s : System} {r : Nat} {q : Request} {acq : AcquiredPin}
      {answer : Except PivError StatusWord} (h : s.requests r = some q)
      (hphase : q.phase = .onCard (some acq)) (hoffered : acq.offered = true)
      (hanswer : (s.cards q.guid).AnswersEmpty answer)
      (hlow : offeredRetriesOk (pinRetriesRemaining answer) = false) :
      Step s (.guarded r) (s.put r { q with phase := .refused })
  | verify {s : System} {r : Nat} {q : Request} {acq : AcquiredPin}
      {answer : Except PivError StatusWord} {card : PinCard} (h : s.requests r = some q)
      (hphase : q.phase = .onCard (some acq)) (hlen : (strBytes acq.pin).length ≤ 8)
      (hrisk : acq.offered = true → ∃ empty, (s.cards q.guid).AnswersEmpty empty ∧
        offeredRetriesOk (pinRetriesRemaining empty) = true)
      (hcard : (s.cards q.guid).Verifies acq.pin answer card) :
      Step s (.sent r q.guid acq (verifyAnswer answer) (s.cards q.guid) card)
        { s.put r (q.afterVerify acq (verifyAnswer answer)) with
          cards := Function.update s.cards q.guid card }
  | forget {s : System} {r : Nat} {q : Request} (h : s.requests r = some q)
      (hphase : q.phase = .refused) :
      Step s (.recorded r)
        { s.put r { q with phase := .wantPin } with pins := s.pins.forgetFor q.guid }
  | cache {s : System} {r : Nat} {q : Request} {acq : AcquiredPin} (h : s.requests r = some q)
      (hphase : q.phase = .taken acq) :
      Step s (.recorded r) { s.put r { q with phase := .finishing } with
        pins := if acq.fresh then s.pins.cacheVerified q.guid acq.pin else s.pins }
  | finish {s : System} {r : Nat} {q : Request} (h : s.requests r = some q)
      (hphase : q.phase = .finishing ∨ q.phase = .onCard none) :
      Step s (.finished r) (s.put r { q with phase := .done })
  | lock {s : System} : Step s .locked { s with pins := s.pins.clear }
  | unlock {s : System} (pin : String) : Step s (.unlocked pin) { s with pins := s.pins.offer pin }
  | remove {s : System} (g : Guid) (hfree : s.CardFree) :
      Step s (.removed g) { s with pins := s.pins.forgetCard g }

/-- The runs whose steps all meet a condition. -/
abbrev Runs (condition : List Event → System → Event → Prop) (log : List Event) (s : System) : Prop :=
  Run System.Fresh Step condition log s

end Piggy.Agent
