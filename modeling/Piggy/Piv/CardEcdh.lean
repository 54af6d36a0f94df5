import Piggy.Piv.Session

/-!
# Key agreement on one card

A caller that needs no agent lets one card derive secrets. The PIN comes from a source that is
asked for it; the PIN that the card has accepted is kept for the next call. A call that is not
answered yet may go on asking for as long as it is given wrong PINs.
-/

namespace Piggy.Piv

open Piggy.Core Piggy.Box Piggy.Card

/-- The slot of the key. -/
def slot9d : UInt8 := 0x9D

/-- What the PIN dialog is told. -/
structure PinRequest where
  tokenGuid : Guid
  slot : UInt8
  retriesRemaining : Option UInt8

/-- Why a card gives no secret. -/
inductive CardEcdhError where
  | notThisCard
  | pinDeclined
  | pinBlocked
  | piv (e : PivError)

/-- The card, whoever knows its PIN, and the end of a session. -/
structure EcdhEnv (ω : Type) extends PivEnv ω where
  pin : ω → PinRequest → Option String × ω
  endSession : ω → Guid → EndDisposition → Except PivError Unit × ω

/-- A card, the PIN that is kept for it, and the world around it. -/
structure CardEcdh (ω : Type) where
  guid : Guid
  cachedPin : Option String
  world : ω

/-- What happens in a call as far as its PIN is concerned. -/
inductive EcdhEvent where
  | slotRead (slot : Except PivError PivSlot)
  | asked (request : PinRequest) (answer : Option String)
  | sent (pin : String) (answer : Except PivError StatusWord)

/-- A call. -/
structure EcdhCall where
  recipient : Bytes
  partner : Bytes

/-- The point of a P-256 key in its long form; `fromSec1` is what the library makes of it. -/
def uncompressedP256 (fromSec1 : Bytes → Except String Bytes) (sec1 : Bytes) (what : String) :
    Except CardEcdhError Bytes :=
  match fromSec1 sec1 with
  | .error e => .error (.piv (.crypto s!"{what} is not a P-256 point: {e}"))
  | .ok point => .ok point

/-- The point of the key in a slot. -/
def ecSec1Point (slot : PivSlot) : Except PivError Bytes :=
  match slot.key.ecdsa with
  | none => .error (.unsupportedAlgorithm "certificate key is not EC")
  | some (point, _) => .ok point

namespace CardEcdh

variable {ω : Type} (env : EcdhEnv ω)

/-- A card without a PIN. -/
def new (guid : Guid) (w : ω) : CardEcdh ω := ⟨guid, none, w⟩

/-- The PIN to send next: the one that is kept, which is taken out, or an answer of the source. -/
def takePin (retriesRemaining : Option UInt8) (s : CardEcdh ω) :
    Option String × List EcdhEvent × CardEcdh ω :=
  match s.cachedPin with
  | some pin => (some pin, [], { s with cachedPin := none })
  | none =>
    let request : PinRequest := ⟨s.guid, slot9d, retriesRemaining⟩
    let (answer, w) := env.pin s.world request
    (answer, [.asked request answer], { s with world := w })

/-- Sends a PIN in the session, with what the card says to it. -/
def sendPin (pin : String) (s : CardEcdh ω) : Except PivError Unit × List EcdhEvent × CardEcdh ω :=
  if 8 < (strBytes pin).length then
    (.error (.other s!"PIV PIN must be at most 8 bytes, got {(strBytes pin).length}"), [], s)
  else
    let (answer, w) := env.transmitVerify s.world s.guid (strBytes pin)
    (verifyAnswer answer, [.sent pin answer], { s with world := w })

/-- The retries a refusal leaves, as the next prompt shows them. -/
def retriesLeft (retries : UInt32) : UInt8 :=
  if retries.toNat < 256 then UInt8.ofNat retries.toNat else 0xFF

/-- Sends PINs until the card accepts one. There is no answer when the fuel is used up. -/
def verifyLoop : Nat → Option UInt8 → CardEcdh ω →
    Option (Except CardEcdhError Unit) × List EcdhEvent × CardEcdh ω
  | 0, _, s => (none, [], s)
  | fuel + 1, retriesRemaining, s =>
    match takePin env retriesRemaining s with
    | (none, asked, s) => (some (.error .pinDeclined), asked, s)
    | (some pin, asked, s) =>
      match sendPin env pin s with
      | (.ok (), sent, s) => (some (.ok ()), asked ++ sent, { s with cachedPin := some pin })
      | (.error .pinBlocked, sent, s) => (some (.error .pinBlocked), asked ++ sent, s)
      | (.error (.pinIncorrect retries), sent, s) =>
        let (answer, events, s) := verifyLoop fuel (some (retriesLeft retries)) s
        (answer, asked ++ sent ++ events, s)
      | (.error e, sent, s) => (some (.error (.piv e)), asked ++ sent, s)

/-- The end of a session that is given up; an error is only logged. -/
def drop (disposition : EndDisposition) (s : CardEcdh ω) : CardEcdh ω :=
  { s with world := (env.endSession s.world s.guid disposition).2 }

/-- Derives the secret, once the PIN is verified, and ends the session. -/
def derive (slot : PivSlot) (partner : Bytes) (s : CardEcdh ω) :
    Except CardEcdhError Bytes × CardEcdh ω :=
  match env.ecdhDerive s.world s.guid slot partner with
  | (.error e, w) => (.error (.piv e), drop env .resetCard { s with world := w })
  | (.ok response, w) =>
    match env.endSession w s.guid .resetCard with
    | (.error e, w) => (.error (.piv e), { s with world := w })
    | (.ok (), w) =>
      (if response.length < 32 then .error (.piv (.crypto "ECDH response shorter than 32 bytes"))
        else .ok (response.take 32), { s with world := w })

/-- A call inside its session. -/
def inSession (fuel : Nat) (want partner : Bytes) (s : CardEcdh ω) :
    Option (Except CardEcdhError Bytes) × List EcdhEvent × CardEcdh ω :=
  match env.readSlot s.world s.guid slot9d with
  | (.error e, w) =>
    (some (.error (.piv e)), [.slotRead (.error e)], drop env .leaveCard { s with world := w })
  | (.ok slot, w) =>
    match ecSec1Point slot with
    | .error e =>
      (some (.error (.piv e)), [.slotRead (.ok slot)], drop env .leaveCard { s with world := w })
    | .ok point =>
      if point ≠ want then
        (some (.error .notThisCard), [.slotRead (.ok slot)],
          drop env .leaveCard { s with world := w })
      else
        match verifyLoop env fuel none { s with world := w } with
        | (none, events, s) => (none, .slotRead (.ok slot) :: events, s)
        | (some (.error e), events, s) =>
          (some (.error e), .slotRead (.ok slot) :: events, drop env .leaveCard s)
        | (some (.ok ()), events, s) =>
          let (secret, s) := derive env slot partner s
          (some secret, .slotRead (.ok slot) :: events, s)

variable (fromSec1 : Bytes → Except String Bytes)

/-- The X coordinate of the private key in the slot times a point. -/
def ecdh (fuel : Nat) (call : EcdhCall) (s : CardEcdh ω) :
    Option (Except CardEcdhError Bytes) × List EcdhEvent × CardEcdh ω :=
  match uncompressedP256 fromSec1 call.recipient "recipient" with
  | .error e => (some (.error e), [], s)
  | .ok want =>
    match uncompressedP256 fromSec1 call.partner "partner key" with
    | .error e => (some (.error e), [], s)
    | .ok partner =>
      match env.beginPinSession s.world s.guid with
      | (.error e, w) => (some (.error (.piv e)), [], { s with world := w })
      | (.ok (), w) => inSession env fuel want partner { s with world := w }

end CardEcdh

/-- A call that was made, what happened in it, and its answer if there is one yet. -/
structure EcdhRecord where
  recipient : Bytes
  events : List EcdhEvent
  answer : Option (Except CardEcdhError Bytes)

/-- One call after another. A call holds the card until it is answered. -/
def ecdhHistory {ω : Type} (env : EcdhEnv ω) (fromSec1 : Bytes → Except String Bytes) (fuel : Nat) :
    List EcdhCall → CardEcdh ω → List EcdhRecord
  | [], _ => []
  | call :: calls, s =>
    match CardEcdh.ecdh env fromSec1 fuel call s with
    | (none, events, _) => [⟨call.recipient, events, none⟩]
    | (some answer, events, s) =>
      ⟨call.recipient, events, some answer⟩ :: ecdhHistory env fromSec1 fuel calls s

/-! ## What a loop does -/

/-- Where a PIN to send comes from: it was kept, or the source gives it. -/
inductive Taken (guid : Guid) (retries : Option UInt8) (pin : String) :
    Option String → List EcdhEvent → Prop where
  | kept : Taken guid retries pin (some pin) []
  | given : Taken guid retries pin none [.asked ⟨guid, slot9d, retries⟩ (some pin)]

/-- The card answers that a PIN is wrong, and how many tries are left. -/
def Wrong (answer : Except PivError StatusWord) (x : UInt8) : Prop :=
  ∃ sw, answer = .ok sw ∧ sw.pinRetriesRemaining = some x

/-- The card accepts a PIN. -/
def Accepted (answer : Except PivError StatusWord) : Prop :=
  ∃ sw, answer = .ok sw ∧ sw.isSuccess = true

/-- What a loop asks and sends, from a PIN that is kept to one that is kept, and whether it is
done. -/
inductive Tries (guid : Guid) : Option UInt8 → Option String → List EcdhEvent → Option String →
    Bool → Prop where
  | underway (retries : Option UInt8) (kept : Option String) :
      Tries guid retries kept [] kept false
  | declined (retries : Option UInt8) :
      Tries guid retries none [.asked ⟨guid, slot9d, retries⟩ none] none true
  | unsent {retries : Option UInt8} {pin : String} {kept : Option String} {asked : List EcdhEvent}
      (htaken : Taken guid retries pin kept asked) : Tries guid retries kept asked none true
  | accepted {retries : Option UInt8} {pin : String} {kept : Option String}
      {asked : List EcdhEvent} {answer : Except PivError StatusWord}
      (htaken : Taken guid retries pin kept asked) (hanswer : Accepted answer) :
      Tries guid retries kept (asked ++ [.sent pin answer]) (some pin) true
  | failed {retries : Option UInt8} {pin : String} {kept : Option String}
      {asked : List EcdhEvent} {answer : Except PivError StatusWord}
      (htaken : Taken guid retries pin kept asked) (hanswer : ∀ x, ¬ Wrong answer x) :
      Tries guid retries kept (asked ++ [.sent pin answer]) none true
  | again {retries : Option UInt8} {pin : String} {kept kept' : Option String}
      {asked events : List EcdhEvent} {answer : Except PivError StatusWord} {left : UInt8}
      {done : Bool} (htaken : Taken guid retries pin kept asked)
      (hanswer : ∀ x, Wrong answer x → x = left)
      (hmore : Tries guid (some left) none events kept' done) :
      Tries guid retries kept (asked ++ .sent pin answer :: events) kept' done

theorem not_accepted_of_wrong {answer : Except PivError StatusWord} {x : UInt8}
    (h : Wrong answer x) : ¬ Accepted answer := by
  obtain ⟨sw, rfl, hx⟩ := h
  rintro ⟨sw', hsame, hsuccess⟩
  obtain rfl : sw = sw' := Except.ok.inj hsame
  rw [StatusWord.pinRetriesRemaining] at hx
  split at hx
  · next hwrong =>
    simp only [StatusWord.isSuccess, StatusWord.isPinIncorrect, decide_eq_true_eq] at hsuccess hwrong
    exact absurd (hsuccess.1.symm.trans hwrong.1) (by decide)
  · cases hx

/-- What the answer of the card to a PIN comes to. -/
theorem verifyAnswer_cases (answer : Except PivError StatusWord) :
    (Accepted answer ∧ verifyAnswer answer = .ok ()) ∨
    (∃ n, verifyAnswer answer = .error (.pinIncorrect n) ∧
      ∀ x, Wrong answer x → n = UInt32.ofNat x.toNat) ∨
    ((∀ x, ¬ Wrong answer x) ∧ ∃ e, verifyAnswer answer = .error e ∧ ∀ n, e ≠ .pinIncorrect n) := by
  rcases answer with e | sw
  · have hnever : ∀ x, ¬ Wrong (.error e) x := by
      rintro x ⟨sw, hsw, -⟩
      cases hsw
    by_cases hwrong : ∃ n, e = .pinIncorrect n
    · obtain ⟨n, rfl⟩ := hwrong
      exact .inr (.inl ⟨n, rfl, fun x hx => absurd hx (hnever x)⟩)
    · exact .inr (.inr ⟨hnever, e, rfl, fun n hn => hwrong ⟨n, hn⟩⟩)
  · rw [verifyAnswer]
    by_cases hsuccess : sw.isSuccess = true
    · rw [if_pos hsuccess]
      exact .inl ⟨⟨sw, rfl, hsuccess⟩, rfl⟩
    rw [if_neg hsuccess]
    by_cases hwrong : sw.isPinIncorrect = true
    · rw [if_pos hwrong]
      refine .inr (.inl ⟨_, rfl, ?_⟩)
      rintro x ⟨sw', hsw, hx⟩
      rw [Except.ok.inj hsw, hx]
      rfl
    · rw [if_neg hwrong]
      have hnever : ∀ x, ¬ Wrong (.ok sw) x := by
        rintro x ⟨sw', hsw, hx⟩
        rw [← Except.ok.inj hsw, StatusWord.pinRetriesRemaining, if_neg hwrong] at hx
        cases hx
      refine .inr (.inr ⟨hnever, ?_⟩)
      split
      · exact ⟨_, rfl, nofun⟩
      · exact ⟨_, rfl, nofun⟩

theorem takePin_cases {ω : Type} (env : EcdhEnv ω) (retries : Option UInt8) (s : CardEcdh ω) :
    (∃ w pin asked, CardEcdh.takePin env retries s = (some pin, asked, ⟨s.guid, none, w⟩) ∧
      Taken s.guid retries pin s.cachedPin asked) ∨
    (∃ w, CardEcdh.takePin env retries s =
      (none, [.asked ⟨s.guid, slot9d, retries⟩ none], ⟨s.guid, none, w⟩) ∧ s.cachedPin = none) := by
  rw [CardEcdh.takePin]
  rcases hkept : s.cachedPin with _ | pin
  · rcases hanswer : env.pin s.world ⟨s.guid, slot9d, retries⟩ with ⟨_ | pin, w⟩
    · exact .inr ⟨w, by simp only [hanswer], rfl⟩
    · exact .inl ⟨w, pin, _, by simp only [hanswer], .given⟩
  · exact .inl ⟨s.world, pin, [], rfl, .kept⟩

/-- A PIN that is too long is not sent; any other one is, and what comes of it is what the card
answers. -/
theorem sendPin_cases {ω : Type} (env : EcdhEnv ω) (pin : String) (s : CardEcdh ω) :
    (∃ e, CardEcdh.sendPin env pin s = (.error (.other e), [], s)) ∨
    (∃ answer w, CardEcdh.sendPin env pin s =
      (verifyAnswer answer, [.sent pin answer], { s with world := w })) := by
  rw [CardEcdh.sendPin]
  split
  · exact .inl ⟨_, rfl⟩
  · exact .inr ⟨_, _, rfl⟩

/-- It is the verification of a session, with the answer kept. -/
theorem sendPin_eq_verifyPin {ω : Type} (env : EcdhEnv ω) (pin : String) (s : CardEcdh ω) :
    (CardEcdh.sendPin env pin s).1 = (verifyPin env.toPivEnv s.guid pin s.world).1 ∧
      (CardEcdh.sendPin env pin s).2.2.world = (verifyPin env.toPivEnv s.guid pin s.world).2.2 := by
  rw [CardEcdh.sendPin, verifyPin]
  split
  · exact ⟨rfl, rfl⟩
  · exact ⟨rfl, rfl⟩

theorem retriesLeft_ofNat (x : UInt8) : CardEcdh.retriesLeft (UInt32.ofNat x.toNat) = x := by
  have hlt : x.toNat < 256 := x.toNat_lt
  have hnumber : (UInt32.ofNat x.toNat).toNat = x.toNat :=
    UInt32.toNat_ofNat_of_lt' (by omega : x.toNat < 2 ^ 32)
  rw [CardEcdh.retriesLeft, hnumber, if_pos hlt, UInt8.ofNat_toNat]

theorem verifyLoop_tries {ω : Type} (env : EcdhEnv ω) (fuel : Nat) (retries : Option UInt8)
    (s : CardEcdh ω) :
    Tries s.guid retries s.cachedPin (CardEcdh.verifyLoop env fuel retries s).2.1
        (CardEcdh.verifyLoop env fuel retries s).2.2.cachedPin
        (CardEcdh.verifyLoop env fuel retries s).1.isSome ∧
      (CardEcdh.verifyLoop env fuel retries s).2.2.guid = s.guid := by
  induction fuel generalizing retries s with
  | zero => exact ⟨.underway retries s.cachedPin, rfl⟩
  | succ fuel ih =>
    rw [CardEcdh.verifyLoop]
    rcases takePin_cases env retries s with ⟨w, pin, asked, htake, htaken⟩ | ⟨w, htake, hnone⟩
    · rw [htake]
      dsimp only
      rcases sendPin_cases env pin ⟨s.guid, none, w⟩ with ⟨e, hsend⟩ | ⟨answer, w', hsend⟩
      · rw [hsend]
        dsimp only
        rw [List.append_nil]
        exact ⟨.unsent htaken, rfl⟩
      rw [hsend]
      rcases verifyAnswer_cases answer with ⟨haccepted, hverify⟩ | ⟨n, hverify, hwrong⟩ |
        ⟨hnever, e, hverify, hother⟩
      · rw [hverify]
        exact ⟨.accepted htaken haccepted, rfl⟩
      · rw [hverify]
        dsimp only
        obtain ⟨hmore, hguid⟩ := ih (some (CardEcdh.retriesLeft n)) ⟨s.guid, none, w'⟩
        rw [List.append_assoc, List.singleton_append]
        refine ⟨.again htaken (fun x hx => ?_) hmore, hguid⟩
        rw [hwrong x hx, retriesLeft_ofNat]
      · have hfailed : Tries s.guid retries s.cachedPin (asked ++ [.sent pin answer]) none true :=
          .failed htaken hnever
        rw [hverify]
        cases e with
        | pinIncorrect n => exact absurd rfl (hother n)
        | pinBlocked => exact ⟨hfailed, rfl⟩
        | _ => exact ⟨hfailed, rfl⟩
    · rw [htake, hnone]
      exact ⟨.declined retries, rfl⟩

/-! ## What a call does -/

/-- The slot holds the key of a recipient. -/
def Holds (fromSec1 : Bytes → Except String Bytes) (recipient : Bytes) (slot : PivSlot) : Prop :=
  ∃ want, uncompressedP256 fromSec1 recipient "recipient" = .ok want ∧ ecSec1Point slot = .ok want

/-- A call that gets no further than the slot keeps its PIN where it is. Any other one has found
the recipient in the slot. -/
inductive CallShape {ω : Type} (fromSec1 : Bytes → Except String Bytes) (recipient : Bytes)
    (s : CardEcdh ω) : Option (Except CardEcdhError Bytes) → List EcdhEvent → CardEcdh ω → Prop where
  | refused {e : CardEcdhError} {events : List EcdhEvent} {s' : CardEcdh ω}
      (hevents : events = [] ∨ ∃ slot, events = [.slotRead slot]) (hguid : s'.guid = s.guid)
      (hkept : s'.cachedPin = s.cachedPin) :
      CallShape fromSec1 recipient s (some (.error e)) events s'
  | tried {answer : Option (Except CardEcdhError Bytes)} {slot : PivSlot}
      {events : List EcdhEvent} {s' : CardEcdh ω} (hholds : Holds fromSec1 recipient slot)
      (hguid : s'.guid = s.guid)
      (htries : Tries s.guid none s.cachedPin events s'.cachedPin answer.isSome) :
      CallShape fromSec1 recipient s answer (.slotRead (.ok slot) :: events) s'

/-- What a call does does not depend on the world in which it starts. -/
theorem CallShape.of_world {ω : Type} {fromSec1 : Bytes → Except String Bytes} {recipient : Bytes}
    {s s' : CardEcdh ω} {w : ω} {answer : Option (Except CardEcdhError Bytes)}
    {events : List EcdhEvent}
    (h : CallShape fromSec1 recipient { s with world := w } answer events s') :
    CallShape fromSec1 recipient s answer events s' := by
  cases h with
  | refused hevents hguid hkept => exact .refused hevents hguid hkept
  | tried hholds hguid htries => exact .tried hholds hguid htries

theorem derive_kept {ω : Type} (env : EcdhEnv ω) (slot : PivSlot) (partner : Bytes)
    (s : CardEcdh ω) : (CardEcdh.derive env slot partner s).2.cachedPin = s.cachedPin ∧
      (CardEcdh.derive env slot partner s).2.guid = s.guid := by
  rw [CardEcdh.derive]
  rcases env.ecdhDerive s.world s.guid slot partner with ⟨e | response, w⟩
  · exact ⟨rfl, rfl⟩
  · dsimp only
    rcases env.endSession w s.guid .resetCard with ⟨e | ⟨⟩, w'⟩
    · exact ⟨rfl, rfl⟩
    · exact ⟨rfl, rfl⟩

theorem inSession_shape {ω : Type} (env : EcdhEnv ω) (fromSec1 : Bytes → Except String Bytes)
    (fuel : Nat) {recipient want : Bytes}
    (hwant : uncompressedP256 fromSec1 recipient "recipient" = .ok want) (partner : Bytes)
    (s : CardEcdh ω) :
    CallShape fromSec1 recipient s (CardEcdh.inSession env fuel want partner s).1
      (CardEcdh.inSession env fuel want partner s).2.1
      (CardEcdh.inSession env fuel want partner s).2.2 := by
  rw [CardEcdh.inSession]
  rcases env.readSlot s.world s.guid slot9d with ⟨e | slot, w⟩
  · exact .refused (.inr ⟨_, rfl⟩) rfl rfl
  dsimp only
  rcases hpoint : ecSec1Point slot with e | point
  · exact .refused (.inr ⟨_, rfl⟩) rfl rfl
  dsimp only
  by_cases hsame : point = want
  · rw [if_neg (not_not_intro hsame)]
    have hholds : Holds fromSec1 recipient slot := ⟨want, hwant, hsame ▸ hpoint⟩
    obtain ⟨htries, hguid⟩ := verifyLoop_tries env fuel none { s with world := w }
    rcases hloop : CardEcdh.verifyLoop env fuel none { s with world := w } with
      ⟨_ | e | ⟨⟩, events, s'⟩
    all_goals rw [hloop] at htries hguid
    · exact .tried hholds hguid htries
    · exact .tried hholds hguid htries
    · obtain ⟨hkept, hsameGuid⟩ := derive_kept env slot partner s'
      exact .tried hholds (hsameGuid.trans hguid) (hkept ▸ htries)
  · rw [if_pos hsame]
    exact .refused (.inr ⟨_, rfl⟩) rfl rfl

theorem ecdh_shape {ω : Type} (env : EcdhEnv ω) (fromSec1 : Bytes → Except String Bytes)
    (fuel : Nat) (call : EcdhCall) (s : CardEcdh ω) :
    CallShape fromSec1 call.recipient s (CardEcdh.ecdh env fromSec1 fuel call s).1
      (CardEcdh.ecdh env fromSec1 fuel call s).2.1
      (CardEcdh.ecdh env fromSec1 fuel call s).2.2 := by
  rw [CardEcdh.ecdh]
  rcases hwant : uncompressedP256 fromSec1 call.recipient "recipient" with e | want
  · exact .refused (.inl rfl) rfl rfl
  dsimp only
  rcases uncompressedP256 fromSec1 call.partner "partner key" with e | partner
  · exact .refused (.inl rfl) rfl rfl
  dsimp only
  rcases env.beginPinSession s.world s.guid with ⟨e | ⟨⟩, w⟩
  · exact .refused (.inl rfl) rfl rfl
  · exact (inSession_shape env fromSec1 fuel hwant partner { s with world := w }).of_world

end Piggy.Piv
