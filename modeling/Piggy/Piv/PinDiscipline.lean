import Piggy.Core.Lists
import Piggy.Piv.CardEcdh

/-!
# The PINs of a card over many calls

Which PINs are asked for and which are sent, in the calls that are made one after another. A PIN
stands in the log where it is sent, behind what was asked, and behind everything that earlier
calls have left there.
-/

namespace Piggy.Piv

open Piggy.Core Piggy.Box Piggy.Card

/-! ## Logs -/

/-- A PIN that was sent, and what the card said to it. -/
def EcdhEvent.sentPin : EcdhEvent → Option (String × Except PivError StatusWord)
  | .sent pin answer => some (pin, answer)
  | _ => none

/-- The event asks for a PIN. -/
def EcdhEvent.isAsked : EcdhEvent → Bool
  | .asked _ _ => true
  | _ => false

/-- The event sends a PIN. -/
def EcdhEvent.isSent (e : EcdhEvent) : Bool := e.sentPin.isSome

/-- The PINs that were sent, with the answers. -/
def pinsSent (events : List EcdhEvent) : List (String × Except PivError StatusWord) :=
  events.filterMap EcdhEvent.sentPin

/-- What the card said at the most recent VERIFY that carried a PIN. -/
def lastAnswer (pin : String) (events : List EcdhEvent) : Option (Except PivError StatusWord) :=
  (((pinsSent events).filter fun x => x.1 = pin).getLast?).map Prod.snd

/-- What happened in all calls. -/
def allEvents (history : List EcdhRecord) : List EcdhEvent := history.flatMap EcdhRecord.events

/-- The discipline of the PINs, over all calls that were made. -/
structure Discipline (fromSec1 : Bytes → Except String Bytes) (history : List EcdhRecord) :
    Prop where
  /-- The source is asked only after the slot was read, and the slot holds the recipient. -/
  rightCard : ∀ record ∈ history, ∀ pre request answer post,
    record.events = pre ++ .asked request answer :: post →
    ∃ slot rest, pre = .slotRead (.ok slot) :: rest ∧ Holds fromSec1 record.recipient slot
  /-- A wrong PIN is sent again only if the source gives it again. -/
  wrongForgotten : ∀ pre pin answer x mid answer' post,
    allEvents history = pre ++ .sent pin answer :: (mid ++ .sent pin answer' :: post) →
    Wrong answer x → ∃ request, .asked request (some pin) ∈ mid
  /-- The next question after a wrong PIN says how many tries are left. -/
  nextCarries : ∀ pre pin answer x mid request answer' post,
    allEvents history = pre ++ .sent pin answer :: (mid ++ .asked request answer' :: post) →
    Wrong answer x → (∀ e ∈ mid, e.isAsked = false) → request.retriesRemaining = some x
  /-- A PIN that is sent but was not just given by the source was accepted when it was sent last,
  and that was in an earlier call. -/
  unaskedAccepted : ∀ before record after pre pin answer post,
    history = before ++ record :: after → record.events = pre ++ .sent pin answer :: post →
    (∀ request, pre.getLast? ≠ some (.asked request (some pin))) →
    ∃ answer', lastAnswer pin (allEvents before) = some answer' ∧ Accepted answer'
  /-- A call sends one PIN more than it asks for, or fewer. -/
  sentBounded : ∀ record ∈ history,
    record.events.countP EcdhEvent.isSent ≤ record.events.countP EcdhEvent.isAsked + 1

@[simp]
theorem pinsSent_append (events events' : List EcdhEvent) :
    pinsSent (events ++ events') = pinsSent events ++ pinsSent events' := List.filterMap_append

theorem getLast?_pinsSent_append {events : List EcdhEvent}
    {x : String × Except PivError StatusWord} (front : List EcdhEvent)
    (h : (pinsSent events).getLast? = some x) :
    (pinsSent (front ++ events)).getLast? = some x := by
  rw [pinsSent_append, List.getLast?_append, h]
  rfl

/-- A PIN that was sent stands somewhere in the log, and none was sent behind the last one. -/
theorem getLast?_pinsSent {events : List EcdhEvent} {pin : String}
    {answer : Except PivError StatusWord} (h : (pinsSent events).getLast? = some (pin, answer)) :
    ∃ front back, events = front ++ .sent pin answer :: back := by
  obtain ⟨e, he, hpin⟩ := List.mem_filterMap.mp (List.mem_of_getLast? h)
  obtain ⟨front, back, rfl⟩ := List.mem_iff_append.mp he
  cases e with
  | slotRead slot => cases hpin
  | asked request answer' => cases hpin
  | sent pin' answer' =>
    cases hpin
    exact ⟨front, back, rfl⟩

/-- The last PIN that was sent is the last one of its kind. -/
theorem lastAnswer_of_last {events : List EcdhEvent} {pin : String}
    {answer : Except PivError StatusWord} (h : (pinsSent events).getLast? = some (pin, answer)) :
    lastAnswer pin events = some answer := by
  obtain ⟨earlier, hearlier⟩ := List.getLast?_eq_some_iff.mp h
  rw [lastAnswer, hearlier, List.filter_append]
  simp

/-! ## One loop -/

section

variable {guid : Guid} {retries : Option UInt8} {kept kept' : Option String}
  {events : List EcdhEvent} {done : Bool}

/-- A loop without a PIN asks for one first. -/
theorem Tries.starts_asking (h : Tries guid retries none events kept' done) :
    (events = [] ∧ done = false) ∨
      ∃ answer rest, events = .asked ⟨guid, slot9d, retries⟩ answer :: rest := by
  cases h with
  | underway => exact .inl ⟨rfl, rfl⟩
  | declined => exact .inr ⟨_, _, rfl⟩
  | unsent htaken =>
    cases htaken
    exact .inr ⟨_, _, rfl⟩
  | accepted htaken =>
    cases htaken
    exact .inr ⟨_, _, rfl⟩
  | failed htaken =>
    cases htaken
    exact .inr ⟨_, _, rfl⟩
  | again htaken =>
    cases htaken
    exact .inr ⟨_, _, rfl⟩

/-- Behind what was asked there is one PIN, and then the rest. -/
theorem Taken.split {pin pin' : String} {asked pre post : List EcdhEvent}
    {answer answer' : Except PivError StatusWord} (h : Taken guid retries pin kept asked)
    (hsplit : asked ++ .sent pin answer :: events = pre ++ .sent pin' answer' :: post) :
    (pre = asked ∧ pin = pin' ∧ answer = answer' ∧ events = post) ∨
      ∃ pre', pre = asked ++ .sent pin answer :: pre' ∧
        events = pre' ++ .sent pin' answer' :: post := by
  have hone : ∀ {pre : List EcdhEvent},
      .sent pin answer :: events = pre ++ .sent pin' answer' :: post →
      (pre = [] ∧ pin = pin' ∧ answer = answer' ∧ events = post) ∨
        ∃ pre', pre = .sent pin answer :: pre' ∧ events = pre' ++ .sent pin' answer' :: post := by
    intro pre h
    rcases pre with _ | ⟨e, pre⟩
    · cases h
      exact .inl ⟨rfl, rfl, rfl, rfl⟩
    · obtain ⟨rfl, hrest⟩ := List.cons.inj h
      exact .inr ⟨pre, rfl, hrest⟩
  cases h with
  | kept => exact hone hsplit
  | given =>
    rcases pre with _ | ⟨e, pre⟩
    · cases hsplit
    · obtain ⟨rfl, hrest⟩ := List.cons.inj hsplit
      rcases hone hrest with ⟨rfl, hsame⟩ | ⟨pre', rfl, hevents⟩
      · exact .inl ⟨rfl, hsame⟩
      · exact .inr ⟨pre', rfl, hevents⟩

theorem Taken.not_sent {pin pin' : String} {asked pre post : List EcdhEvent}
    {answer : Except PivError StatusWord} (h : Taken guid retries pin kept asked) :
    asked ≠ pre ++ .sent pin' answer :: post := by
  rintro rfl
  generalize hsplit : pre ++ .sent pin' answer :: post = asked at h
  cases h with
  | kept => cases pre <;> cases hsplit
  | given =>
    rcases pre with _ | ⟨e, pre⟩
    · cases hsplit
    · cases pre <;> cases (List.cons.inj hsplit).2

/-- Where a PIN comes from: it is the first that is sent and was kept, or the source has just
given it. -/
def Supplied (kept : Option String) (pre : List EcdhEvent) (pin : String) : Prop :=
  (pre = [] ∧ kept = some pin) ∨ ∃ pre' request, pre = pre' ++ [.asked request (some pin)]

theorem Taken.supplied {pin : String} {asked : List EcdhEvent}
    (h : Taken guid retries pin kept asked) : Supplied kept asked pin := by
  cases h with
  | kept => exact .inl ⟨rfl, rfl⟩
  | given => exact .inr ⟨[], _, rfl⟩

theorem Supplied.behind {pin : String} {pre : List EcdhEvent} (h : Supplied none pre pin)
    (front : List EcdhEvent) : Supplied kept (front ++ pre) pin := by
  rcases h with ⟨-, hnone⟩ | ⟨pre', request, rfl⟩
  · cases hnone
  · exact .inr ⟨front ++ pre', request, (List.append_assoc _ _ _).symm⟩

/-- Behind a wrong PIN the source is asked, unless the loop goes no further. -/
def FollowedUp (answer : Except PivError StatusWord) (post : List EcdhEvent) (done : Bool) : Prop :=
  ∀ x, Wrong answer x → (post = [] ∧ done = false) ∨
    ∃ request answer' rest, post = .asked request answer' :: rest ∧
      request.retriesRemaining = some x

/-- A PIN in the log of a loop: where it comes from, and what follows it. -/
theorem Tries.sent_split (h : Tries guid retries kept events kept' done) {pin : String}
    {answer : Except PivError StatusWord} {pre post : List EcdhEvent}
    (hsplit : events = pre ++ .sent pin answer :: post) :
    Supplied kept pre pin ∧ FollowedUp answer post done := by
  induction h generalizing pre with
  | underway => cases pre <;> cases hsplit
  | declined =>
    rcases pre with _ | ⟨e, pre⟩
    · cases hsplit
    · cases pre <;> cases (List.cons.inj hsplit).2
  | unsent htaken => exact absurd hsplit htaken.not_sent
  | accepted htaken haccepted =>
    rcases htaken.split hsplit with ⟨rfl, rfl, rfl, rfl⟩ | ⟨pre', -, hnone⟩
    · exact ⟨htaken.supplied, fun x hx => absurd haccepted (not_accepted_of_wrong hx)⟩
    · cases pre' <;> cases hnone
  | failed htaken hnever =>
    rcases htaken.split hsplit with ⟨rfl, rfl, rfl, rfl⟩ | ⟨pre', -, hnone⟩
    · exact ⟨htaken.supplied, fun x hx => absurd hx (hnever x)⟩
    · cases pre' <;> cases hnone
  | again htaken hwrong hmore ih =>
    rcases htaken.split hsplit with ⟨rfl, rfl, rfl, rfl⟩ | ⟨pre', rfl, hrest⟩
    · refine ⟨htaken.supplied, fun x hx => ?_⟩
      rcases hmore.starts_asking with hstopped | ⟨answer', rest, hasked⟩
      · exact .inl hstopped
      · exact .inr ⟨_, answer', rest, hasked, congrArg some (hwrong x hx).symm⟩
    · obtain ⟨hsupplied, hfollowed⟩ := ih hrest
      rw [List.append_cons]
      exact ⟨hsupplied.behind _, hfollowed⟩

/-- The PIN that a loop keeps is the last one that it has sent, and was accepted. -/
theorem Tries.kept_last (h : Tries guid retries kept events kept' true) {pin : String}
    (hkept : kept' = some pin) :
    ∃ answer, (pinsSent events).getLast? = some (pin, answer) ∧ Accepted answer := by
  generalize hdone : true = done at h
  induction h with
  | underway => cases hdone
  | declined => cases hkept
  | unsent htaken => cases hkept
  | accepted htaken haccepted =>
    cases hkept
    refine ⟨_, ?_, haccepted⟩
    rw [pinsSent_append]
    exact List.getLast?_concat
  | failed htaken hnever => cases hkept
  | again htaken _ _ ih =>
    obtain ⟨answer, hlast, haccepted⟩ := ih hkept hdone
    rw [List.append_cons]
    exact ⟨answer, getLast?_pinsSent_append _ hlast, haccepted⟩

/-- What was asked and sent before the rest is counted with it. -/
theorem countP_append_sent (asked : List EcdhEvent) (pin : String)
    (answer : Except PivError StatusWord) (events : List EcdhEvent) :
    (asked ++ .sent pin answer :: events).countP EcdhEvent.isSent =
        asked.countP EcdhEvent.isSent + (events.countP EcdhEvent.isSent + 1) ∧
      (asked ++ .sent pin answer :: events).countP EcdhEvent.isAsked =
        asked.countP EcdhEvent.isAsked + events.countP EcdhEvent.isAsked := by
  rw [List.countP_append, List.countP_append]
  exact ⟨congrArg _ (List.countP_cons_of_pos rfl),
    congrArg _ (List.countP_cons_of_neg Bool.false_ne_true)⟩

theorem Taken.count {pin : String} {asked : List EcdhEvent}
    (h : Taken guid retries pin kept asked) : asked.countP EcdhEvent.isSent = 0 ∧
      asked.countP EcdhEvent.isAsked + kept.toList.length = 1 := by
  cases h with
  | kept => exact ⟨rfl, rfl⟩
  | given => exact ⟨rfl, rfl⟩

/-- A loop sends no more PINs than it has: the one that is kept and those it is given. -/
theorem Tries.count (h : Tries guid retries kept events kept' done) :
    events.countP EcdhEvent.isSent ≤
      events.countP EcdhEvent.isAsked + kept.toList.length := by
  have hend : ∀ {pin : String} {asked : List EcdhEvent} {kept : Option String}
      {retries : Option UInt8} (answer : Except PivError StatusWord) (events : List EcdhEvent),
      Taken guid retries pin kept asked →
      events.countP EcdhEvent.isSent ≤ events.countP EcdhEvent.isAsked →
      (asked ++ .sent pin answer :: events).countP EcdhEvent.isSent ≤
        (asked ++ .sent pin answer :: events).countP EcdhEvent.isAsked + kept.toList.length := by
    intro pin asked kept retries answer events htaken hevents
    obtain ⟨hsent, hasked⟩ := countP_append_sent asked pin answer events
    obtain ⟨hnone, hone⟩ := htaken.count
    omega
  induction h with
  | underway => exact Nat.zero_le _
  | declined => exact Nat.zero_le _
  | unsent htaken =>
    rw [htaken.count.1]
    exact Nat.zero_le _
  | accepted htaken _ => exact hend _ [] htaken le_rfl
  | failed htaken _ => exact hend _ [] htaken le_rfl
  | again htaken _ _ ih => exact hend _ _ htaken (by simpa using ih)

end

/-! ## One call -/

section

variable {ω : Type} {fromSec1 : Bytes → Except String Bytes} {recipient : Bytes}
  {s s' : CardEcdh ω} {result : Option (Except CardEcdhError Bytes)} {events : List EcdhEvent}

/-- A call that gets no further than the slot neither asks nor sends. -/
theorem not_sent_of_refused (hevents : events = [] ∨ ∃ slot, events = [.slotRead slot])
    {e : EcdhEvent} {pre post : List EcdhEvent} (hsplit : events = pre ++ e :: post) :
    e.isAsked = false ∧ e.isSent = false := by
  rcases hevents with rfl | ⟨slot, rfl⟩
  · cases pre <;> cases hsplit
  · rcases pre with _ | ⟨e', pre⟩
    · cases hsplit
      exact ⟨rfl, rfl⟩
    · cases pre <;> cases (List.cons.inj hsplit).2

theorem CallShape.sent_split (h : CallShape fromSec1 recipient s result events s') {pin : String}
    {answer : Except PivError StatusWord} {pre post : List EcdhEvent}
    (hsplit : events = pre ++ .sent pin answer :: post) :
    ((pinsSent pre = [] ∧ s.cachedPin = some pin) ∨
        ∃ pre' request, pre = pre' ++ [.asked request (some pin)]) ∧
      FollowedUp answer post result.isSome := by
  cases h with
  | refused hevents => cases (not_sent_of_refused hevents hsplit).2
  | tried hholds hguid htries =>
    rcases pre with _ | ⟨e, pre⟩
    · cases hsplit
    · obtain ⟨rfl, hrest⟩ := List.cons.inj hsplit
      obtain ⟨hsupplied, hfollowed⟩ := htries.sent_split hrest
      refine ⟨?_, hfollowed⟩
      rcases hsupplied with ⟨rfl, hkept⟩ | ⟨pre', request, rfl⟩
      · exact .inl ⟨rfl, hkept⟩
      · exact .inr ⟨_ :: pre', request, rfl⟩

theorem CallShape.asked_split (h : CallShape fromSec1 recipient s result events s')
    {request : PinRequest} {answer : Option String} {pre post : List EcdhEvent}
    (hsplit : events = pre ++ .asked request answer :: post) :
    ∃ slot rest, pre = .slotRead (.ok slot) :: rest ∧ Holds fromSec1 recipient slot := by
  cases h with
  | refused hevents => cases (not_sent_of_refused hevents hsplit).1
  | tried hholds hguid htries =>
    rcases pre with _ | ⟨e, pre⟩
    · cases hsplit
    · obtain ⟨rfl, -⟩ := List.cons.inj hsplit
      exact ⟨_, pre, rfl, hholds⟩

theorem CallShape.count (h : CallShape fromSec1 recipient s result events s') :
    events.countP EcdhEvent.isSent ≤ events.countP EcdhEvent.isAsked + 1 := by
  cases h with
  | refused hevents =>
    rcases hevents with rfl | ⟨slot, rfl⟩
    · exact Nat.zero_le _
    · exact Nat.zero_le _
  | tried hholds hguid htries =>
    have hcount := htries.count
    have hkept : s.cachedPin.toList.length ≤ 1 := by
      cases s.cachedPin with
      | none => exact Nat.zero_le _
      | some pin => exact le_rfl
    rw [List.countP_cons_of_neg Bool.false_ne_true, List.countP_cons_of_neg Bool.false_ne_true]
    omega

/-- The PIN that is kept is the last one that was sent, and was accepted. -/
def KeptAccepted (earlier : List EcdhEvent) (kept : Option String) : Prop :=
  ∀ pin, kept = some pin →
    ∃ answer, (pinsSent earlier).getLast? = some (pin, answer) ∧ Accepted answer

theorem CallShape.keptAccepted {answer : Except CardEcdhError Bytes}
    (h : CallShape fromSec1 recipient s (some answer) events s') {earlier : List EcdhEvent}
    (hkept : KeptAccepted earlier s.cachedPin) : KeptAccepted (earlier ++ events) s'.cachedPin := by
  intro pin hpin
  cases h with
  | refused hevents hguid hsame =>
    obtain ⟨answer, hlast, haccepted⟩ := hkept pin (hsame ▸ hpin)
    have hnone : pinsSent events = [] := by
      rcases hevents with rfl | ⟨slot, rfl⟩
      · rfl
      · rfl
    refine ⟨answer, ?_, haccepted⟩
    rw [pinsSent_append, hnone, List.append_nil, hlast]
  | tried hholds hguid htries =>
    obtain ⟨answer, hlast, haccepted⟩ := htries.kept_last hpin
    rw [List.append_cons]
    exact ⟨answer, getLast?_pinsSent_append _ hlast, haccepted⟩

end

/-! ## Many calls -/

/-- Calls one after another, of which only the last may be under way. -/
inductive Calls {ω : Type} (fromSec1 : Bytes → Except String Bytes) :
    CardEcdh ω → List EcdhRecord → Prop where
  | nil (s : CardEcdh ω) : Calls fromSec1 s []
  | underway {s s' : CardEcdh ω} {recipient : Bytes} {events : List EcdhEvent}
      (h : CallShape fromSec1 recipient s none events s') :
      Calls fromSec1 s [⟨recipient, events, none⟩]
  | answered {s s' : CardEcdh ω} {recipient : Bytes} {events : List EcdhEvent}
      {answer : Except CardEcdhError Bytes} {history : List EcdhRecord}
      (h : CallShape fromSec1 recipient s (some answer) events s')
      (hrest : Calls fromSec1 s' history) :
      Calls fromSec1 s (⟨recipient, events, some answer⟩ :: history)

theorem ecdhHistory_calls {ω : Type} (env : EcdhEnv ω) (fromSec1 : Bytes → Except String Bytes)
    (fuel : Nat) (calls : List EcdhCall) (s : CardEcdh ω) :
    Calls fromSec1 s (ecdhHistory env fromSec1 fuel calls s) := by
  induction calls generalizing s with
  | nil => exact .nil s
  | cons call calls ih =>
    have hshape := ecdh_shape env fromSec1 fuel call s
    rw [ecdhHistory]
    rcases hcall : CardEcdh.ecdh env fromSec1 fuel call s with ⟨_ | answer, events, s'⟩
    all_goals rw [hcall] at hshape
    · exact .underway hshape
    · exact .answered hshape (ih s')

section

variable {ω : Type} {fromSec1 : Bytes → Except String Bytes} {s : CardEcdh ω}
  {history : List EcdhRecord}

theorem Calls.record (h : Calls fromSec1 s history) {record : EcdhRecord}
    (hmem : record ∈ history) : ∃ (before after : CardEcdh ω),
      CallShape fromSec1 record.recipient before record.answer record.events after := by
  induction h with
  | nil => cases hmem
  | underway h =>
    obtain rfl := List.mem_singleton.mp hmem
    exact ⟨_, _, h⟩
  | answered h _ ih =>
    rcases List.mem_cons.mp hmem with rfl | hmem
    · exact ⟨_, _, h⟩
    · exact ih hmem

/-- A PIN that the source has not just given is the last one that was sent before. -/
theorem Calls.sent_split (h : Calls fromSec1 s history) {earlier : List EcdhEvent}
    (hkept : KeptAccepted earlier s.cachedPin) {before after : List EcdhRecord}
    {record : EcdhRecord} {pre post : List EcdhEvent} {pin : String}
    {answer : Except PivError StatusWord} (hhistory : history = before ++ record :: after)
    (hsplit : record.events = pre ++ .sent pin answer :: post) :
    (pinsSent pre = [] ∧ ∃ answer', (pinsSent (earlier ++ allEvents before)).getLast? =
        some (pin, answer') ∧ Accepted answer') ∨
      ∃ pre' request, pre = pre' ++ [.asked request (some pin)] := by
  have hfirst : ∀ {s s' : CardEcdh ω} {earlier : List EcdhEvent}
      {result : Option (Except CardEcdhError Bytes)},
      CallShape fromSec1 record.recipient s result record.events s' →
      KeptAccepted earlier s.cachedPin →
      (pinsSent pre = [] ∧ ∃ answer', (pinsSent earlier).getLast? = some (pin, answer') ∧
          Accepted answer') ∨
        ∃ pre' request, pre = pre' ++ [.asked request (some pin)] := by
    intro s s' earlier result hshape hkept
    rcases (hshape.sent_split hsplit).1 with ⟨hnone, hpin⟩ | hasked
    · exact .inl ⟨hnone, hkept pin hpin⟩
    · exact .inr hasked
  induction h generalizing earlier before with
  | nil => cases before <;> cases hhistory
  | underway h =>
    rcases before with _ | ⟨record', before⟩
    · cases hhistory
      rw [allEvents, List.flatMap_nil, List.append_nil]
      exact hfirst h hkept
    · cases before <;> cases (List.cons.inj hhistory).2
  | answered h _ ih =>
    rcases before with _ | ⟨record', before⟩
    · cases hhistory
      rw [allEvents, List.flatMap_nil, List.append_nil]
      exact hfirst h hkept
    · obtain ⟨rfl, hrest⟩ := List.cons.inj hhistory
      rw [allEvents, List.flatMap_cons, ← List.append_assoc]
      exact ih (h.keptAccepted hkept) hrest

/-- Whatever follows a wrong PIN begins with a question, in the same call. -/
theorem Calls.followed (h : Calls fromSec1 s history) {pre post : List EcdhEvent} {pin : String}
    {answer : Except PivError StatusWord}
    (hsplit : allEvents history = pre ++ .sent pin answer :: post) :
    FollowedUp answer post false := by
  obtain ⟨before, record, after, pre', post', hhistory, hevents, -, rfl⟩ :=
    flatMap_eq_append_cons hsplit
  clear hsplit
  intro x hx
  induction h generalizing before with
  | nil => cases before <;> cases hhistory
  | underway h =>
    rcases before with _ | ⟨record', before⟩
    · cases hhistory
      rcases (h.sent_split hevents).2 x hx with ⟨rfl, -⟩ | ⟨request, answer', rest, rfl, hretries⟩
      · exact .inl ⟨rfl, rfl⟩
      · exact .inr ⟨request, answer', _, rfl, hretries⟩
    · cases before <;> cases (List.cons.inj hhistory).2
  | answered h _ ih =>
    rcases before with _ | ⟨record', before⟩
    · cases hhistory
      rcases (h.sent_split hevents).2 x hx with ⟨-, hdone⟩ | ⟨request, answer', rest, rfl, hretries⟩
      · cases hdone
      · exact .inr ⟨request, answer', _, rfl, hretries⟩
    · exact ih before (List.cons.inj hhistory).2

/-- A PIN that was wrong and is sent later was given by the source in between. -/
theorem Calls.given_again (h : Calls fromSec1 s history) (hkept : s.cachedPin = none)
    {pin : String} {answer answer' : Except PivError StatusWord} {x : UInt8} (hx : Wrong answer x)
    {pre mid post : List EcdhEvent}
    (hsplit : allEvents history = pre ++ .sent pin answer :: (mid ++ .sent pin answer' :: post)) :
    ∃ request, .asked request (some pin) ∈ mid := by
  -- by induction on the length of what is in between, from one VERIFY of the PIN to an earlier one
  induction hlength : mid.length using Nat.strong_induction_on generalizing mid answer' post with
  | _ n ih =>
    have hwhole : allEvents history =
        (pre ++ .sent pin answer :: mid) ++ .sent pin answer' :: post := by
      rw [hsplit, List.append_assoc, List.cons_append]
    obtain ⟨before, record, after, pre', post', hhistory, hevents, hfront, rfl⟩ :=
      flatMap_eq_append_cons hwhole
    have hnothing : KeptAccepted [] s.cachedPin := by
      intro p hp
      rw [hkept] at hp
      cases hp
    rcases h.sent_split hnothing hhistory hevents with ⟨hnone, answer'', hlast, haccepted⟩ | ⟨front, request, rfl⟩
    · have hlastFront : (pinsSent (pre ++ .sent pin answer :: mid)).getLast? =
          some (pin, answer'') := by
        rw [hfront, pinsSent_append, hnone, List.append_nil]
        exact hlast
      rcases hmid : (pinsSent mid).getLast? with _ | last
      · rw [List.getLast?_eq_none_iff] at hmid
        rw [List.append_cons, pinsSent_append, hmid, List.append_nil, pinsSent_append] at hlastFront
        have hsame : some (pin, answer) = some (pin, answer'') :=
          List.getLast?_concat.symm.trans hlastFront
        cases hsame
        exact absurd haccepted (not_accepted_of_wrong hx)
      · have hsame := getLast?_pinsSent_append (pre ++ [.sent pin answer]) hmid
        rw [← List.append_cons, hlastFront] at hsame
        cases hsame
        obtain ⟨mid', rest, rfl⟩ := getLast?_pinsSent hmid
        obtain ⟨request, hasked⟩ := ih mid'.length
          (by rw [← hlength, List.length_append, List.length_cons]; omega)
          (by rw [hsplit, List.append_assoc, List.cons_append]) rfl
        exact ⟨request, List.mem_append_left _ hasked⟩
    · have hlast := congrArg List.getLast? hfront
      rw [← List.append_assoc, List.getLast?_concat] at hlast
      rcases mid.eq_nil_or_concat' with rfl | ⟨mid, e, rfl⟩
      · rw [List.getLast?_concat] at hlast
        cases hlast
      · rw [← List.cons_append, ← List.append_assoc, List.getLast?_concat] at hlast
        cases hlast
        exact ⟨request, by simp⟩

end

/-- Whatever the card and the source of the PINs answer, the PINs of one card are kept in
discipline over all calls that are made. -/
theorem discipline_ecdhHistory {ω : Type} (env : EcdhEnv ω)
    (fromSec1 : Bytes → Except String Bytes) (fuel : Nat) (calls : List EcdhCall) (guid : Guid)
    (w : ω) :
    Discipline fromSec1 (ecdhHistory env fromSec1 fuel calls (CardEcdh.new guid w)) := by
  have hcalls := ecdhHistory_calls env fromSec1 fuel calls (CardEcdh.new guid w)
  have hnew : KeptAccepted [] (CardEcdh.new guid w).cachedPin := by
    intro pin hpin
    cases hpin
  constructor
  · intro record hrecord pre request answer post hsplit
    obtain ⟨_, _, hshape⟩ := hcalls.record hrecord
    exact hshape.asked_split hsplit
  · intro pre pin answer x mid answer' post hsplit hx
    exact hcalls.given_again rfl hx hsplit
  · intro pre pin answer x mid request answer' post hsplit hx hmid
    rcases hcalls.followed hsplit x hx with ⟨hnone, -⟩ | ⟨request', answer'', rest, hpost, hretries⟩
    · cases mid <;> cases hnone
    · rcases mid with _ | ⟨e, mid⟩
      · cases hpost
        exact hretries
      · obtain ⟨rfl, -⟩ := List.cons.inj hpost
        cases hmid _ List.mem_cons_self
  · intro before record after pre pin answer post hhistory hsplit hunasked
    rcases hcalls.sent_split hnew hhistory hsplit with ⟨-, answer', hlast, haccepted⟩ |
      ⟨pre', request, rfl⟩
    · exact ⟨answer', lastAnswer_of_last hlast, haccepted⟩
    · exact absurd List.getLast?_concat (hunasked request)
  · intro record hrecord
    obtain ⟨_, _, hshape⟩ := hcalls.record hrecord
    exact hshape.count

end Piggy.Piv
