import Piggy.Fibby.Proto
import Piggy.Fibby.VirtualCard
import Piggy.Core.Runs

/-!
# Clients that wait for a change of the readers

A client asks for the table of the readers and is armed when it gets it; eight bytes disarm it.
The table is read card by card, each under the lock of the card. The table is sent, and the
client armed, under the lock of its connection. A card that is put in or taken out counts an
event, and after that every connection is visited once; the visit wakes an armed client. The
steps of the two threads mix in any order.
-/

namespace Piggy.Fibby

open Piggy.Core Piggy.Box

variable {n : Nat}

/-! ## The table of the readers -/

/-- What is reported of a reader. -/
def VirtualCard.readerState (c : VirtualCard) : ReaderState where
  readerName := c.readerName
  eventCounter := c.eventCounter
  readerState := if c.inserted then
    ReaderFlags.present ||| ReaderFlags.powered ||| ReaderFlags.negotiable else ReaderFlags.absent
  readerSharing := 0
  cardAtr := if c.inserted then c.model.atr else []
  cardProtocol := if c.inserted then Protocol.t1 else Protocol.undefined

/-- The eight bytes that end a wait. -/
def waitNotificationBytes : Bytes := List.replicate 4 0 ++ u32Le Scard.success

@[simp] theorem length_waitNotificationBytes : waitNotificationBytes.length = 8 := by
  simp [waitNotificationBytes]

/-! ## One client -/

/-- Whether the client is being answered with the table. -/
inductive Activity where
  | idle
  /-- The table is read; so far it has these readers. -/
  | reading (states : List ReaderState)

/-- A client that waits for changes of the readers. -/
structure Waiter (n : Nat) where
  cards : Fin (n + 1) → VirtualCard
  /-- The visits that have still to come to this connection. -/
  passes : Nat
  activity : Activity
  armed : Bool
  /-- What was written to the client on behalf of its waits, the newest first. -/
  sent : List Bytes

/-- What happens to a waiting client and to the cards. -/
inductive WaitEvent (n : Nat) where
  | waitReaderState
  | readCard
  | arm
  | stopWaiting
  | setPresent (idx : Fin (n + 1)) (present : Bool)
  | notifyWaiter

namespace Waiter

/-- Wakes the client if it is armed. -/
def disarm (w : Waiter n) : Waiter n :=
  if w.armed then { w with armed := false, sent := waitNotificationBytes :: w.sent } else w

/-- The client behind an event; nothing when it is not at that point. -/
def step (w : Waiter n) : WaitEvent n → Option (Waiter n)
  | .waitReaderState =>
    match w.activity with
    | .idle => some { w with activity := .reading [] }
    | .reading _ => none
  | .readCard =>
    match w.activity with
    | .idle => none
    | .reading states =>
      if h : states.length < n + 1 then
        some { w with
          activity := .reading (states ++ [(w.cards ⟨states.length, h⟩).readerState]) }
      else none
  | .arm =>
    match w.activity with
    | .idle => none
    | .reading states =>
      if states.length = n + 1 then
        some { w with
          activity := .idle, armed := true, sent := readersStateArray states :: w.sent }
      else none
  | .stopWaiting =>
    match w.activity with
    | .idle => some w.disarm
    | .reading _ => none
  | .setPresent idx present =>
    some { w with
      cards := Function.update w.cards idx ((w.cards idx).setPresent present)
      passes := w.passes + 1 }
  | .notifyWaiter => if w.passes = 0 then none else some { w.disarm with passes := w.passes - 1 }

/-- The last table that the client got. -/
def lastArray (w : Waiter n) : Option Bytes := w.sent.find? fun bytes => bytes.length ≠ 8

/-- A table that reports the event counters as they are; it has room for sixteen readers. -/
def Current (w : Waiter n) (array : Bytes) : Prop :=
  ∀ idx : Fin (n + 1), idx.val < maxReadersContexts →
    eventCounterAt array idx.val = (w.cards idx).eventCounter

/-- An armed client to which no visit has still to come knows the event counters. -/
def Awake (w : Waiter n) : Prop :=
  w.armed = true → w.passes = 0 → ∃ array, w.lastArray = some array ∧ w.Current array

/-- When a client is armed, a visit has still to come to it, or the counters that were read are
those that the cards have. -/
def Fresh (w : Waiter n) : WaitEvent n → Prop
  | .arm => ∀ states, w.activity = .reading states → states.length = n + 1 →
    0 < w.passes ∨ ∀ (idx : Fin (n + 1)) (state : ReaderState), idx.val < maxReadersContexts →
      states[idx.val]? = some state → state.eventCounter = (w.cards idx).eventCounter
  | _ => True

/-- A client connects, whatever the cards are and whatever visits are due. -/
def Joins (w : Waiter n) : Prop := w.activity = .idle ∧ w.armed = false ∧ w.sent = []

/-! ## Steps -/

variable {w w' : Waiter n} {e : WaitEvent n}

@[simp] theorem armed_disarm : w.disarm.armed = false := by
  rw [disarm]
  split
  · rfl
  · next h => exact Bool.eq_false_of_not_eq_true h

theorem fresh_of_ne (h : e ≠ .arm) : w.Fresh e := by
  cases e with
  | arm => exact absurd rfl h
  | _ => trivial

/-- What a step can do to the flag and to what was sent: it arms the client, disarms it, or
leaves both alone. -/
theorem step_cases (h : w.step e = some w') :
    (∃ states, e = .arm ∧ w.activity = .reading states ∧ states.length = n + 1 ∧
        w' = { w with
          activity := .idle, armed := true, sent := readersStateArray states :: w.sent }) ∨
      (e ≠ .arm ∧ w'.armed = false ∧ w'.sent = w.disarm.sent) ∨
      (e ≠ .arm ∧ w'.armed = w.armed ∧ w'.sent = w.sent ∧
        (w'.passes = 0 → w.passes = 0 ∧ w'.cards = w.cards)) := by
  cases e with
  | waitReaderState =>
    rw [step] at h
    split at h
    · cases h
      exact .inr (.inr ⟨nofun, rfl, rfl, fun hnone => ⟨hnone, rfl⟩⟩)
    · cases h
  | readCard =>
    rw [step] at h
    split at h
    · cases h
    · split at h
      · cases h
        exact .inr (.inr ⟨nofun, rfl, rfl, fun hnone => ⟨hnone, rfl⟩⟩)
      · cases h
  | arm =>
    rw [step] at h
    split at h
    · cases h
    · next states hactivity =>
      split at h
      · next hlength =>
        cases h
        exact .inl ⟨states, rfl, hactivity, hlength, rfl⟩
      · cases h
  | stopWaiting =>
    rw [step] at h
    split at h
    · cases h
      exact .inr (.inl ⟨nofun, armed_disarm, rfl⟩)
    · cases h
  | setPresent idx present =>
    cases h
    exact .inr (.inr ⟨nofun, rfl, rfl, fun hnone => absurd hnone (Nat.succ_ne_zero _)⟩)
  | notifyWaiter =>
    rw [step] at h
    split at h
    · cases h
    · cases h
      exact .inr (.inl ⟨nofun, armed_disarm, rfl⟩)

/-! ## Clients that sleep -/

/-- A table that was just read is current exactly if what was read is. -/
theorem current_readersStateArray {states : List ReaderState} (hlength : states.length = n + 1) :
    w.Current (readersStateArray states) ↔
      ∀ (idx : Fin (n + 1)) (state : ReaderState), idx.val < maxReadersContexts →
        states[idx.val]? = some state → state.eventCounter = (w.cards idx).eventCounter := by
  constructor
  · intro hcurrent idx state hslot hstate
    rw [← hcurrent idx hslot, eventCounterAt_readersStateArray hstate hslot]
  · intro hread idx hslot
    have hlt : idx.val < states.length := by
      rw [hlength]
      exact idx.isLt
    have hstate := List.getElem?_eq_getElem hlt
    rw [eventCounterAt_readersStateArray hstate hslot, hread idx _ hslot hstate]

theorem lastArray_readersStateArray {states : List ReaderState} {sent : List Bytes}
    (hsent : w.sent = readersStateArray states :: sent) :
    w.lastArray = some (readersStateArray states) := by
  rw [lastArray, hsent, List.find?_cons_of_pos]
  rw [length_readersStateArray]
  rfl

/-- A step keeps a client awake exactly if it is fresh. -/
theorem awake_iff_fresh (h : w.step e = some w') (hawake : w.Awake) : w'.Awake ↔ w.Fresh e := by
  rcases step_cases h with ⟨states, rfl, hactivity, hlength, rfl⟩ | ⟨hother, hdisarmed, -⟩ |
    ⟨hother, harmed, hsent, hsame⟩
  · have hcurrent := current_readersStateArray (w := w) hlength
    constructor
    · intro hawake' states' hactivity' _
      obtain rfl : states = states' := Activity.reading.inj (hactivity.symm.trans hactivity')
      rcases Nat.eq_zero_or_pos w.passes with hnone | hpos
      · obtain ⟨array, hlast, harray⟩ := hawake' rfl hnone
        rw [lastArray_readersStateArray rfl, Option.some.injEq] at hlast
        subst hlast
        exact .inr (hcurrent.mp harray)
      · exact .inl hpos
    · intro hfresh _ hnone
      rcases hfresh states hactivity hlength with hpos | hread
      · exact absurd hnone (Nat.pos_iff_ne_zero.mp hpos)
      · exact ⟨_, lastArray_readersStateArray rfl, hcurrent.mpr hread⟩
  · refine iff_of_true ?_ (fresh_of_ne hother)
    intro harmed
    rw [hdisarmed] at harmed
    cases harmed
  · refine iff_of_true ?_ (fresh_of_ne hother)
    intro ha hnone
    obtain ⟨hbefore, hcards⟩ := hsame hnone
    obtain ⟨array, hlast, harray⟩ := hawake (harmed ▸ ha) hbefore
    refine ⟨array, ?_, ?_⟩
    · rw [lastArray, hsent]
      exact hlast
    · intro idx hslot
      rw [hcards]
      exact harray idx hslot

/-! ## Runs -/

/-- A step, with the state that it is taken in. -/
abbrev Taken (n : Nat) := Waiter n × WaitEvent n

/-- A step of the client. -/
def Steps (w : Waiter n) (taken : Taken n) (w' : Waiter n) : Prop :=
  taken.1 = w ∧ w.step taken.2 = some w'

/-- A step that ends a wait: the client is armed before it, and not after it. -/
def Ends (taken : Taken n) : Bool := taken.1.armed && (taken.1.step taken.2).any (!·.armed)

/-- One message of eight bytes was sent for each wait that ended. -/
theorem notified_of_run {log : List (Taken n)} (hrun : Run Joins Steps anyStep log w) :
    w.sent.countP (·.length = 8) = log.countP Ends := by
  refine hrun.invariant (motive := fun log w => w.sent.countP (·.length = 8) = log.countP Ends) ?_ ?_
  · rintro w ⟨-, -, hsent⟩
    rw [hsent]
    rfl
  · rintro log w ⟨w₀, e⟩ w' _ ih ⟨rfl, hstep⟩ _
    dsimp only at hstep
    have hends : Ends (w₀, e) = (w₀.armed && !w'.armed) := by
      rw [Ends, hstep]
      rfl
    rw [List.countP_cons, hends, ← ih]
    rcases step_cases hstep with ⟨states, rfl, -, -, rfl⟩ | ⟨-, hdisarmed, hsent⟩ |
      ⟨-, harmed, hsent, -⟩
    · rw [List.countP_cons, length_readersStateArray]
      simp [maxReadersContexts, ReaderState.wireLen]
    · rw [hsent, hdisarmed, disarm]
      cases w₀.armed with
      | true => simp
      | false => simp
    · rw [hsent, harmed]
      simp

theorem awake_of_run {log : List (Taken n)}
    (hrun : Run Joins Steps (fun _ w taken => w.Fresh taken.2) log w) : w.Awake := by
  refine hrun.invariant (motive := fun _ w => w.Awake) ?_ ?_
  · rintro w ⟨-, hunarmed, -⟩ harmed
    rw [hunarmed] at harmed
    cases harmed
  · rintro log w ⟨w₀, e⟩ w' _ hw ⟨rfl, hstep⟩ hfresh
    exact (awake_iff_fresh hstep hw).mpr hfresh

/-- In every state that a run reaches an armed client with no visit to come knows the event
counters, if and only if it was only armed by fresh steps; and in every run each wait that ends
is answered by one message of eight bytes. -/
theorem awake_iff_armedFresh (log : List (Taken n)) (w : Waiter n) :
    ((Run Joins Steps (fun _ w _ => w.Awake) log w ∧ w.Awake) ↔
      Run Joins Steps (fun _ w taken => w.Fresh taken.2) log w) ∧
    (Run Joins Steps anyStep log w → w.sent.countP (·.length = 8) = log.countP Ends) := by
  refine ⟨⟨?_, ?_⟩, notified_of_run⟩
  · rintro ⟨hrun, hw⟩
    induction hrun with
    | start hstart => exact .start hstart
    | @step log w w' taken _ hstep hbefore ih =>
      obtain ⟨w₀, e⟩ := taken
      obtain ⟨rfl, hstep'⟩ := hstep
      exact .step (ih hbefore) ⟨rfl, hstep'⟩ ((awake_iff_fresh hstep' hbefore).mp hw)
  · intro hrun
    refine ⟨?_, awake_of_run hrun⟩
    induction hrun with
    | start hstart => exact .start hstart
    | step hrun hstep _ ih => exact .step ih hstep (awake_of_run hrun)

/-- The card is taken out, and all are visited, after its state was read and before the client is
armed: the client sleeps on. -/
theorem not_awake_lostVisit :
    ¬ ∀ (log : List (Taken 0)) (w : Waiter 0), Run Joins Steps anyStep log w → w.Awake := by
  intro hall
  have hstart : Run Joins Steps anyStep []
      (⟨fun _ : Fin 1 => VirtualCard.withModel .yk5, 0, .idle, false, []⟩ : Waiter 0) :=
    .start ⟨rfl, rfl, rfl⟩
  have hwait := hstart.step (show Steps _ (_, .waitReaderState) _ from ⟨rfl, rfl⟩) trivial
  have hread := hwait.step (show Steps _ (_, .readCard) _ from ⟨rfl, rfl⟩) trivial
  have hremoved := hread.step (show Steps _ (_, .setPresent 0 false) _ from ⟨rfl, rfl⟩) trivial
  have hvisited := hremoved.step (show Steps _ (_, .notifyWaiter) _ from ⟨rfl, rfl⟩) trivial
  have harmed := hvisited.step (show Steps _ (_, .arm) _ from ⟨rfl, rfl⟩) trivial
  obtain ⟨array, hlast, hcurrent⟩ := hall _ _ harmed rfl rfl
  rw [lastArray_readersStateArray rfl, Option.some.injEq] at hlast
  subst hlast
  have hcounter := hcurrent 0 (by decide)
  rw [Fin.val_zero, eventCounterAt_readersStateArray rfl (by decide)] at hcounter
  exact absurd hcounter (by decide)

end Waiter

end Piggy.Fibby
