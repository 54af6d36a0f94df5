import Piggy.Fibby.Bookkeeping

/-!
# What a daemon does to one card

Of everything that happens in a daemon, a card sees the controls that name its reader and the
calls that get its lock. What it sees is a run of the card alone, so what holds in every run of
a card holds of the cards of a daemon.
-/

namespace Piggy.Fibby

open Piggy.Core Piggy.Box

variable {n : Nat}

/-! ## Cards that differ in a mark -/

/-- The card without the mark of a blocked operation. -/
def VirtualCard.unmarked (c : VirtualCard) : VirtualCard := { c with touchBlocked := none }

/-- An event of a card. The mark of a blocked operation may be taken off behind it. -/
def Entry.Acts (crypto : CardCrypto) (c : VirtualCard) (e : Entry) (c' : VirtualCard) : Prop :=
  e.card = c ∧ c'.unmarked = (c.after crypto e.event).unmarked

theorem Entry.Step.acts {c c' : VirtualCard} {e : Entry} (h : Entry.Step crypto c e c') :
    Entry.Acts crypto c e c' := ⟨h.1, congrArg VirtualCard.unmarked h.2⟩

/-! ## What a card sees -/

/-- What a control operation is for the card. -/
def CardControl.event : CardControl → CardEvent
  | setPresent present => .setPresent present
  | injectFault fault => .injectFault fault
  | clearFaults => .clearFaults
  | grantTouch => .grantTouch

/-- What a call is for the card. -/
def CardCall.event (around : VirtualCard.Surroundings) : CardCall → CardEvent
  | connect _ _ => .connect
  | disconnect disposition => .disconnect disposition
  | endTransaction disposition => .endTransaction disposition
  | transmit apdu => .transmit apdu around

/-- The call of a card among what a step does. -/
def Effect.callOn (idx : Fin (n + 1)) : Effect n → Option CardCall
  | called idx' _ call => if idx' = idx then some call else none
  | _ => none

/-- A step of the daemon, with the daemon that takes it. -/
structure Act (n : Nat) where
  daemon : Daemon n VirtualCard
  event : Event VirtualCard.Surroundings
  effects : List (Effect n)

namespace Act

/-- The step is one of the daemon from the one state to the other. -/
def Step (crypto : CardCrypto) (s : Daemon n VirtualCard) (a : Act n) (s' : Daemon n VirtualCard) :
    Prop :=
  a.daemon = s ∧ s.step (VirtualCard.backend crypto) a.event = some (s', a.effects)

/-- What a card sees of a step. -/
def on (crypto : CardCrypto) (idx : Fin (n + 1)) (a : Act n) : Option Entry :=
  match a.event with
  | .control name op =>
    if a.daemon.findBackend (VirtualCard.backend crypto) name = some idx then
      some ⟨a.daemon.cards idx, op.event⟩ else none
  | .proceed _ around =>
    (a.effects.findSome? (·.callOn idx)).map fun call => ⟨a.daemon.cards idx, call.event around⟩
  | _ => none

end Act

/-! ## Steps that call no card -/

namespace Daemon

section Commands

variable {β ι : Type} {B : Backend β ι} {s : Daemon n β} {i : Nat} {c : Conn n}
  {body payload : Bytes}

@[simp] theorem cards_setConn (s : Daemon n β) (i : Nat) (c : Conn n) :
    (s.setConn i c).cards = s.cards := rfl

@[simp] theorem cards_setShare (s : Daemon n β) (idx : Fin (n + 1)) (share : CardShare) :
    (s.setShare idx share).cards = s.cards := rfl

@[simp] theorem cards_setCard (s : Daemon n β) (idx idx' : Fin (n + 1)) (card : β) :
    (s.setCard idx card).cards idx' = if idx' = idx then card else s.cards idx' :=
  Function.update_apply _ _ _ _

theorem cards_handshake {code : UInt32} : (s.handshake i c code body).1.cards = s.cards := by
  rw [handshake]
  split
  · rfl
  · split
    · rfl
    · rfl

theorem cards_connect : (s.connect B i c body).1.cards = s.cards := by
  rw [connect]
  split
  · rfl
  · split
    · rfl
    · split
      · rfl
      · rfl

theorem cards_reconnect : (s.reconnect i c body).1.cards = s.cards := by
  rw [reconnect]
  split
  · rfl
  · dsimp only
    split
    · rfl
    · rfl

theorem cards_disconnect : (s.disconnect i c body).1.cards = s.cards := by
  rw [disconnect]
  split
  · rfl
  · dsimp only
    split
    · rfl
    · rfl

theorem cards_transmit : (s.transmit i c body payload).1.cards = s.cards := by
  rw [transmit]
  split
  · rfl
  · split
    · rfl
    · dsimp only
      split
      · rfl
      · rfl

theorem cards_beginTransaction : (s.beginTransaction i c body).1.cards = s.cards := by
  rw [beginTransaction]
  dsimp only
  split
  · rfl
  · rfl

theorem cards_endTransaction : (s.endTransaction i c body).1.cards = s.cards := by
  rw [endTransaction]
  dsimp only
  split
  · rfl
  · rfl

theorem cards_cleanUp {h : Int32} {s' : Daemon n β} {fx : List (Effect n)}
    (hclean : s.cleanUp i c h = some (s', fx)) : s'.cards = s.cards := by
  obtain ⟨x, -, hx⟩ := Option.map_eq_some_iff.mp hclean
  cases hx
  rfl

/-- A message reaches no card. -/
theorem cards_command {code : UInt32} : (s.command B i c code body payload).1.cards = s.cards := by
  rw [command]
  split
  · rfl
  · rfl
  · rfl
  · exact cards_connect
  · exact cards_reconnect
  · exact cards_disconnect
  · exact cards_beginTransaction
  · exact cards_endTransaction
  · exact cards_transmit
  · rfl
  · rfl
  · rfl
  · rfl
  · rfl

end Commands

/-! ## Steps that call one -/

/-- A request that reaches the card is one event of it. -/
theorem run_backend (crypto : CardCrypto) (around : VirtualCard.Surroundings) (card : VirtualCard)
    (pending : Pending) :
    (run (VirtualCard.backend crypto) around card pending).2.unmarked =
      (card.after crypto (pending.call.event around)).unmarked := by
  cases pending with
  | reconnect body sole active =>
    cases sole with
    | true => rfl
    | false => rfl
  | disconnect req last =>
    cases last with
    | true => rfl
    | false => rfl
  | endTransaction req => rfl
  | cleanUp => rfl
  | transmit req apdu active waiting =>
    cases hblocked : (card.dispatch crypto around apdu).2.touchBlocked.isSome with
    | true =>
      simp only [run, VirtualCard.backend, VirtualCard.transmitOrAwaitTouch, hblocked, if_true]
      rfl
    | false =>
      simp only [run, VirtualCard.backend, VirtualCard.transmitOrAwaitTouch, hblocked,
        Bool.false_eq_true, if_false]
      rfl

theorem cards_callCard (crypto : CardCrypto) (s : Daemon n VirtualCard) (idx : Fin (n + 1))
    (around : VirtualCard.Surroundings) (i : Nat) (c : Conn n) (idx' : Fin (n + 1)) (h : Int32)
    (pending : Pending) :
    ∃ card fx, (s.callCard (VirtualCard.backend crypto) around i c idx' h pending).1.cards idx =
        (if idx = idx' then card else s.cards idx) ∧
      (s.callCard (VirtualCard.backend crypto) around i c idx' h pending).2 =
        .called idx' (some h) pending.call :: fx ∧ OnlyReplies fx ∧
      card.unmarked = ((s.cards idx').after crypto (pending.call.event around)).unmarked := by
  have hrun := run_backend crypto around (s.cards idx') pending
  rw [callCard]
  dsimp only
  split
  · exact ⟨_, _, cards_setCard s idx' idx _, rfl, onlyReplies_nil, hrun⟩
  · exact ⟨_, _, cards_setCard s idx' idx _, rfl, onlyReplies_singleton, hrun⟩
  · exact ⟨_, _, cards_setCard s idx' idx _, rfl, onlyReplies_nil, hrun⟩

theorem cards_openHandle (crypto : CardCrypto) (s : Daemon n VirtualCard) (idx : Fin (n + 1))
    (around : VirtualCard.Surroundings) (i : Nat) (c : Conn n) (req : ConnectStruct)
    (idx' : Fin (n + 1)) :
    (s.openHandle (VirtualCard.backend crypto) around i c req idx').1.cards idx =
        (if idx = idx' ∧ (s.shares idx').openHandles = 0 then (s.cards idx').connect
          else s.cards idx) ∧
      (s.openHandle (VirtualCard.backend crypto) around i c req idx').2 =
        s.firstCall req idx' ++
          [.opened idx' s.nextCard, .reply i (connectedReply req s.nextCard Protocol.t1)] := by
  rw [openHandle, firstCall, powerUp]
  by_cases hnone : (s.shares idx').openHandles = 0
  · simp only [hnone, if_true, and_true]
    exact ⟨cards_setCard s idx' idx _, rfl⟩
  · simp only [hnone, if_false, and_false]
    refine ⟨(cards_setCard s idx' idx (s.cards idx')).trans ?_, trivial⟩
    split
    · next h => rw [h]
    · rfl

end Daemon

/-! ## The run of a card -/

namespace Act

variable {crypto : CardCrypto} {s s' : Daemon n VirtualCard} {idx : Fin (n + 1)} {a : Act n}

theorem on_control {name : String} {op : CardControl} {effects : List (Effect n)}
    (hstep : s.step (VirtualCard.backend crypto) (.control name op) = some (s', effects)) :
    (Act.on crypto idx ⟨s, .control name op, effects⟩ = none ∧ s'.cards idx = s.cards idx) ∨
      ∃ e, Act.on crypto idx ⟨s, .control name op, effects⟩ = some e ∧
        Entry.Acts crypto (s.cards idx) e (s'.cards idx) := by
  rw [Daemon.step] at hstep
  simp only [on]
  split at hstep
  · next idx' hfound =>
    cases hstep
    rw [hfound]
    by_cases hidx : idx' = idx
    · subst hidx
      refine .inr ⟨_, if_pos rfl, rfl, ?_⟩
      rw [Daemon.cards_setCard, if_pos rfl]
      cases op with
      | setPresent | injectFault | clearFaults | grantTouch => rfl
    · refine .inl ⟨if_neg fun h => hidx (Option.some.inj h), ?_⟩
      rw [Daemon.cards_setCard, if_neg (Ne.symm hidx)]
  · next hnone =>
    cases hstep
    rw [hnone]
    exact .inl ⟨if_neg (fun h => by cases h), rfl⟩

/-- The steps of a connection that get no lock of a card. -/
theorem cards_stepConn {i : Nat} {c : Conn n} {event : Event VirtualCard.Surroundings}
    {effects : List (Effect n)} (hother : ∀ i around, event ≠ .proceed i around)
    (hstep : s.stepConn (VirtualCard.backend crypto) i c event = some (s', effects)) :
    s'.cards = s.cards := by
  cases event with
  | accept => cases hstep
  | control name op => cases hstep
  | proceed i around => exact absurd rfl (hother i around)
  | message i code body payload =>
    rw [Daemon.stepConn] at hstep
    split at hstep
    · split at hstep
      · cases hstep
        rfl
      · cases hstep
        rfl
      · cases hstep
    · split at hstep
      · have hcards := congrArg (·.1.cards) (Option.some.inj hstep)
        exact hcards.symm.trans Daemon.cards_handshake
      · have hcards := congrArg (·.1.cards) (Option.some.inj hstep)
        exact hcards.symm.trans Daemon.cards_command
      · cases hstep
  | giveUp i =>
    rw [Daemon.stepConn] at hstep
    split at hstep
    · cases hstep
      rfl
    · cases hstep
  | hangUp i =>
    rw [Daemon.stepConn] at hstep
    split at hstep
    · cases hstep
      rfl
    · cases hstep
      rfl
    · cases hstep
  | cleanUp i h =>
    rw [Daemon.stepConn] at hstep
    split at hstep
    · exact Daemon.cards_cleanUp hstep
    · cases hstep

theorem on_openHandle {i : Nat} {around : VirtualCard.Surroundings} {c : Conn n}
    {req : ConnectStruct} {idx' : Fin (n + 1)} {effects : List (Effect n)}
    (hstep : s.openHandle (VirtualCard.backend crypto) around i c req idx' = (s', effects)) :
    (Act.on crypto idx ⟨s, .proceed i around, effects⟩ = none ∧ s'.cards idx = s.cards idx) ∨
      ∃ e, Act.on crypto idx ⟨s, .proceed i around, effects⟩ = some e ∧
        Entry.Acts crypto (s.cards idx) e (s'.cards idx) := by
  obtain ⟨hcards, heffects⟩ := Daemon.cards_openHandle crypto s idx around i c req idx'
  rw [hstep] at hcards heffects
  dsimp only at hcards heffects
  subst heffects
  by_cases hfirst : (s.shares idx').openHandles = 0
  · by_cases hidx : idx' = idx
    · subst hidx
      rw [if_pos ⟨rfl, hfirst⟩] at hcards
      refine .inr ⟨⟨s.cards idx', .connect⟩, ?_, rfl, by rw [hcards]; rfl⟩
      simp [on, Daemon.firstCall, hfirst, Effect.callOn, CardCall.event]
    · rw [if_neg fun h => hidx h.1.symm] at hcards
      refine .inl ⟨?_, hcards⟩
      simp [on, Daemon.firstCall, hfirst, Effect.callOn, hidx]
  · rw [if_neg fun h => hfirst h.2] at hcards
    refine .inl ⟨?_, hcards⟩
    simp [on, Daemon.firstCall, hfirst, Effect.callOn]

theorem on_callCard {i : Nat} {around : VirtualCard.Surroundings} {c : Conn n} {h : Int32}
    {pending : Pending} {idx' : Fin (n + 1)} {effects : List (Effect n)}
    (hstep : s.callCard (VirtualCard.backend crypto) around i c idx' h pending = (s', effects)) :
    (Act.on crypto idx ⟨s, .proceed i around, effects⟩ = none ∧ s'.cards idx = s.cards idx) ∨
      ∃ e, Act.on crypto idx ⟨s, .proceed i around, effects⟩ = some e ∧
        Entry.Acts crypto (s.cards idx) e (s'.cards idx) := by
  obtain ⟨card, fx, hcards, heffects, hfx, hcard⟩ :=
    Daemon.cards_callCard crypto s idx around i c idx' h pending
  rw [hstep] at hcards heffects
  dsimp only at hcards heffects
  subst heffects
  by_cases hidx : idx' = idx
  · subst hidx
    rw [if_pos rfl] at hcards
    refine .inr ⟨⟨s.cards idx', pending.call.event around⟩, ?_, rfl, by rw [hcards]; exact hcard⟩
    simp [on, Effect.callOn]
  · rw [if_neg (Ne.symm hidx)] at hcards
    refine .inl ⟨?_, hcards⟩
    simp only [on, List.findSome?_cons, Effect.callOn, if_neg hidx, Option.map_eq_none_iff,
      List.findSome?_eq_none_iff]
    intro f hf
    obtain ⟨j, bytes, rfl⟩ := hfx f hf
    rfl

/-- What a step does to a card is what the card sees of it. -/
theorem on_step (idx : Fin (n + 1)) (h : Act.Step crypto s a s') :
    (a.on crypto idx = none ∧ s'.cards idx = s.cards idx) ∨
      ∃ e, a.on crypto idx = some e ∧ Entry.Acts crypto (s.cards idx) e (s'.cards idx) := by
  obtain ⟨daemon, event, effects⟩ := a
  obtain ⟨rfl, hstep⟩ := h
  dsimp only at hstep ⊢
  have hconn {i : Nat} (hi : event.conn? = some i)
      (hbind : (do let i ← event.conn?; let c ← daemon.conns[i]?
                   daemon.stepConn (VirtualCard.backend crypto) i c event) = some (s', effects)) :
      ∃ c, daemon.stepConn (VirtualCard.backend crypto) i c event = some (s', effects) := by
    simp only [hi, Option.bind_eq_bind, Option.bind_some, Option.bind_eq_some_iff] at hbind
    obtain ⟨c, -, hc⟩ := hbind
    exact ⟨c, hc⟩
  cases event with
  | accept =>
    cases hstep
    exact .inl ⟨rfl, rfl⟩
  | control name op => exact on_control hstep
  | message i code body payload =>
    obtain ⟨c, hc⟩ := hconn rfl hstep
    exact .inl ⟨rfl, congrFun (cards_stepConn (by simp) hc) idx⟩
  | giveUp i =>
    obtain ⟨c, hc⟩ := hconn rfl hstep
    exact .inl ⟨rfl, congrFun (cards_stepConn (by simp) hc) idx⟩
  | hangUp i =>
    obtain ⟨c, hc⟩ := hconn rfl hstep
    exact .inl ⟨rfl, congrFun (cards_stepConn (by simp) hc) idx⟩
  | cleanUp i h =>
    obtain ⟨c, hc⟩ := hconn rfl hstep
    exact .inl ⟨rfl, congrFun (cards_stepConn (by simp) hc) idx⟩
  | proceed i around =>
    obtain ⟨c, hc⟩ := hconn rfl hstep
    rw [Daemon.stepConn] at hc
    split at hc
    · exact on_openHandle (Option.some.inj hc)
    · exact on_callCard (Option.some.inj hc)
    · cases hc

end Act

/-- What a card sees of a run of the daemon. -/
def cardLog (crypto : CardCrypto) (idx : Fin (n + 1)) (log : List (Act n)) : List Entry :=
  log.filterMap (Act.on crypto idx)

/-- What a card sees of a run of the daemon is a run of the card. -/
theorem run_cardLog {crypto : CardCrypto} {init : VirtualCard → Prop}
    {cards : Fin (n + 1) → VirtualCard} {log : List (Act n)} {s : Daemon n VirtualCard}
    (h : Run (· = Daemon.initial cards) (Act.Step crypto) anyStep log s) (idx : Fin (n + 1))
    (hinit : init (cards idx)) :
    Run init (Entry.Acts crypto) anyStep (cardLog crypto idx log) (s.cards idx) := by
  induction h with
  | start hstart =>
    subst hstart
    exact .start hinit
  | step hrun hstep _ ih =>
    rcases Act.on_step idx hstep with ⟨hnone, hsame⟩ | ⟨e, he, hacts⟩
    · rw [cardLog, List.filterMap_cons_none hnone, hsame]
      exact ih
    · rw [cardLog, List.filterMap_cons_some he]
      exact ih.step hacts trivial

end Piggy.Fibby
