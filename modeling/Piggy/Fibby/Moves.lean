import Piggy.Fibby.Ledger
import Piggy.Core.Runs

/-!
# What a step of the reader daemon can do

Most steps only answer, or take a connection from one phase to the next. The others open or
close a handle, begin or end a transaction, send a request on its way to a card, or call the
card. Each of these is said here once, with what it depends on.
-/

namespace Piggy.Fibby

open Piggy.Core Piggy.Box

variable {n : Nat} {β ι : Type}

/-- Nothing but answers to clients. -/
def OnlyReplies (fx : List (Effect n)) : Prop := ∀ f ∈ fx, ∃ i bytes, f = .reply i bytes

theorem onlyReplies_nil : OnlyReplies ([] : List (Effect n)) := by
  intro f hf
  cases hf

theorem onlyReplies_singleton {i : Nat} {bytes : Bytes} :
    OnlyReplies [(Effect.reply i bytes : Effect n)] := by
  intro f hf
  rw [List.mem_singleton] at hf
  exact ⟨i, bytes, hf⟩

theorem OnlyReplies.notMem {fx : List (Effect n)} (hfx : OnlyReplies fx) {f : Effect n}
    (hf : ∀ i bytes, f ≠ .reply i bytes) : f ∉ fx := by
  intro hmem
  obtain ⟨i, bytes, heq⟩ := hfx f hmem
  exact hf i bytes heq

/-- The phases in which no request is on its way to a card. -/
def Phase.Waits (phase : Phase n) : Prop := ∀ idx h pending, phase ≠ .calling idx h pending

namespace Daemon

/-- An idle connection sends a command. -/
structure Speaks (s : Daemon n β) (i : Nat) (c : Conn n) (code : UInt32) (body : Bytes)
    (cmd : Command) : Prop where
  conn : s.conns[i]? = some c
  idle : c.phase = .idle
  size : body.length ≤ maxBody
  command : Command.fromU32 code = some cmd

/-- A BEGIN_TRANSACTION that is granted to a handle on a card. -/
inductive Grants (s : Daemon n β) : Event ι → Fin (n + 1) → Int32 → Prop where
  | intro {i : Nat} {c : Conn n} {code : UInt32} {body payload : Bytes}
      (hspeaks : s.Speaks i c code body .beginTransaction)
      (hadmits : (s.shares (c.handles.backendOf (handleRequest body).handle)).admits
        (handleRequest body).handle = true) :
      Grants s (.message i code body payload) (c.handles.backendOf (handleRequest body).handle)
        (handleRequest body).handle

/-- A CONNECT of a connection that gets a handle on a card. -/
inductive Mints (B : Backend β ι) (s : Daemon n β) : Event ι → Nat → Conn n → Handle n → Prop where
  | intro {i : Nat} {around : ι} {c : Conn n} {req : ConnectStruct} {idx : Fin (n + 1)}
      {active : UInt32} (hconn : s.conns[i]? = some c) (hphase : c.phase = .connecting req idx)
      (hpowered : (s.powerUp B around req idx).1 = .ok active) :
      Mints B s (.proceed i around) i c ⟨active, idx⟩

/-- A request of a handle that goes to the card whoever holds it: a RECONNECT that powers it
up or resets it, or a DISCONNECT that resets it. -/
inductive Bypasses (s : Daemon n β) : Event ι → Fin (n + 1) → Int32 → Prop where
  | reconnect {i : Nat} {c : Conn n} {code : UInt32} {body payload : Bytes}
      (hspeaks : s.Speaks i c code body .reconnect) (hsize : 24 ≤ body.length)
      (hreach : (s.shares (c.handles.backendOf (i32At body 0))).openHandles ≤ 1 ∨
        VirtualCard.Disposition.resets (u32At body 12) = true) :
      Bypasses s (.message i code body payload) (c.handles.backendOf (i32At body 0)) (i32At body 0)
  | disconnect {i : Nat} {c : Conn n} {code : UInt32} {body payload : Bytes} {x : Handle n}
      (hspeaks : s.Speaks i c code body .disconnect)
      (hhandle : c.handles.lookup (argRequest body).handle = some x)
      (hreset : VirtualCard.Disposition.resets (argRequest body).arg = true) :
      Bypasses s (.message i code body payload) x.backend (argRequest body).handle

/-- The call by which the first handle of a card powers it up. -/
def firstCall (s : Daemon n β) (req : ConnectStruct) (idx : Fin (n + 1)) : List (Effect n) :=
  if (s.shares idx).openHandles = 0 then
    [.called idx none (.connect req.dwShareMode req.dwPreferredProtocols)] else []

theorem mem_firstCall {s : Daemon n β} {req : ConnectStruct} {idx : Fin (n + 1)} {f : Effect n}
    (hf : f ∈ s.firstCall req idx) : (s.shares idx).openHandles = 0 ∧
      f = .called idx none (.connect req.dwShareMode req.dwPreferredProtocols) := by
  rw [firstCall] at hf
  split at hf
  · next hnone => exact ⟨hnone, List.mem_singleton.mp hf⟩
  · cases hf

/-- What a step can do. -/
inductive Moved (B : Backend β ι) (s : Daemon n β) :
    Event ι → Daemon n β → List (Effect n) → Prop where
  | accepted : Moved B s .accept { s with conns := s.conns ++ [⟨∅, .handshake⟩] } []
  | controlled {name : String} {op : CardControl} {idx : Fin (n + 1)} :
      Moved B s (.control name op) (s.setCard idx (B.control (s.cards idx) op)) []
  | answered {e : Event ι} {context : UInt32} {fx : List (Effect n)} (hfx : OnlyReplies fx) :
      Moved B s e { s with nextContext := context } fx
  | turned {e : Event ι} {i : Nat} {c : Conn n} {phase : Phase n} {fx : List (Effect n)}
      (hconn : s.conns[i]? = some c) (hphase : phase.Waits) (hfx : OnlyReplies fx) :
      Moved B s e (s.setConn i { c with phase := phase }) fx
  | asked {e : Event ι} {i : Nat} {c : Conn n} {idx : Fin (n + 1)} {h : Int32} {pending : Pending}
      (hconn : s.conns[i]? = some c)
      (hwhy : s.Bypasses e idx h ∨ (s.shares idx).admits h = true) :
      Moved B s e (s.setConn i { c with phase := .calling idx h pending }) []
  | began {e : Event ι} {idx : Fin (n + 1)} {h : Int32} {i : Nat} {bytes : Bytes}
      (hgrants : s.Grants e idx h) :
      Moved B s e (s.setShare idx { s.shares idx with transactionHolder := some h })
        [.began idx h, .reply i bytes]
  | ended {e : Event ι} {i : Nat} {c : Conn n} {idx : Fin (n + 1)} {h : Int32} {pending : Pending}
      (hconn : s.conns[i]? = some c) (hheld : (s.shares idx).transactionHolder = some h) :
      Moved B s e
        ((s.setShare idx { s.shares idx with transactionHolder := none }).setConn i
          { c with phase := .calling idx h pending }) [.ended idx h]
  | opened {e : Event ι} {i : Nat} {c : Conn n} {x : Handle n} {req : ConnectStruct} {card : β}
      {bytes : Bytes} (hmints : s.Mints B e i c x) :
      Moved B s e
        { ((s.setCard x.backend card).setShare x.backend
            { s.shares x.backend with openHandles := (s.shares x.backend).openHandles + 1 }).setConn i
            ⟨c.handles.insert s.nextCard x, .idle⟩ with nextCard := s.nextCard + 1 }
        (s.firstCall req x.backend ++ [.opened x.backend s.nextCard, .reply i bytes])
  | refused {e : Event ι} {i : Nat} {c : Conn n} {req : ConnectStruct} {idx : Fin (n + 1)} {card : β}
      {bytes : Bytes} (hconn : s.conns[i]? = some c) :
      Moved B s e ((s.setCard idx card).setConn i { c with phase := .idle })
        (s.firstCall req idx ++ [.reply i bytes])
  | closed {e : Event ι} {i : Nat} {c : Conn n} {h : Int32} {x : Handle n} {phase : Phase n}
      {fx : List (Effect n)} (hconn : s.conns[i]? = some c) (hhandle : c.handles.lookup h = some x)
      (hphase : phase.Waits ∨ ∃ pending : Pending, phase = .calling x.backend h pending ∧
        ((released (s.shares x.backend) h).openHandles = 0 ∨ s.Bypasses e x.backend h))
      (hfx : OnlyReplies fx) :
      Moved B s e ((s.setShare x.backend (released (s.shares x.backend) h)).setConn i
        ⟨c.handles.erase h, phase⟩) (.closed x.backend h :: fx)
  | called {e : Event ι} {i : Nat} {c : Conn n} {idx : Fin (n + 1)} {h : Int32} {pending : Pending}
      {phase : Phase n} {card : β} {fx : List (Effect n)} (hconn : s.conns[i]? = some c)
      (hcalling : c.phase = .calling idx h pending)
      (hphase : phase.Waits ∨ ∃ again : Pending, phase = .calling idx h again ∧
        again.call = pending.call)
      (hfx : OnlyReplies fx) :
      Moved B s e ((s.setCard idx card).setConn i { c with phase := phase })
        (.called idx (some h) pending.call :: fx)

/-! ## Every step is one of these -/

section Commands

variable {B : Backend β ι} {s : Daemon n β} {i : Nat} {c : Conn n} {code : UInt32}
  {body payload : Bytes}

theorem moved_leave {e : Event ι} {fx : List (Effect n)} (hconn : s.conns[i]? = some c)
    (hfx : OnlyReplies fx) : Moved B s e (s.leave i c) fx :=
  .turned hconn (by intro idx h pending; simp) hfx

/-- Nothing changes but what is replied. -/
theorem moved_still {e : Event ι} {fx : List (Effect n)} (hfx : OnlyReplies fx) :
    Moved B s e s fx :=
  @Moved.answered _ _ _ _ _ _ s.nextContext _ hfx

theorem moved_reply {e : Event ι} {bytes : Bytes} : Moved B s e s [.reply i bytes] :=
  moved_still onlyReplies_singleton

theorem moved_handshake {e : Event ι} (hconn : s.conns[i]? = some c) :
    Moved B s e (s.handshake i c code body).1 (s.handshake i c code body).2 := by
  rw [handshake]
  split
  · exact moved_leave hconn onlyReplies_nil
  · split
    · exact .turned hconn (by intro idx h pending; simp) onlyReplies_singleton
    · exact moved_leave hconn onlyReplies_singleton

theorem moved_connect {e : Event ι} (hconn : s.conns[i]? = some c) :
    Moved B s e (s.connect B i c body).1 (s.connect B i c body).2 := by
  rw [connect]
  split
  · exact moved_reply
  · split
    · exact moved_reply
    · split
      · exact .turned hconn (by intro idx h pending; simp) onlyReplies_nil
      · exact moved_reply

theorem moved_reconnect (h : s.Speaks i c code body .reconnect) :
    Moved B s (.message i code body payload) (s.reconnect i c body).1 (s.reconnect i c body).2 := by
  rw [reconnect]
  split
  · exact moved_reply
  · next hsize =>
    dsimp only
    split
    · next hreach => exact .asked h.conn (.inl (.reconnect h (by omega) hreach))
    · exact moved_reply

theorem moved_disconnect (h : s.Speaks i c code body .disconnect) :
    Moved B s (.message i code body payload) (s.disconnect i c body).1 (s.disconnect i c body).2 := by
  rw [disconnect]
  dsimp only
  split
  · exact moved_reply
  · next x hx =>
    split
    · next hreach =>
      refine .closed h.conn hx (.inr ⟨_, rfl, ?_⟩) onlyReplies_nil
      exact hreach.imp id fun hreset => .disconnect h hx hreset
    · exact .closed h.conn hx (.inl (by intro idx g pending; simp [h.idle])) onlyReplies_singleton

theorem moved_cleanUp {e : Event ι} {h : Int32} {s' : Daemon n β} {fx : List (Effect n)}
    (hconn : s.conns[i]? = some c) (hclean : s.cleanUp i c h = some (s', fx)) :
    Moved B s e s' fx := by
  simp only [cleanUp, Option.map_eq_some_iff, Prod.mk.injEq] at hclean
  obtain ⟨x, hx, rfl, rfl⟩ := hclean
  refine .closed hconn hx ?_ onlyReplies_nil
  split
  · next hlast => exact .inr ⟨_, rfl, .inl hlast⟩
  · exact .inl (by intro idx g pending; simp)

theorem moved_transmit {e : Event ι} (hconn : s.conns[i]? = some c) :
    Moved B s e (s.transmit i c body payload).1 (s.transmit i c body payload).2 := by
  rw [transmit]
  split
  · exact moved_still onlyReplies_nil
  · split
    · exact moved_leave hconn onlyReplies_nil
    · dsimp only
      split
      · next hadmits => exact .asked hconn (.inr hadmits)
      · exact moved_reply

theorem moved_beginTransaction (h : s.Speaks i c code body .beginTransaction) :
    Moved B s (.message i code body payload) (s.beginTransaction i c body).1
      (s.beginTransaction i c body).2 := by
  rw [beginTransaction]
  dsimp only
  split
  · next hadmits => exact .began (.intro h hadmits)
  · exact moved_reply

theorem moved_endTransaction {e : Event ι} (hconn : s.conns[i]? = some c) :
    Moved B s e (s.endTransaction i c body).1 (s.endTransaction i c body).2 := by
  rw [endTransaction]
  dsimp only
  split
  · next hheld => exact .ended hconn hheld
  · exact moved_reply

theorem moved_command (hconn : s.conns[i]? = some c) (hidle : c.phase = .idle)
    (hsize : body.length ≤ maxBody) :
    Moved B s (.message i code body payload) (s.command B i c code body payload).1
      (s.command B i c code body payload).2 := by
  have hquiet : Moved B s (.message i code body payload) s [] :=
    moved_still onlyReplies_nil
  have hleave : Moved B s (.message i code body payload) (s.leave i c) [] :=
    moved_leave hconn onlyReplies_nil
  rw [command]
  split
  case h_1 => exact .answered onlyReplies_singleton
  case h_2 => exact moved_reply
  case h_3 => exact hquiet
  case h_4 => exact moved_connect hconn
  case h_5 hcode => exact moved_reconnect ⟨hconn, hidle, hsize, hcode⟩
  case h_6 hcode => exact moved_disconnect ⟨hconn, hidle, hsize, hcode⟩
  case h_7 hcode => exact moved_beginTransaction ⟨hconn, hidle, hsize, hcode⟩
  case h_8 => exact moved_endTransaction hconn
  case h_9 => exact moved_transmit hconn
  case h_10 => exact moved_reply
  case h_11 => exact moved_reply
  case h_12 => exact hquiet
  case h_13 => exact hquiet
  case h_14 => exact hleave

end Commands

section Calls

variable {B : Backend β ι} {s : Daemon n β} {i : Nat} {c : Conn n}

theorem moved_openHandle {around : ι} {req : ConnectStruct} {idx : Fin (n + 1)}
    (hconn : s.conns[i]? = some c) (hphase : c.phase = .connecting req idx) :
    Moved B s (.proceed i around) (s.openHandle B around i c req idx).1
      (s.openHandle B around i c req idx).2 := by
  rw [openHandle]
  dsimp only
  split
  · next active card hpowered =>
    exact .opened (x := ⟨active, idx⟩) (.intro hconn hphase (by rw [hpowered]))
  · exact .refused hconn

/-- Another attempt is one at the same call. -/
theorem run_retry {around : ι} {card : β} {pending again : Pending}
    (h : (run B around card pending).1 = .retry again) : again.call = pending.call := by
  cases pending with
  | transmit req apdu active waiting =>
    rw [run] at h
    split at h
    · cases h
    · cases h
      rfl
    · cases h
  | reconnect body sole active =>
    rw [run] at h
    split at h <;> cases h
  | disconnect req last =>
    rw [run] at h
    split at h
    · split at h <;> cases h
    · cases h
  | endTransaction req => cases h
  | cleanUp => cases h

theorem moved_callCard {e : Event ι} {around : ι} {idx : Fin (n + 1)} {h : Int32}
    {pending : Pending} (hconn : s.conns[i]? = some c) (hphase : c.phase = .calling idx h pending) :
    Moved B s e (s.callCard B around i c idx h pending).1
      (s.callCard B around i c idx h pending).2 := by
  rw [callCard]
  dsimp only
  split
  · next again hrun =>
    exact .called hconn hphase (.inr ⟨again, rfl, run_retry hrun⟩) onlyReplies_nil
  · exact .called hconn hphase (.inl (by intro idx h pending; simp)) onlyReplies_singleton
  · exact .called hconn hphase (.inl (by intro idx h pending; simp)) onlyReplies_nil

theorem moved_stepConn {e : Event ι} {s' : Daemon n β} {fx : List (Effect n)}
    (hconn : s.conns[i]? = some c) (he : e.conn? = some i)
    (hstep : s.stepConn B i c e = some (s', fx)) : Moved B s e s' fx := by
  cases e with
  | accept => cases he
  | control name op => cases he
  | message j code body payload =>
    cases he
    rw [stepConn] at hstep
    split at hstep
    · split at hstep
      · cases hstep
        exact moved_leave hconn onlyReplies_nil
      · cases hstep
        exact moved_leave hconn onlyReplies_nil
      · cases hstep
    · next hsize =>
      split at hstep
      · next hphase =>
        rw [Option.some.injEq] at hstep
        have hmoved : Moved B s (.message i code body payload) (s.handshake i c code body).1
            (s.handshake i c code body).2 := moved_handshake hconn
        rwa [hstep] at hmoved
      · next hphase =>
        rw [Option.some.injEq] at hstep
        have hmoved : Moved B s (.message i code body payload)
            (s.command B i c code body payload).1 (s.command B i c code body payload).2 :=
          moved_command hconn hphase (Nat.le_of_not_lt hsize)
        rwa [hstep] at hmoved
      · cases hstep
  | proceed j around =>
    cases he
    rw [stepConn] at hstep
    split at hstep
    · next req idx hphase =>
      rw [Option.some.injEq] at hstep
      have hmoved : Moved B s (.proceed i around) (s.openHandle B around i c req idx).1
          (s.openHandle B around i c req idx).2 := moved_openHandle hconn hphase
      rwa [hstep] at hmoved
    · next idx h pending hphase =>
      rw [Option.some.injEq] at hstep
      have hmoved : Moved B s (.proceed i around) (s.callCard B around i c idx h pending).1
          (s.callCard B around i c idx h pending).2 := moved_callCard hconn hphase
      rwa [hstep] at hmoved
    · cases hstep
  | giveUp j =>
    rw [stepConn] at hstep
    split at hstep
    · cases hstep
      exact .turned hconn (by intro idx h pending; simp) onlyReplies_singleton
    · cases hstep
  | hangUp j =>
    rw [stepConn] at hstep
    split at hstep
    · cases hstep
      exact moved_leave hconn onlyReplies_nil
    · cases hstep
      exact moved_leave hconn onlyReplies_nil
    · cases hstep
  | cleanUp j h =>
    rw [stepConn] at hstep
    split at hstep
    · exact moved_cleanUp hconn hstep
    · cases hstep

/-- Every step is one of these. -/
theorem moved_of_step {e : Event ι} {s' : Daemon n β} {fx : List (Effect n)}
    (hstep : s.step B e = some (s', fx)) : Moved B s e s' fx := by
  have hconn : ∀ i, e.conn? = some i →
      (do let i ← e.conn?; let c ← s.conns[i]?; s.stepConn B i c e) = some (s', fx) →
      Moved B s e s' fx := by
    intro i he hbind
    simp only [he, Option.bind_eq_bind, Option.bind_some, Option.bind_eq_some_iff] at hbind
    obtain ⟨c, hc, hstep⟩ := hbind
    exact moved_stepConn hc he hstep
  cases e with
  | accept =>
    cases hstep
    exact .accepted
  | control name op =>
    rw [step] at hstep
    split at hstep
    · cases hstep
      exact .controlled
    · cases hstep
      exact moved_still onlyReplies_nil
  | message i code body payload => exact hconn i rfl hstep
  | proceed i around => exact hconn i rfl hstep
  | giveUp i => exact hconn i rfl hstep
  | hangUp i => exact hconn i rfl hstep
  | cleanUp i h => exact hconn i rfl hstep

end Calls

end Daemon

end Piggy.Fibby
