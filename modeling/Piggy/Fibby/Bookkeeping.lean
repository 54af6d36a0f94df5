import Piggy.Fibby.Moves
import Piggy.Fibby.PinGate

/-!
# The reader daemon keeps its books

The books are those of the handles that all connections hold. Two steps can break them: a
BEGIN_TRANSACTION of a handle that nobody has open on the card where it is looked for, and a
CONNECT at which the counter of the handles comes back to a value that the connection still
has open. All other steps keep them.
-/

namespace Piggy.Fibby

open Piggy.Core Piggy.Box

variable {n : Nat} {β ι : Type}

namespace Daemon

variable {B : Backend β ι} {s s' : Daemon n β} {e : Event ι} {fx : List (Effect n)} {i : Nat}
  {c : Conn n} {idx : Fin (n + 1)} {h : Int32}

/-! ## The books of a state -/

/-- The handles and the shares of a state. -/
def ledger (s : Daemon n β) : Ledger n := ⟨s.conns.map (·.handles), s.shares⟩

theorem ledger_setConn (s : Daemon n β) (i : Nat) (c : Conn n) :
    (s.setConn i c).ledger = ⟨s.ledger.maps.set i c.handles, s.shares⟩ := by
  simp [ledger, setConn, List.map_set]

theorem getElem?_maps (hconn : s.conns[i]? = some c) : s.ledger.maps[i]? = some c.handles := by
  simp [ledger, hconn]

/-- A connection that keeps its handles keeps the books. -/
theorem ledger_turned (hconn : s.conns[i]? = some c) (phase : Phase n) :
    (s.setConn i { c with phase := phase }).ledger = s.ledger := by
  rw [ledger_setConn, set_of_getElem? (getElem?_maps hconn)]
  rfl

/-! ## Steps that keep the books -/

/-- A transaction is granted only to a handle that some connection has open on the card, and
the value of a new handle is new to its connection. -/
structure Proper (B : Backend β ι) (s : Daemon n β) (e : Event ι) : Prop where
  granted : ∀ idx h, s.Grants e idx h → ∃ c ∈ s.conns, c.handles.Holds h idx
  minted : ∀ i c x, s.Mints B e i c x → c.handles.lookup s.nextCard = none

theorem holds_of_conns (hopen : ∃ c ∈ s.conns, c.handles.Holds h idx) :
    ∃ m ∈ s.ledger.maps, m.Holds h idx := by
  obtain ⟨c, hc, hholds⟩ := hopen
  exact ⟨c.handles, List.mem_map_of_mem hc, hholds⟩

theorem conns_of_holds (hopen : ∃ m ∈ s.ledger.maps, m.Holds h idx) :
    ∃ c ∈ s.conns, c.handles.Holds h idx := by
  obtain ⟨m, hm, hholds⟩ := hopen
  obtain ⟨c, hc, rfl⟩ := List.mem_map.mp hm
  exact ⟨c, hc, hholds⟩

theorem kept_step (hstep : s.step B e = some (s', fx)) (hproper : Proper B s e)
    (hk : s.ledger.Kept) : s'.ledger.Kept := by
  cases moved_of_step hstep with
  | accepted =>
    have hledger : ({ s with conns := s.conns ++ [⟨∅, .handshake⟩] } : Daemon n β).ledger =
        s.ledger.joins := by
      simp [ledger, Ledger.joins]
    rw [hledger]
    exact Ledger.kept_joins hk
  | controlled => exact hk
  | answered => exact hk
  | turned hconn => rwa [ledger_turned hconn]
  | asked hconn => rwa [ledger_turned hconn]
  | @began _ idx h i bytes hgrants =>
    apply (Ledger.kept_holds_iff hk idx (some h)).mpr
    rintro g ⟨⟩
    exact holds_of_conns (hproper.granted idx h hgrants)
  | @ended _ i c idx h pending hconn =>
    have hkept := (Ledger.kept_holds_iff hk idx none).mpr (fun _ h => by cases h)
    rwa [ledger_turned (s := s.setShare idx _) hconn]
  | @opened _ i c x req card bytes hmints =>
    have hconn : s.conns[i]? = some c := by
      cases hmints with
      | intro hconn => exact hconn
    have hkept := (Ledger.kept_opens_iff (x := x) hk (getElem?_maps hconn)).mpr
      (hproper.minted i c x hmints)
    have hledger := ledger_setConn ((s.setCard x.backend card).setShare x.backend
      { s.shares x.backend with openHandles := (s.shares x.backend).openHandles + 1 }) i
      ⟨c.handles.insert s.nextCard x, .idle⟩
    exact hledger ▸ hkept
  | refused hconn => rwa [ledger_turned (s := s.setCard _ _) hconn]
  | closed hconn hhandle =>
    rw [ledger_setConn]
    exact Ledger.kept_closes hk (getElem?_maps hconn) hhandle
  | called hconn => rwa [ledger_turned (s := s.setCard _ _) hconn]

/-! ## Steps that break them -/

/-- A granted transaction has its holder in the table. -/
theorem step_of_grants (B : Backend β ι) (hgrants : s.Grants e idx h) : ∃ fx, s.step B e =
    some (s.setShare idx { s.shares idx with transactionHolder := some h }, fx) := by
  cases hgrants with
  | @intro i c code body payload hspeaks hadmits =>
    have hsize : ¬ maxBody < body.length := Nat.not_lt.mpr hspeaks.size
    refine ⟨[.began (c.handles.backendOf (handleRequest body).handle) (handleRequest body).handle,
      .reply i (handleReply (handleRequest body).handle Scard.success)], ?_⟩
    simp [step, Event.conn?, stepConn, hspeaks.conn, hspeaks.idle, hsize, command, hspeaks.command,
      beginTransaction, hadmits]

/-- A connection that gets a handle has it in its table. -/
theorem step_of_mints {x : Handle n} (hmints : s.Mints B e i c x) : ∃ s' fx,
    s.step B e = some (s', fx) ∧ s.conns[i]? = some c ∧
      s'.ledger = s.ledger.opens i c.handles s.nextCard x := by
  cases hmints with
  | @intro _ around _ req idx active hconn hphase hpowered =>
    generalize hpower : s.powerUp B around req idx = power at hpowered
    obtain ⟨result, card⟩ := power
    dsimp only at hpowered
    subst hpowered
    refine ⟨(s.openHandle B around i c req idx).1, (s.openHandle B around i c req idx).2, ?_, hconn,
      ?_⟩
    · simp only [step, Event.conn?, stepConn, Option.bind_eq_bind, Option.bind_some, hconn, hphase]
    · rw [openHandle, hpower]
      exact ledger_setConn _ i _

theorem proper_of_kept (hstep : s.step B e = some (s', fx)) (hk : s.ledger.Kept)
    (hk' : s'.ledger.Kept) : Proper B s e where
  granted idx h hgrants := by
    obtain ⟨fx', hstep'⟩ := step_of_grants B hgrants
    have hs' := (Prod.mk.injEq _ _ _ _).mp (Option.some.inj (hstep.symm.trans hstep'))
    rw [hs'.1] at hk'
    exact conns_of_holds ((Ledger.kept_holds_iff hk idx (some h)).mp hk' h rfl)
  minted i c x hmints := by
    obtain ⟨s'', fx', hstep', hconn, hledger⟩ := step_of_mints hmints
    have hs' := (Prod.mk.injEq _ _ _ _).mp (Option.some.inj (hstep.symm.trans hstep'))
    rw [hs'.1, hledger] at hk'
    exact (Ledger.kept_opens_iff hk (getElem?_maps hconn)).mp hk'

/-! ## Runs -/

/-- What is seen of a step. -/
abbrev Label (n : Nat) (ι : Type) := Event ι × List (Effect n)

/-- A step of the daemon, with what is seen of it. -/
def Steps (B : Backend β ι) (s : Daemon n β) (label : Label n ι) (s' : Daemon n β) : Prop :=
  s.step B label.1 = some (s', label.2)

theorem kept_initial (cards : Fin (n + 1) → β) : (initial cards).ledger.Kept where
  counts _ := rfl
  holder _ _ hholder := nomatch hholder

theorem kept_of_run {cards : Fin (n + 1) → β} {log : List (Label n ι)}
    (hrun : Run (· = initial cards) (Steps B) (fun _ s label => Proper B s label.1) log s) :
    s.ledger.Kept := by
  refine hrun.invariant (motive := fun _ s => s.ledger.Kept) ?_ ?_
  · rintro _ rfl
    exact kept_initial cards
  · intro log s label s' _ hk hstep hproper
    exact kept_step hstep hproper hk

/-- The books are kept in every state that a run reaches if and only if all its steps are
proper. Where they are kept, a card whose holder nobody has open any more admits everyone. -/
theorem kept_iff_proper (B : Backend β ι) (cards : Fin (n + 1) → β) (log : List (Label n ι))
    (s : Daemon n β) :
    ((Run (· = initial cards) (Steps B) (fun _ s _ => s.ledger.Kept) log s ∧ s.ledger.Kept) ↔
      Run (· = initial cards) (Steps B) (fun _ s label => Proper B s label.1) log s) ∧
    (s.ledger.Kept → ∀ idx,
      (∀ c ∈ s.conns, ∀ h, (s.shares idx).transactionHolder = some h → ¬ c.handles.Holds h idx) →
        ∀ g, (s.shares idx).admits g = true) := by
  refine ⟨⟨?_, ?_⟩, ?_⟩
  · rintro ⟨hrun, hk⟩
    induction hrun with
    | start hstart => exact .start hstart
    | step _ hstep hkept ih => exact .step (ih hkept) hstep (proper_of_kept hstep hkept hk)
  · intro hrun
    refine ⟨?_, kept_of_run hrun⟩
    induction hrun with
    | start hstart => exact .start hstart
    | step hrun hstep _ ih => exact .step ih hstep (kept_of_run hrun)
  · intro hk idx hgone g
    apply Ledger.Kept.admits (l := s.ledger) hk
    intro m hm
    obtain ⟨c, hc, rfl⟩ := List.mem_map.mp hm
    exact hgone c hc

/-- A client that begins a transaction of a handle that it never opened holds the first card,
and nobody can give it up. -/
theorem not_kept_unopened :
    ¬ ∀ (log : List (Label 0 VirtualCard.Surroundings)) (s : Daemon 0 VirtualCard),
      Run (· = initial fun _ => VirtualCard.withModel .yk5)
        (Steps (VirtualCard.backend sampleCrypto)) anyStep log s → s.ledger.Kept := by
  intro hall
  let B := VirtualCard.backend sampleCrypto
  have hstart : Run (· = initial fun _ : Fin 1 => VirtualCard.withModel .yk5) (Steps B) anyStep [] _ :=
    .start rfl
  have haccept := hstart.step (show Steps B _ (Event.accept, _) _ from rfl) trivial
  have hversion := haccept.step
    (show Steps B _ (Event.message 0 0x11 (versionReply 0) [], _) _ from rfl) trivial
  have hrun := hversion.step
    (show Steps B _ (Event.message 0 0x07 (handleReply 7 0) [], _) _ from rfl) trivial
  obtain ⟨m, hm, x, hx, -⟩ := (hall _ _ hrun).holder 0 7 rfl
  rw [List.mem_singleton.mp hm] at hx
  cases hx

end Daemon

end Piggy.Fibby
