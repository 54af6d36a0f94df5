import Piggy.Fibby.Bookkeeping

/-!
# Transactions of the reader daemon

While a handle holds the transaction of a card, a call for another handle may reach the card in
three ways: its request was let in before the transaction began and is still on its way, or
waits for a touch; it powers the card up or resets it without being asked who holds it; or the
holder is no open handle. Where none of these happens, the card is the holder's alone.
-/

namespace Piggy.Fibby

open Piggy.Core Piggy.Box

variable {n : Nat} {β ι : Type}

namespace Daemon

variable {B : Backend β ι} {s s' : Daemon n β} {e : Event ι} {fx : List (Effect n)}
  {idx : Fin (n + 1)} {g h : Int32}

/-! ## Requests on their way -/

/-- A handle has a request on its way that will disturb a card. -/
def Underway (s : Daemon n β) (idx : Fin (n + 1)) (g : Int32) : Prop :=
  ∃ c ∈ s.conns, ∃ pending, c.phase = .calling idx g pending ∧ pending.call.disturbs = true

/-- When a transaction begins, no other handle has a request on its way to the card; and no
request goes to a card around its holder. -/
structure Careful (B : Backend β ι) (s : Daemon n β) (e : Event ι) : Prop where
  proper : Proper B s e
  clear : ∀ idx h, s.Grants e idx h → ∀ g, s.Underway idx g → g = h
  admitted : ∀ idx h, s.Bypasses e idx h → (s.shares idx).admits h = true

/-- The books are kept, and only the holder of a card has requests on their way to it. -/
structure Isolated (s : Daemon n β) : Prop where
  kept : s.ledger.Kept
  mine : ∀ idx g, s.Underway idx g → (s.shares idx).admits g = true

theorem admits_eq_true_iff {share : CardShare} :
    share.admits g = true ↔ ∀ h, share.transactionHolder = some h → g = h := by
  rw [CardShare.admits]
  cases share.transactionHolder with
  | none => simp
  | some h => simp [eq_comm]

/-- What was on its way before, or the request of the connection that took the step. -/
theorem underway_setConn {i : Nat} {c : Conn n} (hway : (s.setConn i c).Underway idx g) :
    s.Underway idx g ∨ ∃ pending, c.phase = .calling idx g pending ∧ pending.call.disturbs = true := by
  obtain ⟨c', hc', hrequest⟩ := hway
  rcases List.mem_or_eq_of_mem_set hc' with hmem | rfl
  · exact .inl ⟨c', hmem, hrequest⟩
  · exact .inr hrequest

theorem underway_turned {i : Nat} {c : Conn n} {phase : Phase n} (hphase : phase.Waits)
    (hway : (s.setConn i { c with phase := phase }).Underway idx g) : s.Underway idx g := by
  rcases underway_setConn hway with hbefore | ⟨pending, hcalling, -⟩
  · exact hbefore
  · exact absurd hcalling (hphase idx g pending)

/-- A card with no open handle has no holder. -/
theorem holder_of_none_open (hk : s.ledger.Kept) (hopen : (s.shares idx).openHandles = 0) :
    (s.shares idx).transactionHolder = none := by
  by_contra hne
  obtain ⟨h, hholder⟩ := Option.ne_none_iff_exists'.mp hne
  obtain ⟨m, hm, x, hx, hidx⟩ := hk.holder idx h hholder
  obtain ⟨i, hi⟩ := List.getElem?_of_mem hm
  have hle := Ledger.openOn_le hi idx
  have hone := Handles.openOn_erase hx idx
  have hcount : (s.shares idx).openHandles = s.ledger.openOn idx := hk.counts idx
  rw [if_pos hidx] at hone
  omega

/-! ## Steps -/

/-- How the holder of a card changes: a granted transaction sets it; the end of its
transaction, or that the handle is closed, takes it away. -/
theorem holder_step (hstep : s.step B e = some (s', fx)) (idx : Fin (n + 1)) :
    (∃ h, s.Grants e idx h ∧ Effect.began idx h ∈ fx ∧
        (s'.shares idx).transactionHolder = some h) ∨
      (∃ h, (s.shares idx).transactionHolder = some h ∧ (s'.shares idx).transactionHolder = none ∧
        (Effect.ended idx h ∈ fx ∨ Effect.closed idx h ∈ fx)) ∨
      (s'.shares idx).transactionHolder = (s.shares idx).transactionHolder := by
  cases moved_of_step hstep with
  | accepted => exact .inr (.inr rfl)
  | controlled => exact .inr (.inr rfl)
  | answered => exact .inr (.inr rfl)
  | turned => exact .inr (.inr rfl)
  | asked => exact .inr (.inr rfl)
  | @began _ idx' h i bytes hgrants =>
    by_cases hsame : idx = idx'
    · subst hsame
      exact .inl ⟨h, hgrants, List.mem_cons_self, by simp⟩
    · exact .inr (.inr (by simp [hsame]))
  | @ended _ i c idx' h pending hconn hheld =>
    by_cases hsame : idx = idx'
    · subst hsame
      exact .inr (.inl ⟨h, hheld, by simp, .inl List.mem_cons_self⟩)
    · exact .inr (.inr (by simp [hsame]))
  | @opened _ i c x req card bytes hmints =>
    refine .inr (.inr ?_)
    change (((s.setCard x.backend card).setShare x.backend _).shares idx).transactionHolder = _
    rw [shares_setShare]
    split
    · next hsame => rw [hsame]
    · rfl
  | refused => exact .inr (.inr rfl)
  | @closed _ i c h x phase fx hconn hhandle hphase hfx =>
    by_cases hsame : idx = x.backend
    · subst hsame
      by_cases hheld : (s.shares x.backend).transactionHolder = some h
      · exact .inr (.inl ⟨h, hheld, by simp [released, hheld], .inr List.mem_cons_self⟩)
      · exact .inr (.inr (by simp [released, hheld]))
    · exact .inr (.inr (by simp [hsame]))
  | called => exact .inr (.inr rfl)

/-- A granted transaction had no other holder. -/
theorem holder_of_grants (hgrants : s.Grants e idx h)
    (hheld : (s.shares idx).transactionHolder = some g) : h = g := by
  cases hgrants with
  | intro _ hadmits => exact admits_eq_true_iff.mp hadmits g hheld

theorem holder_of_began (hstep : s.step B e = some (s', fx)) (hbegan : Effect.began idx h ∈ fx) :
    (s'.shares idx).transactionHolder = some h := by
  cases moved_of_step hstep with
  | accepted => cases hbegan
  | controlled => cases hbegan
  | answered hfx => exact absurd hbegan (hfx.notMem nofun)
  | turned hconn hphase hfx => exact absurd hbegan (hfx.notMem nofun)
  | asked => cases hbegan
  | began =>
    simp only [List.mem_cons, List.not_mem_nil, or_false, reduceCtorEq] at hbegan
    cases hbegan
    simp
  | ended => simp at hbegan
  | opened =>
    rcases List.mem_append.mp hbegan with hmem | hmem
    · cases (mem_firstCall hmem).2
    · simp at hmem
  | refused =>
    rcases List.mem_append.mp hbegan with hmem | hmem
    · cases (mem_firstCall hmem).2
    · simp at hmem
  | closed hconn hhandle hphase hfx =>
    rcases List.mem_cons.mp hbegan with heq | hmem
    · cases heq
    · exact absurd hmem (hfx.notMem nofun)
  | called hconn hcalling hphase hfx =>
    rcases List.mem_cons.mp hbegan with heq | hmem
    · cases heq
    · exact absurd hmem (hfx.notMem nofun)

/-- How a request gets on its way to a card: the card admits it, or it goes around the holder,
or it is the one that gave the card up. -/
theorem underway_step (hstep : s.step B e = some (s', fx)) (hk' : s'.ledger.Kept)
    (hway : s'.Underway idx g) :
    s.Underway idx g ∨ (s'.shares idx).transactionHolder = none ∨
      ((s.Bypasses e idx g ∨ (s.shares idx).admits g = true) ∧
        (s'.shares idx).transactionHolder = (s.shares idx).transactionHolder) := by
  cases moved_of_step hstep with
  | accepted =>
    obtain ⟨c, hc, pending, hcalling, hdisturbs⟩ := hway
    rcases List.mem_append.mp hc with hmem | hnew
    · exact .inl ⟨c, hmem, pending, hcalling, hdisturbs⟩
    · rw [List.mem_singleton.mp hnew] at hcalling
      cases hcalling
  | controlled => exact .inl hway
  | answered => exact .inl hway
  | turned hconn hphase => exact .inl (underway_turned hphase hway)
  | asked hconn hwhy =>
    rcases underway_setConn hway with hbefore | ⟨pending, hcalling, -⟩
    · exact .inl hbefore
    · cases hcalling
      exact .inr (.inr ⟨hwhy, rfl⟩)
  | began => exact .inl hway
  | ended =>
    rcases underway_setConn hway with hbefore | ⟨pending, hcalling, -⟩
    · exact .inl hbefore
    · cases hcalling
      exact .inr (.inl (by simp))
  | opened =>
    rcases underway_setConn hway with hbefore | ⟨pending, hcalling, -⟩
    · exact .inl hbefore
    · cases hcalling
  | refused =>
    rcases underway_setConn hway with hbefore | ⟨pending, hcalling, -⟩
    · exact .inl hbefore
    · cases hcalling
  | @closed _ i c h x phase fx hconn hhandle hphase hfx =>
    rcases underway_setConn hway with hbefore | ⟨pending, hcalling, -⟩
    · exact .inl hbefore
    rcases hphase with hwaits | ⟨pending', rfl, hlast | hbypass⟩
    · exact absurd hcalling (hwaits idx g pending)
    · cases hcalling
      exact .inr (.inl (holder_of_none_open hk' (by simpa using hlast)))
    · cases hcalling
      by_cases hheld : (s.shares x.backend).transactionHolder = some g
      · exact .inr (.inl (by simp [released, hheld]))
      · exact .inr (.inr ⟨.inl hbypass, by simp [released, hheld]⟩)
  | called hconn hcalling hphase =>
    rcases underway_setConn hway with hbefore | ⟨pending, hagain, hdisturbs⟩
    · exact .inl hbefore
    rcases hphase with hwaits | ⟨again, rfl, hcall⟩
    · exact absurd hagain (hwaits idx g pending)
    · cases hagain
      exact .inl ⟨_, List.mem_of_getElem? hconn, _, hcalling, hcall ▸ hdisturbs⟩

theorem isolated_step (hstep : s.step B e = some (s', fx)) (hcareful : Careful B s e)
    (hi : s.Isolated) : s'.Isolated := by
  have hk' := kept_step hstep hcareful.proper hi.kept
  refine ⟨hk', ?_⟩
  intro idx g hway
  rw [admits_eq_true_iff]
  intro h hheld
  rcases underway_step hstep hk' hway with hbefore | hnone | ⟨hwhy, hsame⟩
  · have hmine := admits_eq_true_iff.mp (hi.mine idx g hbefore)
    rcases holder_step hstep idx with ⟨h', hgrants, -, hnew⟩ | ⟨h', -, hnone, -⟩ | hsame
    · rw [hcareful.clear idx h' hgrants g hbefore]
      exact Option.some.inj (hnew.symm.trans hheld)
    · rw [hnone] at hheld
      cases hheld
    · exact hmine h (hsame ▸ hheld)
  · rw [hnone] at hheld
    cases hheld
  · have hadmits := hwhy.elim (hcareful.admitted idx g) id
    exact admits_eq_true_iff.mp hadmits h (hsame ▸ hheld)

/-- In an isolated state only the holder of a card disturbs it. -/
theorem called_of_isolated (hi : s.Isolated) (hstep : s.step B e = some (s', fx))
    (hheld : (s.shares idx).transactionHolder = some h) {caller : Option Int32} {call : CardCall}
    (hcalled : Effect.called idx caller call ∈ fx) (hdisturbs : call.disturbs = true) :
    caller = some h := by
  -- a connection without a handle calls only a card with no open handle
  have hfirst : ∀ {req idx'}, Effect.called idx caller call ∈ s.firstCall req idx' →
      caller = some h := by
    intro req idx' hmem
    obtain ⟨hnone, heq⟩ := mem_firstCall hmem
    cases heq
    rw [holder_of_none_open hi.kept hnone] at hheld
    cases hheld
  cases moved_of_step hstep with
  | accepted => cases hcalled
  | controlled => cases hcalled
  | answered hfx => exact absurd hcalled (hfx.notMem nofun)
  | turned hconn hphase hfx => exact absurd hcalled (hfx.notMem nofun)
  | asked => cases hcalled
  | began => simp at hcalled
  | ended => simp at hcalled
  | opened =>
    rcases List.mem_append.mp hcalled with hmem | hmem
    · exact hfirst hmem
    · simp at hmem
  | refused =>
    rcases List.mem_append.mp hcalled with hmem | hmem
    · exact hfirst hmem
    · simp at hmem
  | closed hconn hhandle hphase hfx =>
    rcases List.mem_cons.mp hcalled with heq | hmem
    · cases heq
    · exact absurd hmem (hfx.notMem nofun)
  | called hconn hcalling hphase hfx =>
    rcases List.mem_cons.mp hcalled with heq | hmem
    · cases heq
      have hmine := hi.mine idx _ ⟨_, List.mem_of_getElem? hconn, _, hcalling, hdisturbs⟩
      rw [admits_eq_true_iff.mp hmine h hheld]
    · exact absurd hmem (hfx.notMem nofun)

/-! ## Runs -/

theorem isolated_of_run {cards : Fin (n + 1) → β} {log : List (Label n ι)}
    (hrun : Run (· = initial cards) (Steps B) (fun _ s label => Careful B s label.1) log s) :
    s.Isolated := by
  refine hrun.invariant (motive := fun _ s => s.Isolated) ?_ ?_
  · rintro _ rfl
    refine ⟨kept_initial cards, ?_⟩
    rintro idx g ⟨c, hc, -⟩
    cases hc
  · intro log s label s' _ hi hstep hcareful
    exact isolated_step hstep hcareful hi

/-- What a log says of a transaction: none of the steps ends it or closes its handle. -/
def Lasts (idx : Fin (n + 1)) (h : Int32) (log : List (Label n ι)) : Prop :=
  ∀ label ∈ log, Effect.ended idx h ∉ label.2 ∧ Effect.closed idx h ∉ label.2

/-- In a run of careful steps, from where a transaction begins until it ends or its handle is
closed, every call that disturbs the card is one for its holder. -/
theorem isolated_of_careful (B : Backend β ι) (cards : Fin (n + 1) → β) {newer older : List (Label n ι)}
    {begin : Label n ι} (hrun : Run (· = initial cards) (Steps B)
      (fun _ s label => Careful B s label.1) (newer ++ begin :: older) s)
    (hbegan : Effect.began idx h ∈ begin.2) (hlasts : Lasts idx h newer) :
    ∀ label ∈ newer, ∀ caller call, Effect.called idx caller call ∈ label.2 →
      call.disturbs = true → caller = some h := by
  suffices hheld : (s.shares idx).transactionHolder = some h ∧ ∀ label ∈ newer, ∀ caller call,
      Effect.called idx caller call ∈ label.2 → call.disturbs = true → caller = some h from hheld.2
  induction newer generalizing s with
  | nil =>
    refine ⟨?_, nofun⟩
    cases hrun with
    | step _ hstep _ => exact holder_of_began hstep hbegan
  | cons label newer ih =>
    cases hrun with
    | step hrun hstep hcareful =>
      obtain ⟨hheld, hcalls⟩ := ih hrun fun l hl => hlasts l (List.mem_cons_of_mem _ hl)
      refine ⟨?_, ?_⟩
      · rcases holder_step hstep idx with ⟨h', hgrants, -, hnew⟩ | ⟨h', hold, -, hover⟩ | hsame
        · rw [hnew, holder_of_grants hgrants hheld]
        · cases hold.symm.trans hheld
          obtain ⟨hended, hclosed⟩ := hlasts label List.mem_cons_self
          exact absurd hover (not_or.mpr ⟨hended, hclosed⟩)
        · rw [hsame, hheld]
      · intro l hl caller call hcalled hdisturbs
        rcases List.mem_cons.mp hl with rfl | hmem
        · exact called_of_isolated (isolated_of_run hrun) hstep hheld hcalled hdisturbs
        · exact hcalls l hmem caller call hcalled hdisturbs

/-! ## A daemon with one virtual card -/

section Sample

variable {i : Nat} {code : UInt32} {body payload : Bytes}

theorem careful_accept : Careful B s (.accept : Event ι) where
  proper := ⟨nofun, nofun⟩
  clear := nofun
  admitted := nofun

/-- Commands that neither begin a transaction nor go around its holder are careful. -/
theorem careful_message (hbegin : Command.fromU32 code ≠ some .beginTransaction)
    (hreconnect : Command.fromU32 code ≠ some .reconnect)
    (hdisconnect : Command.fromU32 code ≠ some .disconnect) :
    Careful B s (.message i code body payload) where
  proper := by
    refine ⟨?_, nofun⟩
    rintro idx h ⟨hspeaks, -⟩
    exact absurd hspeaks.command hbegin
  clear := by
    rintro idx h ⟨hspeaks, -⟩
    exact absurd hspeaks.command hbegin
  admitted := by
    rintro idx h (⟨hspeaks, -⟩ | ⟨hspeaks, -⟩)
    · exact absurd hspeaks.command hreconnect
    · exact absurd hspeaks.command hdisconnect

/-- A connection that has a handle of its own open may begin a transaction of it while nothing
is on its way to a card. -/
theorem careful_beginTransaction (hcode : Command.fromU32 code = some .beginTransaction)
    (hopen : ∀ c, s.conns[i]? = some c →
      ∃ x, c.handles.lookup (handleRequest body).handle = some x)
    (hclear : ∀ c ∈ s.conns, c.phase.Waits) : Careful B s (.message i code body payload) where
  proper := by
    refine ⟨?_, nofun⟩
    rintro idx h ⟨hspeaks, -⟩
    obtain ⟨x, hx⟩ := hopen _ hspeaks.conn
    refine ⟨_, List.mem_of_getElem? hspeaks.conn, x, hx, ?_⟩
    rw [Handles.backendOf, hx]
    rfl
  clear := by
    rintro idx h - g ⟨c, hc, pending, hcalling, -⟩
    exact absurd hcalling (hclear c hc idx g pending)
  admitted := by
    rintro idx h (⟨hspeaks, -⟩ | ⟨hspeaks, -⟩)
    · exact absurd (hcode.symm.trans hspeaks.command) (by decide)
    · exact absurd (hcode.symm.trans hspeaks.command) (by decide)

theorem careful_proceed {around : ι}
    (hnew : ∀ c, s.conns[i]? = some c → c.handles.lookup s.nextCard = none) :
    Careful B s (.proceed i around) where
  proper := by
    refine ⟨nofun, ?_⟩
    rintro i c x ⟨hconn, -, -⟩
    exact hnew c hconn
  clear := nofun
  admitted := nofun

/-- A CONNECT of a known reader with a card goes on to the table of the card. -/
theorem step_connect {c : Conn n} {req : ConnectStruct} (hspeaks : s.Speaks i c code body .connect)
    (hreq : ConnectStruct.fromBytes body = some req)
    (hidx : s.backendForReader B req.szReader = some idx)
    (hpresent : B.cardPresent (s.cards idx) = true) :
    s.step B (.message i code body payload) =
      some (s.setConn i { c with phase := .connecting req idx }, []) := by
  have hsize : ¬ maxBody < body.length := Nat.not_lt.mpr hspeaks.size
  simp [step, Event.conn?, stepConn, hspeaks.conn, hspeaks.idle, hsize, command, hspeaks.command,
    connect, hreq, hidx, hpresent]

def sampleBackend : Backend VirtualCard VirtualCard.Surroundings := VirtualCard.backend sampleCrypto

def sampleCards (_ : Fin 1) : VirtualCard := VirtualCard.withModel .yk5

/-- A CONNECT to the virtual card. -/
def sampleConnect : ConnectStruct := ⟨1, "Virtual PCD piggy fibby 00 00", 2, 3, 0, 0, 0⟩

theorem fromBytes_sampleConnect :
    ConnectStruct.fromBytes sampleConnect.toBytes = some sampleConnect :=
  ConnectStruct.fromBytes_toBytes (by decide +kernel) (by decide +kernel)

theorem length_sampleConnect : sampleConnect.toBytes.length ≤ maxBody := by decide +kernel

/-- A TRANSMIT of four bytes with the first handle. -/
def sampleTransmit : TransmitStruct := ⟨1, 2, 8, 4, 2, 8, 258, 0⟩

/-- SELECT without a name. -/
def sampleApdu : Bytes := [0x00, 0xA4, 0x04, 0x00]

/-- A TRANSMIT of four bytes with the second handle. -/
def sampleIntrusion : TransmitStruct := { sampleTransmit with hCard := 2 }

/-- The holder of the card sends a command, and the other client's command is refused. -/
def sampleLog : List (Label 0 VirtualCard.Surroundings) :=
  [(.message 1 0x09 sampleIntrusion.toBytes sampleApdu,
      [.reply 1 (transmitReply sampleIntrusion Protocol.t1 (.error Scard.sharingViolation))]),
    (.proceed 0 ⟨0, []⟩, [.called 0 (some 1) (.transmit sampleApdu),
      .reply 0 (transmitReply sampleTransmit Protocol.t1
        (.ok (VirtualCard.dispatch sampleCrypto ⟨0, []⟩ (VirtualCard.withModel .yk5).connect.connect
          sampleApdu).1))]),
    (.message 0 0x09 sampleTransmit.toBytes sampleApdu, [])]

set_option maxRecDepth 20000 in
theorem isolated_of_careful_sample :
    (∃ label ∈ sampleLog, Effect.called 0 (some 1) (.transmit sampleApdu) ∈ label.2) ∧
      (∃ label ∈ sampleLog, Effect.reply 1 (transmitReply sampleIntrusion Protocol.t1
        (.error Scard.sharingViolation)) ∈ label.2) ∧
      ∀ label ∈ sampleLog, ∀ caller call, Effect.called 0 caller call ∈ label.2 →
        call.disturbs = true → caller = some 1 := by
  have hstart : Run (· = initial sampleCards) (Steps sampleBackend)
      (fun _ s label => Careful sampleBackend s label.1) [] _ := .start rfl
  have haccept := hstart.step (show Steps sampleBackend _ (Event.accept, _) _ from rfl) careful_accept
  have hversion := haccept.step
    (show Steps sampleBackend _ (Event.message 0 0x11 (versionReply 0) [], _) _ from rfl)
    (careful_message (by decide) (by decide) (by decide))
  have hconnect := hversion.step
    (show Steps sampleBackend _ (Event.message 0 0x04 sampleConnect.toBytes [], _) _ from
      step_connect ⟨rfl, rfl, length_sampleConnect, rfl⟩ fromBytes_sampleConnect rfl rfl)
    (careful_message (by decide) (by decide) (by decide))
  have hopened := hconnect.step (show Steps sampleBackend _ (Event.proceed 0 ⟨0, []⟩, _) _ from rfl)
    (careful_proceed (by rintro c ⟨⟩; rfl))
  -- the second client
  have haccept' := hopened.step (show Steps sampleBackend _ (Event.accept, _) _ from rfl)
    careful_accept
  have hversion' := haccept'.step
    (show Steps sampleBackend _ (Event.message 1 0x11 (versionReply 0) [], _) _ from rfl)
    (careful_message (by decide) (by decide) (by decide))
  have hconnect' := hversion'.step
    (show Steps sampleBackend _ (Event.message 1 0x04 sampleConnect.toBytes [], _) _ from
      step_connect ⟨rfl, rfl, length_sampleConnect, rfl⟩ fromBytes_sampleConnect rfl rfl)
    (careful_message (by decide) (by decide) (by decide))
  have hopened' := hconnect'.step
    (show Steps sampleBackend _ (Event.proceed 1 ⟨0, []⟩, _) _ from rfl)
    (careful_proceed (by rintro c ⟨⟩; rfl))
  have hbegan := hopened'.step
    (show Steps sampleBackend _ (Event.message 0 0x07 (handleReply 1 0) [], _) _ from rfl)
    (careful_beginTransaction rfl (by rintro c ⟨⟩; exact ⟨_, rfl⟩) (by
      intro c hc idx h pending
      rcases List.mem_cons.mp hc with rfl | hc
      · nofun
      · rw [List.mem_singleton.mp hc]
        nofun))
  have hsent := hbegan.step
    (show Steps sampleBackend _ (Event.message 0 0x09 sampleTransmit.toBytes sampleApdu, _) _ from rfl)
    (careful_message (by decide) (by decide) (by decide))
  have hcalled := hsent.step (show Steps sampleBackend _ (Event.proceed 0 ⟨0, []⟩, _) _ from rfl)
    (careful_proceed (by rintro c ⟨⟩; rfl))
  have hrefused := hcalled.step
    (show Steps sampleBackend _ (Event.message 1 0x09 sampleIntrusion.toBytes sampleApdu, _) _ from rfl)
    (careful_message (by decide) (by decide) (by decide))
  have hlasts : Lasts 0 1 sampleLog := by
    unfold Lasts
    decide
  have hsplit : Run (· = initial sampleCards) (Steps sampleBackend)
      (fun _ s label => Careful sampleBackend s label.1) (sampleLog ++ _ :: _) _ := hrefused
  refine ⟨⟨_, List.mem_cons_of_mem _ List.mem_cons_self, List.mem_cons_self⟩,
    ⟨_, List.mem_cons_self, List.mem_cons_self⟩, ?_⟩
  exact isolated_of_careful sampleBackend sampleCards hsplit List.mem_cons_self hlasts

/-- A RECONNECT of the second handle that resets the card. -/
def sampleReconnect : Bytes :=
  i32Le 2 ++ (u32Le 2 ++ (u32Le 3 ++ (u32Le VirtualCard.Disposition.reset ++ (u32Le 0 ++ u32Le 0))))

set_option maxRecDepth 20000 in
/-- While one client holds the card, another one's RECONNECT resets it. -/
theorem not_isolated_reconnect :
    ¬ ∀ (newer older : List (Label 0 VirtualCard.Surroundings)) (label : Label 0 _)
      (s : Daemon 0 VirtualCard) (idx : Fin 1) (h : Int32),
      Run (· = initial sampleCards) (Steps sampleBackend) anyStep (newer ++ label :: older) s →
        Effect.began idx h ∈ label.2 → Lasts idx h newer →
          ∀ label ∈ newer, ∀ caller call, Effect.called idx caller call ∈ label.2 →
            call.disturbs = true → caller = some h := by
  intro hall
  have hstart : Run (· = initial sampleCards) (Steps sampleBackend) anyStep [] _ := .start rfl
  have haccept := hstart.step (show Steps sampleBackend _ (Event.accept, _) _ from rfl) trivial
  have hversion := haccept.step
    (show Steps sampleBackend _ (Event.message 0 0x11 (versionReply 0) [], _) _ from rfl) trivial
  have hconnect := hversion.step
    (show Steps sampleBackend _ (Event.message 0 0x04 sampleConnect.toBytes [], _) _ from
      step_connect ⟨rfl, rfl, length_sampleConnect, rfl⟩ fromBytes_sampleConnect rfl rfl) trivial
  have hopened := hconnect.step
    (show Steps sampleBackend _ (Event.proceed 0 ⟨0, []⟩, _) _ from rfl) trivial
  -- the second client
  have haccept' := hopened.step (show Steps sampleBackend _ (Event.accept, _) _ from rfl) trivial
  have hversion' := haccept'.step
    (show Steps sampleBackend _ (Event.message 1 0x11 (versionReply 0) [], _) _ from rfl) trivial
  have hconnect' := hversion'.step
    (show Steps sampleBackend _ (Event.message 1 0x04 sampleConnect.toBytes [], _) _ from
      step_connect ⟨rfl, rfl, length_sampleConnect, rfl⟩ fromBytes_sampleConnect rfl rfl) trivial
  have hopened' := hconnect'.step
    (show Steps sampleBackend _ (Event.proceed 1 ⟨0, []⟩, _) _ from rfl) trivial
  have hbegan := hopened'.step
    (show Steps sampleBackend _ (Event.message 0 0x07 (handleReply 1 0) [], _) _ from rfl) trivial
  have hsent := hbegan.step
    (show Steps sampleBackend _ (Event.message 1 0x05 sampleReconnect [], _) _ from rfl) trivial
  have hcalled := hsent.step
    (show Steps sampleBackend _ (Event.proceed 1 ⟨0, []⟩, _) _ from rfl) trivial
  have hmine := hall [_, _] _ _ _ 0 1 hcalled List.mem_cons_self (by unfold Lasts; decide) _
    List.mem_cons_self _ _ List.mem_cons_self rfl
  exact absurd hmine (by decide)

end Sample

end Daemon

end Piggy.Fibby
