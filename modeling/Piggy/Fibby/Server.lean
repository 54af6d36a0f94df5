import Piggy.Fibby.Proto
import Piggy.Fibby.VirtualCard
import Mathlib.Data.List.AList

/-!
# The reader daemon

A thread serves each connection; a lock guards each card, and another the table of who uses
it. One step is what happens under a lock, together with what the thread then does alone.
A connection that waits for its next lock is in a phase of its own, so that the steps of other
connections come in between. What another thread could have done before a card call is what
the call meets.

The commands that report the readers change nothing here; they are the subject of the
waiters.
-/

namespace Piggy.Fibby

open Piggy.Core Piggy.Box

/-! ## What stands behind a reader -/

/-- How an attempt to transmit ends. A blocked one has the response to a touch that never
comes. -/
inductive TransmitOutcome where
  | done (response : Bytes)
  | awaitTouch (timeoutResponse : Bytes)

/-- What the control socket does to a card. -/
inductive CardControl where
  | setPresent (present : Bool)
  | injectFault (fault : Fault)
  | clearFaults
  | grantTouch

/-- A kind of card: `β` is its state, `ι` what a call sees besides. -/
structure Backend (β ι : Type) where
  readerName : β → String
  cardPresent : β → Bool
  connect : ι → β → UInt32 → UInt32 → Except UInt32 UInt32 × β
  disconnect : ι → β → UInt32 → Except UInt32 Unit × β
  endTransaction : ι → β → UInt32 → β
  transmitOrAwaitTouch : ι → β → Bytes → Except UInt32 TransmitOutcome × β
  control : β → CardControl → β

namespace VirtualCard

/-- An attempt takes the mark of a blocked operation off the card again. -/
def transmitOrAwaitTouch (crypto : CardCrypto) (around : Surroundings) (c : VirtualCard)
    (apdu : Bytes) : TransmitOutcome × VirtualCard :=
  let (response, c) := c.dispatch crypto around apdu
  (if c.touchBlocked.isSome then .awaitTouch response else .done response,
    { c with touchBlocked := none })

/-- A control operation on the card. -/
def control (c : VirtualCard) : CardControl → VirtualCard
  | .setPresent present => c.setPresent present
  | .injectFault fault => c.injectFault fault
  | .clearFaults => c.clearFaults
  | .grantTouch => c.grantTouch

/-- The virtual card as what stands behind a reader. -/
def backend (crypto : CardCrypto) : Backend VirtualCard Surroundings where
  readerName := VirtualCard.readerName
  cardPresent := VirtualCard.inserted
  connect := fun _ c _ _ => (.ok Protocol.t1, c.connect)
  disconnect := fun _ c _ => (.ok (), c.disconnect)
  endTransaction := fun _ c disposition => c.endTransaction disposition
  transmitOrAwaitTouch := fun around c apdu =>
    let (outcome, c) := c.transmitOrAwaitTouch crypto around apdu
    (.ok outcome, c)
  control := VirtualCard.control

end VirtualCard

/-! ## Handles -/

/-- Who uses a card: how many handles are open on it, and which one holds its transaction. -/
structure CardShare where
  openHandles : Nat
  transactionHolder : Option Int32
  deriving DecidableEq

/-- Whether a handle may use the card now. -/
def CardShare.admits (share : CardShare) (h : Int32) : Bool :=
  share.transactionHolder.all (· = h)

/-- What a connection keeps of a handle: the protocol and the card. -/
structure Handle (n : Nat) where
  protocol : UInt32
  backend : Fin (n + 1)
  deriving DecidableEq

/-- The handles of a connection. -/
abbrev Handles (n : Nat) := AList fun _ : Int32 => Handle n

namespace Handles

variable {n : Nat}

/-- The card of a handle. A handle that the connection did not open falls to the first card. -/
def backendOf (m : Handles n) (h : Int32) : Fin (n + 1) := (m.lookup h).elim 0 (·.backend)

/-- The protocol of a handle, T=1 for one that the connection did not open. -/
def protocolOf (m : Handles n) (h : Int32) : UInt32 := (m.lookup h).elim Protocol.t1 (·.protocol)

end Handles

/-! ## Connections -/

/-- A call of a card. -/
inductive CardCall where
  | connect (shareMode preferred : UInt32)
  | disconnect (disposition : UInt32)
  | endTransaction (disposition : UInt32)
  | transmit (apdu : Bytes)
  deriving DecidableEq

/-- A call that processes a command, powers the card up or down, or resets it. -/
def CardCall.disturbs : CardCall → Bool
  | endTransaction disposition => VirtualCard.Disposition.resets disposition
  | _ => true

/-- A request that is on its way to the card. -/
inductive Pending where
  | reconnect (body : Bytes) (sole : Bool) (active : UInt32)
  | disconnect (req : HandleArgRv) (last : Bool)
  | endTransaction (req : HandleArgRv)
  /-- With the response to a touch that never comes, once it waits for a touch. -/
  | transmit (req : TransmitStruct) (apdu : Bytes) (active : UInt32) (waiting : Option Bytes)
  /-- The last handle of a card is closed, as its connection is gone. -/
  | cleanUp
  deriving DecidableEq

/-- The call that a request makes. -/
def Pending.call : Pending → CardCall
  | reconnect body sole _ =>
    if sole then .connect (u32At body 4) (u32At body 8) else .endTransaction (u32At body 12)
  | disconnect req last => if last then .disconnect req.arg else .endTransaction req.arg
  | endTransaction req => .endTransaction req.arg
  | transmit _ apdu _ _ => .transmit apdu
  | cleanUp => .disconnect VirtualCard.Disposition.leave

/-- What a connection is doing. -/
inductive Phase (n : Nat) where
  /-- The version has not been agreed on. -/
  | handshake
  | idle
  /-- A card was seen in the reader. -/
  | connecting (req : ConnectStruct) (idx : Fin (n + 1))
  /-- A request of a handle is on its way to the card. -/
  | calling (idx : Fin (n + 1)) (h : Int32) (pending : Pending)
  /-- The client is gone; what it left open is closed. -/
  | closing
  deriving DecidableEq

/-- A connection with the handles it opened. -/
structure Conn (n : Nat) where
  handles : Handles n
  phase : Phase n

/-! ## The daemon -/

/-- The state of the daemon, all connections included. -/
structure Daemon (n : Nat) (β : Type) where
  conns : List (Conn n)
  shares : Fin (n + 1) → CardShare
  cards : Fin (n + 1) → β
  nextContext : UInt32
  nextCard : Int32

/-- What a step does that others see. -/
inductive Effect (n : Nat) where
  | reply (i : Nat) (bytes : Bytes)
  | opened (idx : Fin (n + 1)) (h : Int32)
  | closed (idx : Fin (n + 1)) (h : Int32)
  | began (idx : Fin (n + 1)) (h : Int32)
  | ended (idx : Fin (n + 1)) (h : Int32)
  /-- A card is called for a handle, or for a connection that has none yet. -/
  | called (idx : Fin (n + 1)) (h : Option Int32) (call : CardCall)
  deriving DecidableEq

/-- What happens to the daemon. -/
inductive Event (ι : Type) where
  | accept
  /-- A client sends a command with its body; behind it stand the bytes of a TRANSMIT. -/
  | message (i : Nat) (command : UInt32) (body payload : Bytes)
  /-- A connection gets the lock that it waits for. -/
  | proceed (i : Nat) (around : ι)
  /-- The touch did not come in time, or the client of a waiting TRANSMIT hung up. -/
  | giveUp (i : Nat)
  /-- Nothing can be read from the client, or nothing written to it. -/
  | hangUp (i : Nat)
  /-- One of the handles that a gone client left open is closed. -/
  | cleanUp (i : Nat) (h : Int32)
  | control (name : String) (op : CardControl)

/-- The connection that an event is about. -/
def Event.conn? {ι : Type} : Event ι → Option Nat
  | .accept => none
  | .message i _ _ _ => some i
  | .proceed i _ => some i
  | .giveUp i => some i
  | .hangUp i => some i
  | .cleanUp i _ => some i
  | .control _ _ => none

namespace Daemon

variable {n : Nat} {β ι : Type}

/-- No connections, no handles, and identifiers from 1 on. -/
def initial (cards : Fin (n + 1) → β) : Daemon n β := ⟨[], fun _ => ⟨0, none⟩, cards, 1, 1⟩

/-- Replaces a connection. -/
def setConn (s : Daemon n β) (i : Nat) (c : Conn n) : Daemon n β :=
  { s with conns := s.conns.set i c }

/-- Replaces what is known of the handles of a card. -/
def setShare (s : Daemon n β) (idx : Fin (n + 1)) (share : CardShare) : Daemon n β :=
  { s with shares := Function.update s.shares idx share }

/-- Replaces a card. -/
def setCard (s : Daemon n β) (idx : Fin (n + 1)) (card : β) : Daemon n β :=
  { s with cards := Function.update s.cards idx card }

@[simp] theorem shares_setConn (s : Daemon n β) (i : Nat) (c : Conn n) :
    (s.setConn i c).shares = s.shares := rfl

@[simp] theorem shares_setCard (s : Daemon n β) (idx : Fin (n + 1)) (card : β) :
    (s.setCard idx card).shares = s.shares := rfl

@[simp] theorem shares_setShare (s : Daemon n β) (idx idx' : Fin (n + 1)) (share : CardShare) :
    (s.setShare idx share).shares idx' = if idx' = idx then share else s.shares idx' :=
  Function.update_apply _ _ _ _

/-- The first reader of a name. -/
def findBackend (B : Backend β ι) (s : Daemon n β) (name : String) : Option (Fin (n + 1)) :=
  (List.finRange (n + 1)).find? fun idx => B.readerName (s.cards idx) = name

/-- The card that a CONNECT means. A daemon with one card takes any name. -/
def backendForReader (B : Backend β ι) (s : Daemon n β) (szReader : String) :
    Option (Fin (n + 1)) :=
  match s.findBackend B szReader with
  | some idx => some idx
  | none => if n = 0 then some 0 else none

/-! ### Replies -/

/-- The answer to CMD_VERSION. -/
def versionReply (rv : UInt32) : Bytes :=
  (VersionStruct.mk protocolVersionMajor protocolVersionMinor rv).toBytes

/-- A handle with a result. -/
def handleReply (h : Int32) (rv : UInt32) : Bytes := (HandleRv.mk h rv).toBytes

/-- A CONNECT that gave no handle. -/
def refusedReply (req : ConnectStruct) (rv : UInt32) : Bytes :=
  { req with hCard := -1, dwActiveProtocol := 0, rv := rv }.toBytes

/-- A CONNECT that gave a handle. -/
def connectedReply (req : ConnectStruct) (h : Int32) (active : UInt32) : Bytes :=
  { req with hCard := h, dwActiveProtocol := active, rv := Scard.success }.toBytes

/-- The body of a RECONNECT with its result written in. -/
def reconnectReply (body : Bytes) : Except UInt32 UInt32 → Bytes
  | .ok active => splice (splice body 16 (u32Le active)) 20 (u32Le Scard.success)
  | .error code => splice body 20 (u32Le code)

/-- The request with its result. -/
def argReply (req : HandleArgRv) (rv : UInt32) : Bytes := { req with rv := rv }.toBytes

/-- The answer to a TRANSMIT, the response behind it. -/
def transmitReply (req : TransmitStruct) (active : UInt32) : Except UInt32 Bytes → Bytes
  | .ok response =>
    (TransmitStruct.mk req.hCard req.ioSendPciProtocol req.ioSendPciLength req.cbSendLength active 8
      (UInt32.ofNat response.length) Scard.success).toBytes ++ response
  | .error code => { req with pcbRecvLength := 0, rv := code }.toBytes

/-- The body with success in its last word. -/
def simpleOkReply (body : Bytes) : Bytes :=
  if 4 ≤ body.length then splice body (body.length - 4) (u32Le Scard.success) else body

/-! ### Commands -/

/-- What a body that is too short stands for. -/
def argRequest (body : Bytes) : HandleArgRv :=
  (HandleArgRv.fromBytes body).getD ⟨-1, VirtualCard.Disposition.leave, 0⟩

/-- What a body that is too short stands for. -/
def handleRequest (body : Bytes) : HandleRv := (HandleRv.fromBytes body).getD ⟨-1, 0⟩

/-- The loop of a connection ends. -/
def leave (s : Daemon n β) (i : Nat) (c : Conn n) : Daemon n β :=
  s.setConn i { c with phase := .closing }

/-- The version is agreed on before anything else. -/
def handshake (s : Daemon n β) (i : Nat) (c : Conn n) (command : UInt32) (body : Bytes) :
    Daemon n β × List (Effect n) :=
  if command ≠ 0x11 then (s.leave i c, [])
  else if ((VersionStruct.fromBytes body).elim 0 (·.major)) = protocolVersionMajor then
    (s.setConn i { c with phase := .idle }, [.reply i (versionReply Scard.success)])
  else (s.leave i c, [.reply i (versionReply Scard.noService)])

/-- ESTABLISH_CONTEXT gives the next context. -/
def establish (s : Daemon n β) (i : Nat) (body : Bytes) : Daemon n β × List (Effect n) :=
  let req := (EstablishStruct.fromBytes body).getD ⟨Scope.system, 0, 0⟩
  ({ s with nextContext := s.nextContext + 1 },
    [.reply i (EstablishStruct.mk req.dwScope s.nextContext Scard.success).toBytes])

/-- CONNECT up to the table of the card: the reader is known and has a card. -/
def connect (B : Backend β ι) (s : Daemon n β) (i : Nat) (c : Conn n) (body : Bytes) :
    Daemon n β × List (Effect n) :=
  match ConnectStruct.fromBytes body with
  | none => (s, [.reply i (handleReply (-1) Scard.invalidValue)])
  | some req =>
    match s.backendForReader B req.szReader with
    | none => (s, [.reply i (refusedReply req Scard.unknownReader)])
    | some idx =>
      if B.cardPresent (s.cards idx) then
        (s.setConn i { c with phase := .connecting req idx }, [])
      else (s, [.reply i (refusedReply req Scard.noSmartcard)])

/-- The card as a new handle finds it. Only the first one powers it up. -/
def powerUp (B : Backend β ι) (s : Daemon n β) (around : ι) (req : ConnectStruct)
    (idx : Fin (n + 1)) : Except UInt32 UInt32 × β :=
  if (s.shares idx).openHandles = 0 then
    B.connect around (s.cards idx) req.dwShareMode req.dwPreferredProtocols
  else (.ok Protocol.t1, s.cards idx)

/-- CONNECT at the table of the card. The value of the handle comes from a counter of the
whole daemon. -/
def openHandle (B : Backend β ι) (s : Daemon n β) (around : ι) (i : Nat) (c : Conn n)
    (req : ConnectStruct) (idx : Fin (n + 1)) : Daemon n β × List (Effect n) :=
  let share := s.shares idx
  let calls := if share.openHandles = 0 then
    [Effect.called idx none (.connect req.dwShareMode req.dwPreferredProtocols)] else []
  match s.powerUp B around req idx with
  | (.ok active, card) =>
    let h := s.nextCard
    ({ ((s.setCard idx card).setShare idx
        { share with openHandles := share.openHandles + 1 }).setConn i
        ⟨c.handles.insert h ⟨active, idx⟩, .idle⟩ with nextCard := h + 1 },
      calls ++ [.opened idx h, .reply i (connectedReply req h active)])
  | (.error code, card) =>
    ((s.setCard idx card).setConn i { c with phase := .idle },
      calls ++ [.reply i (refusedReply req code)])

/-- RECONNECT goes to the card only where it resets it or the handle is the only one. -/
def reconnect (s : Daemon n β) (i : Nat) (c : Conn n) (body : Bytes) :
    Daemon n β × List (Effect n) :=
  if body.length < 24 then (s, [.reply i body])
  else
    let h := i32At body 0
    let idx := c.handles.backendOf h
    let active := c.handles.protocolOf h
    let sole := (s.shares idx).openHandles ≤ 1
    if sole ∨ VirtualCard.Disposition.resets (u32At body 12) then
      (s.setConn i { c with phase := .calling idx h (.reconnect body sole active) }, [])
    else (s, [.reply i (reconnectReply body (.ok active))])

/-- Takes a handle out of the table of its card. -/
def released (share : CardShare) (h : Int32) : CardShare :=
  ⟨share.openHandles - 1,
    if share.transactionHolder = some h then none else share.transactionHolder⟩

/-- DISCONNECT of a handle that is open on the connection. -/
def disconnect (s : Daemon n β) (i : Nat) (c : Conn n) (body : Bytes) :
    Daemon n β × List (Effect n) :=
  let req := argRequest body
  match c.handles.lookup req.handle with
  | none => (s, [.reply i (argReply req Scard.invalidHandle)])
  | some handle =>
    let idx := handle.backend
    let share := released (s.shares idx) req.handle
    let last := share.openHandles = 0
    let s := s.setShare idx share
    let handles := c.handles.erase req.handle
    if last ∨ VirtualCard.Disposition.resets req.arg then
      (s.setConn i ⟨handles, .calling idx req.handle (.disconnect req last)⟩,
        [.closed idx req.handle])
    else
      (s.setConn i ⟨handles, c.phase⟩,
        [.closed idx req.handle, .reply i (argReply req Scard.success)])

/-- Closes a handle that a gone client left open, the card staying as it is. -/
def cleanUp (s : Daemon n β) (i : Nat) (c : Conn n) (h : Int32) :
    Option (Daemon n β × List (Effect n)) :=
  (c.handles.lookup h).map fun handle =>
    let idx := handle.backend
    let share := released (s.shares idx) h
    let phase := if share.openHandles = 0 then .calling idx h .cleanUp else .closing
    ((s.setShare idx share).setConn i ⟨c.handles.erase h, phase⟩, [.closed idx h])

/-- TRANSMIT. Who may use the card is asked here, and not again. -/
def transmit (s : Daemon n β) (i : Nat) (c : Conn n) (body payload : Bytes) :
    Daemon n β × List (Effect n) :=
  match TransmitStruct.fromBytes body with
  | none => (s, [])
  | some req =>
    if maxBody < req.cbSendLength.toNat ∨ payload.length ≠ req.cbSendLength.toNat then
      (s.leave i c, [])
    else
      let idx := c.handles.backendOf req.hCard
      let active := c.handles.protocolOf req.hCard
      if (s.shares idx).admits req.hCard then
        (s.setConn i
          { c with phase := .calling idx req.hCard (.transmit req payload active none) }, [])
      else (s, [.reply i (transmitReply req active (.error Scard.sharingViolation))])

/-- BEGIN_TRANSACTION, which another holder refuses. -/
def beginTransaction (s : Daemon n β) (i : Nat) (c : Conn n) (body : Bytes) :
    Daemon n β × List (Effect n) :=
  let req := handleRequest body
  let idx := c.handles.backendOf req.handle
  if (s.shares idx).admits req.handle then
    (s.setShare idx { s.shares idx with transactionHolder := some req.handle },
      [.began idx req.handle, .reply i (handleReply req.handle Scard.success)])
  else (s, [.reply i (handleReply req.handle Scard.sharingViolation)])

/-- END_TRANSACTION. The holder gives the card up before its disposition reaches it. -/
def endTransaction (s : Daemon n β) (i : Nat) (c : Conn n) (body : Bytes) :
    Daemon n β × List (Effect n) :=
  let req := argRequest body
  let idx := c.handles.backendOf req.handle
  if (s.shares idx).transactionHolder = some req.handle then
    ((s.setShare idx { s.shares idx with transactionHolder := none }).setConn i
      { c with phase := .calling idx req.handle (.endTransaction req) }, [.ended idx req.handle])
  else (s, [.reply i (argReply req Scard.success)])

/-- STATUS and CANCEL. -/
def status (s : Daemon n β) (i : Nat) (body : Bytes) : Daemon n β × List (Effect n) :=
  let req := handleRequest body
  (s, [.reply i (handleReply req.handle Scard.success)])

/-- One command. A command that the daemon does not speak ends the connection. -/
def command (B : Backend β ι) (s : Daemon n β) (i : Nat) (c : Conn n) (code : UInt32)
    (body payload : Bytes) : Daemon n β × List (Effect n) :=
  match Command.fromU32 code with
  | some .establishContext => s.establish i body
  | some .releaseContext => (s, [.reply i (simpleOkReply body)])
  | some .getReadersState => (s, [])
  | some .connect => s.connect B i c body
  | some .reconnect => s.reconnect i c body
  | some .disconnect => s.disconnect i c body
  | some .beginTransaction => s.beginTransaction i c body
  | some .endTransaction => s.endTransaction i c body
  | some .transmit => s.transmit i c body payload
  | some .status => s.status i body
  | some .cancel => s.status i body
  | some .waitReaderStateChange => (s, [])
  | some .stopWaitingReaderStateChange => (s, [])
  | _ => (s.leave i c, [])

/-! ### Calls of a card -/

/-- What a request does next: another attempt, an answer, or the next handle to close. -/
inductive Next where
  | retry (pending : Pending)
  | answer (bytes : Bytes)
  | close

/-- A request reaches the card. -/
def run (B : Backend β ι) (around : ι) (card : β) : Pending → Next × β
  | .reconnect body sole active =>
    if sole then
      let (result, card) := B.connect around card (u32At body 4) (u32At body 8)
      (.answer (reconnectReply body result), card)
    else
      (.answer (reconnectReply body (.ok active)), B.endTransaction around card (u32At body 12))
  | .disconnect req last =>
    if last then
      match B.disconnect around card req.arg with
      | (.ok (), card) => (.answer (argReply req Scard.success), card)
      | (.error code, card) => (.answer (argReply req code), card)
    else (.answer (argReply req Scard.success), B.endTransaction around card req.arg)
  | .endTransaction req =>
    (.answer (argReply req Scard.success), B.endTransaction around card req.arg)
  | .transmit req apdu active _ =>
    match B.transmitOrAwaitTouch around card apdu with
    | (.ok (.done response), card) => (.answer (transmitReply req active (.ok response)), card)
    | (.ok (.awaitTouch response), card) => (.retry (.transmit req apdu active (some response)), card)
    | (.error code, card) => (.answer (transmitReply req active (.error code)), card)
  | .cleanUp => (.close, (B.disconnect around card VirtualCard.Disposition.leave).2)

/-- A connection gets the lock of the card for its request. -/
def callCard (B : Backend β ι) (s : Daemon n β) (around : ι) (i : Nat) (c : Conn n)
    (idx : Fin (n + 1)) (h : Int32) (pending : Pending) : Daemon n β × List (Effect n) :=
  let called := Effect.called idx (some h) pending.call
  let (next, card) := run B around (s.cards idx) pending
  let s := s.setCard idx card
  match next with
  | .retry pending => (s.setConn i { c with phase := .calling idx h pending }, [called])
  | .answer bytes => (s.setConn i { c with phase := .idle }, [called, .reply i bytes])
  | .close => (s.setConn i { c with phase := .closing }, [called])

/-- What a step makes of a connection. -/
def stepConn (B : Backend β ι) (s : Daemon n β) (i : Nat) (c : Conn n) :
    Event ι → Option (Daemon n β × List (Effect n))
  | .message _ code body payload =>
    if maxBody < body.length then
      match c.phase with
      | .handshake | .idle => some (s.leave i c, [])
      | _ => none
    else
      match c.phase with
      | .handshake => some (s.handshake i c code body)
      | .idle => some (s.command B i c code body payload)
      | _ => none
  | .proceed _ around =>
    match c.phase with
    | .connecting req idx => some (s.openHandle B around i c req idx)
    | .calling idx h pending => some (s.callCard B around i c idx h pending)
    | _ => none
  | .giveUp _ =>
    match c.phase with
    | .calling _ _ (.transmit req _ active (some response)) =>
      some (s.setConn i { c with phase := .idle },
        [.reply i (transmitReply req active (.ok response))])
    | _ => none
  | .hangUp _ =>
    match c.phase with
    | .handshake | .idle => some (s.leave i c, [])
    | _ => none
  | .cleanUp _ h =>
    match c.phase with
    | .closing => s.cleanUp i c h
    | _ => none
  | _ => none

/-- The daemon's step on an event, with what others see of it. -/
def step (B : Backend β ι) (s : Daemon n β) : Event ι → Option (Daemon n β × List (Effect n))
  | .accept => some ({ s with conns := s.conns ++ [⟨∅, .handshake⟩] }, [])
  | .control name op =>
    match s.findBackend B name with
    | some idx => some (s.setCard idx (B.control (s.cards idx) op), [])
    | none => some (s, [])
  | e => do
    let i ← e.conn?
    let c ← s.conns[i]?
    s.stepConn B i c e

end Daemon

end Piggy.Fibby
