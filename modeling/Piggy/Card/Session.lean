import Piggy.Box.Unlock

/-!
# PIV sessions

What the oracles of a card see of it: the attached tokens, their slots, and sessions
in which a PIN is verified and a secret derived. The cards and the person at the prompt
are an environment with a state of its own. Every PIN that is asked for and every PIN
that is sent to a card is kept in a log.
-/

namespace Piggy.Card

open Piggy.Core Piggy.Box

/-! ## Errors of the card -/

/-- The PC/SC errors that mean that the card is gone, and the others. -/
inductive PcscKind where
  | noSmartcard
  | readerUnavailable
  | removedCard
  | other
  deriving DecidableEq

/-- A PC/SC error with the text of the library. -/
structure PcscError where
  kind : PcscKind
  text : String
  deriving DecidableEq

/-- The errors of a PIV operation. -/
inductive PivError where
  | pcsc (e : PcscError)
  | transport (msg : String)
  | tlv (message : String)
  | invalidGuid (msg : String)
  | apdu (sw : UInt16)
  | cardNotFound
  | noPin
  | pinIncorrect (retries : UInt32)
  | pinRequired
  | pinBlocked
  | managementAuthFailed
  | slotEmpty (slot : UInt8)
  | unsupportedAlgorithm (msg : String)
  | openssl (msg : String)
  | crypto (msg : String)
  | other (msg : String)
  deriving DecidableEq

/-- The text of a PIV error. -/
def PivError.text : PivError → String
  | pcsc e => s!"PCSC error: {e.text}"
  | transport msg => s!"transport error: {msg}"
  | tlv message => s!"TLV parse error: {message}"
  | invalidGuid msg => s!"invalid GUID: {msg}"
  | apdu sw => "APDU error: SW=" ++ hexWord sw
  | cardNotFound => "card not found"
  | noPin => "no PIN provided"
  | pinIncorrect retries => s!"PIN incorrect, {retries.toNat} retries remaining"
  | pinRequired => "PIN required for this operation"
  | pinBlocked => "PIN is blocked"
  | managementAuthFailed => "management-key authentication failed (wrong key)"
  | slotEmpty slot => "slot 0x" ++ hexByte slot ++ " not found or empty"
  | unsupportedAlgorithm msg => s!"unsupported algorithm: {msg}"
  | openssl msg => s!"OpenSSL error: {msg}"
  | crypto msg => s!"crypto error: {msg}"
  | other msg => msg

/-- The oracle error for a failed VERIFY. -/
def pivToOraclePinError : PivError → OracleError
  | .pinIncorrect retries => .other s!"wrong PIN, {retries.toNat} retries remaining"
  | .pinBlocked => .other "PIN blocked"
  | other => .transport s!"verify_pin: {other.text}"

/-! ## Tokens and slots -/

/-- The public key of a slot: a point on one of the two curves, or something else. -/
inductive SlotKey where
  | nistP256 (point : Bytes)
  | nistP384 (point : Bytes)
  | other
  deriving DecidableEq

/-- The point of an elliptic-curve slot key and its curve. -/
def SlotKey.ecdsa : SlotKey → Option (Bytes × EcCurve)
  | nistP256 point => some (point, .nistP256)
  | nistP384 point => some (point, .nistP384)
  | other => none

/-- A slot as it is read from a card. -/
structure PivSlot where
  id : UInt8
  key : SlotKey
  deriving DecidableEq

/-- The status word of an APDU. -/
structure StatusWord where
  sw1 : UInt8
  sw2 : UInt8
  deriving DecidableEq

namespace StatusWord

/-- The command was carried out. -/
def isSuccess (sw : StatusWord) : Bool := sw.sw1 = 0x90 ∧ sw.sw2 = 0x00

/-- The two bytes as a word. -/
def asU16 (sw : StatusWord) : UInt16 := UInt16.ofNat (sw.sw1.toNat * 256 + sw.sw2.toNat)

/-- `63Cx`: a wrong PIN, with the number of tries left. -/
def isPinIncorrect (sw : StatusWord) : Bool := sw.sw1 = 0x63 ∧ sw.sw2 &&& 0xF0 = 0xC0

/-- The tries left, when the PIN was wrong. -/
def pinRetriesRemaining (sw : StatusWord) : Option UInt8 :=
  if sw.isPinIncorrect then some (sw.sw2 &&& 0x0F) else none

end StatusWord

/-- What the cards do, with a state of their own. -/
structure PivEnv (ω : Type) where
  enumerateTokens : ω → Except PivError (List Guid) × ω
  readSlot : ω → Guid → UInt8 → Except PivError PivSlot × ω
  beginPinSession : ω → Guid → Except PivError Unit × ω
  transmitVerify : ω → Guid → Bytes → Except PivError StatusWord × ω
  ecdhDerive : ω → Guid → PivSlot → Bytes → Except PivError Bytes × ω

/-! ## PINs -/

/-- What concerns the PIN of one card: a prompt with what it was answered, and a VERIFY with
what it came to. -/
inductive PinEvent where
  | prompted (answer : Option String)
  | verified (pin : String) (answer : Except PivError Unit)
  deriving DecidableEq

/-- The PIN events of all cards, the oldest first. -/
abbrev PinLog : Type := List (Guid × PinEvent)

/-- The PIN events of one card. -/
def PinLog.history (log : PinLog) (guid : Guid) : List PinEvent :=
  log.filterMap fun x => if x.1 = guid then some x.2 else none

@[simp]
theorem PinLog.history_nil (guid : Guid) : PinLog.history [] guid = [] := rfl

@[simp]
theorem PinLog.history_append (log log' : PinLog) (guid : Guid) :
    PinLog.history (log ++ log') guid = PinLog.history log guid ++ PinLog.history log' guid :=
  List.filterMap_append

@[simp]
theorem PinLog.history_single_self (guid : Guid) (e : PinEvent) :
    PinLog.history [(guid, e)] guid = [e] := by
  simp [PinLog.history]

theorem PinLog.history_single_other {guid guid' : Guid} (h : guid' ≠ guid) (e : PinEvent) :
    PinLog.history [(guid', e)] guid = [] := by
  simp [PinLog.history, h]

/-- What a VERIFY that was sent came to. -/
def verifyAnswer : Except PivError StatusWord → Except PivError Unit
  | .error e => .error e
  | .ok sw =>
    if sw.isSuccess then .ok ()
    else if sw.isPinIncorrect then
      .error (.pinIncorrect (UInt32.ofNat (sw.pinRetriesRemaining.getD 0).toNat))
    else if sw.asU16 = 0x6983 then .error .pinBlocked
    else .error (.apdu sw.asU16)

variable {ω : Type}

/-- Verifies a PIN in a session. A PIN of more than eight bytes is not sent. The events
are those the call adds to the log. -/
def verifyPin (env : PivEnv ω) (guid : Guid) (pin : String) (w : ω) :
    Except PivError Unit × PinLog × ω :=
  if 8 < (strBytes pin).length then
    (.error (.other s!"PIV PIN must be at most 8 bytes, got {(strBytes pin).length}"), [], w)
  else
    let (sw, w) := env.transmitVerify w guid (strBytes pin)
    (verifyAnswer sw, [(guid, .verified pin (verifyAnswer sw))], w)

/-- A PIN is sent once or not at all, and the answer is kept with it. -/
theorem verifyPin_events (env : PivEnv ω) (guid : Guid) (pin : String) (w : ω) :
    (verifyPin env guid pin w).2.1 = [] ∧ (∃ e, (verifyPin env guid pin w).1 = .error e) ∨
      (verifyPin env guid pin w).2.1 = [(guid, .verified pin (verifyPin env guid pin w).1)] := by
  unfold verifyPin
  split
  · exact .inl ⟨rfl, _, rfl⟩
  · exact .inr rfl

/-! ## Keys in queries -/

/-- One length-prefixed string off the front of a blob. -/
def takeString (b : Bytes) : Except OracleError (Bytes × Bytes) :=
  if b.length < 4 then .error (.invalidPubkey "blob too short for length")
  else
    let n := ofBe (b.take 4)
    if b.length < 4 + n then .error (.invalidPubkey "blob string underflow")
    else .ok ((b.drop 4).take n, b.drop (4 + n))

/-- The point of an OpenSSH public key blob. -/
def extractPointFromSshkeyBlob (blob : Bytes) : Except OracleError Bytes := do
  let (_, rest) ← takeString blob
  let (_, rest) ← takeString rest
  let (point, _) ← takeString rest
  pure point

/-- The uncompressed form of a point whose curve its length tells. -/
def canonicalizeUncompressed {Scalar Point Rng : Type} (ssl : OpenSsl Scalar Point Rng)
    (point : Bytes) : Except OracleError Bytes :=
  if point.head? = some 0x04 then .ok point
  else
    let decompress (curve : EcCurve) : Except OracleError Bytes :=
      match ssl.pointFromBytes curve point with
      | .error e => .error (.invalidPubkey s!"decompress: {e}")
      | .ok p => .ok (ssl.pointToBytes curve .uncompressed p)
    if point.length = 33 then decompress .nistP256
    else if point.length = 49 then decompress .nistP384
    else .error (.invalidPubkey
      s!"compressed point of length {point.length} does not match P-256 or P-384")

end Piggy.Card
