import Piggy.Batch.Run
import Piggy.Box.Calls

/-!
# The card of a batch

A batch holds one session with one card. Its oracle answers the queries for the key of one
slot: it reads the slot once, asks the frontend for the PIN until the card has taken one,
and keeps the last failure for the report. The cards and the frontend are an environment
with a state of its own.
-/

namespace Piggy.Batch

open Piggy.Core Piggy.Box Piggy.Card

/-! ## The frontend -/

/-- Which card an input is for. -/
structure CardId where
  guid : String
  serial : Option UInt32
  cn : Option String
  deriving DecidableEq

/-- The kind of secret that is asked for; a batch asks for one kind only. -/
inductive SecretKind where
  | currentPin
  deriving DecidableEq

/-- What the frontend is asked for. -/
structure SecretRequest where
  kind : SecretKind
  prompt : String
  card : Option CardId
  slot : Option String
  attemptsRemaining : Option UInt32
  detail : Option String
  deriving DecidableEq

/-- How an interaction with the frontend fails. -/
inductive FrontendError where
  | declined (msg : String)
  | transport (msg : String)
  | protocol (msg : String)
  deriving DecidableEq

/-- The text of a frontend's error. -/
def FrontendError.text : FrontendError → String
  | declined msg => s!"interaction declined: {msg}"
  | transport msg => s!"transport error: {msg}"
  | protocol msg => s!"protocol error: {msg}"

/-- The cards and the frontend. -/
structure BatchEnv (ω : Type) extends PivEnv ω where
  requestSecret : ω → SecretRequest → Except FrontendError String × ω

/-! ## Failures -/

/-- The failure a PIV error is kept as. -/
def classifyPivError : PivError → BatchFailure
  | .pinIncorrect retries => .pinIncorrect retries
  | .pinBlocked => .pinBlocked
  | .cardNotFound => .cardAbsent "card not found"
  | .pcsc e =>
    match e.kind with
    | .noSmartcard | .readerUnavailable | .removedCard => .cardAbsent s!"PC/SC: {e.text}"
    | .other => .other s!"PC/SC: {e.text}"
  | e => .other e.text

/-- The failure a frontend error is kept as. -/
def frontendErrToBatchFailure : FrontendError → BatchFailure
  | .declined msg => .pinCancelled msg
  | e => .other s!"PIN supply failed: {e.text}"

/-- A cancelled prompt says which card it was for. -/
def nameLocalCard (failure : BatchFailure) (guidHex : String) : BatchFailure :=
  match failure with
  | .pinCancelled msg =>
    .pinCancelled (msg ++ s!" (PIN prompt for the local card {guidHex}; " ++
      "PIGGY_UNLOCK=agent unlocks through the agent instead)")
  | other => other

/-! ## The oracle -/

/-- What a session is for: the card, the slot, its key, and what the prompt shows. -/
structure BatchOracle where
  guid : Guid
  slotId : UInt8
  selfPubkeyUncompressed : Bytes
  targetCurve : EcCurve
  card : CardId
  detail : String

/-- What a session has come to. -/
structure BatchSession (ω : Type) where
  slot : Option PivSlot
  pinVerified : Bool
  lastFailure : Option BatchFailure
  log : PinLog
  world : ω

/-- A session that has just begun. -/
def BatchSession.new {ω : Type} (log : PinLog) (w : ω) : BatchSession ω :=
  { slot := none, pinVerified := false, lastFailure := none, log := log, world := w }

namespace BatchOracle

variable {ω : Type}

/-- Consumes the last failure. -/
def takeFailure (s : BatchSession ω) : Option BatchFailure × BatchSession ω :=
  (s.lastFailure, { s with lastFailure := none })

/-- The slot, read on the first use. -/
def readSlot (env : BatchEnv ω) (o : BatchOracle) (s : BatchSession ω) :
    Except OracleError PivSlot × BatchSession ω :=
  match s.slot with
  | some slot => (.ok slot, s)
  | none =>
    match env.readSlot s.world o.guid o.slotId with
    | (.ok slot, w) => (.ok slot, { s with slot := some slot, world := w })
    | (.error e, w) =>
      (.error (.transport s!"read slot: {e.text}"),
        { s with lastFailure := some (classifyPivError e), world := w })

/-- The request for the PIN of the batch. -/
def request (o : BatchOracle) : SecretRequest where
  kind := .currentPin
  prompt := "Enter PIN"
  card := some o.card
  slot := some (hexByte o.slotId)
  attemptsRemaining := none
  detail := some o.detail

/-- Asks for the PIN and verifies it, unless the card has taken one. -/
def verify (env : BatchEnv ω) (o : BatchOracle) (s : BatchSession ω) :
    Except OracleError Unit × BatchSession ω :=
  if s.pinVerified then (.ok (), s)
  else
    match env.requestSecret s.world o.request with
    | (.error e, w) =>
      (.error (.other "PIN supply failed"),
        { s with
          lastFailure := some (nameLocalCard (frontendErrToBatchFailure e) o.card.guid)
          log := s.log ++ [(o.guid, PinEvent.prompted none)], world := w })
    | (.ok pin, w) =>
      let s := { s with log := s.log ++ [(o.guid, PinEvent.prompted (some pin))], world := w }
      match verifyPin env.toPivEnv o.guid pin s.world with
      | (.error e, events, w) =>
        (.error (pivToOraclePinError e),
          { s with
            lastFailure := some (classifyPivError e), log := s.log ++ events, world := w })
      | (.ok (), events, w) =>
        (.ok (), { s with pinVerified := true, log := s.log ++ events, world := w })

variable {Scalar Point Rng : Type} (ssl : OpenSsl Scalar Point Rng)

/-- Answers a query. -/
def ecdh (env : BatchEnv ω) (o : BatchOracle) (s : BatchSession ω)
    (selfBlob partnerBlob : Bytes) : Except OracleError Bytes × BatchSession ω :=
  match (extractPointFromSshkeyBlob selfBlob >>= canonicalizeUncompressed ssl) with
  | .error e => (.error e, s)
  | .ok selfUncompressed =>
    if selfUncompressed ≠ o.selfPubkeyUncompressed then (.error .noKey, s)
    else
      match readSlot env o s with
      | (.error e, s) => (.error e, s)
      | (.ok slot, s) =>
        match verify env o s with
        | (.error e, s) => (.error e, s)
        | (.ok (), s) =>
          match (extractPointFromSshkeyBlob partnerBlob >>= canonicalizeUncompressed ssl) with
          | .error e => (.error e, s)
          | .ok partnerUncompressed =>
            match env.ecdhDerive s.world o.guid slot partnerUncompressed with
            | (.ok secret, w) => (.ok secret, { s with world := w })
            | (.error e, w) =>
              (.error (.transport s!"ecdh_derive: {e.text}"),
                { s with lastFailure := some (classifyPivError e), world := w })

/-- The oracle as decrypting one ebox uses it. -/
def toCard (env : BatchEnv ω) (o : BatchOracle) : CardOracle (BatchSession ω) where
  ecdh := ecdh ssl env o
  targetCurve := o.targetCurve
  takeFailure := takeFailure

end BatchOracle

/-- How many names the detail of a prompt spells out. -/
def promptMaxNames : Nat := 3

/-- The detail of the prompt: how many secrets and the names of the first few. -/
def batchDetail (names : List String) : String :=
  let noun := if names.length = 1 then "secret" else "secrets"
  let list := ", ".intercalate ((names.take promptMaxNames).map canonicalizePassName)
  let list :=
    if promptMaxNames < names.length then
      list ++ s!", +{names.length - promptMaxNames} more"
    else list
  s!"decrypt {names.length} {noun}: {list}"

end Piggy.Batch
