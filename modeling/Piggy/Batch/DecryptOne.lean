import Piggy.Box.Integrity

/-!
# Decrypting one ebox of a batch

A batch unlocks its eboxes through one card session or through the agent, and walks
the frames of each ebox itself. A failure is a diagnostic and says whether the rest of
the batch is hopeless. The card reports typed failures beside its answers; they are
drained after every ebox.
-/

namespace Piggy.Batch

open Piggy.Core Piggy.Box

/-! ## Diagnostics -/

/-- The kinds of diagnostics a batch reports. -/
inductive DiagnosticKind where
  | notFound
  | pinCancelled
  | pinIncorrect
  | cardLocked
  | cardAbsent
  | decryptFailed
  | ioError
  | internal
  deriving DecidableEq

/-- What is reported for an ebox that failed. -/
structure Diagnostic where
  kind : DiagnosticKind
  message : String
  /-- Whether a later batch may succeed; absent when it cannot. -/
  retryable : Option Bool := none
  deriving DecidableEq

/-- The failure of one ebox. -/
structure DecryptError where
  diagnostic : Diagnostic
  fatalForBatch : Bool := false
  deriving DecidableEq

/-- The typed failure the card oracle keeps beside its answer. -/
inductive BatchFailure where
  | pinIncorrect (retries : UInt32)
  | pinBlocked
  | pinCancelled (msg : String)
  | cardAbsent (msg : String)
  | other (msg : String)
  deriving DecidableEq

namespace BatchFailure

/-- Whether a failure makes every later decryption hopeless. -/
def isFatalForBatch : BatchFailure → Bool
  | pinIncorrect _ | pinBlocked | pinCancelled _ | cardAbsent _ => true
  | other _ => false

/-- The diagnostic a failure is reported as. -/
def intoDiagnostic : BatchFailure → Diagnostic
  | pinIncorrect retries =>
    { kind := .pinIncorrect, message := s!"wrong PIN, {retries.toNat} retries remaining",
      retryable := some (decide (0 < retries)) }
  | pinBlocked =>
    { kind := .cardLocked, message := "PIN blocked — card requires PUK reset",
      retryable := some false }
  | pinCancelled msg => { kind := .pinCancelled, message := msg, retryable := some true }
  | cardAbsent msg => { kind := .cardAbsent, message := msg, retryable := some true }
  | other msg => { kind := .decryptFailed, message := msg }

end BatchFailure

/-! ## The card of a batch -/

/-- The oracle of a card session: it serves the key of one slot and keeps its last
failure. -/
structure CardOracle (σ : Type) extends EcdhOracle σ where
  targetCurve : EcCurve
  takeFailure : σ → Option BatchFailure × σ

/-- The description of an ebox whose first PRIMARY config has parts and none of them on
the curve of the card. -/
def checkCurveMismatch (stream : EboxStream) (targetCurve : EcCurve) : Option String :=
  match stream.ebox.configs.find? fun c => decide (c.configType = .primary) with
  | none => none
  | some primary =>
    if primary.parts.any fun part => decide (part.pivBox.curve = targetCurve) then none
    else match primary.parts.head? with
      | none => none
      | some representative =>
        some (s!"ebox recipient curve {representative.pivBox.curve.wireName} does not match the "
          ++ s!"chosen card's slot curve {targetCurve.wireName} (heterogeneous batch — re-encrypt "
          ++ "this ebox or run show-batch with a matching card)")

/-! ## The frames -/

/-- How decrypting one ebox ends short: with an error to report or by a panic. -/
inductive BatchFault where
  | error (e : DecryptError)
  | panic
  deriving DecidableEq

/-- An error of one kind that leaves the batch running. -/
def failWith {α : Type} (kind : DiagnosticKind) (message : String) : Except BatchFault α :=
  .error (.error { diagnostic := { kind, message } })

/-- The bytes from one offset to another; beyond the end the program stops. -/
def sliceBetween (data : Bytes) (lo hi : Nat) : Except BatchFault Bytes :=
  if lo ≤ hi ∧ hi ≤ data.length then .ok ((data.take hi).drop lo) else .error .panic

section

variable {Scalar Point Rng : Type} (ssl : OpenSsl Scalar Point Rng)

/-- The walk over the frames. Every turn takes eight bytes at least, so the bytes bound
the number of turns. -/
def walkFrames (stream : EboxStream) : Nat → UInt32 → Bytes → Except BatchFault Bytes
  | 0, _, _ => .ok []
  | turns + 1, expectedSeqnr, chunkData =>
    if chunkData.isEmpty then .ok []
    else if chunkData.length < 8 then failWith .decryptFailed "truncated chunk frame"
    else do
      let stringLen ← sliceBetween chunkData 4 8
      let frameLen := 4 + 4 + ofBe stringLen
      if chunkData.length < frameLen then failWith .decryptFailed "truncated chunk data"
      else do
        let frame ← sliceBetween chunkData 0 frameLen
        match stream.decryptChunk ssl (some expectedSeqnr) frame with
        | .error e => failWith .decryptFailed s!"chunk {expectedSeqnr.toNat}: {e.text}"
        | .ok (_, plain) => do
          let rest ← sliceBetween chunkData frameLen chunkData.length
          let out ← walkFrames stream turns (expectedSeqnr + 1) rest
          pure (plain ++ out)

/-- What follows the unlock: the header is serialized again to find the frames. -/
def decryptBody (stream : EboxStream) (bytes : Bytes) : Except BatchFault Bytes :=
  match stream.toBytes with
  | .error e => failWith .internal s!"re-serialize header: {e.text}"
  | .ok headerBytes =>
    if bytes.length < headerBytes.length then
      failWith .decryptFailed "ebox bytes shorter than re-serialized header"
    else do
      let chunkData ← sliceBetween bytes headerBytes.length bytes.length
      walkFrames ssl stream chunkData.length 0 chunkData

variable {σ τ : Type}

/-- Unlocks one parsed ebox through the card, or else through the agent, and decrypts
its frames. -/
def decryptOne (stream : EboxStream) (bytes : Bytes) (card : Option (CardOracle σ))
    (agent : Option (EcdhOracle τ)) (s : σ) (t : τ) : Except BatchFault Bytes × σ × τ :=
  match card, agent with
  | some card, _ =>
    match checkCurveMismatch stream card.targetCurve with
    | some mismatch => (failWith .decryptFailed mismatch, s, t)
    | none =>
      match unlockEbox ssl (none : Option (EcdhOracle Unit)) (some card.toEcdhOracle) stream.ebox
          () s with
      | (.error e, _, _, s) =>
        match card.takeFailure s with
        | (some failure, s) =>
          (.error (.error { diagnostic := failure.intoDiagnostic,
                            fatalForBatch := failure.isFatalForBatch }), s, t)
        | (none, s) => (failWith .decryptFailed s!"unlock failed: {e.text}", s, t)
      | (.ok (), ebox, _, s) =>
        (decryptBody ssl { stream with ebox } bytes, (card.takeFailure s).2, t)
  | none, some agent =>
    match unlockEbox ssl (some agent) (none : Option (EcdhOracle Unit)) stream.ebox t () with
    | (.error e, _, t, _) => (failWith .decryptFailed s!"unlock failed (agent): {e.text}", s, t)
    | (.ok (), ebox, t, _) => (decryptBody ssl { stream with ebox } bytes, s, t)
  | none, none => (failWith .internal "no unlock backend (neither card nor agent)", s, t)

end

end Piggy.Batch
