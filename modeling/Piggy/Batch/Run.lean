import Piggy.Batch.DecryptOne
import Piggy.Card.Session
import Piggy.Core.Prog
import Piggy.Core.Text
import Piggy.Store.Fs

/-!
# Show-batch

`pass show-batch` decrypts entries of the stores into files below an output directory,
in one unlock session, and reports every entry as a record. The entries are read and
parsed first; then one loop decrypts, writes and reports. With `--all-or-nothing` the
files of a run that failed are removed.
-/

namespace Piggy.Batch

open Piggy.Core Piggy.Box Piggy.Store

/-- The records of the report. -/
inductive Record where
  | plan (count : UInt32)
  | decryptOk (n : UInt32) (name : String) (outPath : Path)
  | decryptSkipped (n : UInt32) (name : String) (outPath : Path)
  | decryptFailed (n : UInt32) (name : String) (diagnostic : Diagnostic)
  | summary (ok failed : UInt32)
  | bailOut (reason : String)
  deriving DecidableEq

/-- One recipient of a PRIMARY config: its uncompressed key and its curve. -/
abbrev RecipientTarget : Type := Bytes × EcCurve

/-- What a batch asks of the world. -/
inductive BatchOp where
  | fs (op : FsOp)
  | sigintCaught
  | emit (r : Record)
  /-- Writes lines to standard output. -/
  | print (lines : List String)
  /-- A card session or the agent, for one of the targets. -/
  | openBackend (targets : List RecipientTarget) (names : List String)
  | decrypt (stream : EboxStream) (bytes : Bytes)
  | endSession

/-- What is answered. -/
abbrev BatchOp.Ans : BatchOp → Type
  | fs op => op.Ans
  | sigintCaught => Bool
  | emit _ => Except IoError Unit
  | print _ => Except IoError Unit
  | openBackend _ _ => Except String Unit
  | decrypt _ _ => Except DecryptError Bytes
  | endSession => Option String

/-- The programs of a batch. -/
abbrev BatchProg (α : Type) : Type := Prog BatchOp BatchOp.Ans α

/-- A file operation. -/
def fsOp (op : FsOp) : BatchProg op.Ans := Prog.op (BatchOp.fs op)

/-! ## Names -/

/-- A text without one leading slash. -/
def stripSlash : List Char → List Char
  | '/' :: rest => rest
  | s => s

/-- A text without one `.ebox` at its end. -/
def stripEbox (s : List Char) : List Char :=
  if ".ebox".toList.isSuffixOf s then s.take (s.length - ".ebox".length) else s

/-- The name of an entry: no leading slash and no `.ebox` at the end. -/
def canonicalizePassName (raw : String) : String :=
  String.ofList (stripEbox (stripSlash raw.toList))

/-- The name of an entry's file, relative to a store. -/
def eboxFileName (raw : String) : String :=
  let trimmed := stripSlash raw.toList
  if ".ebox".toList.isSuffixOf trimmed then String.ofList trimmed
  else String.ofList (trimmed ++ ".ebox".toList)

/-- Where an entry is in a store. -/
def passNameToEboxPath (storeRoot : Path) (raw : String) : Path := storeRoot.join ⟨eboxFileName raw⟩

/-- Where an entry is: in the first store that holds it, or else in the first store. -/
def passNameToEboxPathIn (writeStore : Path) (raw : String) : List Path → BatchProg Path
  | [] => pure (passNameToEboxPath writeStore raw)
  | root :: roots => do
    let found ← fsOp (.isFile (passNameToEboxPath root raw))
    if found then pure (passNameToEboxPath root raw)
    else passNameToEboxPathIn writeStore raw roots

/-- The names in a file of names: trimmed lines, without blank ones and comments. -/
def readNamesFrom (body : String) : List String :=
  (((lines body.toList).map trim).filter fun line =>
    !line.isEmpty && line.head? != some '#').map String.ofList

/-! ## Preparing -/

/-- What became of an entry before anything is decrypted. -/
inductive PreflightOutcome where
  | ready (canonicalName : String) (bytes : Bytes) (stream : EboxStream)
  | failed (canonicalName : String) (diagnostic : Diagnostic)
  | skipped (canonicalName : String) (outPath : Path)

/-- Whether the plaintext is at least as new as the ebox. -/
def plaintextIsFresh (eboxPath outPath : Path) : BatchProg Bool := do
  let eboxMtime ← fsOp (.modified eboxPath)
  let outMtime ← fsOp (.modified outPath)
  match eboxMtime, outMtime with
  | .ok (some e), .ok (some o) => pure (decide (e.1 < o.1 ∨ e.1 = o.1 ∧ e.2 ≤ o.2))
  | _, _ => pure false

/-- The arguments of show-batch. -/
structure ShowBatchArgs where
  names : List String
  namesFrom : Option Path
  outDir : Path
  allOrNothing : Bool
  update : Bool

/-- Reads and parses one entry. -/
def readEntry (canonical : String) (path : Path) : BatchProg PreflightOutcome := do
  match ← fsOp (.read path) with
  | .error e =>
    if e.notFound then
      pure (.failed canonical { kind := .notFound, message := s!"no ebox at {path.text}" })
    else
      pure (.failed canonical { kind := .ioError, message := s!"read {path.text}: {e.text}" })
  | .ok bytes =>
    match EboxStream.fromBytes bytes with
    | .ok stream => pure (.ready canonical bytes stream)
    | .error e =>
      pure (.failed canonical
        { kind := .decryptFailed, message := s!"invalid ebox stream: {e.text}" })

/-- Prepares the entries in turn. -/
def preflight (args : ShowBatchArgs) (writeStore : Path) (storeRoots : List Path) :
    List String → BatchProg (List PreflightOutcome)
  | [] => pure []
  | raw :: names => do
    let canonical := canonicalizePassName raw
    let path ← passNameToEboxPathIn writeStore raw storeRoots
    let outPath := args.outDir.join ⟨canonical⟩
    let fresh ← if args.update then plaintextIsFresh path outPath else pure false
    let outcome ← if fresh then pure (.skipped canonical outPath) else readEntry canonical path
    let rest ← preflight args writeStore storeRoots names
    pure (outcome :: rest)

/-! ## Writing -/

/-- Writes a plaintext to a file that must not exist yet. A stale file is removed first. -/
def atomicWrite0600 (outDir : Path) (name : String) (plaintext : Bytes) (overwriteStale : Bool) :
    BatchProg (Except String Path) := do
  let outPath := outDir.join ⟨name⟩
  let removed ← if overwriteStale then fsOp (.removeFile outPath) else pure (.ok ())
  match removed with
  | .error e =>
    if e.notFound then create outPath else pure (.error s!"remove stale {outPath.text}: {e.text}")
  | .ok () => create outPath
where
  create (outPath : Path) : BatchProg (Except String Path) := do
    match outPath.parent with
    | none => writeNew outPath
    | some parent =>
      match ← fsOp (.modified parent) with
      | .ok _ => writeNew outPath
      | .error _ =>
        match ← fsOp (.createDirAll parent none) with
        | .error e => pure (.error s!"mkdir {parent.text}: {e.text}")
        | .ok () =>
          let _ ← fsOp (.setPermissions parent 0o700)
          writeNew outPath
  writeNew (outPath : Path) : BatchProg (Except String Path) := do
    match ← fsOp (.createNew outPath) with
    | .error e => pure (.error s!"open {outPath.text}: {e.text}")
    | .ok () =>
      match ← fsOp (.writeAll outPath plaintext) with
      | .error e => pure (.error s!"write {outPath.text}: {e.text}")
      | .ok () =>
        match ← fsOp (.syncAll outPath) with
        | .error e => pure (.error s!"fsync {outPath.text}: {e.text}")
        | .ok () => pure (.ok outPath)

/-! ## The loop -/

/-- What the loop comes to. -/
structure LoopTotals where
  okCount : UInt32
  failedCount : UInt32
  /-- The files this run wrote. -/
  writtenPaths : List Path
  bailReason : Option String

/-- The name of a diagnostic kind, as `Debug` prints it. -/
def DiagnosticKind.debug : DiagnosticKind → String
  | notFound => "NotFound"
  | pinCancelled => "PinCancelled"
  | pinIncorrect => "PinIncorrect"
  | cardLocked => "CardLocked"
  | cardAbsent => "CardAbsent"
  | decryptFailed => "DecryptFailed"
  | ioError => "IoError"
  | internal => "Internal"

/-- Reports a record, and goes on unless standard output is closed. -/
def emitThen {α : Type} (r : Record) (next : BatchProg (Except Nat α)) :
    BatchProg (Except Nat α) := do
  match ← Prog.op (BatchOp.emit r) with
  | .error _ => pure (.error 1)
  | .ok () => next

/-- The loop over the prepared entries, of which `i` are done. -/
def runDecryptLoop (outDir : Path) (update : Bool) (total : UInt32) :
    Nat → List PreflightOutcome → LoopTotals → BatchProg (Except Nat LoopTotals)
  | _, [], totals => pure (.ok totals)
  | i, outcome :: rest, totals => do
    let n := UInt32.ofNat (i + 1)
    let caught ← Prog.op BatchOp.sigintCaught
    if caught then
      pure (.ok { totals with
        bailReason := some s!"SIGINT received after decrypt n={n - 1} of {total}" })
    else
      match outcome with
      | .failed name diagnostic =>
        emitThen (.decryptFailed n name diagnostic)
          (runDecryptLoop outDir update total (i + 1) rest
            { totals with failedCount := totals.failedCount + 1 })
      | .skipped name outPath =>
        emitThen (.decryptSkipped n name outPath)
          (runDecryptLoop outDir update total (i + 1) rest
            { totals with okCount := totals.okCount + 1 })
      | .ready name bytes stream =>
        match ← Prog.op (BatchOp.decrypt stream bytes) with
        | .ok plain =>
          match ← atomicWrite0600 outDir name plain update with
          | .ok outPath =>
            emitThen (.decryptOk n name outPath)
              (runDecryptLoop outDir update total (i + 1) rest
                { totals with
                  okCount := totals.okCount + 1
                  writtenPaths := totals.writtenPaths ++ [outPath] })
          | .error e =>
            emitThen (.decryptFailed n name { kind := .ioError, message := e })
              (runDecryptLoop outDir update total (i + 1) rest
                { totals with failedCount := totals.failedCount + 1 })
        | .error e =>
          let totals := { totals with failedCount := totals.failedCount + 1 }
          emitThen (.decryptFailed n name e.diagnostic)
            (if e.fatalForBatch then
              pure (.ok { totals with
                bailReason := some (s!"{e.diagnostic.kind.debug} after decrypt n={n} of {total}: "
                  ++ e.diagnostic.message) })
            else runDecryptLoop outDir update total (i + 1) rest totals)

/-! ## The command -/

/-- The recipients of the first PRIMARY config whose keys can be read. -/
def primaryPartTargets {Scalar Point Rng : Type} (ssl : OpenSsl Scalar Point Rng)
    (stream : EboxStream) : Except Diagnostic (List RecipientTarget) :=
  match stream.ebox.configs.find? fun c => decide (c.configType = .primary) with
  | none => .error { kind := .decryptFailed, message := "ebox has no PRIMARY config" }
  | some primary =>
    let targets := primary.parts.filterMap fun part =>
      match Card.canonicalizeUncompressed ssl part.pivBox.recipientPubkey with
      | .ok uncompressed => some (uncompressed, part.pivBox.curve)
      | .error _ => none
    if targets.isEmpty then
      .error { kind := .decryptFailed, message := "PRIMARY config has no usable recipient parts" }
    else .ok targets

/-- The first entry that can be decrypted. -/
def firstReady : List PreflightOutcome → Option EboxStream
  | [] => none
  | .ready _ _ stream :: _ => some stream
  | _ :: rest => firstReady rest

/-- The names of the entries that can be decrypted. -/
def readyNames (outcomes : List PreflightOutcome) : List String :=
  outcomes.filterMap fun
    | .ready name _ _ => some name
    | _ => none

/-- Runs the loop in an unlock session. A session that does not end well is a reason to
bail out. -/
def runUnlocked (args : ShowBatchArgs) (targets : List RecipientTarget) (total : UInt32)
    (outcomes : List PreflightOutcome) (totals : LoopTotals) :
    BatchProg (Except Nat LoopTotals) := do
  match ← Prog.op (BatchOp.openBackend targets (readyNames outcomes)) with
  | .error reason =>
    let _ ← Prog.op (BatchOp.emit (.bailOut reason))
    pure (.error 1)
  | .ok () =>
    let result ← runDecryptLoop args.outDir args.update total 0 outcomes totals
    let sessionEndError ← Prog.op BatchOp.endSession
    match result with
    | .error code => pure (.error code)
    | .ok totals =>
      pure (.ok { totals with bailReason := totals.bailReason.orElse fun _ => sessionEndError })

/-- Removes the files a run wrote; a file that cannot be removed is left. -/
def wipe : List Path → BatchProg Unit
  | [] => pure ()
  | p :: paths => do
    let _ ← fsOp (.removeFile p)
    wipe paths

/-- The end of a run: the wipe, the last record and the exit code. -/
def finish (args : ShowBatchArgs) (totals : LoopTotals) : BatchProg Nat := do
  if args.allOrNothing && (decide (0 < totals.failedCount) || totals.bailReason.isSome) then
    wipe totals.writtenPaths
  match totals.bailReason with
  | some reason =>
    let _ ← Prog.op (BatchOp.emit (.bailOut reason))
    pure 1
  | none =>
    match ← Prog.op (BatchOp.emit (.summary totals.okCount totals.failedCount)) with
    | .error _ => pure 1
    | .ok () => pure (if totals.failedCount = 0 then 0 else 1)

/-- From the names on. -/
def runNames {Scalar Point Rng : Type} (ssl : OpenSsl Scalar Point Rng) (args : ShowBatchArgs)
    (writeStore : Path) (laterStores : List Path) (names : List String) : BatchProg Nat := do
  if names.isEmpty then pure 2
  else
    match ← fsOp (.createDirAll args.outDir none) with
    | .error _ => pure 2
    | .ok () =>
      let _ ← fsOp (.setPermissions args.outDir 0o700)
      let total := UInt32.ofNat names.length
      match ← Prog.op (BatchOp.emit (.plan total)) with
      | .error _ => pure 1
      | .ok () =>
        let outcomes ← preflight args writeStore (writeStore :: laterStores) names
        let start : LoopTotals :=
          { okCount := 0, failedCount := 0, writtenPaths := [], bailReason := none }
        match firstReady outcomes with
        | none =>
          match ← runDecryptLoop args.outDir args.update total 0 outcomes start with
          | .error code => pure code
          | .ok totals => finish args totals
        | some stream =>
          match primaryPartTargets ssl stream with
          | .error diagnostic =>
            let _ ← Prog.op (BatchOp.emit (.bailOut
              s!"cannot identify target recipient for batch: {diagnostic.message}"))
            pure 1
          | .ok targets =>
            match ← runUnlocked args targets total outcomes start with
            | .error code => pure code
            | .ok totals => finish args totals

/-- `piggy pass show-batch`; the result is the exit code. -/
def showBatch {Scalar Point Rng : Type} (ssl : OpenSsl Scalar Point Rng) (args : ShowBatchArgs)
    (writeStore : Path) (laterStores : List Path) : BatchProg Nat := do
  if args.names.any (·.isEmpty) then pure 2
  else
    match args.namesFrom with
    | none => runNames ssl args writeStore laterStores args.names
    | some path =>
      match ← fsOp (.readToString path) with
      | .error _ => pure 2
      | .ok body => runNames ssl args writeStore laterStores (args.names ++ readNamesFrom body)

end Piggy.Batch
