import Piggy.Batch.Run
import Piggy.Markl.Purpose

/-!
# Reconciling declared secrets

`piggy secrets reconcile` brings files in line with a manifest: each entry names an ebox and
the file that is to hold its plaintext. A state file remembers what was written, by the digest
of the ebox and the fingerprint of the file. An entry whose file is not known is left alone
unless it may be adopted; the others are decrypted in one unlock session and replaced.
-/

namespace Piggy.Secrets

open Piggy.Core Piggy.Box Piggy.Store Piggy.Batch

/-! ## The manifest -/

/-- The manifest version this program reads. -/
def manifestVersion : UInt32 := 1

/-- The state version this program reads and writes. -/
def stateVersion : UInt32 := 1

/-- The permission bits of an entry that does not set any. -/
def defaultMode : UInt32 := 0o600

/-- An entry as the manifest has it. -/
structure ManifestEntryDoc where
  name : String
  ebox : Path
  target : Path
  mode : Option String
  adopt : Bool

/-- The manifest. -/
structure ManifestDoc where
  version : UInt32
  entries : List ManifestEntryDoc

/-- One entry of a manifest that was accepted. -/
structure Entry where
  name : String
  ebox : Path
  target : Path
  mode : UInt32
  adopt : Bool
  deriving DecidableEq

/-- A name of letters, digits, dots, underscores and dashes. -/
def isValidEntryName (name : String) : Bool :=
  !name.isEmpty && name.toList.all fun c =>
    c.isAlphanum || c == '.' || c == '_' || c == '-'

/-- The digits of a mode, without a leading `0o`. -/
def modeDigits : List Char → List Char
  | '0' :: 'o' :: rest => rest
  | s => s

/-- The permission bits an octal text stands for. -/
def parseMode (mode : String) : Option UInt32 :=
  let digits := modeDigits mode.toList
  if digits.isEmpty || decide (4 < digits.length) ||
      !digits.all fun c => decide ('0' ≤ c ∧ c ≤ '7') then none
  else
    let bits := digits.foldl (fun n c => 8 * n + (c.toNat - '0'.toNat)) 0
    if bits ≤ 0o777 then some (UInt32.ofNat bits) else none

/-- A text as `{:?}` prints it. -/
def quoted (s : String) : String :=
  "\"" ++ String.join (s.toList.map Markl.PurposeId.debugChar) ++ "\""

/-- Accepts one entry, given the names and the targets before it. -/
def parseEntry (names : List String) (targets : List Path) (e : ManifestEntryDoc) :
    Except String Entry :=
  if !isValidEntryName e.name then
    .error s!"entry name {quoted e.name} must match [A-Za-z0-9._-]+"
  else if e.name ∈ names then .error s!"duplicate entry name {quoted e.name}"
  else if !e.target.isAbsolute || e.target.fileName.isNone then
    .error (s!"entry {quoted e.name}: target {e.target.text} must be an absolute file path")
  else if targets.any fun t => decide (t.components = e.target.components) then
    .error s!"entry {quoted e.name}: target {e.target.text} is declared twice"
  else
    match e.mode with
    | none =>
      .ok { name := e.name, ebox := e.ebox, target := e.target, mode := defaultMode,
            adopt := e.adopt }
    | some m =>
      match parseMode m with
      | none =>
        .error (s!"entry {quoted e.name}: mode {quoted m} is not an octal permission like " ++
          "\"0600\"")
      | some mode =>
        .ok { name := e.name, ebox := e.ebox, target := e.target, mode := mode, adopt := e.adopt }

/-- Accepts the entries in turn. -/
def parseEntries (names : List String) (targets : List Path) :
    List ManifestEntryDoc → Except String (List Entry)
  | [] => .ok []
  | e :: rest => do
    let entry ← parseEntry names targets e
    let entries ← parseEntries (names ++ [e.name]) (targets ++ [e.target]) rest
    pure (entry :: entries)

/-! ## The state -/

/-- What is remembered about a target that was written. -/
structure StateRecord where
  name : String
  eboxSha256 : String
  fingerprint : Fingerprint
  deriving DecidableEq

/-- The records, by the path of their target. -/
structure State where
  version : UInt32
  entries : List (Path × StateRecord)
  deriving DecidableEq

/-- The order of components. -/
def componentLt : Component → Component → Bool
  | .normal a, .normal b => decide (a < b)
  | a, b => decide (rank a < rank b)
where
  rank : Component → Nat
    | .rootDir => 0
    | .curDir => 1
    | .parentDir => 2
    | .normal _ => 3

/-- The order of paths: by their components. -/
def pathLt : List Component → List Component → Bool
  | [], [] => false
  | [], _ :: _ => true
  | _ :: _, [] => false
  | a :: as, b :: bs => componentLt a b || (decide (a = b) && pathLt as bs)

namespace State

/-- A state without records. -/
def empty : State := { version := stateVersion, entries := [] }

/-- The record of a path. Paths with the same components are the same key. -/
def get (state : State) (p : Path) : Option StateRecord :=
  (state.entries.find? fun x => decide (x.1.components = p.components)).map (·.2)

/-- The records with one more, or another one for its key. -/
def insertRecord (p : Path) (r : StateRecord) : List (Path × StateRecord) → List (Path × StateRecord)
  | [] => [(p, r)]
  | (q, r') :: rest =>
    if q.components = p.components then (q, r) :: rest
    else if pathLt p.components q.components then (p, r) :: (q, r') :: rest
    else (q, r') :: insertRecord p r rest

/-- Puts in the record of a target. -/
def insert (state : State) (p : Path) (r : StateRecord) : State :=
  { state with entries := insertRecord p r state.entries }

/-- Takes out the record of a target. -/
def remove (state : State) (p : Path) : State :=
  { state with entries := state.entries.filter fun x => !decide (x.1.components = p.components) }

end State

/-- The JSON library and the digest. -/
structure Libs where
  manifestFromJson : String → Except String ManifestDoc
  stateFromJson : String → Except String State
  stateToJson : State → String
  /-- A text as a JSON string. -/
  stringToJson : String → String
  /-- The SHA-256 digest in hexadecimal digits. -/
  sha256 : Bytes → String

/-- Reads the manifest. -/
def parseManifest (libs : Libs) (text : String) : Except String (List Entry) :=
  match libs.manifestFromJson text with
  | .error e => .error s!"invalid manifest JSON: {e}"
  | .ok doc =>
    if doc.version ≠ manifestVersion then
      .error (s!"unsupported manifest version {doc.version.toNat} " ++
        s!"(this piggy reads version {manifestVersion.toNat})")
    else parseEntries [] [] doc.entries

/-- Reads the state file; a missing one is a state without records. -/
def loadState (libs : Libs) (path : Path) : BatchProg (Except String State) := do
  match ← fsOp (.readToString path) with
  | .error e =>
    if e.notFound then pure (.ok State.empty)
    else pure (.error s!"read state {path.text}: {e.text}")
  | .ok text =>
    match libs.stateFromJson text with
    | .error e =>
      pure (.error (s!"invalid state file {path.text}: {e} " ++
        "(refusing to guess which files piggy owns)"))
    | .ok state =>
      if state.version ≠ stateVersion then
        pure (.error (s!"unsupported state version {state.version.toNat} in {path.text} " ++
          s!"(this piggy reads version {stateVersion.toNat})"))
      else pure (.ok state)

/-! ## What to do with an entry -/

/-- What stands at a target. -/
inductive TargetKind where
  | absent
  | directory
  /-- A regular file, a link or another non-directory. -/
  | file (regular : Bool) (fingerprint : Fingerprint)
  deriving DecidableEq

/-- Looks at a target, links not followed. -/
def inspectTarget (target : Path) : BatchProg (Except String TargetKind) := do
  match ← fsOp (.lstat target) with
  | .ok (.directory _) => pure (.ok .directory)
  | .ok (.file regular fingerprint) => pure (.ok (.file regular fingerprint))
  | .error e =>
    if e.notFound then pure (.ok .absent) else pure (.error s!"stat {target.text}: {e.text}")

/-- Why a target is written. -/
inductive WriteReason where
  | missing
  | stale
  | modified
  | adopt
  deriving DecidableEq

/-- The word for a reason. -/
def WriteReason.label : WriteReason → String
  | missing => "missing"
  | stale => "stale"
  | modified => "modified"
  | adopt => "adopt"

/-- What is to be done with an entry. -/
inductive Plan where
  | fresh
  | write (reason : WriteReason)
  | conflict (message : String)
  deriving DecidableEq

/-- The decision about one entry. -/
def classify (target : TargetKind) (record : Option StateRecord) (eboxSha256 : String)
    (adopt : Bool) : Plan :=
  match target, record with
  | .absent, _ => .write .missing
  | .directory, _ => .conflict "target is a directory"
  | .file regular fingerprint, some rec =>
    if !regular || decide (fingerprint ≠ rec.fingerprint) then .write .modified
    else if rec.eboxSha256 ≠ eboxSha256 then .write .stale
    else .fresh
  | .file _ _, none =>
    if adopt then .write .adopt
    else .conflict ("target exists but is not recorded as piggy-managed; set `adopt` on the " ++
      "entry (or pass --adopt) to take it over")

/-! ## Writing -/

/-- The path of the temporary file a file is written through. -/
def tmpPath (pid : UInt32) (parent : Path) (fileName : String) : Path :=
  parent.join ⟨"." ++ fileName ++ s!".piggy-secrets-{pid.toNat}.tmp"⟩

/-- The directory a file is written in. -/
def directoryOf (path : Path) : Option Path := path.parent.filter fun p => !p.text.isEmpty

/-- Replaces a file by way of a temporary one beside it. -/
def writeAtomically (pid : UInt32) (path : Path) (contents : Bytes) (mode : UInt32) :
    BatchProg (Except String Fingerprint) :=
  match directoryOf path, path.fileName with
  | none, _ => pure (.error s!"{path.text} has no parent directory")
  | _, none => pure (.error s!"{path.text} has no file name")
  | some parent, some fileName => do
    match ← fsOp (.createDirAll parent (some 0o700)) with
    | .error e => pure (.error s!"mkdir {parent.text}: {e.text}")
    | .ok () =>
      let tmp := tmpPath pid parent fileName
      match ← fsOp (.createNew tmp) with
      | .error e => pure (.error s!"create {tmp.text}: {e.text}")
      | .ok () =>
        match ← fill tmp with
        | .error e =>
          let _ ← fsOp (.removeFile tmp)
          pure (.error s!"write {tmp.text}: {e.text}")
        | .ok () =>
          match ← fsOp (.rename tmp path) with
          | .error e =>
            let _ ← fsOp (.removeFile tmp)
            pure (.error s!"rename into {path.text}: {e.text}")
          | .ok () =>
            match ← fsOp (.lstat path) with
            | .error e => pure (.error s!"stat {path.text}: {e.text}")
            | .ok (.directory fingerprint) | .ok (.file _ fingerprint) => pure (.ok fingerprint)
where
  /-- The contents, then the permission bits, then the sync. -/
  fill (tmp : Path) : BatchProg (Except IoError Unit) := do
    match ← fsOp (.writeAll tmp contents) with
    | .error e => pure (.error e)
    | .ok () =>
      match ← fsOp (.setPermissions tmp mode) with
      | .error e => pure (.error e)
      | .ok () => fsOp (.syncAll tmp)

/-- Writes the state file. -/
def saveState (libs : Libs) (pid : UInt32) (path : Path) (state : State) :
    BatchProg (Except String Unit) := do
  match ← writeAtomically pid path (strBytes (libs.stateToJson state ++ "\n")) 0o600 with
  | .error e => pure (.error e)
  | .ok _ => pure (.ok ())

/-! ## Decrypting -/

/-- An entry that is to be written. -/
structure Pending where
  entry : Entry
  eboxSha256 : String
  bytes : Bytes
  reason : WriteReason

/-- How an entry ends. -/
inductive Outcome where
  | upToDate
  | wrote (reason : WriteReason)
  | wouldWrite (reason : WriteReason)
  | failed (message : String)
  deriving DecidableEq

/-- The name of a diagnostic kind in the records. -/
def kindName : DiagnosticKind → String
  | .notFound => "not-found"
  | .pinCancelled => "pin-cancelled"
  | .pinIncorrect => "pin-incorrect"
  | .cardLocked => "card-locked"
  | .cardAbsent => "card-absent"
  | .decryptFailed => "decrypt-failed"
  | .ioError => "io-error"
  | .internal => "internal"

/-- A diagnostic in one line. -/
def describeDiagnostic (d : Diagnostic) : String := s!"{kindName d.kind}: {d.message}"

/-- An entry to decrypt, with its parsed ebox or why there is none. -/
abbrev Parsed : Type := Pending × Except String EboxStream

/-- The stream of an entry that is to be written. -/
def parsePending (p : Pending) : Parsed :=
  match EboxStream.fromBytes p.bytes with
  | .ok stream => (p, .ok stream)
  | .error e => (p, .error s!"invalid ebox stream: {e.text}")

/-- The eboxes that were parsed fail with one message; the others keep theirs. -/
def failAll (message : String) (parsed : List Parsed) : List (Except String Bytes) :=
  parsed.map fun x =>
    match x.2 with
    | .ok _ => .error message
    | .error e => .error e

/-- Decrypts in turn. After a failure that is fatal nothing more is tried. -/
def decryptAll : Option String → List Parsed → BatchProg (List (Except String Bytes))
  | _, [] => pure []
  | fatal, (_, .error message) :: rest => do
    let results ← decryptAll fatal rest
    pure (.error message :: results)
  | some reason, (_, .ok _) :: rest => do
    let results ← decryptAll (some reason) rest
    pure (.error s!"not attempted after: {reason}" :: results)
  | none, (p, .ok stream) :: rest => do
    match ← Prog.op (BatchOp.decrypt stream p.bytes) with
    | .ok plain =>
      let results ← decryptAll none rest
      pure (.ok plain :: results)
    | .error e =>
      let message := describeDiagnostic e.diagnostic
      let results ← decryptAll (if e.fatalForBatch then some message else none) rest
      pure (.error message :: results)

/-- Decrypts the pending entries in one unlock session. -/
def decryptPending {Scalar Point Rng : Type} (ssl : OpenSsl Scalar Point Rng)
    (pending : List Pending) : BatchProg (List (Except String Bytes)) :=
  let parsed := pending.map parsePending
  let streams := parsed.filterMap fun x => x.2.toOption.map fun stream => (x.1, stream)
  match streams with
  | [] => pure (failAll "" parsed)
  | (_, first) :: _ =>
    match primaryPartTargets ssl first with
    | .error diag =>
      pure (failAll s!"cannot identify target recipient for batch: {diag.message}" parsed)
    | .ok targets => do
      let names := streams.map fun x => x.1.entry.name
      match ← Prog.op (BatchOp.openBackend targets names) with
      | .error reason => pure (failAll reason parsed)
      | .ok () =>
        let results ← decryptAll none parsed
        let _ ← Prog.op BatchOp.endSession
        pure results

/-! ## The run -/

/-- The arguments of reconcile that it reads itself. -/
structure ReconcileArgs where
  check : Bool
  adopt : Bool
  verbose : Bool

/-- One entry: its outcome, or what is to be written. -/
def examine (libs : Libs) (args : ReconcileArgs) (state : State) (entry : Entry) :
    BatchProg (Outcome ⊕ Pending) := do
  match ← fsOp (.read entry.ebox) with
  | .error e => pure (.inl (.failed s!"read ebox {entry.ebox.text}: {e.text}"))
  | .ok bytes =>
    let eboxSha256 := libs.sha256 bytes
    match ← inspectTarget entry.target with
    | .error e => pure (.inl (.failed e))
    | .ok target =>
      match classify target (state.get entry.target) eboxSha256 (entry.adopt || args.adopt) with
      | .fresh => pure (.inl .upToDate)
      | .conflict message => pure (.inl (.failed message))
      | .write reason =>
        if args.check then pure (.inl (.wouldWrite reason))
        else pure (.inr { entry, eboxSha256, bytes, reason })

/-- Looks at the entries one after the other. -/
def examineAll (libs : Libs) (args : ReconcileArgs) (state : State) :
    List Entry → BatchProg (List (Outcome ⊕ Pending))
  | [] => pure []
  | entry :: entries => do
    let outcome ← examine libs args state entry
    let rest ← examineAll libs args state entries
    pure (outcome :: rest)

/-- Writes the decrypted entries in turn, and keeps the records. -/
def writeResults (pid : UInt32) :
    List (Pending × Except String Bytes) → State → BatchProg (List Outcome × State)
  | [], state => pure ([], state)
  | (_, .error message) :: rest, state => do
    let (outcomes, state) ← writeResults pid rest state
    pure (.failed message :: outcomes, state)
  | (p, .ok plain) :: rest, state => do
    match ← writeAtomically pid p.entry.target plain p.entry.mode with
    | .error message =>
      let (outcomes, state) ← writeResults pid rest state
      pure (.failed message :: outcomes, state)
    | .ok fingerprint =>
      let (outcomes, state) ← writeResults pid rest (state.insert p.entry.target
        { name := p.entry.name, eboxSha256 := p.eboxSha256, fingerprint })
      pure (.wrote p.reason :: outcomes, state)

/-- The recorded paths that are not declared any more. -/
def orphansOf (state : State) (entries : List Entry) : List Path :=
  (state.entries.map (·.1)).filter fun p =>
    !entries.any fun e => decide (e.target.components = p.components)

/-- The outcomes of all entries, those of the pending ones filled in. -/
def fillOutcomes : List (Outcome ⊕ Pending) → List Outcome → List Outcome
  | [], _ => []
  | .inl outcome :: rest, outcomes => outcome :: fillOutcomes rest outcomes
  | .inr _ :: rest, [] =>
    .failed "internal: entry was never classified" :: fillOutcomes rest []
  | .inr _ :: rest, outcome :: outcomes => outcome :: fillOutcomes rest outcomes

/-! ## The report -/

/-- Escapes what would start an escape or a directive. -/
def tapEscape (text : String) : String :=
  String.ofList (text.toList.flatMap fun c =>
    if c = '\\' then ['\\', '\\'] else if c = '#' then ['\\', '#'] else [c])

/-- Fields in a block of YAML. -/
def yamlBlock (libs : Libs) (fields : List (String × String)) : List String :=
  "  ---" :: fields.map (fun f => s!"  {f.1}: {libs.stringToJson f.2}") ++ ["  ..."]

/-- The lines about one entry. -/
def reportLines (libs : Libs) (args : ReconcileArgs) (n : Nat) (entry : Entry) :
    Outcome → List String
  | .upToDate =>
    s!"ok {n} - {tapEscape entry.name} # SKIP up to date" ::
      if args.verbose then yamlBlock libs [("target", entry.target.text)] else []
  | .wrote reason =>
    s!"ok {n} - {tapEscape entry.name}" ::
      if args.verbose then
        yamlBlock libs [("target", entry.target.text), ("wrote", reason.label)]
      else []
  | .wouldWrite reason =>
    s!"not ok {n} - {tapEscape entry.name}" ::
      yamlBlock libs [("message", s!"would write ({reason.label})"), ("target", entry.target.text)]
  | .failed message =>
    s!"not ok {n} - {tapEscape entry.name}" ::
      yamlBlock libs [("message", message), ("target", entry.target.text)]

/-- The report. -/
def report (libs : Libs) (args : ReconcileArgs) (entries : List Entry) (outcomes : List Outcome)
    (orphans : List Path) : List String :=
  let status :=
    if args.check then "orphaned: reconcile will release it" else "orphaned: released; file kept"
  ["TAP version 14", s!"1..{entries.length + orphans.length}"] ++
    ((entries.zip outcomes).zipIdx 1).flatMap (fun x => reportLines libs args x.2 x.1.1 x.1.2) ++
    (orphans.zipIdx (entries.length + 1)).map fun x =>
      s!"ok {x.2} - {tapEscape x.1.text} # SKIP {status}"

/-- The entry failed. -/
def Outcome.isFailed : Outcome → Bool
  | failed _ => true
  | _ => false

/-- The target is not as it should be. -/
def Outcome.isDrift : Outcome → Bool
  | wouldWrite _ => true
  | _ => false

/-- The exit code of a run whose report could be written. -/
def exitCode (args : ReconcileArgs) (outcomes : List Outcome) (exit : Nat) : Nat :=
  if outcomes.any Outcome.isFailed || (args.check && outcomes.any Outcome.isDrift) then 1 else exit

/-- What a run comes to before it is reported. -/
structure Settled where
  outcomes : List Outcome
  orphans : List Path
  /-- The records that are to be in the state file. -/
  state : State
  exit : Nat

/-- Decrypts and writes what is to be written. -/
def writePending {Scalar Point Rng : Type} (ssl : OpenSsl Scalar Point Rng) (pid : UInt32)
    (pending : List Pending) (state : State) : BatchProg (List Outcome × State) :=
  if pending.isEmpty then pure ([], state)
  else do
    let results ← decryptPending ssl pending
    writeResults pid (pending.zip results) state

/-- Saves the state if it has changed; the result is the exit code so far. -/
def saveChanged (libs : Libs) (pid : UInt32) (statePath : Path) (state : State) (changed : Bool) :
    BatchProg Nat :=
  if changed then do
    match ← saveState libs pid statePath state with
    | .error _ => pure 1
    | .ok () => pure 0
  else pure 0

/-- The state without the records of the orphans; `--check` releases none. -/
def releaseOrphans (args : ReconcileArgs) (orphans : List Path) (state : State) : State :=
  if args.check then state else orphans.foldl State.remove state

/-- From the classified entries on: decrypts, writes, releases the orphans and saves the state. -/
def settle {Scalar Point Rng : Type} (ssl : OpenSsl Scalar Point Rng) (libs : Libs) (pid : UInt32)
    (args : ReconcileArgs) (statePath : Path) (entries : List Entry) (state : State)
    (plans : List (Outcome ⊕ Pending)) : BatchProg Settled := do
  let orphans := orphansOf state entries
  let (written, state) ← writePending ssl pid (plans.filterMap Sum.getRight?) state
  let changed := written.any (fun outcome => !outcome.isFailed) ||
    (!args.check && !orphans.isEmpty)
  let state := releaseOrphans args orphans state
  let exit ← saveChanged libs pid statePath state changed
  pure { outcomes := fillOutcomes plans written, orphans, state, exit }

/-- A run up to its report; a state that cannot be read ends it with an exit code. -/
def reconcileEntries {Scalar Point Rng : Type} (ssl : OpenSsl Scalar Point Rng) (libs : Libs)
    (pid : UInt32) (args : ReconcileArgs) (statePath : Path) (entries : List Entry) :
    BatchProg (Except Nat Settled) := do
  match ← loadState libs statePath with
  | .error _ => pure (.error 2)
  | .ok state =>
    let plans ← examineAll libs args state entries
    let settled ← settle ssl libs pid args statePath entries state plans
    pure (.ok settled)

/-- `piggy secrets reconcile` from the entries on; the result is the exit code. -/
def reconcile {Scalar Point Rng : Type} (ssl : OpenSsl Scalar Point Rng) (libs : Libs)
    (pid : UInt32) (args : ReconcileArgs) (statePath : Path) (entries : List Entry) :
    BatchProg Nat := do
  match ← reconcileEntries ssl libs pid args statePath entries with
  | .error code => pure code
  | .ok settled =>
    match ← Prog.op (BatchOp.print
        (report libs args entries settled.outcomes settled.orphans)) with
    | .error _ => pure 1
    | .ok () => pure (exitCode args settled.outcomes settled.exit)

/-- `piggy secrets reconcile`. -/
def run {Scalar Point Rng : Type} (ssl : OpenSsl Scalar Point Rng) (libs : Libs) (pid : UInt32)
    (args : ReconcileArgs) (manifestPath statePath : Path) : BatchProg Nat := do
  match ← fsOp (.readToString manifestPath) with
  | .error _ => pure 2
  | .ok text =>
    match parseManifest libs text with
    | .error _ => pure 2
    | .ok entries => reconcile ssl libs pid args statePath entries

end Piggy.Secrets
