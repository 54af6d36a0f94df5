import Piggy.Store.Path
import Piggy.Box.Wire
import Mathlib.Logic.Function.Basic

/-!
# Files

What the program asks of the file system, and what it may answer and do. A file system is
a tree of nodes; where a path leads in it is left open, so that links between directories
are covered, and may change when a link on its way is replaced. Every operation may fail
at any time.
-/

namespace Piggy.Store

open Piggy.Core Piggy.Box

/-- An error of the operating system. -/
structure IoError where
  notFound : Bool
  text : String
  deriving DecidableEq

/-- What `stat` tells of a file that tells it from what it was before. -/
structure Fingerprint where
  dev : UInt64
  ino : UInt64
  size : UInt64
  /-- The permission bits. -/
  mode : UInt32
  mtimeSec : Int64
  mtimeNsec : Int64
  deriving DecidableEq

/-- What is at a place of the tree. -/
inductive Node where
  | dir
  | file (data : Bytes) (stamp : Fingerprint)
  /-- A link, a socket and so on. -/
  | other (stamp : Fingerprint)
  deriving DecidableEq

/-- What `lstat` tells of a node. -/
inductive FileKind where
  | directory (fingerprint : Fingerprint)
  | file (regular : Bool) (fingerprint : Fingerprint)
  deriving DecidableEq

/-- What `lstat` may tell of a node. -/
inductive Node.HasKind : Node → FileKind → Prop where
  | dir (stamp : Fingerprint) : HasKind .dir (.directory stamp)
  | file (data : Bytes) (stamp : Fingerprint) : HasKind (.file data stamp) (.file true stamp)
  | other (stamp : Fingerprint) : HasKind (.other stamp) (.file false stamp)

/-- The operations. The ones on an open file are named by the path it was opened at. -/
inductive FsOp where
  | read (p : Path)
  | readToString (p : Path)
  | isFile (p : Path)
  /-- The modification time of what a path leads to, if it can be told. -/
  | modified (p : Path)
  | lstat (p : Path)
  | createDirAll (p : Path) (mode : Option UInt32)
  | setPermissions (p : Path) (mode : UInt32)
  | createNew (p : Path)
  | writeAll (p : Path) (data : Bytes)
  | syncAll (p : Path)
  | removeFile (p : Path)
  | rename (p q : Path)
  deriving DecidableEq

/-- What an operation answers. -/
abbrev FsOp.Ans : FsOp → Type
  | read _ => Except IoError Bytes
  | readToString _ => Except IoError String
  | isFile _ => Bool
  | modified _ => Except IoError (Option (Int × Int))
  | lstat _ => Except IoError FileKind
  | createDirAll _ _ => Except IoError Unit
  | setPermissions _ _ => Except IoError Unit
  | createNew _ => Except IoError Unit
  | writeAll _ _ => Except IoError Unit
  | syncAll _ => Except IoError Unit
  | removeFile _ => Except IoError Unit
  | rename _ _ => Except IoError Unit

/-- A file system: its nodes, and where paths lead. -/
@[ext]
structure Fs where
  nodes : Loc → Option Node
  /-- Where a path leads; a link at its end is not followed. -/
  entry : Path → Loc
  /-- Where a link at the end of a path leads. -/
  link : Path → Loc
  /-- The places of the links on the way to a path. -/
  through : Path → Loc → Prop

namespace Fs

/-- The node a path names. -/
def lookup (w : Fs) (p : Path) : Option Node := w.nodes (w.entry p)

/-- Where a path leads when a link at its end is followed. -/
def target (w : Fs) (p : Path) : Loc :=
  match w.lookup p with
  | some (.other _) => w.link p
  | _ => w.entry p

/-- The tree with another node at one place. -/
def set (w : Fs) (loc : Loc) (node : Option Node) : Fs :=
  { w with nodes := Function.update w.nodes loc node }

/-- A path leads to the same place over the same links. -/
structure SameWay (w w' : Fs) (p : Path) : Prop where
  entry : w'.entry p = w.entry p
  link : w'.link p = w.link p
  through : w'.through p = w.through p

/-- A link at a place is on the way to a path. -/
def Carries (w : Fs) (loc : Loc) (p : Path) : Prop :=
  w.through p loc ∧ ∃ stamp, w.nodes loc = some (.other stamp)

/-- Another node at one place. Only a path over a link at that place may lead elsewhere. -/
structure Replaces (w w' : Fs) (loc : Loc) (node : Option Node) : Prop where
  nodes : w'.nodes = Function.update w.nodes loc node
  ways : ∀ p, ¬ w.Carries loc p → SameWay w w' p

/-- Directories are made at places on the way to one, where nothing was. -/
structure MakesDirs (w w' : Fs) (loc : Loc) : Prop where
  nodes : ∀ l, w'.nodes l = w.nodes l ∨ w.nodes l = none ∧ l <+: loc ∧ w'.nodes l = some .dir
  ways : ∀ p, SameWay w w' p

/-- What one operation may answer and do. -/
def Step (w : Fs) : (op : FsOp) → op.Ans → Fs → Prop
  | .read p, .ok data, w' => w' = w ∧ ∃ stamp, w.nodes (w.target p) = some (.file data stamp)
  | .readToString p, .ok text, w' =>
    w' = w ∧ ∃ stamp, w.nodes (w.target p) = some (.file (strBytes text) stamp)
  | .readToString p, .error e, w' => w' = w ∧ (e.notFound = true → w.nodes (w.target p) = none)
  | .lstat p, .ok kind, w' => w' = w ∧ ∃ node, w.lookup p = some node ∧ node.HasKind kind
  | .lstat p, .error e, w' => w' = w ∧ (e.notFound = true → w.lookup p = none)
  | .createDirAll p _, _, w' => MakesDirs w w' (w.target p)
  | .setPermissions p mode, .ok (), w' =>
    (∃ data stamp stamp', w.lookup p = some (.file data stamp) ∧ stamp'.mode = mode ∧
      w' = w.set (w.entry p) (some (.file data stamp'))) ∨
    (∀ data stamp, w.lookup p ≠ some (.file data stamp)) ∧ w' = w
  | .createNew p, .ok (), w' =>
    w.lookup p = none ∧ ∃ stamp, w' = w.set (w.entry p) (some (.file [] stamp))
  | .writeAll p data, .ok (), w' =>
    ∃ old stamp stamp', w.lookup p = some (.file old stamp) ∧ stamp'.mode = stamp.mode ∧
      w' = w.set (w.entry p) (some (.file data stamp'))
  | .writeAll p data, .error _, w' =>
    w' = w ∨ ∃ old stamp part stamp', w.lookup p = some (.file old stamp) ∧ part <+: data ∧
      w' = w.set (w.entry p) (some (.file part stamp'))
  | .removeFile p, .ok (), w' =>
    (∃ node, w.lookup p = some node ∧ node ≠ .dir) ∧ Replaces w w' (w.entry p) none
  | .removeFile p, .error e, w' => w' = w ∧ (e.notFound = true → w.lookup p = none)
  | .rename p q, .ok (), w' =>
    ∃ node, w.lookup p = some node ∧ node ≠ .dir ∧ w.lookup q ≠ some .dir ∧
      Replaces (w.set (w.entry p) none) w' (w.entry q) (some node)
  | _, _, w' => w' = w

end Fs

end Piggy.Store
