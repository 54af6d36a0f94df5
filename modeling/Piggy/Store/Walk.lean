import Piggy.Box.Wire

/-!
# The walk over a store

File names are byte strings. The listings walk a store directory by directory, each sorted by
raw file name, and keep what is an ebox; an entry is looked up by its name with the suffix
appended.
-/

namespace Piggy.Store

open Piggy.Core
open Piggy.Box (Bytes strBytes fromUtf8 fromUtf8Lossy)

/-! ## Paths of the operating system -/

def slash : UInt8 := 0x2F

def dot : UInt8 := 0x2E

/-- The segments of a path between its slashes. -/
def osSegments : Bytes → List Bytes
  | [] => [[]]
  | b :: bs =>
    if b = slash then [] :: osSegments bs
    else match osSegments bs with
      | [] => [[b]]
      | seg :: segs => (b :: seg) :: segs

/-- The components of a path. -/
inductive OsComponent where
  | rootDir
  | curDir
  | parentDir
  | normal (name : Bytes)
  deriving DecidableEq

/-- The component a segment stands for; an empty segment and a dot stand for none. -/
def osSegmentComponent (seg : Bytes) : Option OsComponent :=
  if seg = [] ∨ seg = [dot] then none
  else if seg = [dot, dot] then some .parentDir
  else some (.normal seg)

/-- The components of a path, as the standard library splits it. -/
def osComponents (p : Bytes) : List OsComponent :=
  let inner := (osSegments p).filterMap osSegmentComponent
  if p.head? = some slash then .rootDir :: inner
  else if (osSegments p).head? = some [dot] then .curDir :: inner
  else inner

/-- One path below another; an absolute path stands alone. -/
def osJoin (p q : Bytes) : Bytes :=
  if q.head? = some slash then q
  else if p = [] then q
  else if p.getLast? = some slash then p ++ q
  else p ++ slash :: q

/-- The last component, if it is a name. -/
def osFileName (p : Bytes) : Option Bytes :=
  match (osComponents p).getLast? with
  | some (.normal name) => some name
  | _ => none

/-- What follows the last dot of a file name, unless the dot is its first character. -/
def osExtension (p : Bytes) : Option Bytes :=
  match osFileName p with
  | none => none
  | some name =>
    let after := (name.reverse.takeWhile (· ≠ dot)).reverse
    if after.length = name.length then none
    else if name.length - after.length - 1 = 0 then none
    else some after

/-- An ASCII letter made small. -/
def asciiLower (b : UInt8) : UInt8 := if 0x41 ≤ b ∧ b ≤ 0x5A then b + 0x20 else b

/-- Two names that differ in the case of ASCII letters only. -/
def eqIgnoreAsciiCase (a b : Bytes) : Bool := a.map asciiLower = b.map asciiLower

/-- A file with the extension of an ebox. -/
def isEbox (p : Bytes) : Bool :=
  match osExtension p with
  | none => false
  | some e => eqIgnoreAsciiCase e (strBytes "ebox")

/-- A name without its suffix in either case; nothing where the name would be split inside a
character. -/
def stripEboxSuffix (name : String) : Option String :=
  let bytes := strBytes name
  let suffix := strBytes ".ebox"
  if suffix.length ≤ bytes.length then
    match fromUtf8 (bytes.take (bytes.length - suffix.length)) with
    | .error _ => none
    | .ok head =>
      if eqIgnoreAsciiCase (bytes.drop (bytes.length - suffix.length)) suffix then some head
      else some name
  else some name

/-! ## Files -/

/-- What stands at a path, links followed. -/
inductive EntryKind where
  | dir
  | file
  | other
  deriving DecidableEq

/-- What the operating system tells of files, links followed. -/
structure Files where
  metadata : Bytes → Option EntryKind
  /-- The names in a directory, in any order. -/
  readDir : Bytes → Except String (List Bytes)

/-- A regular file stands at the path. -/
def Files.isFile (files : Files) (p : Bytes) : Bool := files.metadata p = some .file

/-- The ebox for a name in the first store that holds it. -/
def findEntryIn (files : Files) (roots : List Bytes) (name : String) : Option Bytes :=
  (roots.map fun root => osJoin root (strBytes (name ++ ".ebox"))).find? files.isFile

/-! ## The walk -/

/-- The tree that is shown: directories and eboxes. -/
inductive StoreTree where
  | dir (name : String) (children : List StoreTree)
  | ebox (name : String) (path : Bytes)

/-- What a subdirectory that cannot be read becomes. -/
inductive UnreadableSubdir where
  | fail
  | showEmpty
  deriving DecidableEq

/-- How a walk fails. -/
inductive WalkError where
  | io (text : String)
  | panic
  deriving DecidableEq

def maxWalkDepth : Nat := 64

/-- The node of an entry of a directory, when it has one. -/
def entryNode (files : Files) (unreadable : UnreadableSubdir)
    (walk : Bytes → Except WalkError (List StoreTree)) (entry : Bytes × Bytes) :
    Except WalkError (Option StoreTree) :=
  let (name, path) := entry
  match files.metadata path with
  | none => .ok none
  | some kind =>
    let name := String.ofList (fromUtf8Lossy name)
    if kind = .dir then
      match walk path, unreadable with
      | .ok children, _ => .ok (some (.dir name children))
      | .error (.io _), .showEmpty => .ok (some (.dir name []))
      | .error e, _ => .error e
    else if kind = .file ∧ isEbox path then
      match stripEboxSuffix name with
      | none => .error .panic
      | some name => .ok (some (.ebox name path))
    else .ok none

/-- The nodes of the entries, in their order. -/
def entryNodes (node : Bytes × Bytes → Except WalkError (Option StoreTree)) :
    List (Bytes × Bytes) → Except WalkError (List StoreTree)
  | [] => .ok []
  | entry :: entries => do
    let node? ← node entry
    let nodes ← entryNodes node entries
    .ok (node?.toList ++ nodes)

/-- The entries of a directory by raw file name, without those of git. -/
def sortedEntries (dir : Bytes) (names : List Bytes) : List (Bytes × Bytes) :=
  ((names.filter fun name => name ≠ strBytes ".git").map fun name => (name, osJoin dir name)).mergeSort
    fun a b => decide (a.1 ≤ b.1)

/-- The tree below a directory at a depth. -/
def walkAt (files : Files) (unreadable : UnreadableSubdir) (dir : Bytes) (depth : Nat) :
    Except WalkError (List StoreTree) :=
  if _h : depth > maxWalkDepth ∨ files.metadata dir ≠ some .dir then .ok []
  else
    match files.readDir dir with
    | .error e => .error (.io e)
    | .ok names =>
      entryNodes (entryNode files unreadable fun path => walkAt files unreadable path (depth + 1))
        (sortedEntries dir names)
termination_by maxWalkDepth + 1 - depth
decreasing_by
  have : depth ≤ maxWalkDepth := Nat.le_of_not_lt fun hlt => _h (.inl hlt)
  omega

/-- The tree below a directory. -/
def walkTree (files : Files) (dir : Bytes) (unreadable : UnreadableSubdir) :
    Except WalkError (List StoreTree) :=
  walkAt files unreadable dir 0

/-- The eboxes of trees, put behind those found before. -/
def pushEboxPaths : List StoreTree → List Bytes → List Bytes
  | [], out => out
  | .dir _ children :: nodes, out => pushEboxPaths nodes (pushEboxPaths children out)
  | .ebox _ path :: nodes, out => pushEboxPaths nodes (out ++ [path])

/-- The paths of all eboxes, in the order of the tree. -/
def eboxPaths (nodes : List StoreTree) : List Bytes := pushEboxPaths nodes []

/-- The eboxes below a directory. -/
def collectEboxes (files : Files) (root : Bytes) : Except WalkError (List Bytes) := do
  let nodes ← walkTree files root .fail
  .ok (eboxPaths nodes)

/-- The names that a listing shows, with the paths they stand for: the directories on the way
and the stripped file name. -/
def shownEntries : List String → List StoreTree → List (List String × Bytes)
  | _, [] => []
  | above, .dir name children :: nodes =>
    shownEntries (above ++ [name]) children ++ shownEntries above nodes
  | above, .ebox name path :: nodes => (above ++ [name], path) :: shownEntries above nodes

/-- The parts of a name with slashes between them. -/
def entryName : List String → String
  | [] => ""
  | [part] => part
  | part :: parts => part ++ "/" ++ entryName parts

end Piggy.Store
