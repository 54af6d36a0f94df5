import Mathlib.Data.List.Basic

/-!
# Paths

A path is a text. The operating system and the program look at its components: the
segments between slashes, without the empty ones and the dots that say nothing. Joining
an absolute path replaces what it is joined to.
-/

namespace Piggy.Store

/-- One component of a path. -/
inductive Component where
  | rootDir
  | curDir
  | parentDir
  | normal (name : String)
  deriving DecidableEq

/-- The segments of a text between its slashes. -/
def segments : List Char → List (List Char)
  | [] => [[]]
  | c :: cs =>
    if c = '/' then [] :: segments cs
    else match segments cs with
      | [] => [[c]]
      | seg :: segs => (c :: seg) :: segs

/-- The component a segment stands for; an empty segment and a dot stand for none. -/
def segmentComponent : List Char → Option Component
  | [] => none
  | ['.'] => none
  | ['.', '.'] => some .parentDir
  | seg => some (.normal (String.ofList seg))

/-- A path, as it is written. -/
structure Path where
  text : String
  deriving DecidableEq

namespace Path

/-- A path from the root. -/
def isAbsolute (p : Path) : Bool := p.text.toList.head? = some '/'

/-- The components of a path apart from the root and from a dot in front. -/
def inner (p : Path) : List Component := (segments p.text.toList).filterMap segmentComponent

/-- The components of a path. -/
def components (p : Path) : List Component :=
  if p.isAbsolute then .rootDir :: p.inner
  else if (segments p.text.toList).head? = some ['.'] then .curDir :: p.inner
  else p.inner

/-- One path below another; an absolute path stands alone. -/
def join (p q : Path) : Path :=
  if q.isAbsolute then q
  else if p.text.toList = [] then q
  else if p.text.toList.getLast? = some '/' then ⟨p.text ++ q.text⟩
  else ⟨p.text ++ "/" ++ q.text⟩

/-- The path without its last component: the shortest beginning with all the others. The
root and the empty path have none. -/
def parent (p : Path) : Option Path :=
  match p.components.getLast? with
  | none | some .rootDir => none
  | some _ =>
    (p.text.toList.inits.map fun s => Path.mk (String.ofList s)).find? fun q =>
      q.components = p.components.dropLast

/-- The last component, when it is a name. -/
def fileName (p : Path) : Option String :=
  match p.components.getLast? with
  | some (.normal name) => some name
  | _ => none

end Path

/-! ## Locations -/

/-- A place in a tree of directories: the names on the way to it from the root. -/
abbrev Loc : Type := List String

/-- Where one component leads from a place. -/
def advance (loc : Loc) : Component → Loc
  | .rootDir => []
  | .curDir => loc
  | .parentDir => loc.dropLast
  | .normal name => loc ++ [name]

/-- The place a path names, as seen from a working directory, in a tree without links. -/
def locate (cwd : Loc) (p : Path) : Loc := p.components.foldl advance cwd

end Piggy.Store
