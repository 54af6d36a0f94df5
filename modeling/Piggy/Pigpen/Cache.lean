import Piggy.Ids.RecipientFile
import Piggy.Pigpen.Pointer
import Piggy.Pigpen.Reserialize
import Piggy.Store.Path

/-!
# Recipient files behind documents

Every consumer reads recipients from a recipient file. A path that holds a document instead is
converted: the recipients go to a file in the cache directory. A pointer is resolved first, and
what the resolver answered is kept in a second file for an hour.
-/

namespace Piggy.Pigpen

/-- The recipients of a document that the file key can be wrapped to. -/
def Document.encryptionRecipients (d : Document) : List Recipient :=
  d.recipients.filter fun r => isEncryptionRecipient r.id

namespace Cache

open Piggy.Core Piggy.Markl
open Piggy.Box (Bytes strBytes)
open Piggy.Store (Path)

/-! ## Names in the cache -/

/-- A file of the cache: the directory and the name in it. -/
structure CachePath where
  dir : Path
  name : List Char
  deriving DecidableEq

/-- A number as `{:016x}` prints it. -/
def hex16 (h : UInt64) : List Char :=
  (List.range 16).reverse.map fun i => Nat.digitChar (h.toNat / 16 ^ i % 16)

/-- A file name in front of its last dot; a dot in front of everything does not count. -/
def fileStem (name : List Char) : List Char :=
  match name.rdropWhile (· ≠ '.') with
  | [] => name
  | ['.'] => name
  | before => if name = ['.', '.'] then name else before.dropLast

/-- A file name under another extension. -/
def setExtension (name ext : List Char) : List Char :=
  fileStem name ++ (if ext.isEmpty then [] else '.' :: ext)

/-- The hash of the standard library on what the names are made of. -/
structure Hashes where
  path : Path → UInt64
  pointer : Pointer → UInt64

/-! ## A call and the world around it -/

/-- How writing a file of the cache ends. -/
inductive WriteOutcome where
  | noDirectory
  /-- The staging file, or renaming it, failed; what is left of the staging file. -/
  | failed (left : Option Bytes)
  | done
  deriving DecidableEq

/-- What one call meets outside the program: what the path holds, the variables that are set,
the clock, the resolvers and how the writes end. -/
structure Call where
  piggyIds : Path
  /-- What reading the path gives. -/
  raw : Option Bytes
  xdgCacheHome : Option Path
  home : Option Path
  cacheDisabled : Bool
  /-- The clock when the age of a cached answer is looked at, in nanoseconds. -/
  now : Nat
  /-- Whether a file that is there can be looked at and read. -/
  cacheReadable : Bool
  /-- What the resolver of a kind says to a locator. -/
  resolver : List Char → List Char → Except String Bytes
  /-- The clock when files are written. -/
  later : Nat
  pid : Nat
  answerWrite : WriteOutcome
  recipientsWrite : WriteOutcome

/-- A file of the cache, and when it was written. -/
structure CacheFile where
  contents : Bytes
  modified : Nat
  deriving DecidableEq

/-- What a resolver said to a kind and a locator, and when. -/
structure Answer where
  pointer : Pointer
  bytes : Bytes
  received : Nat
  deriving DecidableEq

/-- The files of the cache and everything resolvers have answered so far. -/
structure World where
  cache : CachePath → Option CacheFile
  answers : List Answer

/-- Why a path is not resolved. -/
inductive ResolveError where
  | reading (piggyIds : Path)
  | resolving (piggyIds : Path) (pointer : Pointer) (text : String)
  | notRecipientSet (pointer : Pointer) (e : Error)
  | sealedDocument (pointer : Pointer)
  | noEncryptionRecipients (pointer : Pointer)
  | parsingPointer (piggyIds : Path) (e : Error)
  | parsingDocument (piggyIds : Path) (e : Error)
  | convertingRecipient (e : Ids.ParseError)
  | noCacheHome
  | createDir (dir : Path)
  | writing (path : CachePath)

/-- What consumers read in place of the path. -/
inductive Resolved where
  | piggyIds
  | cache (path : CachePath)
  deriving DecidableEq

/-! ## The cache -/

/-- `$XDG_CACHE_HOME/piggy/<hash of the path>.piggy-ids` -/
def cachePathFor (h : Hashes) (c : Call) : Option CachePath := do
  let cacheHome ← c.xdgCacheHome <|> c.home.map (·.join ⟨".cache"⟩)
  pure ⟨cacheHome.join ⟨"piggy"⟩, hex16 (h.path c.piggyIds) ++ ".piggy-ids".toList⟩

/-- The file for what the resolver answered. Its name depends on the pointer as well. -/
def resolvedPointerCachePathFor (h : Hashes) (c : Call) (ptr : Pointer) : Option CachePath := do
  let path ← cachePathFor h c
  pure { path with name := setExtension path.name (hex16 (h.pointer ptr) ++ ".piggy-pointer-raw".toList) }

/-- An hour, in nanoseconds. -/
def CACHE_TTL : Nat := 3600 * 1000000000

/-- Whether a cached answer is there and not older than the limit. A clock that was set back
makes it stale. -/
def cacheIsFresh (w : World) (c : Call) (cacheFile : CachePath) : Bool :=
  match w.cache cacheFile with
  | some file => c.cacheReadable && decide (file.modified ≤ c.now ∧ c.now - file.modified < CACHE_TTL)
  | none => false

/-- The file that is written first and then renamed. -/
def stagingPath (c : Call) (path : CachePath) : CachePath :=
  { path with name := path.name ++ '.' :: (Nat.toDigits 10 c.pid ++ ".tmp".toList) }

/-- Writes a cache file whole or not at all. -/
def writeCacheFile (c : Call) (outcome : WriteOutcome) (path : CachePath) (contents : Bytes) (w : World) :
    Except ResolveError Unit × World :=
  let staging := stagingPath c path
  match outcome with
  | .noDirectory => (.error (.createDir path.dir), w)
  | .failed left =>
    (.error (.writing path),
      { w with cache := Function.update w.cache staging (left.map fun b => ⟨b, c.later⟩) })
  | .done =>
    (.ok (), { w with
      cache := Function.update (Function.update w.cache staging none) path (some ⟨contents, c.later⟩) })

/-! ## Resolving a path -/

/-- What a resolver may answer with: a recipient set that names an encryption recipient. -/
def resolvedRecipientSet (bytes : Bytes) (ptr : Pointer) : Except ResolveError Document :=
  match Document.parse bytes with
  | .error e => .error (.notRecipientSet ptr e)
  | .ok doc =>
    if doc.isSealed then .error (.sealedDocument ptr)
    else if doc.encryptionRecipients.isEmpty then .error (.noEncryptionRecipients ptr)
    else .ok doc

/-- Whether bytes carry the type line of a pointer, valid pointer or not. -/
def namesPointerType (raw : Bytes) : Bool :=
  (raw.splitOn 0x0A).any fun line => line = strBytes "! pigpen-pointer-v1"

/-- The recipients of a document that are converted. Lines under a purpose that is not known
are skipped: they are valid in a document and have no place in a recipient file. -/
def convertedRecipients (doc : Document) : Except ResolveError (List Ids.Recipient) :=
  (doc.recipients.filter fun r => !(r.id.purpose matches some (.other _))).mapM fun r =>
    (Ids.Recipient.new r.id r.comment).mapError .convertingRecipient

/-- Writes the recipients of a document to the cache file of the path. -/
def recipientSetDocToRfc0003Cache (h : Hashes) (c : Call) (doc : Document) (w : World) :
    Except ResolveError Resolved × World :=
  match convertedRecipients doc with
  | .error e => (.error e, w)
  | .ok recipients =>
    match cachePathFor h c with
    | none => (.error .noCacheHome, w)
    | some path =>
      match writeCacheFile c c.recipientsWrite path (strBytes (String.ofList (Ids.render recipients))) w with
      | (.error e, w) => (.error e, w)
      | (.ok (), w) => (.ok (.cache path), w)

/-- The world after one more answer. -/
def World.answered (w : World) (a : Answer) : World := { w with answers := w.answers ++ [a] }

/-- The answer of the resolver of a pointer. -/
def invokeResolver (c : Call) (ptr : Pointer) (w : World) : Except String Bytes × World :=
  match c.resolver ptr.kind ptr.locator with
  | .error e => (.error e, w)
  | .ok bytes => (.ok bytes, w.answered ⟨ptr, bytes, c.later⟩)

/-- A cached answer that is fresh and still passes. -/
def cachedAnswer (c : Call) (ptr : Pointer) (cacheFile : CachePath) (w : World) : Option Document :=
  if !c.cacheDisabled && cacheIsFresh w c cacheFile then do
    let file ← w.cache cacheFile
    (resolvedRecipientSet file.contents ptr).toOption
  else none

/-- The document behind a pointer: a cached answer, or what the resolver says now. An answer
is checked before it is kept. -/
def pointerDocument (h : Hashes) (c : Call) (ptr : Pointer) (w : World) :
    Except ResolveError Document × World :=
  match resolvedPointerCachePathFor h c ptr with
  | none => (.error .noCacheHome, w)
  | some cacheFile =>
    match cachedAnswer c ptr cacheFile w with
    | some doc => (.ok doc, w)
    | none =>
      match invokeResolver c ptr w with
      | (.error e, w) => (.error (.resolving c.piggyIds ptr e), w)
      | (.ok bytes, w) =>
        match resolvedRecipientSet bytes ptr with
        | .error e => (.error e, w)
        | .ok doc =>
          match writeCacheFile c c.answerWrite cacheFile bytes w with
          | (.error e, w) => (.error e, w)
          | (.ok (), w) => (.ok doc, w)

/-- What consumers read in place of the path. -/
def resolvePiggyIdsPath (h : Hashes) (c : Call) (w : World) : Except ResolveError Resolved × World :=
  match c.raw with
  | none => (.error (.reading c.piggyIds), w)
  | some raw =>
    if !boundary.isPrefixOf raw then (.ok .piggyIds, w)
    else
      match Pointer.parse raw with
      | .ok ptr =>
        match pointerDocument h c ptr w with
        | (.error e, w) => (.error e, w)
        | (.ok doc, w) => recipientSetDocToRfc0003Cache h c doc w
      | .error pointerErr =>
        match Document.parse raw with
        | .ok doc => recipientSetDocToRfc0003Cache h c doc w
        | .error e =>
          if namesPointerType raw then (.error (.parsingPointer c.piggyIds pointerErr), w)
          else (.error (.parsingDocument c.piggyIds e), w)

/-! ## Runs -/

/-- What happens to the cache: a call, or a file that somebody removes. -/
inductive CacheEvent where
  | called (c : Call)
  | removed (path : CachePath)

/-- The world behind an event. -/
def CacheEvent.step (h : Hashes) (w : World) : CacheEvent → World
  | .called c => (resolvePiggyIdsPath h c w).2
  | .removed path => { w with cache := Function.update w.cache path none }

/-- The pointer that a call finds at its path. -/
def Call.pointer? (c : Call) : Option Pointer := c.raw.bind fun raw => (Pointer.parse raw).toOption

/-- The pointers that calls found. -/
def pointersOf (events : List CacheEvent) : List Pointer :=
  events.filterMap fun
    | .called c => c.pointer?
    | .removed _ => none

/-- The world after some history, from an empty cache on. -/
def worldAfter (h : Hashes) (events : List CacheEvent) : World :=
  events.foldl (CacheEvent.step h) ⟨fun _ => none, []⟩

end Cache

end Piggy.Pigpen
