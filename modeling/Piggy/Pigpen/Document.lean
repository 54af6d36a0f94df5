import Piggy.Pigpen.Hyphence

/-!
# Pigpen documents

A document names its recipients, one on a line. A sealed document carries a wrap of the
file key on each line of an encryption recipient, a payload behind the metadata and the
header MAC on the type line; a recipient set carries comments instead.
-/

namespace Piggy.Pigpen

open Piggy.Core
open Piggy.Markl
open Piggy.Box (Bytes)

/-- One recipient line. -/
structure Recipient where
  id : Id
  comment : Option (List Char)
  /-- The ephemeral key and the sealed file key; absent in a recipient set. -/
  wrap : Option Bytes
  deriving DecidableEq

/-- A pigpen-v1 document. -/
structure Document where
  description : Option (List Char)
  recipients : List Recipient
  payload : Bytes
  mac : Option Bytes
  deriving DecidableEq

def typeTag : List Char := "pigpen-v1".toList

/-- What stands between an id and a comment. -/
def commentMark : List Char := [' ', ' ', '#', ' ']

/-- What stands between an id and a wrap. -/
def wrapMark : List Char := [' ', '<', ' ']

/-- A text as `{:?}` prints it. -/
def debugText (s : List Char) : String :=
  "\"" ++ String.join (s.map PurposeId.debugChar) ++ "\""

/-- Rejects a text that would break the line it stands on. -/
def rejectControl (field : String) (s : List Char) : Except Error Unit :=
  if '\n' ∈ s ∨ '\r' ∈ s then
    .error (.malformed s!"{field} must not contain a newline (metadata is single-line)")
  else .ok ()

/-! ## Recipients and locks -/

/-- Whether an id names a key a file key can be wrapped to. -/
def isEncryptionRecipient (id : Id) : Bool :=
  (id.format matches .pivyEcdhP256Pub | .ageX25519Pub) &&
    (id.purpose matches none | some .piggyRecipientV1)

/-- The id of a recipient's key. -/
def recipientId (format : FormatId) (bytes : Bytes) : Except Error Id :=
  (Id.new (some .piggyRecipientV1) format bytes).mapError (.markl "")

/-- An encryption recipient under the purpose that the canonical header spells. -/
def promoteRecipient (id : Id) : Except Error Id :=
  if !isEncryptionRecipient id then
    .error (.unsupportedFormat (String.ofList id.toWire ++ " is not an encryption recipient"))
  else recipientId id.format id.data

/-- The wrap format that locks a recipient of a format. -/
def wrapFormatFor (recipient : FormatId) : Except Error FormatId :=
  match recipient with
  | .pivyEcdhP256Pub => .ok .pigpenWrapP256
  | .ageX25519Pub => .ok .pigpenWrapX25519
  | other => .error (.unsupportedFormat (other.asStr ++
      " is not an encryption recipient format and carries no wrap lock"))

/-- The lock of a wrapped key. -/
def encodeWrap (recipient : FormatId) (blob : Bytes) : Except Error (List Char) := do
  let wrapFormat ← wrapFormatFor recipient
  let id ← (Id.new (some .pigpenWrapV1) wrapFormat blob).mapError
    (.markl s!"bad {wrapFormat.asStr} wrap for a {recipient.asStr} recipient: ")
  pure id.toWire

/-- The wrapped key in a lock. -/
def decodeWrap (recipient : FormatId) (s : List Char) : Except Error Bytes := do
  let wrapFormat ← wrapFormatFor recipient
  let id ← (Id.parse s).mapError (.markl ("bad wrap lock " ++ debugText s ++ ": "))
  if id.purpose ≠ some .pigpenWrapV1 then
    let shown := match id.purpose with
      | some p => "Some(" ++ debugText p.asStr.toList ++ ")"
      | none => "None"
    .error (.malformed ("wrap lock has purpose " ++ shown ++ ", want \"pigpen-wrap-v1\""))
  else if id.format ≠ wrapFormat then
    .error (.malformed (s!"a {recipient.asStr} recipient is locked with a {id.format.asStr} wrap, " ++
      s!"want {wrapFormat.asStr}"))
  else .ok id.data

/-- The lock of a MAC. -/
def encodeMac (mac : Bytes) : Except Error (List Char) := do
  let id ← (Id.new none .pigpenHeaderMac mac).mapError (.markl "bad header MAC: ")
  pure id.toWire

/-- The MAC in a lock. -/
def decodeMac (s : List Char) : Except Error Bytes := do
  let id ← (Id.parse s).mapError (.markl ("bad header MAC lock " ++ debugText s ++ ": "))
  match id.purpose with
  | some purpose => .error (.malformed ("header MAC lock carries purpose " ++
      debugText purpose.asStr.toList ++ ", want none"))
  | none =>
    if id.format ≠ .pigpenHeaderMac then
      .error (.malformed (s!"header MAC lock has format {id.format.asStr}, want " ++
        FormatId.pigpenHeaderMac.asStr))
    else .ok id.data

/-! ## Writing -/

/-- The line of a description; an empty one is no description. -/
def descriptionLine (description : Option (List Char)) : Except Error (List MetaLine) :=
  match description with
  | some desc =>
    if desc.isEmpty then .ok []
    else do
      rejectControl "description" desc
      pure [⟨.hash, desc⟩]
  | none => .ok []

/-- The line of a recipient: its wrap when it has one, otherwise its comment. -/
def recipientLine (r : Recipient) : Except Error MetaLine :=
  match r.wrap with
  | some wrap => do
    let lock ← encodeWrap r.id.format wrap
    pure ⟨.dash, r.id.toWire ++ (wrapMark ++ lock)⟩
  | none =>
    match r.comment with
    | some c =>
      if c.isEmpty then .ok ⟨.dash, r.id.toWire⟩
      else do
        rejectControl "comment" c
        pure ⟨.dash, r.id.toWire ++ (commentMark ++ c)⟩
    | none => .ok ⟨.dash, r.id.toWire⟩

/-- The type line, with the header MAC when it is included. -/
def typeLine (mac : Option Bytes) : Except Error MetaLine :=
  match mac with
  | some mac => do
    let lock ← encodeMac mac
    pure ⟨.bang, typeTag ++ '@' :: lock⟩
  | none => .ok ⟨.bang, typeTag⟩

namespace Document

/-- A document with a MAC is sealed. -/
def isSealed (d : Document) : Bool := d.mac.isSome

/-- The framing of a document; without the MAC it is the header that the MAC covers. -/
def build (d : Document) (includeMac : Bool) : Except Error HyphenceDoc := do
  let description ← descriptionLine d.description
  let recipients ← d.recipients.mapM recipientLine
  let type ← typeLine (if includeMac then d.mac else none)
  pure { lines := description ++ (recipients ++ [type])
         body := if includeMac && d.isSealed then d.payload else [] }

/-- The bytes that the header MAC covers. -/
def canonicalHeader (d : Document) : Except Error Bytes := do
  let h ← d.build false
  pure h.marshalMetadata

/-- Writes a document. -/
def toBytes (d : Document) : Except Error Bytes := do
  let h ← d.build true
  h.marshal

/-! ## Reading -/

/-- A document is a recipient set or fully sealed. -/
def validate (d : Document) : Except Error Unit :=
  let wrapped := d.recipients.countP (·.wrap.isSome)
  let unwrapped := d.recipients.countP fun r => r.wrap.isNone && isEncryptionRecipient r.id
  if !(d.mac.isSome || !d.payload.isEmpty || 0 < wrapped) then .ok ()
  else if 0 < unwrapped then .error (.malformed "mixed sealed/unsealed recipients")
  else if wrapped = 0 then .error (.malformed "sealed document has no wrapped recipient")
  else if d.mac.isNone then .error (.malformed "sealed document missing header MAC")
  else if d.payload.isEmpty then .error (.malformed "sealed document missing payload")
  else .ok ()

end Document

/-- The header MAC that a type line carries, when it does. -/
def parseTypeLine (body : List Char) : Except Error (Option Bytes) := do
  let (tag, mac) ← match splitOnceAt (· = '@') body with
    | some (tag, lock) => do
      let mac ← decodeMac lock
      pure (tag, some mac)
    | none => pure (body, none)
  if tag ≠ typeTag then
    .error (.malformed ("unexpected type " ++ debugText tag ++ " (want \"pigpen-v1\")"))
  else .ok mac

/-- The texts of id, comment and wrap on a recipient line. The comment is cut off first:
it is free text. -/
def cutRecipientLine (body : List Char) : List Char × Option (List Char) × Option (List Char) :=
  match splitOnce commentMark body with
  | some (left, right) => (trim left, if right.isEmpty then none else some right, none)
  | none =>
    match splitOnce wrapMark body with
    | some (left, right) => (trim left, none, some (trim right))
    | none => (trim body, none, none)

/-- The id of a recipient line. A purpose that is empty is refused, and a bare encryption
recipient is promoted. -/
def parseRecipientId (text : List Char) : Except Error Id := do
  let id ← (Id.parse text).mapError (.markl "")
  if id.purpose.any (·.asStr.isEmpty) then
    .error (.malformed ("recipient " ++ debugText text ++ " has an empty purpose"))
  else if isEncryptionRecipient id then promoteRecipient id
  else .ok id

/-- The wrap of a recipient line, when it has one. -/
def parseWrap (format : FormatId) : Option (List Char) → Except Error (Option Bytes)
  | none => .ok none
  | some lock => do
    let wrap ← decodeWrap format lock
    pure (some wrap)

/-- A recipient in a line. -/
def parseRecipientLine (body : List Char) : Except Error Recipient := do
  let (idText, comment, lock) := cutRecipientLine body
  let id ← parseRecipientId idText
  let wrap ← parseWrap id.format lock
  pure { id, comment, wrap }

/-- The local variables of the loop over the metadata lines. -/
structure Reading where
  description : Option (List Char) := none
  recipients : List Recipient := []
  mac : Option Bytes := none
  sawType : Bool := false
  deriving DecidableEq

/-- What one more description line makes of the description. -/
def addDescription (description : Option (List Char)) (body : List Char) : Option (List Char) :=
  if body.isEmpty then description
  else
    let d := description.getD []
    some (if d.isEmpty then body else d ++ ' ' :: body)

/-- One turn of the loop over the metadata lines. -/
def readMetaLine (s : Reading) (l : MetaLine) : Except Error Reading :=
  match l.kind with
  | .hash => .ok { s with description := addDescription s.description l.body }
  | .dash => do
    let r ← parseRecipientLine l.body
    pure { s with recipients := s.recipients ++ [r] }
  | .atSign =>
    .error (.malformed "'@'-referenced payload not supported in prototype (inline only)")
  | .bang =>
    if s.sawType then .error (.malformed "more than one '!' type line")
    else do
      let mac ← parseTypeLine l.body
      pure { s with mac, sawType := true }

/-- The document that bytes spell. -/
def Document.parse (raw : Bytes) : Except Error Document := do
  let h ← HyphenceDoc.parse raw
  let s ← h.lines.foldlM readMetaLine {}
  if !s.sawType then .error (.malformed "missing '! pigpen-v1' type line")
  else do
    let doc : Document :=
      { description := s.description, recipients := s.recipients, payload := h.body, mac := s.mac }
    doc.validate
    pure doc

end Piggy.Pigpen
