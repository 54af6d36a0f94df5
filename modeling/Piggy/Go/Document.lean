import Piggy.Go.Conformance
import Piggy.Go.Hyphence
import Piggy.Go.Strings

/-!
# Pigpen documents in Go

The reader of the Go package, with the ids it reads through the setter on a zero id. An empty
wrap is a nil slice, which is no wrap at all.
-/

namespace Piggy.Go.Pigpen

open Piggy.Core
open Piggy.Go.Markl (Id production)
open Piggy.Go.Markl.Id (trimSpace)

def typeTag : Bytes := utf8 "pigpen-v1".toList

def formatPivyP256 : Bytes := utf8 "pivy_ecdh_p256_pub".toList

def formatAgeX25519 : Bytes := utf8 "age_x25519_pub".toList

def purposeRecipient : Bytes := utf8 "piggy-recipient-v1".toList

def purposePivAuth : Bytes := utf8 "piggy-piv_auth-v1".toList

def purposePigpenWrap : Bytes := utf8 "pigpen-wrap-v1".toList

def formatIdPigpenWrapP256 : Bytes := utf8 "pigpen_wrap_p256".toList

def formatIdPigpenWrapX25519 : Bytes := utf8 "pigpen_wrap_x25519".toList

def formatIdPigpenHeaderMac : Bytes := utf8 "pigpen_header_mac".toList

/-- One recipient line; a nil wrap is none. -/
structure Recipient where
  id : Id
  comment : Bytes
  wrap : Option Bytes
  deriving DecidableEq

/-- A pigpen document. -/
structure Document where
  description : Bytes
  recipients : List Recipient
  payload : Bytes
  mac : Option Bytes
  deriving DecidableEq

/-! ## Ids -/

section

variable (t : CaseTables)

/-- `Set` on a zero id. -/
def setId (fail : Markl.Error → Error) (text : Bytes) : Result Error Id :=
  match Markl.Id.set production t text .zero with
  | (.ok _, id) => .ok id
  | (.error e, _) => .error (fail e)
  | (.panic, _) => .panic

/-- `GetMarklFormat().GetMarklFormatId()`; the null id has no format to ask. -/
def formatOf (id : Id) : Result Error Bytes :=
  match id.format with
  | none => .panic
  | some f => .ok f.id

/-- A slice that is copied; empty data are nil. -/
def clone (bites : Bytes) : Option Bytes := if bites = [] then none else some bites

/-- An id that can be sealed for. -/
def isEncryptionRecipient (id : Id) : Bool :=
  match id.format with
  | none => false
  | some f =>
    (f.id = formatPivyP256 || f.id = formatAgeX25519) &&
      (id.purposeId = [] || id.purposeId = purposeRecipient)

/-- An id under the purpose that writers emit. -/
def canonicalRecipient (id : Id) : Result Error Id := do
  let format ← formatOf id
  match Markl.Id.setMarklId production format id.data (Id.zero.setPurposeId purposeRecipient) with
  | (.ok _, out) => .ok out
  | (.error e, _) => .error (.markl "" [] e)
  | (.panic, _) => .panic

/-! ## Locks -/

/-- The format of a recipient's wraps. -/
def wrapFormatFor (recipientFormat : Bytes) : Except Error Bytes :=
  if recipientFormat = formatPivyP256 then .ok formatIdPigpenWrapP256
  else if recipientFormat = formatAgeX25519 then .ok formatIdPigpenWrapX25519
  else .error (.noWrapFormat recipientFormat)

/-- The wrapped key in a lock. -/
def decodeWrap (recipientFormat s : Bytes) : Result Error (Option Bytes) := do
  let wrapFormat ← .lift (wrapFormatFor recipientFormat)
  let id ← setId t (.markl "bad wrap lock" s) s
  if id.purposeId ≠ purposePigpenWrap then .error (.wrapPurpose id.purposeId)
  else do
    let got ← formatOf id
    if got ≠ wrapFormat then .error (.wrapFormat recipientFormat got wrapFormat)
    else .ok (clone id.data)

/-- The MAC in a lock. -/
def decodeMac (s : Bytes) : Result Error (Option Bytes) :=
  if 0x40 ∈ s then .error (.macPurpose s)
  else do
    let id ← setId t (.markl "bad header MAC lock" s) s
    if id.data = [] then .error .emptyMac
    else if id.purposeId ≠ [] then .error (.macPurpose id.purposeId)
    else do
      let got ← formatOf id
      if got ≠ formatIdPigpenHeaderMac then .error (.macFormat got)
      else .ok (clone id.data)

/-! ## Reading -/

/-- The MAC of a type line. One without a lock leaves the document's as it is. -/
def parseTypeLine (body : Bytes) (mac : Option Bytes) : Result Error (Option Bytes) := do
  let (tag, mac) ← match cut 0x40 body with
    | some (tag, lock) => do
      let mac ← decodeMac t lock
      pure (tag, mac)
    | none => pure (body, mac)
  if tag ≠ typeTag then .error (.unexpectedType tag)
  else .ok mac

/-- The texts of id, comment and wrap on a recipient line. The comment is cut off first. -/
def cutRecipientLine (body : Bytes) : Bytes × Bytes × Option Bytes :=
  match cutAt (utf8 "  # ".toList) body with
  | some (before, after) => (trimSpace before, after, none)
  | none =>
    match cutAt (utf8 " < ".toList) body with
    | some (before, after) => (trimSpace before, [], some (trimSpace after))
    | none => (trimSpace body, [], none)

/-- The id of a recipient line. An empty purpose in quotes is refused, and a bare encryption
recipient is promoted. -/
def parseRecipientId (idStr : Bytes) : Result Error Id := do
  let id ← setId t (.markl "bad recipient" idStr) idStr
  if id.data = [] then .error .noMarklId
  else if utf8 "\"\"@".toList <+: idStr ∨ utf8 "''@".toList <+: idStr then .error (.emptyPurpose idStr)
  else if isEncryptionRecipient id then canonicalRecipient id
  else .ok id

/-- A recipient in a line. -/
def parseRecipientLine (body : Bytes) : Result Error Recipient := do
  let (idStr, comment, lock) := cutRecipientLine body
  let id ← parseRecipientId t idStr
  match lock with
  | none => pure { id, comment, wrap := none }
  | some wrapStr => do
    let format ← formatOf id
    let wrap ← decodeWrap t format wrapStr
    pure { id, comment, wrap }

/-- The document while its lines are read, and whether the type line was. -/
structure Reading where
  doc : Document := ⟨[], [], [], none⟩
  sawType : Bool := false

/-- What one more description line makes of the description. -/
def addDescription (description body : Bytes) : Bytes :=
  if body = [] then description
  else if description = [] then body
  else description ++ 0x20 :: body

/-- One turn of the loop over the lines. -/
def readMetaLine (s : Reading) (l : MetaLine) : Result Error Reading :=
  if l.lead = 0x23 then
    .ok { s with doc := { s.doc with description := addDescription s.doc.description l.body } }
  else if l.lead = 0x2D then do
    let r ← parseRecipientLine t l.body
    pure { s with doc := { s.doc with recipients := s.doc.recipients ++ [r] } }
  else if l.lead = 0x40 then .error .atRef
  else if l.lead = 0x21 then
    if s.sawType then .error .manyTypes
    else do
      let mac ← parseTypeLine t l.body s.doc.mac
      pure { doc := { s.doc with mac }, sawType := true }
  else .ok s

namespace Document

/-- `Sealed`. -/
def isSealed (d : Document) : Bool := d.mac.isSome

/-- A document is a recipient set or fully sealed. -/
def validate (d : Document) : Except Error Unit :=
  let wrapped := d.recipients.countP (·.wrap.isSome)
  let unwrapped := d.recipients.countP fun r => r.wrap.isNone && isEncryptionRecipient r.id
  if !(d.mac.isSome || 0 < d.payload.length || 0 < wrapped) then .ok ()
  else if 0 < unwrapped then .error .mixed
  else if wrapped = 0 then .error .noWrapped
  else if d.mac.isNone then .error .missingMac
  else if d.payload.length = 0 then .error .missingPayload
  else .ok ()

end Document

/-- Reads a document. -/
def parseDocument (raw : Bytes) : Result Error Document := do
  let h ← .lift (parseHyphence raw)
  let s ← h.lines.foldlM (readMetaLine t) {}
  if !s.sawType then .error .missingType
  else do
    let d : Document := { s.doc with payload := h.body }
    Result.lift d.validate
    pure d

end

end Piggy.Go.Pigpen
