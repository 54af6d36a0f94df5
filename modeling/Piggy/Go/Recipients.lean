import Piggy.Go.Pointer
import Mathlib.Data.List.Sort

/-!
# Recipient files in Go

A file of recipients is a document or a list of ids, one on a line. The canonical form of a set
of recipients has the text of each key once, in the order of the bytes.
-/

namespace Piggy.Go.Pigpen

open Piggy.Core
open Piggy.Go.Markl (Id production)
open Piggy.Pigpen (boundary)

section

variable (t : CaseTables)

/-- A canonical recipient where it cannot fail. -/
def mustCanonical (id : Id) : Result Error Id :=
  match canonicalRecipient id with
  | .ok canonical => .ok canonical
  | _ => .panic

/-- One turn of the loop over the recipients of a document. -/
def addEncryptionRecipient (out : List Id) (r : Recipient) : Result Error (List Id) :=
  if !isEncryptionRecipient r.id then .ok out
  else do
    let id ← mustCanonical r.id
    pure (out ++ [id])

/-- The recipients that can be sealed for. -/
def Document.encryptionRecipients (d : Document) : Result Error (List Id) :=
  d.recipients.foldlM addEncryptionRecipient []

/-- A frame whose type line names a pointer. -/
def isPointer (raw : Bytes) : Bool :=
  match parseHyphence raw with
  | .error _ => false
  | .ok h => h.lines.any fun l => l.lead = 0x21 && l.body = pointerTypeTag

/-! ## Lists of ids -/

/-- A blank. -/
def isWsp (b : UInt8) : Bool := b = 0x20 || b = 0x09

/-- A line without the carriage return in front of the line feed. -/
def trimCr (line : Bytes) : Bytes := if line.getLast? = some 0x0D then line.dropLast else line

/-- `strings.Trim` by blanks and tabs. -/
def trimWsp (line : Bytes) : Bytes := (line.dropWhile isWsp).rdropWhile isWsp

/-- The recipient on a line, when it names one: behind the id only a comment may stand. -/
def recipientOfLine (n : Nat) (line : Bytes) : Result Error (Option Id) :=
  let line := trimWsp (trimCr line)
  if line = [] ∨ line.head? = some 0x23 then .ok none
  else
    let idStr := line.takeWhile fun b => !isWsp b
    let rest := (line.dropWhile fun b => !isWsp b).dropWhile isWsp
    if rest ≠ [] ∧ rest.head? ≠ some 0x23 then .error (.secondToken (n + 1) rest)
    else do
      let id ← setId t (.badId (n + 1) idStr) idStr
      if isEncryptionRecipient id then do
        let canonical ← canonicalRecipient id
        pure (some canonical)
      else if id.purposeId = purposePivAuth then .ok none
      else .error (.notRecipient (n + 1) idStr)

/-- One turn of the loop over the lines. -/
def readRecipient (out : List Id) (line : Bytes × Nat) : Result Error (List Id) := do
  match ← recipientOfLine t line.2 line.1 with
  | none => pure out
  | some id => pure (out ++ [id])

/-- The ids of a recipient file. -/
def parseRFC0003Recipients (raw : Bytes) : Result Error (List Id) :=
  (raw.splitOn 0x0A).zipIdx.foldlM (readRecipient t) []

/-- The recipients of a file in either form. -/
def parseRecipients (raw : Bytes) : Result Error (List Id) :=
  if ¬ boundary <+: raw then parseRFC0003Recipients t raw
  else if isPointer raw then .error .pointerDocument
  else do
    let doc ← parseDocument t raw
    doc.encryptionRecipients

/-! ## The canonical form -/

/-- The text of an id, which is a panic for data without a format. -/
def textOf (id : Id) : Result Error Bytes :=
  match id.stringWithFormat t with
  | .ok text => .ok text
  | _ => .panic

/-- One turn of the loop over the ids: the text of a recipient is taken once. -/
def addLine (lines : List Bytes) (id : Id) : Result Error (List Bytes) :=
  if !isEncryptionRecipient id then .ok lines
  else do
    let canonical ← mustCanonical id
    let text ← textOf t canonical
    if text ∈ lines then .ok lines else .ok (lines ++ [text])

/-- The recipients one a line, in order. -/
def canonicalRecipientSet (ids : List Id) : Result Error Bytes := do
  let lines ← ids.foldlM (addLine t) []
  pure ((lines.insertionSort (· ≤ ·)).flatMap (· ++ [0x0A]))

/-- Two sets are the same if they are written alike. -/
def sameRecipientSet (a b : List Id) : Result Error Bool := do
  let canonicalA ← canonicalRecipientSet t a
  let canonicalB ← canonicalRecipientSet t b
  pure (canonicalA == canonicalB)

end

end Piggy.Go.Pigpen
