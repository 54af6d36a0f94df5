import Piggy.Core.Checked
import Piggy.Box.Wire

/-!
# Signatures in their forms

A card returns an ECDSA signature as a DER sequence of two integers. It is taken apart and put
together as two integers of the width of the field, as the pair of strings of an SSH signature,
and from that pair as a DER sequence again.
-/

namespace Piggy.Ecdsa

open Piggy.Core Piggy.Box

/-! ## Reading DER -/

/-- A length and the number of its bytes: the short form, or the long form of one or two bytes. -/
def parseDerLength : Bytes → Except String (Nat × Nat)
  | [] => .error "DER length: missing length byte"
  | first :: rest =>
    if first < 0x80 then .ok (first.toNat, 1)
    else if first = 0x81 then
      match rest with
      | [] => .error "DER length: truncated 0x81"
      | b :: _ =>
        if b < 0x80 then .error "DER length: non-canonical 0x81 short length" else .ok (b.toNat, 2)
    else if first = 0x82 then
      match rest with
      | hi :: lo :: _ =>
        if hi = 0 then .error "DER length: non-canonical 0x82 encoding" else .ok (ofBe [hi, lo], 3)
      | _ => .error "DER length: truncated 0x82"
    else .error ("DER length: unsupported form 0x" ++ hexByte first)

/-- The bytes of an integer that begins at a place, and the place behind it. What is read ends
with the enclosing sequence. -/
def readDerInteger (der : Bytes) (pos stop : Nat) (label : String) : Checked (Bytes × Nat) :=
  if stop ≤ pos then .failed s!"invalid DER ECDSA signature: missing INTEGER for {label}"
  else do
    let tag ← Checked.get der pos
    if tag ≠ 0x02 then .failed s!"expected INTEGER tag for {label}"
    else
      let behind ← Checked.slice der (pos + 1) stop
      let (intLen, intHdr) ← Checked.ofExcept (parseDerLength behind)
      let intEnd ← Checked.checkedAdd (pos + 1 + intHdr) intLen "DER INTEGER length overflows usize"
      if stop < intEnd then
        .failed s!"invalid DER ECDSA signature: {label} INTEGER length exceeds SEQUENCE"
      else
        let bytes ← Checked.slice der (pos + 1 + intHdr) intEnd
        .ok (bytes, intEnd)

/-- The two integers of a signature, as they are encoded. -/
def decodeDerEcdsaSignature (der : Bytes) : Checked (Bytes × Bytes) :=
  if der.head? ≠ some 0x30 then .failed "invalid DER ECDSA signature: not a SEQUENCE"
  else do
    let behind ← Checked.slice der 1 der.length
    let (seqLen, seqHdr) ← Checked.ofExcept (parseDerLength behind)
    let seqEnd ← Checked.checkedAdd (1 + seqHdr) seqLen "DER SEQUENCE length overflows usize"
    if der.length < seqEnd then .failed "invalid DER ECDSA signature: truncated body"
    else
      let (r, afterR) ← readDerInteger der (1 + seqHdr) seqEnd "r"
      let (s, afterS) ← readDerInteger der afterR seqEnd "s"
      if afterS ≠ seqEnd then .failed "invalid DER ECDSA signature: trailing bytes after s"
      else .ok (r, s)

/-! ## Integers of a fixed width -/

/-- An integer that is wider than the field, without the zeros in front that make it so. -/
def stripZeros (fieldLen : Nat) : Bytes → Bytes
  | [] => []
  | b :: rest => if fieldLen < rest.length + 1 ∧ b = 0 then stripZeros fieldLen rest else b :: rest

/-- A number in a field of so many bytes. -/
def fixedWidthBe (intBytes : Bytes) (fieldLen : Nat) (label : String) : Checked Bytes :=
  let b := stripZeros fieldLen intBytes
  if fieldLen < b.length then
    .failed s!"ECDSA {label} integer is {b.length} bytes, exceeds field length {fieldLen}"
  else .ok (List.replicate (fieldLen - b.length) 0 ++ b)

/-- The two integers of a signature, each as wide as the field. -/
def derToRawRs (der : Bytes) (fieldLen : Nat) : Checked Bytes := do
  let (r, s) ← decodeDerEcdsaSignature der
  let r ← fixedWidthBe r fieldLen "r"
  let s ← fixedWidthBe s fieldLen "s"
  .ok (r ++ s)

/-! ## SSH signatures -/

/-- A string of the SSH wire format: its length in 32 bits and its bytes. -/
def sshString (bytes : Bytes) : Bytes := toBe 4 bytes.length ++ bytes

/-- The signature in the form of SSH. -/
def encodeEcdsaSshSignature (r s : Bytes) : Bytes := sshString r ++ sshString s

/-- A string that begins at a place, and the place behind it. -/
def readSshString (data : Bytes) (offset : Nat) (label : String) : Checked (Bytes × Nat) := do
  let truncated := s!"SSH ECDSA signature: truncated length prefix for {label}"
  let hdrEnd ← Checked.checkedAdd offset 4 truncated
  if data.length < hdrEnd then .failed truncated
  else
    let b0 ← Checked.get data offset
    let b1 ← Checked.get data (offset + 1)
    let b2 ← Checked.get data (offset + 2)
    let b3 ← Checked.get data (offset + 3)
    let len := ofBe [b0, b1, b2, b3]
    let exceeds := s!"SSH ECDSA signature: {label} length {len} exceeds buffer"
    let stop ← Checked.checkedAdd hdrEnd len exceeds
    if data.length < stop then .failed exceeds
    else
      let payload ← Checked.slice data hdrEnd stop
      .ok (payload, stop)

/-- A DER length; what does not fit into two bytes is written as the largest that does. -/
def encodeDerLength (len : Nat) : Bytes :=
  if len < 0x80 then [UInt8.ofNat len]
  else if len ≤ 0xFF then [0x81, UInt8.ofNat len]
  else 0x82 :: toBe 2 (min len 0xFFFF)

/-- A DER integer. The empty body of a zero becomes one zero. -/
def encodeDerInteger (body : Bytes) : Bytes :=
  if body = [] then [0x02, 1, 0] else 0x02 :: (encodeDerLength body.length ++ body)

/-- A sequence with its length. -/
def encodeDerSequence (body : Bytes) : Bytes := 0x30 :: (encodeDerLength body.length ++ body)

/-- The DER form of an SSH signature. -/
def sshEcdsaBlobToDer (blob : Bytes) : Checked Bytes := do
  let (r, pos) ← readSshString blob 0 "r"
  let (s, stop) ← readSshString blob pos "s"
  if stop ≠ blob.length then
    .failed s!"invalid SSH ECDSA signature: {blob.length - stop} trailing bytes after s"
  else .ok (encodeDerSequence (encodeDerInteger r ++ encodeDerInteger s))

/-- The way of a signature of the card through an agent: to its SSH form, back to DER, and to
integers of the width of the field. -/
def agentToRawRs (der : Bytes) (fieldLen : Nat) : Checked Bytes := do
  let (r, s) ← decodeDerEcdsaSignature der
  let der ← sshEcdsaBlobToDer (encodeEcdsaSshSignature r s)
  derToRawRs der fieldLen

end Piggy.Ecdsa
