import Piggy.Card.Policy
import Piggy.Core.Checked
import Piggy.Piv.TlvCodec

/-!
# The policy in an attestation

The certificate that a card makes for one of its keys carries an extension with the PIN and the
touch policy of the key. Four walks over tagged values lead to it, one in the other: over the
certificate, its fields, the extensions and the parts of one extension.
-/

namespace Piggy.Piv

open Piggy.Core Piggy.Box Piggy.Card

/-! ## The reader -/

/-- A reader of tagged values: all bytes, and the place it has come to. -/
structure TlvReader where
  data : Bytes
  pos : Nat
  deriving DecidableEq

/-- Ends with an error. -/
def failWith {α : Type} (e : PivError) : Checked α := .failed e.text

namespace TlvReader

/-- A reader at the start of data. -/
def new (data : Bytes) : TlvReader := ⟨data, 0⟩

/-- Something is left to read. -/
def hasRemaining (r : TlvReader) : Bool := r.pos < r.data.length

/-- The next byte. The program stops behind the last one. -/
def next (r : TlvReader) : Checked (UInt8 × TlvReader) := do
  let b ← Checked.get r.data r.pos
  .ok (b, { r with pos := r.pos + 1 })

/-- What is behind the place of a reader. The program stops if the place is behind the end. -/
def remaining (r : TlvReader) : Checked Nat :=
  if r.pos ≤ r.data.length then .ok (r.data.length - r.pos) else .stopped

/-- The loop over the further bytes of a tag. Without fuel it would run on. -/
def readTagRest : Nat → Nat → TlvReader → Checked (Nat × TlvReader)
  | 0, _, _ => .stopped
  | fuel + 1, tag, r =>
    if r.data.length ≤ r.pos then failWith (.tlv "multi-byte tag continued past end of data")
    else do
      let (b, r) ← r.next
      let tag := (tag * 256 + b.toNat) % 2 ^ 32
      if b &&& 0x80 = 0 then .ok (tag, r) else readTagRest fuel tag r

/-- The tag at the reader. -/
def readTag (r : TlvReader) : Checked (Nat × TlvReader) :=
  if r.data.length ≤ r.pos then failWith (.tlv "read_tag called past end of data")
  else do
    let (first, r) ← r.next
    if first &&& 0x1F = 0x1F then readTagRest (r.data.length + 1) first.toNat r
    else .ok (first.toNat, r)

/-- The loop over the bytes of a length. -/
def readOctets : Nat → Nat → TlvReader → Checked (Nat × TlvReader)
  | 0, len, r => .ok (len, r)
  | count + 1, len, r => do
    let (b, r) ← r.next
    readOctets count (len * 256 + b.toNat) r

/-- The length at the reader. -/
def readLength (r : TlvReader) : Checked (Nat × TlvReader) :=
  if r.data.length ≤ r.pos then failWith (.tlv "read_length called past end of data")
  else do
    let (first, r) ← r.next
    if first &&& 0x80 = 0 then .ok (first.toNat, r)
    else
      let numBytes := (first &&& 0x7F).toNat
      if numBytes = 0 ∨ 3 < numBytes then
        failWith (.tlv s!"invalid length indicator: {numBytes} octets")
      else if r.data.length < r.pos + numBytes then do
        let left ← r.remaining
        failWith (.tlv s!"length bytes ({numBytes}) exceed remaining data ({left})")
      else readOctets numBytes 0 r

/-- The value at the reader, its length in front. -/
def readValue (r : TlvReader) : Checked (Bytes × TlvReader) := do
  let (len, r) ← r.readLength
  if r.data.length < r.pos + len then do
    let left ← r.remaining
    failWith (.tlv s!"value length {len} exceeds remaining data {left}")
  else do
    let value ← Checked.slice r.data r.pos (r.pos + len)
    .ok (value, { r with pos := r.pos + len })

end TlvReader

/-! ## The walks -/

/-- The object identifier of the extension, without its tag and length. -/
def YK_POLICY_OID_BODY : Bytes := [0x2B, 0x06, 0x01, 0x04, 0x01, 0x82, 0xC4, 0x0A, 0x03, 0x08]

/-- A number as `{:02X}` prints it. -/
def hexUpper (n : Nat) : String :=
  String.ofList ((List.leftpad 2 '0' (Nat.toDigits 16 n)).map Char.toUpper)

/-- The PIN policy of a byte. -/
def PinPolicy.fromByte (b : UInt8) : Except PivError PinPolicy :=
  if b = 0x00 then .ok .default
  else if b = 0x01 then .ok .never
  else if b = 0x02 then .ok .once
  else if b = 0x03 then .ok .always
  else .error (.other s!"unknown YubicoPIV PIN policy byte: 0x{hexUpper b.toNat}")

/-- The touch policy of a byte. -/
def TouchPolicy.fromByte (b : UInt8) : Except PivError TouchPolicy :=
  if b = 0x00 then .ok .default
  else if b = 0x01 then .ok .never
  else if b = 0x02 then .ok .always
  else if b = 0x03 then .ok .cached
  else .error (.other s!"unknown YubicoPIV touch policy byte: 0x{hexUpper b.toNat}")

/-- The tag behind an identifier, past the flag that may stand there. -/
def skipCritical (nextTag : Nat) (reader : TlvReader) : Checked (Nat × TlvReader) :=
  if nextTag = 0x01 then do
    let (_, reader) ← reader.readValue
    reader.readTag
  else .ok (nextTag, reader)

/-- The two policy bytes of an extension, when it is the one. -/
def tryParsePolicyExtension (extensionBody : Bytes) : Checked (Option (UInt8 × UInt8)) := do
  let (oidTag, reader) ← (TlvReader.new extensionBody).readTag
  -- What does not start with an identifier is skipped.
  if oidTag ≠ 0x06 then .ok none
  else
    let (oid, reader) ← reader.readValue
    if oid ≠ YK_POLICY_OID_BODY then .ok none
    else
      let (nextTag, reader) ← reader.readTag
      let (nextTag, reader) ← skipCritical nextTag reader
      if nextTag ≠ 0x04 then
        failWith (.tlv ("YubicoPIV policy extension extnValue: expected OCTET STRING (0x04), got 0x" ++
          hexUpper nextTag))
      else
        let (extnValue, _) ← reader.readValue
        match extnValue with
        | [pin, touch] => .ok (some (pin, touch))
        | _ => failWith (.tlv
            s!"YubicoPIV policy extension extnValue is {extnValue.length} bytes, expected 2")

/-- The loop over the extensions. Entries that are no sequence are skipped. -/
def walkExtensions : Nat → TlvReader → Checked (UInt8 × UInt8)
  | 0, _ => .stopped
  | fuel + 1, reader =>
    if reader.hasRemaining then do
      let (tag, reader) ← reader.readTag
      let (value, reader) ← reader.readValue
      if tag ≠ 0x30 then walkExtensions fuel reader
      else
        match ← tryParsePolicyExtension value with
        | some policy => .ok policy
        | none => walkExtensions fuel reader
    else failWith (.tlv ("YubicoPIV policy extension (OID 1.3.6.1.4.1.41482.3.8) " ++
      "not present in attestation cert"))

/-- The policy in the extensions of a certificate. -/
def findPolicyInExtensions (extensionsWrapper : Bytes) : Checked (UInt8 × UInt8) := do
  let (tag, reader) ← (TlvReader.new extensionsWrapper).readTag
  if tag ≠ 0x30 then failWith (.tlv s!"expected Extensions SEQUENCE, got tag 0x{hexUpper tag}")
  else
    let (extSeq, _) ← reader.readValue
    walkExtensions (extSeq.length + 1) (TlvReader.new extSeq)

/-- The loop over the fields, up to the extensions. -/
def walkFields : Nat → TlvReader → Checked (UInt8 × UInt8)
  | 0, _ => .stopped
  | fuel + 1, reader =>
    if reader.hasRemaining then do
      let (tag, reader) ← reader.readTag
      let (value, reader) ← reader.readValue
      if tag = 0xA3 then findPolicyInExtensions value else walkFields fuel reader
    else failWith (.tlv "TBSCertificate has no extensions ([3] context tag)")

/-- The policy in a certificate. -/
def findPolicyBytes (certDer : Bytes) : Checked (UInt8 × UInt8) := do
  let (tag, reader) ← (TlvReader.new certDer).readTag
  if tag ≠ 0x30 then failWith (.tlv s!"expected outer SEQUENCE, got tag 0x{hexUpper tag}")
  else
    let (certBody, _) ← reader.readValue
    let (tag, reader) ← (TlvReader.new certBody).readTag
    if tag ≠ 0x30 then
      failWith (.tlv s!"expected TBSCertificate SEQUENCE, got tag 0x{hexUpper tag}")
    else
      let (tbs, _) ← reader.readValue
      walkFields (tbs.length + 1) (TlvReader.new tbs)

/-- The policy of the key that an attestation is about. -/
def parsePolicy (certDer : Bytes) : Checked (PinPolicy × TouchPolicy) := do
  let (pinByte, touchByte) ← findPolicyBytes certDer
  let pin ← Checked.ofExcept ((PinPolicy.fromByte pinByte).mapError PivError.text)
  let touch ← Checked.ofExcept ((TouchPolicy.fromByte touchByte).mapError PivError.text)
  .ok (pin, touch)

/-! ## Places and lists -/

namespace TlvReader

/-- What a reader has in front of it. -/
def At (r : TlvReader) (bytes : Bytes) : Prop := r.pos ≤ r.data.length ∧ r.data.drop r.pos = bytes

/-- What a read of a list is for a reader: the place is told by what is left. -/
def onto {α : Type} (r : TlvReader) : Except PivError (α × Bytes) → Checked (α × TlvReader)
  | .error e => failWith e
  | .ok (a, rest) => .ok (a, { r with pos := r.data.length - rest.length })

theorem at_new (data : Bytes) : (new data).At data := ⟨Nat.zero_le _, rfl⟩

variable {r : TlvReader} {bytes rest : Bytes}

theorem At.length (h : r.At bytes) : r.pos + bytes.length = r.data.length := by
  rw [← h.2, List.length_drop]
  exact Nat.add_sub_cancel' h.1

theorem At.moved (h : r.At (bytes ++ rest)) : At { r with pos := r.pos + bytes.length } rest := by
  have hlen := h.length
  rw [List.length_append] at hlen
  refine ⟨?_, ?_⟩
  · show r.pos + bytes.length ≤ r.data.length
    omega
  · show r.data.drop (r.pos + bytes.length) = rest
    rw [← List.drop_drop, h.2, List.drop_left]

theorem At.eq_onto {α : Type} (h : r.At (bytes ++ rest)) (a : α) :
    (.ok (a, { r with pos := r.pos + bytes.length }) : Checked _) = r.onto (.ok (a, rest)) := by
  have hlen := h.length
  rw [List.length_append] at hlen
  have hpos : r.pos + bytes.length = r.data.length - rest.length := by omega
  rw [onto, hpos]

theorem At.next {b : UInt8} (h : r.At (b :: rest)) :
    r.next = .ok (b, { r with pos := r.pos + 1 }) ∧ At { r with pos := r.pos + 1 } rest := by
  have hget : r.data[r.pos]? = some b := by
    rw [← List.head?_drop, h.2]
    rfl
  refine ⟨?_, At.moved (show r.At ([b] ++ rest) from h)⟩
  rw [TlvReader.next, Checked.get, hget]
  rfl

theorem At.nil_iff (h : r.At bytes) : r.data.length ≤ r.pos ↔ bytes = [] := by
  have hlen := h.length
  rw [← List.length_eq_zero_iff]
  omega

theorem readTagRest_eq {fuel tag : Nat} (h : r.At bytes) (hfuel : bytes.length < fuel) :
    readTagRest fuel tag r = r.onto (Piv.readTagRest tag bytes) := by
  induction bytes generalizing fuel tag r with
  | nil =>
    obtain ⟨fuel, rfl⟩ := Nat.exists_eq_succ_of_ne_zero (Nat.ne_of_gt hfuel)
    rw [readTagRest, if_pos (h.nil_iff.mpr rfl)]
    rfl
  | cons b bytes ih =>
    obtain ⟨fuel, rfl⟩ := Nat.exists_eq_succ_of_ne_zero (Nat.ne_of_gt (Nat.zero_lt_of_lt hfuel))
    obtain ⟨hnext, hat⟩ := h.next
    rw [readTagRest, if_neg (by rw [h.nil_iff]; exact List.cons_ne_nil _ _), hnext, Checked.ok_bind,
      Piv.readTagRest]
    dsimp only
    split
    · exact At.eq_onto (show r.At ([b] ++ bytes) from h) _
    · rw [ih hat (Nat.lt_of_succ_lt_succ hfuel)]
      rfl

theorem readTag_eq (h : r.At bytes) : r.readTag = r.onto (Piv.readTag bytes) := by
  cases bytes with
  | nil =>
    rw [readTag, if_pos (h.nil_iff.mpr rfl)]
    rfl
  | cons first bytes =>
    obtain ⟨hnext, hat⟩ := h.next
    rw [readTag, if_neg (by rw [h.nil_iff]; exact List.cons_ne_nil _ _), hnext, Checked.ok_bind,
      Piv.readTag]
    dsimp only
    split
    · have hlen := h.length
      rw [List.length_cons] at hlen
      rw [readTagRest_eq hat (by omega)]
      rfl
    · exact At.eq_onto (show r.At ([first] ++ bytes) from h) _

theorem readOctets_eq {octets : Bytes} (h : r.At (octets ++ rest)) (len : Nat) :
    readOctets octets.length len r =
      .ok (len * 256 ^ octets.length + ofBe octets, { r with pos := r.pos + octets.length }) := by
  induction octets generalizing r len with
  | nil => simp [readOctets, ofBe]
  | cons b octets ih =>
    obtain ⟨hnext, hat⟩ := At.next h
    rw [List.length_cons, readOctets, hnext, Checked.ok_bind]
    dsimp only
    rw [ih hat, ofBe_cons]
    have hlen : (len * 256 + b.toNat) * 256 ^ octets.length + ofBe octets =
        len * 256 ^ (octets.length + 1) + (b.toNat * 256 ^ octets.length + ofBe octets) := by
      rw [pow_succ]
      ring
    rw [hlen, Nat.add_assoc r.pos, Nat.add_comm 1]

theorem remaining_eq (h : r.At bytes) : r.remaining = .ok bytes.length := by
  have hlen := h.length
  have hleft : r.data.length - r.pos = bytes.length := by omega
  rw [remaining, if_pos h.1, hleft]

theorem readLength_eq (h : r.At bytes) : r.readLength = r.onto (Piv.readLength bytes) := by
  cases bytes with
  | nil =>
    rw [readLength, if_pos (h.nil_iff.mpr rfl)]
    rfl
  | cons first bytes =>
    obtain ⟨hnext, hat⟩ := h.next
    have hlen := hat.length
    rw [readLength, if_neg (by rw [h.nil_iff]; exact List.cons_ne_nil _ _), hnext, Checked.ok_bind,
      Piv.readLength]
    dsimp only at hlen ⊢
    split
    · exact At.eq_onto (show r.At ([first] ++ bytes) from h) _
    split
    · rfl
    generalize (first &&& 0x7F).toNat = count
    by_cases hcount : bytes.length < count
    · rw [if_pos (by omega), if_pos hcount, remaining_eq hat]
      rfl
    · rw [if_neg (by omega), if_neg hcount]
      have hsplit := List.take_append_drop count bytes
      have htake : (bytes.take count).length = count := List.length_take_of_le (by omega)
      have hat' := hat
      rw [← hsplit] at hat'
      have hread := readOctets_eq hat' 0
      rw [htake] at hread
      rw [hread, Nat.zero_mul, Nat.zero_add, onto]
      have hpos : r.pos + 1 + count = r.data.length - (bytes.drop count).length := by
        rw [List.length_drop]
        omega
      rw [hpos]

theorem readValue_eq (h : r.At bytes) : r.readValue = r.onto (Piv.readValue bytes) := by
  rw [readValue, Piv.readValue, readLength_eq h]
  rcases hread : Piv.readLength bytes with e | ⟨len, left⟩
  · rfl
  · obtain ⟨header, rfl, -⟩ := readLength_contained hread
    rw [← h.eq_onto, Checked.ok_bind, ok_bind]
    have hat := h.moved
    have hlen := hat.length
    dsimp only at hlen ⊢
    by_cases hlong : left.length < len
    · rw [if_pos (by omega), if_pos hlong, remaining_eq hat]
      rfl
    · have hsplit := List.take_append_drop len left
      have htake : (left.take len).length = len := List.length_take_of_le (by omega)
      have hslice : Checked.slice r.data (r.pos + header.length) (r.pos + header.length + len) =
          .ok (left.take len) := by
        rw [Checked.slice, if_pos (by omega), List.drop_take, Nat.add_sub_cancel_left, hat.2]
      have hpos : r.pos + header.length + len = r.data.length - (left.drop len).length := by
        rw [List.length_drop]
        omega
      rw [if_neg (by omega), if_neg hlong, hslice, Checked.ok_bind, onto, hpos]

/-- What a read of a list leaves is what the reader has in front of it afterwards. -/
theorem At.onto_at (h : r.At (bytes ++ rest)) : At { r with pos := r.data.length - rest.length } rest := by
  have hlen := h.length
  rw [List.length_append] at hlen
  have hpos : r.data.length - rest.length = r.pos + bytes.length := by omega
  rw [hpos]
  exact h.moved

end TlvReader

end Piggy.Piv
