import Piggy.Card.Session

/-!
# Tagged values of the host

What a card is sent and answers is made of tags, lengths and values. The writer uses as few
length bytes as it can, up to three; the reader takes any of these lengths. A reader that comes
behind the writer finds the value and what follows it.
-/

namespace Piggy.Piv

open Piggy.Core Piggy.Box Piggy.Card

/-! ## Reading -/

/-- The rest of a tag of several bytes. -/
def readTagRest (tag : Nat) : Bytes → Except PivError (Nat × Bytes)
  | [] => .error (.tlv "multi-byte tag continued past end of data")
  | b :: rest =>
    let tag := (tag * 256 + b.toNat) % 2 ^ 32
    if b &&& 0x80 = 0 then .ok (tag, rest) else readTagRest tag rest

/-- The tag at the front. -/
def readTag : Bytes → Except PivError (Nat × Bytes)
  | [] => .error (.tlv "read_tag called past end of data")
  | first :: rest => if first &&& 0x1F = 0x1F then readTagRest first.toNat rest else .ok (first.toNat, rest)

/-- The length at the front. -/
def readLength : Bytes → Except PivError (Nat × Bytes)
  | [] => .error (.tlv "read_length called past end of data")
  | first :: rest =>
    if first &&& 0x80 = 0 then .ok (first.toNat, rest)
    else
      let numBytes := (first &&& 0x7F).toNat
      if numBytes = 0 ∨ 3 < numBytes then .error (.tlv s!"invalid length indicator: {numBytes} octets")
      else if rest.length < numBytes then
        .error (.tlv s!"length bytes ({numBytes}) exceed remaining data ({rest.length})")
      else .ok (ofBe (rest.take numBytes), rest.drop numBytes)

/-- The value at the front, its length before it. -/
def readValue (data : Bytes) : Except PivError (Bytes × Bytes) := do
  let (len, rest) ← readLength data
  if rest.length < len then
    .error (.tlv s!"value length {len} exceeds remaining data {rest.length}")
  else .ok (rest.take len, rest.drop len)

/-- A tag as errors print it. -/
def debugTag (tag : Nat) : String := "0x" ++ (String.ofList (Nat.toDigits 16 tag)).toUpper

/-! ## The answer to GENERAL AUTHENTICATE -/

/-- The signature or the shared secret in an answer. -/
def parseGaResponse (resp : Bytes) : Except PivError Bytes := do
  let (outerTag, rest) ← readTag resp
  if outerTag ≠ 0x7C then
    .error (.tlv s!"expected GA response tag 0x7C, got {debugTag outerTag}")
  else
    let (inner, _) ← readValue rest
    let (respTag, rest) ← readTag inner
    if respTag ≠ 0x82 then
      .error (.tlv s!"expected GA response tag 0x82, got {debugTag respTag}")
    else
      let (payload, _) ← readValue rest
      .ok payload

/-- A length has three bytes at most. -/
theorem readLength_lt {data rest : Bytes} {len : Nat} (h : readLength data = .ok (len, rest)) :
    len < 2 ^ 24 := by
  rcases data with _ | ⟨first, data⟩
  · cases h
  rw [readLength] at h
  split at h
  · cases h
    have hfirst := first.toNat_lt
    omega
  dsimp only at h
  split at h
  · cases h
  next hbytes =>
  split at h
  · cases h
  · cases h
    have hshort := ofBe_lt (data.take (first &&& 0x7F).toNat)
    have htake := List.length_take_le (first &&& 0x7F).toNat data
    have hpow : 256 ^ (data.take (first &&& 0x7F).toNat).length ≤ 256 ^ 3 :=
      Nat.pow_le_pow_right (by decide) (by omega)
    omega

theorem length_readValue {data value rest : Bytes} (h : readValue data = .ok (value, rest)) :
    value.length < 2 ^ 24 := by
  rw [readValue, bind_ok] at h
  obtain ⟨⟨len, behind⟩, hlen, h⟩ := h
  dsimp only at h
  split at h
  · cases h
  · cases h
    exact (List.length_take_le len behind).trans_lt (readLength_lt hlen)

theorem length_parseGaResponse {resp payload : Bytes} (h : parseGaResponse resp = .ok payload) :
    payload.length < 2 ^ 24 := by
  simp only [parseGaResponse, bind_ok] at h
  obtain ⟨⟨outerTag, rest⟩, -, h⟩ := h
  dsimp only at h
  split at h
  · cases h
  simp only [bind_ok] at h
  obtain ⟨⟨inner, back⟩, -, ⟨respTag, rest'⟩, -, h⟩ := h
  dsimp only at h
  split at h
  · cases h
  simp only [bind_ok] at h
  obtain ⟨⟨value, back'⟩, hvalue, h⟩ := h
  cases h
  exact length_readValue hvalue

/-! ## The certificate of a slot -/

/-- The certificate among the elements of an object: the last one of its tag. -/
def findCert (cert : Option Bytes) : Nat → Bytes → Except PivError (Option Bytes)
  | 0, _ => .ok cert
  | fuel + 1, data =>
    if data = [] then .ok cert
    else do
      let (tag, rest) ← readTag data
      let (value, rest) ← readValue rest
      findCert (if tag = 0x70 then some value else cert) fuel rest

/-- The object with the certificate of a slot. -/
def slotToCertTag (slot : UInt8) : Option Nat :=
  if slot = 0x9A then some 0x5FC105
  else if slot = 0x9C then some 0x5FC10A
  else if slot = 0x9D then some 0x5FC10B
  else if slot = 0x9E then some 0x5FC101
  else if 0x82 ≤ slot ∧ slot ≤ 0x95 then some (0x5FC10D + (slot - 0x82).toNat)
  else if slot = 0xF9 then some 0x5FFF01
  else none

/-- What the object of a slot says. A card that refuses to give the object has nothing there. -/
def slotCert (slot : UInt8) (answer : Except PivError (Bytes × StatusWord)) : Except PivError Bytes :=
  match answer with
  | .error e => .error e
  | .ok (data, sw) =>
    if !sw.isSuccess then .error (.slotEmpty slot)
    else do
      let (outerTag, rest) ← readTag data
      if outerTag ≠ 0x53 then .error (.tlv s!"expected cert outer tag 0x53, got {debugTag outerTag}")
      else
        let (inner, _) ← readValue rest
        let cert ← findCert none inner.length inner
        match cert with
        | none => .error (.slotEmpty slot)
        | some cert => .ok cert

/-! ## Writing -/

/-- A tag as big-endian bytes, without the zeros in front. -/
def writeTag (tag : UInt32) : Bytes :=
  if tag = 0 then [0] else (toBe 4 tag.toNat).dropWhile (· = 0)

/-- A length, up to three bytes of it. The program stops at a longer one. -/
def writeLength (len : Nat) : Option Bytes :=
  if len < 0x80 then some [UInt8.ofNat len]
  else if len < 0x100 then some [0x81, UInt8.ofNat len]
  else if len < 0x10000 then some (0x82 :: toBe 2 len)
  else if len < 0x1000000 then some (0x83 :: toBe 3 len)
  else none

/-- A value under a tag. -/
def writeTagValue (tag : UInt32) (value : Bytes) : Option Bytes :=
  (writeLength value.length).map fun len => writeTag tag ++ len ++ value

/-- Zeros in front add nothing to a number. -/
theorem ofBe_dropWhile_zero (bs : Bytes) : ofBe (bs.dropWhile (· = 0)) = ofBe bs := by
  induction bs with
  | nil => rfl
  | cons b bs ih =>
    by_cases hb : b = 0
    · rw [List.dropWhile_cons_of_pos (by simpa using hb), ih, ofBe_cons, hb]
      simp
    · rw [List.dropWhile_cons_of_neg (by simpa using hb)]

/-- The bytes of a tag spell it. -/
theorem ofBe_writeTag (tag : UInt32) : ofBe (writeTag tag) = tag.toNat := by
  rw [writeTag]
  split
  · next h =>
    rw [h]
    rfl
  · rw [ofBe_dropWhile_zero, ofBe_toBe]
    exact Nat.mod_eq_of_lt tag.toNat_lt

theorem writeTag_ne_nil (tag : UInt32) : writeTag tag ≠ [] := by
  intro h
  have htag := ofBe_writeTag tag
  rw [h] at htag
  obtain rfl : tag = 0 := UInt32.toNat_inj.mp htag.symm
  cases h

theorem length_writeTag_le (tag : UInt32) : (writeTag tag).length ≤ 4 := by
  rw [writeTag]
  split
  · decide
  · exact (List.dropWhile_sublist _).length_le.trans (length_toBe 4 _).le

/-- The forms of a length. -/
theorem writeLength_cases {n : Nat} {len : Bytes} (h : writeLength n = some len) :
    (n < 0x80 ∧ len = [UInt8.ofNat n]) ∨
    (0x80 ≤ n ∧ n < 0x100 ∧ len = [0x81, UInt8.ofNat n]) ∨
    (0x100 ≤ n ∧ n < 0x10000 ∧ len = 0x82 :: toBe 2 n) ∨
    (0x10000 ≤ n ∧ n < 0x1000000 ∧ len = 0x83 :: toBe 3 n) := by
  unfold writeLength at h
  split at h
  · next hn => exact .inl ⟨hn, (Option.some.inj h).symm⟩
  split at h
  · next hlow hn => exact .inr (.inl ⟨Nat.le_of_not_lt hlow, hn, (Option.some.inj h).symm⟩)
  split at h
  · next hlow hn => exact .inr (.inr (.inl ⟨Nat.le_of_not_lt hlow, hn, (Option.some.inj h).symm⟩))
  split at h
  · next hlow hn => exact .inr (.inr (.inr ⟨Nat.le_of_not_lt hlow, hn, (Option.some.inj h).symm⟩))
  · cases h

theorem toNat_ofNat_byte {n : Nat} (h : n < 0x100) : (UInt8.ofNat n).toNat = n :=
  UInt8.toNat_ofNat_of_lt' h

theorem and_0x80_of_lt {n : Nat} (h : n < 0x80) : UInt8.ofNat n &&& 0x80 = 0 :=
  (by decide : ∀ n < 0x80, UInt8.ofNat n &&& 0x80 = 0) n h

/-- A length that says how many bytes follow it. -/
theorem readLength_long {n width : Nat} {first : UInt8} (hfirst : first &&& 0x80 ≠ 0)
    (hwidth : (first &&& 0x7F).toNat = width) (hpos : 0 < width) (hle : width ≤ 3)
    (hn : n < 256 ^ width) (rest : Bytes) :
    readLength (first :: (toBe width n ++ rest)) = .ok (n, rest) := by
  have hshort : ¬ (toBe width n ++ rest).length < width := by simp
  rw [readLength, if_neg hfirst]
  simp only [hwidth]
  rw [if_neg (by omega), if_neg hshort, List.take_left' (length_toBe width n),
    List.drop_left' (length_toBe width n), ofBe_toBe, Nat.mod_eq_of_lt hn]

/-- The reader finds the length that was written. -/
theorem readLength_writeLength {n : Nat} {len : Bytes} (h : writeLength n = some len)
    (rest : Bytes) : readLength (len ++ rest) = .ok (n, rest) := by
  rcases writeLength_cases h with ⟨hn, rfl⟩ | ⟨-, hn, rfl⟩ | ⟨-, hn, rfl⟩ | ⟨-, hn, rfl⟩
  · rw [List.singleton_append, readLength, if_pos (and_0x80_of_lt hn),
      toNat_ofNat_byte (by omega)]
  · have hone : ([0x81, UInt8.ofNat n] : Bytes) = 0x81 :: toBe 1 n := by simp [toBe]
    rw [hone, List.cons_append]
    exact readLength_long (by decide) (by decide) (by decide) (by decide) (by omega) rest
  · exact readLength_long (by decide) (by decide) (by decide) (by decide) (by omega) rest
  · exact readLength_long (by decide) (by decide) (by decide) (by decide) (by omega) rest

/-- The reader finds the value that was written, and stops behind it. -/
theorem readValue_writeLength {value len : Bytes} (h : writeLength value.length = some len)
    (rest : Bytes) : readValue (len ++ (value ++ rest)) = .ok (value, rest) := by
  rw [readValue, readLength_writeLength h, ok_bind]
  simp

end Piggy.Piv
