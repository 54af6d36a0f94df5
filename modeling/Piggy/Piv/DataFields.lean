import Piggy.Piv.Apdu
import Piggy.Fibby.Requests

/-!
# What the virtual card reads of the host's commands

The host writes a command, the card reads its data field and the fields in it. What is read is
what was written as long as the data field has a length of two bytes; of a longer one the card
gets a part, and refuses it.
-/

namespace Piggy.Piv

open Piggy.Core Piggy.Box Piggy.Card Piggy.Fibby

/-! ## Data fields -/

/-- The data field of a long command: its length is kept modulo two bytes. -/
theorem apduBody_toBytes_long {a : Apdu} (hle : a.le = none) (h : 255 < a.data.length) :
    apduBody a.toBytes = if a.data.length % 2 ^ 16 = 0 then none
      else some (a.data.take (a.data.length % 2 ^ 16)) := by
  have hne : a.data ≠ [] := fun h' => by simp [h'] at h
  have hbytes : a.toBytes = a.cla :: a.ins :: a.p1 :: a.p2 :: 0x00 ::
      (toBe 2 a.data.length ++ a.data) := by
    rw [Apdu.toBytes, if_pos (.inl h), if_neg hne, hle]
    simp [toBe]
  have hlc : ofBe (((toBe 2 a.data.length ++ a.data).take 2)) = a.data.length % 2 ^ 16 := by
    rw [List.take_left' (length_toBe 2 _), ofBe_toBe]
    rfl
  have hmod : a.data.length % 2 ^ 16 ≤ a.data.length := Nat.mod_le _ _
  rw [hbytes, apduBody, if_neg (by simp), if_pos (by simp)]
  simp only [List.drop_succ_cons, List.drop_zero, hlc]
  rw [List.drop_left' (length_toBe 2 _)]
  congr 1
  simp only [List.length_cons, List.length_append, length_toBe, eq_iff_iff, or_iff_left_iff_imp]
  omega

/-- The card finds the data field that the host has written. -/
theorem apduBody_toBytes {a : Apdu} (hle : a.le = none) (h : a.data.length < 2 ^ 16) :
    apduBody a.toBytes = if a.data = [] then none else some a.data := by
  by_cases hne : a.data = []
  · have hbytes : a.toBytes = [a.cla, a.ins, a.p1, a.p2] := by
      rw [Apdu.toBytes, if_neg (by simp [hle, hne]), if_pos hne, hle]
      rfl
    rw [hbytes, if_pos hne]
    rfl
  · have hpos := List.length_pos_of_ne_nil hne
    rw [if_neg hne]
    by_cases hlong : 255 < a.data.length
    · rw [apduBody_toBytes_long hle hlong, Nat.mod_eq_of_lt h, if_neg (by omega), List.take_length]
    · have hbytes : a.toBytes = a.cla :: a.ins :: a.p1 :: a.p2 ::
          UInt8.ofNat a.data.length :: a.data := by
        rw [Apdu.toBytes, if_neg (by simp [hle]; omega), if_neg hne, hle]
        simp
      have hlc : (UInt8.ofNat a.data.length).toNat = a.data.length :=
        toNat_ofNat_byte (by omega)
      have hzero : UInt8.ofNat a.data.length ≠ 0x00 := fun h0 => by
        rw [h0] at hlc
        exact absurd hlc.symm (Nat.ne_of_gt hpos)
      rw [hbytes, apduBody, if_neg (by simp), if_neg (by simp [hzero])]
      simp only [List.getD_cons_succ, List.getD_cons_zero, hlc]
      rw [if_neg (by simp only [List.length_cons]; omega)]
      simp

/-! ## Tagged values -/

variable {value len : Bytes}

/-- The card finds a length of at most two bytes. -/
theorem berLen_written {n : Nat} (hlen : writeLength n = some len) (hlt : n < 0x100) (rest : Bytes) :
    berLen (len ++ rest) = some (len.length, n) := by
  rcases writeLength_cases hlen with ⟨hn, rfl⟩ | ⟨hlow, hn, rfl⟩ | ⟨hlow, -⟩ | ⟨hlow, -⟩
  · have hshort : UInt8.ofNat n < 0x80 := by
      rw [UInt8.lt_iff_toNat_lt, toNat_ofNat_byte hlt]
      exact hn
    rw [List.singleton_append, berLen, if_pos hshort, toNat_ofNat_byte hlt]
    rfl
  · rw [List.cons_append, List.singleton_append, berLen, if_neg (by decide), if_pos rfl]
    simp [toNat_ofNat_byte hlt]
  · omega
  · omega

/-- The card finds a value with such a length, and what is behind it. -/
theorem splitTlv_written (hlen : writeLength value.length = some len) (hlt : value.length < 0x100)
    (tag : UInt8) (rest : Bytes) :
    splitTlv (tag :: (len ++ (value ++ rest))) = some (tag, value, rest) := by
  have hheader : (tag :: len).length = 1 + len.length := by rw [List.length_cons, Nat.add_comm]
  have hvalue : (tag :: (len ++ (value ++ rest))).drop (1 + len.length) = value ++ rest :=
    List.drop_left' hheader
  have hrest : (tag :: (len ++ (value ++ rest))).drop (1 + len.length + value.length) = rest := by
    rw [← List.drop_drop, hvalue, List.drop_left' rfl]
  have hfits : ¬ (tag :: (len ++ (value ++ rest))).length < 1 + len.length + value.length := by
    rw [List.length_cons, List.length_append, List.length_append]
    omega
  rw [splitTlv, berLen_written hlen hlt]
  dsimp only
  rw [if_neg hfits, hvalue, hrest, List.take_left' rfl]

/-- The inside of a template that the host has written. -/
theorem template_written (hlen : writeLength value.length = some len) (hlt : value.length < 0x100)
    (tag : UInt8) : template tag (tag :: (len ++ value)) = some value := by
  have h := splitTlv_written hlen hlt tag []
  rw [List.append_nil] at h
  rw [template, h]
  exact if_pos rfl

/-- A value of fewer than 128 bytes has a length of one byte. -/
theorem writeLength_short {n : Nat} (h : n < 0x80) : writeLength n = some [UInt8.ofNat n] :=
  if_pos h

/-! ## Data objects -/

variable {tag : UInt32}

/-- The two fields of PUT DATA. -/
theorem putData_fields {apdu : Apdu} (h : Apdu.putData tag value = some apdu) :
    ∃ len, writeLength value.length = some len ∧ apdu = { Apdu.new 0x00 0xDB 0x3F 0xFF with
      data := 0x5C :: UInt8.ofNat (writeTag tag).length :: (writeTag tag ++ 0x53 :: (len ++ value)) } := by
  have htag := length_writeTag_le tag
  rw [Apdu.putData, writeTagValue, writeTagValue, writeLength_short (by omega)] at h
  cases hlen : writeLength value.length with
  | none =>
    rw [hlen] at h
    cases h
  | some len =>
    rw [hlen] at h
    refine ⟨len, rfl, ?_⟩
    rw [← Option.some.inj h]
    have hputTag : writeTag 0x5C = [0x5C] := rfl
    have hobject : writeTag 0x53 = [0x53] := rfl
    simp [hputTag, hobject]

theorem getData_eq (tag : UInt32) : Apdu.getData tag = some { Apdu.new 0x00 0xCB 0x3F 0xFF with
    data := 0x5C :: UInt8.ofNat (writeTag tag).length :: writeTag tag } := by
  have htag := length_writeTag_le tag
  have hputTag : writeTag 0x5C = [0x5C] := rfl
  rw [Apdu.getData, writeTagValue, writeLength_short (by omega)]
  simp [hputTag]

/-- The card finds a tag and what is behind it, as far as that goes. -/
theorem parse5cTagWithRest_written (tag : UInt32) (rest : Bytes) :
    parse5cTagWithRest (0x5C :: UInt8.ofNat (writeTag tag).length :: (writeTag tag ++ rest)) =
      some (writeTag tag, rest) := by
  have htag := length_writeTag_le tag
  have hpos := List.length_pos_of_ne_nil (writeTag_ne_nil tag)
  have hlen : (UInt8.ofNat (writeTag tag).length).toNat = (writeTag tag).length :=
    toNat_ofNat_byte (by omega)
  have hzero : UInt8.ofNat (writeTag tag).length ≠ 0 := fun h0 => by
    rw [h0] at hlen
    exact absurd hlen.symm (Nat.ne_of_gt hpos)
  rw [parse5cTagWithRest, hlen, if_neg (by simp [hzero]), List.take_left' rfl, List.drop_left' rfl]

theorem parse5cTag_written (tag : UInt32) :
    parse5cTag (0x5C :: UInt8.ofNat (writeTag tag).length :: writeTag tag) = some (writeTag tag) := by
  have h := parse5cTagWithRest_written tag []
  rw [List.append_nil] at h
  rw [parse5cTag, h]
  rfl

/-- Of a part of a tag and what is behind it the card finds nothing, or the tag and a part of the
rest. -/
theorem parse5cTagWithRest_take (tag : UInt32) (rest : Bytes) (n : Nat) :
    parse5cTagWithRest ((0x5C :: UInt8.ofNat (writeTag tag).length :: (writeTag tag ++ rest)).take n) =
      none ∨
    ∃ k, n = 2 + (writeTag tag).length + k ∧
      parse5cTagWithRest
        ((0x5C :: UInt8.ofNat (writeTag tag).length :: (writeTag tag ++ rest)).take n) =
        some (writeTag tag, rest.take k) := by
  have htag := length_writeTag_le tag
  have hlen : (UInt8.ofNat (writeTag tag).length).toNat = (writeTag tag).length :=
    toNat_ofNat_byte (by omega)
  match n with
  | 0 => exact .inl rfl
  | 1 => exact .inl (by simp [parse5cTagWithRest])
  | n + 2 =>
    rw [List.take_succ_cons, List.take_succ_cons]
    by_cases hn : n < (writeTag tag).length
    · left
      rw [parse5cTagWithRest, hlen, if_pos]
      right
      rw [List.length_take, List.length_append]
      omega
    · right
      obtain ⟨k, rfl⟩ := Nat.exists_eq_add_of_le (Nat.le_of_not_lt hn)
      refine ⟨k, by omega, ?_⟩
      rw [List.take_length_add_append]
      exact parse5cTagWithRest_written tag (rest.take k)

/-- What an object says about its length. -/
def objectHeader (firstLen : UInt8) (rest : Bytes) : Option (Nat × Nat) :=
  if firstLen < 0x80 then some (2, firstLen.toNat)
  else if firstLen = 0x81 then rest.head?.map fun len => (3, len.toNat)
  else if firstLen = 0x82 then
    match rest with
    | high :: low :: _ => some (4, high.toNat * 256 + low.toNat)
    | _ => none
  else none

theorem split53Tlv_cons (firstLen : UInt8) (rest : Bytes) :
    split53Tlv (0x53 :: firstLen :: rest) =
      match objectHeader firstLen rest with
      | none => none
      | some (headerLen, payloadLen) =>
        if (0x53 :: firstLen :: rest).length < headerLen + payloadLen then none
        else some ((0x53 :: firstLen :: rest).take (headerLen + payloadLen),
          (0x53 :: firstLen :: rest).drop (headerLen + payloadLen)) := rfl

/-- The first bytes of an object, when its length is read off the bytes behind the first two. -/
theorem split53Tlv_take {firstLen : UInt8} {more : Bytes} (hshort : value.length < 0x10000)
    (hcut : ∀ k < more.length, objectHeader firstLen ((more ++ value).take k) = none)
    (hheader : ∀ k, more.length ≤ k →
      objectHeader firstLen ((more ++ value).take k) = some (2 + more.length, value.length)) (k : Nat) :
    split53Tlv ((0x53 :: (firstLen :: more ++ value)).take k) =
      if (0x53 :: (firstLen :: more ++ value)).length ≤ k ∧ value.length < 0x10000 then
        some (0x53 :: (firstLen :: more ++ value), [])
      else none := by
  have hall : (0x53 :: firstLen :: (more ++ value)).length = 2 + more.length + value.length := by
    simp only [List.length_cons, List.length_append]
    omega
  have htotal : (more ++ value).length = more.length + value.length := List.length_append
  rw [List.cons_append]
  match k with
  | 0 => simp [split53Tlv]
  | 1 => simp [split53Tlv]
  | k + 2 =>
    rw [List.take_succ_cons, List.take_succ_cons, split53Tlv_cons]
    by_cases hcutoff : k < more.length
    · rw [hcut k hcutoff, if_neg]
      rintro ⟨hk, -⟩
      omega
    rw [hheader k (Nat.le_of_not_lt hcutoff)]
    dsimp only
    by_cases hk : (more ++ value).length ≤ k
    · rw [List.take_of_length_le hk, if_neg (by omega), if_pos ⟨by omega, hshort⟩,
        List.take_of_length_le hall.le, List.drop_of_length_le hall.le]
    · have htake : ((more ++ value).take k).length = k := by
        rw [List.length_take]
        omega
      rw [if_pos (by simp only [List.length_cons, htake]; omega), if_neg]
      rintro ⟨hk', -⟩
      omega

/-- What the card finds of an object of which it has only the first bytes: the object, if it is
all there and its length has at most two bytes. -/
theorem split53Tlv_written (hlen : writeLength value.length = some len) (k : Nat) :
    split53Tlv ((0x53 :: (len ++ value)).take k) =
      if (0x53 :: (len ++ value)).length ≤ k ∧ value.length < 0x10000 then
        some (0x53 :: (len ++ value), [])
      else none := by
  rcases writeLength_cases hlen with ⟨hn, rfl⟩ | ⟨hlow, hn, rfl⟩ | ⟨hlow, hn, rfl⟩ | ⟨hlow, hn, rfl⟩
  · have hshort : UInt8.ofNat value.length < 0x80 := by
      rw [UInt8.lt_iff_toNat_lt, toNat_ofNat_byte (by omega)]
      exact hn
    apply split53Tlv_take (by omega)
    · intro k hk
      exact absurd hk (Nat.not_lt_zero k)
    · intro k _
      rw [objectHeader.eq_def, if_pos hshort, toNat_ofNat_byte (by omega)]
      rfl
  · apply split53Tlv_take (by omega)
    · intro k hk
      obtain rfl : k = 0 := Nat.lt_one_iff.mp hk
      rfl
    · intro k hk
      obtain ⟨k, rfl⟩ : ∃ j, k = j + 1 := ⟨k - 1, by simp at hk; omega⟩
      simp [objectHeader, toNat_ofNat_byte hn]
  · apply split53Tlv_take (by omega)
    · intro k hk
      have hshort : k < 2 := hk
      obtain rfl | rfl : k = 0 ∨ k = 1 := by omega
      · rfl
      · rfl
    · intro k hk
      obtain ⟨k, rfl⟩ : ∃ j, k = j + 2 := ⟨k - 2, by simp at hk; omega⟩
      simp [objectHeader, toBe]
      omega
  · rw [if_neg (by omega)]
    rcases k with _ | _ | k
    · rfl
    · rfl
    · rfl

/-! ## Keys -/

/-- The request of GENERAL AUTHENTICATE. -/
theorem generalAuthenticateApdu_eq (alg slot : UInt8) {dataTag : UInt8} {data : Bytes}
    (hdataTag : writeTag dataTag.toUInt32 = [dataTag]) (hlt : data.length < 0x7C) :
    generalAuthenticateApdu alg slot dataTag data =
      some (Apdu.generalAuthenticate alg slot (0x7C :: UInt8.ofNat (4 + data.length) ::
        0x82 :: 0x00 :: dataTag :: UInt8.ofNat data.length :: data)) := by
  have hresponse : writeTagValue 0x82 [] = some [0x82, 0x00] := rfl
  have hvalue : writeTagValue dataTag.toUInt32 data =
      some (dataTag :: UInt8.ofNat data.length :: data) := by
    rw [writeTagValue, writeLength_short (by omega), hdataTag]
    rfl
  have hlength : ([0x82, 0x00] ++ dataTag :: UInt8.ofNat data.length :: data : Bytes).length =
      4 + data.length := by
    simp only [List.length_append, List.length_cons, List.length_nil]
    omega
  have houter : writeTagValue 0x7C ([0x82, 0x00] ++ dataTag :: UInt8.ofNat data.length :: data) =
      some (0x7C :: UInt8.ofNat (4 + data.length) ::
        0x82 :: 0x00 :: dataTag :: UInt8.ofNat data.length :: data) := by
    rw [writeTagValue, hlength, writeLength_short (by omega)]
    rfl
  rw [generalAuthenticateApdu, hresponse, hvalue]
  simp only [Option.bind_eq_bind, Option.bind_some, houter]

/-- What the card finds in a request: the value that the host has put there, if it looks for its
tag. -/
theorem parseGaRequest_written {tag dataTag : UInt8} (accept : Bytes → Bool) {data : Bytes}
    (hlt : data.length < 0x7C) (htag : tag ≠ 0x82) :
    parseGaRequest tag accept (0x7C :: UInt8.ofNat (4 + data.length) ::
      0x82 :: 0x00 :: dataTag :: UInt8.ofNat data.length :: data) =
      if dataTag = tag ∧ accept data then some data else none := by
  have hinner : (0x82 :: 0x00 :: dataTag :: UInt8.ofNat data.length :: data).length =
      4 + data.length := by
    simp only [List.length_cons]
    omega
  have htemplate := @template_written (0x82 :: 0x00 :: dataTag :: UInt8.ofNat data.length :: data)
    _ (writeLength_short (by omega)) (by omega) 0x7C
  rw [hinner, List.singleton_append] at htemplate
  have hempty : splitTlv (0x82 :: 0x00 :: dataTag :: UInt8.ofNat data.length :: data) =
      some (0x82, [], dataTag :: UInt8.ofNat data.length :: data) :=
    @splitTlv_written [] _ (writeLength_short (by decide)) (by decide) 0x82 _
  have hvalue : splitTlv (dataTag :: UInt8.ofNat data.length :: data) = some (dataTag, data, []) := by
    have h := @splitTlv_written data _ (writeLength_short (by omega)) (by omega) dataTag []
    rwa [List.append_nil] at h
  have hfind : findTlv tag (4 + data.length)
      (0x82 :: 0x00 :: dataTag :: UInt8.ofNat data.length :: data) =
      if dataTag = tag then some data else none := by
    rw [Nat.add_comm, findTlv, hempty]
    dsimp only
    rw [if_neg (Ne.symm htag), findTlv, hvalue]
    dsimp only
    split
    · rfl
    · rfl
  rw [parseGaRequest, htemplate]
  dsimp only
  rw [hinner, hfind]
  by_cases h : dataTag = tag
  · rw [if_pos h, Option.filter_some]
    simp [h]
  · rw [if_neg h, if_neg (fun h' => h h'.1)]
    rfl

/-- The request of GENERATE. -/
theorem generateAsym_fields (slot keyAlg : UInt8) (pinPolicy touchPolicy : Option UInt8) :
    ∃ body, Apdu.generateAsym slot keyAlg pinPolicy touchPolicy =
      some { Apdu.new 0x00 0x47 0x00 slot with data := body } ∧ body ≠ [] ∧
      parseGenerateRequest body = some ⟨keyAlg, pinPolicy, touchPolicy⟩ := by
  cases pinPolicy with
  | none =>
    cases touchPolicy with
    | none => exact ⟨_, rfl, nofun, rfl⟩
    | some t => exact ⟨_, rfl, nofun, rfl⟩
  | some p =>
    cases touchPolicy with
    | none => exact ⟨_, rfl, nofun, rfl⟩
    | some t => exact ⟨_, rfl, nofun, rfl⟩

theorem ofBe_trimScalar (scalar : Bytes) : ofBe (trimScalar scalar) = ofBe scalar := by
  induction scalar with
  | nil => rfl
  | cons b rest ih =>
    rw [trimScalar]
    split
    · next h =>
      rw [ih, ofBe_cons, h.2]
      simp
    · rfl

/-- A trimmed scalar is longer than 32 bytes only if its number is. -/
theorem length_trimScalar_le (scalar : Bytes) :
    (trimScalar scalar).length ≤ 32 ↔ ofBe scalar < 256 ^ 32 := by
  induction scalar with
  | nil => decide
  | cons b rest ih =>
    rw [trimScalar]
    split
    · next h =>
      rw [ih, ofBe_cons, h.2]
      simp
    · next h =>
      constructor
      · intro hle
        exact (ofBe_lt (b :: rest)).trans_le (Nat.pow_le_pow_right (by decide) hle)
      · intro hlt
        by_contra hlong
        rw [List.length_cons] at hlong
        have hb : b ≠ 0x00 := fun hb => h ⟨by omega, hb⟩
        have hpos : 1 ≤ b.toNat := Nat.pos_of_ne_zero fun h0 => hb (UInt8.toNat_inj.mp h0)
        have hpow : 256 ^ 32 ≤ 256 ^ rest.length := Nat.pow_le_pow_right (by decide) (by omega)
        rw [ofBe_cons] at hlt
        have hmul := Nat.mul_le_mul_right (256 ^ rest.length) hpos
        omega

/-- Zeros in front of a number make it as long as one likes. -/
theorem toBe_ofBe_of_le {width : Nat} {bs : Bytes} (h : bs.length ≤ width) :
    toBe width (ofBe bs) = List.replicate (width - bs.length) 0 ++ bs := by
  have hzeros : ∀ n, ofBe (List.replicate n 0 ++ bs) = ofBe bs := by
    intro n
    induction n with
    | zero => rfl
    | succ n ih =>
      rw [List.replicate_succ, List.cons_append, ofBe_cons, ih]
      simp
  rw [← hzeros (width - bs.length)]
  apply toBe_ofBe
  simp
  omega

/-- The card reads the number of the scalar that the host has written, if it fits. -/
theorem parseImportRequest_written {scalar : Bytes} (h : scalar.length < 0x100) :
    parseImportRequest (0x06 :: UInt8.ofNat scalar.length :: scalar) =
      if ofBe scalar < 256 ^ 32 then some ⟨toBe 32 (ofBe scalar), none, none⟩ else none := by
  have hlen : (UInt8.ofNat scalar.length).toNat = scalar.length := toNat_ofNat_byte h
  rw [parseImportRequest, hlen, if_neg (Nat.lt_irrefl _), List.take_length, List.drop_length]
  dsimp only
  by_cases hfits : ofBe scalar < 256 ^ 32
  · have hle := (length_trimScalar_le scalar).mpr hfits
    rw [if_neg (Nat.not_lt.mpr hle), if_pos hfits, ← ofBe_trimScalar, toBe_ofBe_of_le hle]
    rfl
  · rw [if_neg hfits, if_pos]
    exact Nat.lt_of_not_le fun hle => hfits ((length_trimScalar_le scalar).mp hle)

end Piggy.Piv
