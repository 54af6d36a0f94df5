import Piggy.Piv.Tlv

/-!
# What the tagged values of the host carry

What the writer wrote is read back, however deep it is nested, and no read leaves the bytes that
it was given. A tag is kept in 32 bits: of a longer one the last four bytes are left, so that
tags which end alike are taken for one another.
-/

namespace Piggy.Piv

open Piggy.Core Piggy.Box Piggy.Card

/-! ## Tags -/

/-- The bytes of a tag: one byte whose lower five bits are not all set, or several, of which all
but the first and the last have the highest bit set. -/
inductive WellFormed : Bytes → Prop where
  | single {b : UInt8} (h : b &&& 0x1F ≠ 0x1F) : WellFormed [b]
  | several {first last : UInt8} {middle : Bytes} (hfirst : first &&& 0x1F = 0x1F)
      (hmiddle : ∀ b ∈ middle, b &&& 0x80 ≠ 0) (hlast : last &&& 0x80 = 0) :
      WellFormed (first :: (middle ++ [last]))

/-- The last four bytes. -/
def lastFour (t : Bytes) : Bytes := t.drop (t.length - 4)

/-- Two tags that the reader takes for one another. -/
def ReadEqual (t t' : Bytes) : Prop :=
  ∃ tag rest rest', readTag (t ++ rest) = .ok (tag, rest) ∧ readTag (t' ++ rest') = .ok (tag, rest')

/-- The bytes of a tag behind the first are taken in one by one. -/
theorem readTagRest_several {middle : Bytes} (hmiddle : ∀ b ∈ middle, b &&& 0x80 ≠ 0) {last : UInt8}
    (hlast : last &&& 0x80 = 0) (tag : Nat) (rest : Bytes) :
    readTagRest tag (middle ++ last :: rest) =
      .ok ((tag * 256 ^ (middle ++ [last]).length + ofBe (middle ++ [last])) % 2 ^ 32, rest) := by
  induction middle generalizing tag with
  | nil =>
    rw [List.nil_append, readTagRest, if_pos hlast]
    simp [ofBe]
  | cons b middle ih =>
    have hb := hmiddle b List.mem_cons_self
    rw [List.cons_append, readTagRest, if_neg hb,
      ih fun x hx => hmiddle x (List.mem_cons_of_mem _ hx), List.cons_append, ofBe_cons,
      List.length_cons]
    have hmod : ((tag * 256 + b.toNat) % 2 ^ 32 * 256 ^ (middle ++ [last]).length +
          ofBe (middle ++ [last])) % 2 ^ 32 =
        (tag * 256 ^ ((middle ++ [last]).length + 1) +
          (b.toNat * 256 ^ (middle ++ [last]).length + ofBe (middle ++ [last]))) % 2 ^ 32 := by
      rw [Nat.add_mod, Nat.mod_mul_mod, ← Nat.add_mod]
      congr 1
      ring
    rw [hmod]

/-- A tag is read as its number modulo `2 ^ 32`. -/
theorem readTag_append {t : Bytes} (h : WellFormed t) (rest : Bytes) :
    readTag (t ++ rest) = .ok (ofBe t % 2 ^ 32, rest) := by
  cases h with
  | @single b h =>
    rw [List.singleton_append, readTag, if_neg h]
    simp [ofBe]
  | several hfirst hmiddle hlast =>
    rw [List.cons_append, List.append_assoc, List.singleton_append, readTag, if_pos hfirst,
      readTagRest_several hmiddle hlast, ofBe_cons]

/-- Bytes without a zero in front that is not needed. -/
def Minimal (bs : Bytes) : Prop := bs = [0] ∨ ∃ b rest, bs = b :: rest ∧ b ≠ 0

/-- The bytes of a number that the writer leaves are the only minimal ones. -/
theorem writeTag_ofBe {bs : Bytes} (hlength : bs.length ≤ 4) (hminimal : Minimal bs) :
    writeTag (UInt32.ofNat (ofBe bs)) = bs := by
  have hlt : ofBe bs < 2 ^ 32 :=
    (ofBe_lt bs).trans_le (Nat.pow_le_pow_right (by decide : 0 < 256) hlength)
  have hnumber : (UInt32.ofNat (ofBe bs)).toNat = ofBe bs := UInt32.toNat_ofNat_of_lt' hlt
  rcases hminimal with rfl | ⟨b, rest, rfl, hb⟩
  · rfl
  · have hpositive : 0 < ofBe (b :: rest) := by
      have hbpos : 0 < b.toNat := Nat.pos_of_ne_zero fun h => hb (UInt8.toNat_inj.mp h)
      have hpow : 0 < b.toNat * 256 ^ rest.length := Nat.mul_pos hbpos (Nat.pow_pos (by decide))
      rw [ofBe_cons]
      omega
    have hne : UInt32.ofNat (ofBe (b :: rest)) ≠ 0 := by
      intro hzero
      rw [hzero] at hnumber
      exact absurd hnumber.symm hpositive.ne'
    have hwidth : (List.replicate (4 - (b :: rest).length) 0 ++ b :: rest).length = 4 := by
      rw [List.length_append, List.length_replicate]
      omega
    rw [writeTag, if_neg hne, hnumber, ← ofBe_replicate_zero (4 - (b :: rest).length),
      toBe_ofBe hwidth, List.dropWhile_append_of_pos (by simp)]
    exact List.dropWhile_cons_of_neg (by simpa using hb)

theorem ne_zero_of_and {b mask : UInt8} (h : b &&& mask ≠ 0) : b ≠ 0 := by
  rintro rfl
  exact h (by simp)

theorem ne_zero_of_first {b : UInt8} (h : b &&& 0x1F = 0x1F) : b ≠ 0 :=
  ne_zero_of_and (by rw [h]; decide)

/-- What is left of a tag is minimal: behind the first byte there is none that is zero but the
last. -/
theorem minimal_lastFour {t : Bytes} (h : WellFormed t) : Minimal (lastFour t) := by
  cases h with
  | @single b h =>
    by_cases hb : b = 0
    · subst hb
      exact .inl rfl
    · exact .inr ⟨b, [], rfl, hb⟩
  | @several first last middle hfirst hmiddle hlast =>
    rw [lastFour]
    by_cases hlong : middle.length ≤ 2
    · have hall : (first :: (middle ++ [last])).length - 4 = 0 := by
        simp only [List.length_cons, List.length_append, List.length_nil]
        omega
      rw [hall]
      exact .inr ⟨first, middle ++ [last], rfl, ne_zero_of_first hfirst⟩
    · obtain ⟨k, hk⟩ : ∃ k, (first :: (middle ++ [last])).length - 4 = k + 1 ∧ k < middle.length := by
        refine ⟨middle.length - 3, ?_, by omega⟩
        simp only [List.length_cons, List.length_append, List.length_nil]
        omega
      rw [hk.1, List.drop_succ_cons, List.drop_append_of_le_length hk.2.le,
        List.drop_eq_getElem_cons hk.2]
      exact .inr ⟨_, _, rfl, ne_zero_of_and (hmiddle _ (List.getElem_mem hk.2))⟩

theorem length_lastFour (t : Bytes) : (lastFour t).length ≤ 4 := by
  rw [lastFour, List.length_drop]
  omega

theorem lastFour_of_short {t : Bytes} (h : t.length ≤ 4) : lastFour t = t := by
  rw [lastFour, Nat.sub_eq_zero_of_le h, List.drop_zero]

/-- Only the last four bytes of a tag are left of it. -/
theorem ofBe_mod (t : Bytes) : ofBe t % 2 ^ 32 = ofBe (lastFour t) := by
  have hlt : ofBe (lastFour t) < 2 ^ 32 :=
    (ofBe_lt _).trans_le (Nat.pow_le_pow_right (by decide : 0 < 256) (length_lastFour t))
  by_cases hshort : t.length ≤ 4
  · rw [lastFour_of_short hshort] at hlt ⊢
    exact Nat.mod_eq_of_lt hlt
  · have hfour : (lastFour t).length = 4 := by
      rw [lastFour, List.length_drop]
      omega
    have hsplit : t = t.take (t.length - 4) ++ lastFour t := (List.take_append_drop _ _).symm
    have hnumber : ofBe t = ofBe (t.take (t.length - 4)) * 2 ^ 32 + ofBe (lastFour t) := by
      conv_lhs => rw [hsplit, ofBe_append, hfour]
      rfl
    rw [hnumber, Nat.mul_add_mod_of_lt hlt]

/-- Two tags are taken for one another exactly if they end with the same four bytes. -/
theorem readEqual_iff {t t' : Bytes} (h : WellFormed t) (h' : WellFormed t') :
    ReadEqual t t' ↔ lastFour t = lastFour t' := by
  constructor
  · rintro ⟨tag, rest, rest', hread, hread'⟩
    rw [readTag_append h, ofBe_mod] at hread
    rw [readTag_append h', ofBe_mod] at hread'
    have htag : ofBe (lastFour t) = tag := congrArg Prod.fst (Except.ok.inj hread)
    have htag' : ofBe (lastFour t') = tag := congrArg Prod.fst (Except.ok.inj hread')
    rw [← writeTag_ofBe (length_lastFour t) (minimal_lastFour h),
      ← writeTag_ofBe (length_lastFour t') (minimal_lastFour h'), htag, htag']
  · intro hsame
    refine ⟨ofBe (lastFour t), [], [], ?_, ?_⟩
    · rw [readTag_append h, ofBe_mod]
    · rw [readTag_append h', ofBe_mod, hsame]

/-! ## Tagged values in tagged values -/

/-- A list of tagged values; a value may be such a list itself. -/
inductive Items where
  | nil
  | value (tag : UInt32) (bytes : Bytes) (more : Items)
  | nested (tag : UInt32) (inner more : Items)
  deriving DecidableEq

namespace Items

/-- The bytes that the writer makes of it. -/
def write : Items → Option Bytes
  | nil => some []
  | value tag bytes more => do
    let first ← writeTagValue tag bytes
    let rest ← more.write
    some (first ++ rest)
  | nested tag inner more => do
    let bytes ← inner.write
    let first ← writeTagValue tag bytes
    let rest ← more.write
    some (first ++ rest)

/-- What is read along a list: its tags and values, and what is left behind them. Behind a value
that is a list nothing may be left. -/
def read : Items → Bytes → Except PivError (Items × Bytes)
  | nil, data => .ok (nil, data)
  | value _ _ more, data => do
    let (tag, data) ← readTag data
    let (bytes, data) ← readValue data
    let (more, data) ← more.read data
    .ok (value (UInt32.ofNat tag) bytes more, data)
  | nested _ inner more, data => do
    let (tag, data) ← readTag data
    let (bytes, data) ← readValue data
    let (inner, left) ← inner.read bytes
    if left ≠ [] then .error (.tlv "bytes are left")
    else
      let (more, data) ← more.read data
      .ok (nested (UInt32.ofNat tag) inner more, data)

/-- The tags are well formed, and the values shorter than `2 ^ 24` bytes. -/
def Sound : Items → Prop
  | nil => True
  | value tag bytes more => WellFormed (writeTag tag) ∧ bytes.length < 2 ^ 24 ∧ more.Sound
  | nested tag inner more =>
    WellFormed (writeTag tag) ∧ inner.Sound ∧ (∀ bytes ∈ inner.write, bytes.length < 2 ^ 24) ∧
      more.Sound

/-- What was written is read back, and nothing is left. -/
def ReadsBack (items : Items) : Prop :=
  ∃ bytes, items.write = some bytes ∧ items.read bytes = .ok (items, [])

end Items

theorem writeLength_isSome {n : Nat} (h : n < 2 ^ 24) : ∃ len, writeLength n = some len := by
  unfold writeLength
  split
  · exact ⟨_, rfl⟩
  split
  · exact ⟨_, rfl⟩
  split
  · exact ⟨_, rfl⟩
  split
  · exact ⟨_, rfl⟩
  · next hlarge => exact absurd h (by simpa using hlarge)

theorem readTag_writeTag {tag : UInt32} (h : WellFormed (writeTag tag)) (rest : Bytes) :
    readTag (writeTag tag ++ rest) = .ok (tag.toNat, rest) := by
  rw [readTag_append h, ofBe_writeTag, Nat.mod_eq_of_lt tag.toNat_lt]

/-- One tagged value that was written: its tag, its value, and what follows it. -/
theorem writeTagValue_spec {tag : UInt32} (htag : WellFormed (writeTag tag)) {value : Bytes}
    (hvalue : value.length < 2 ^ 24) :
    ∃ len, writeTagValue tag value = some (writeTag tag ++ len ++ value) ∧ ∀ rest,
      readTag (writeTag tag ++ len ++ value ++ rest) = .ok (tag.toNat, len ++ (value ++ rest)) ∧
        readValue (len ++ (value ++ rest)) = .ok (value, rest) := by
  obtain ⟨len, hlen⟩ := writeLength_isSome hvalue
  refine ⟨len, by rw [writeTagValue, hlen]; rfl, fun rest => ⟨?_, readValue_writeLength hlen rest⟩⟩
  rw [List.append_assoc, List.append_assoc]
  exact readTag_writeTag htag _

theorem Items.read_write {items : Items} (h : items.Sound) :
    ∃ bytes, items.write = some bytes ∧
      ∀ rest, items.read (bytes ++ rest) = .ok (items, rest) := by
  induction items with
  | nil => exact ⟨[], rfl, fun rest => rfl⟩
  | value tag value more ih =>
    obtain ⟨htag, hvalue, hmore⟩ := h
    obtain ⟨bytes, hwrite, hread⟩ := ih hmore
    obtain ⟨len, hfirst, hspec⟩ := writeTagValue_spec htag hvalue
    refine ⟨writeTag tag ++ len ++ value ++ bytes, ?_, fun rest => ?_⟩
    · simp only [write, hfirst, hwrite, Option.bind_eq_bind, Option.bind_some]
    · obtain ⟨htagRead, hvalueRead⟩ := hspec (bytes ++ rest)
      rw [Items.read, List.append_assoc _ bytes, htagRead, ok_bind]
      dsimp only
      rw [hvalueRead, ok_bind]
      dsimp only
      rw [hread, ok_bind, UInt32.ofNat_toNat]
  | nested tag inner more ihInner ihMore =>
    obtain ⟨htag, hinner, hsize, hmore⟩ := h
    obtain ⟨value, hwriteInner, hreadInner⟩ := ihInner hinner
    obtain ⟨bytes, hwrite, hread⟩ := ihMore hmore
    obtain ⟨len, hfirst, hspec⟩ := writeTagValue_spec htag (hsize value hwriteInner)
    refine ⟨writeTag tag ++ len ++ value ++ bytes, ?_, fun rest => ?_⟩
    · simp only [write, hwriteInner, hfirst, hwrite, Option.bind_eq_bind, Option.bind_some]
    · obtain ⟨htagRead, hvalueRead⟩ := hspec (bytes ++ rest)
      have hwhole := hreadInner []
      rw [List.append_nil] at hwhole
      rw [Items.read, List.append_assoc _ bytes, htagRead, ok_bind]
      dsimp only
      rw [hvalueRead, ok_bind]
      dsimp only
      rw [hwhole, ok_bind]
      simp only [ne_eq, not_true_eq_false, if_false, hread, ok_bind, UInt32.ofNat_toNat]

/-! ## Reads stay within their bytes -/

/-- What is read of bytes stands in them, and what is left is their end. -/
structure Contained (data : Bytes) : Prop where
  tag : ∀ tag rest, readTag data = .ok (tag, rest) → ∃ used, data = used ++ rest ∧ used ≠ []
  value : ∀ value rest, readValue data = .ok (value, rest) →
    ∃ header, data = header ++ value ++ rest ∧ header ≠ []

theorem readTagRest_contained {data rest : Bytes} {start tag : Nat}
    (h : readTagRest start data = .ok (tag, rest)) : ∃ used, data = used ++ rest := by
  induction data generalizing start with
  | nil => cases h
  | cons b data ih =>
    rw [readTagRest] at h
    split at h
    · cases h
      exact ⟨[b], rfl⟩
    · obtain ⟨used, rfl⟩ := ih h
      exact ⟨b :: used, rfl⟩

theorem readLength_contained {data rest : Bytes} {len : Nat}
    (h : readLength data = .ok (len, rest)) : ∃ header, data = header ++ rest ∧ header ≠ [] := by
  cases data with
  | nil => cases h
  | cons first data =>
    rw [readLength] at h
    split at h
    · cases h
      exact ⟨[first], rfl, (fun h => by cases h)⟩
    · dsimp only at h
      split at h
      · cases h
      · split at h
        · cases h
        · cases h
          refine ⟨first :: data.take (first &&& 0x7F).toNat, ?_, (fun h => by cases h)⟩
          rw [List.cons_append, List.take_append_drop]

theorem contained (data : Bytes) : Contained data := by
  constructor
  · intro tag rest h
    cases data with
    | nil => cases h
    | cons first data =>
      rw [readTag] at h
      split at h
      · obtain ⟨used, rfl⟩ := readTagRest_contained h
        exact ⟨first :: used, rfl, (fun h => by cases h)⟩
      · cases h
        exact ⟨[first], rfl, (fun h => by cases h)⟩
  · intro value rest h
    rw [readValue] at h
    obtain ⟨⟨len, behind⟩, hlength, hvalue⟩ := bind_ok.mp h
    obtain ⟨header, rfl, hheader⟩ := readLength_contained hlength
    dsimp only at hvalue
    split at hvalue
    · cases hvalue
    · cases hvalue
      refine ⟨header, ?_, hheader⟩
      rw [List.append_assoc, List.take_append_drop]

/-! ## The codec -/

/-- What is written is read back, whatever its depth, and reads stay within their bytes. Two
different tags are told apart exactly if they do not end with the same four bytes; two of at
most four bytes never do. -/
theorem codec_iff {items : Items} (hitems : items.Sound) (data : Bytes) {t t' : Bytes}
    (h : WellFormed t) (h' : WellFormed t') :
    (items.ReadsBack ∧ Contained data ∧ (t ≠ t' → ¬ ReadEqual t t')) ↔
      (t ≠ t' → lastFour t ≠ lastFour t') := by
  rw [readEqual_iff h h']
  constructor
  · exact fun hcodec => hcodec.2.2
  · intro hdiffer
    obtain ⟨bytes, hwrite, hread⟩ := Items.read_write hitems
    have hwhole := hread []
    rw [List.append_nil] at hwhole
    exact ⟨⟨bytes, hwrite, hwhole⟩, contained data, hdiffer⟩

/-- A template that holds a challenge and an empty response, in front of a data object. -/
def challengeItems : Items :=
  .nested 0x7C (.value 0x81 [1, 2, 3] (.value 0x82 [] .nil)) (.value 0x5FC102 [0x53] .nil)

theorem codec_iff_challenge :
    (challengeItems.ReadsBack ∧ Contained [0x5F, 0xC1, 0x02, 0x01] ∧
        (([0x53] : Bytes) ≠ [0x70] → ¬ ReadEqual [0x53] [0x70])) ↔
      (([0x53] : Bytes) ≠ [0x70] → lastFour [0x53] ≠ lastFour [0x70]) := by
  have hfile : WellFormed [0x53] := .single (by decide)
  have hcert : WellFormed [0x70] := .single (by decide)
  have hobject : WellFormed (0x5F :: ([0xC1] ++ [0x02])) :=
    .several (by decide) (by decide +kernel) (by decide)
  have hinner : (Items.value 0x81 [1, 2, 3] (.value 0x82 [] .nil)).Sound :=
    ⟨.single (by decide), by decide, .single (by decide), by decide, trivial⟩
  have hsound : challengeItems.Sound := by
    refine ⟨.single (by decide), hinner, fun bytes hbytes => ?_, hobject, by decide, trivial⟩
    have hwrite : bytes = [0x81, 3, 1, 2, 3, 0x82, 0] := (Option.some.inj hbytes).symm
    rw [hwrite]
    decide
  exact codec_iff hsound _ hfile hcert

/-- A tag of five bytes is taken for the one of its last four. -/
theorem not_told_apart : ¬ ∀ t t', WellFormed t → WellFormed t' → t ≠ t' → ¬ ReadEqual t t' := by
  intro h
  have hlong : WellFormed (0x1F :: ([0x9F, 0x81, 0x82] ++ [0x03])) :=
    .several (by decide) (by decide +kernel) (by decide)
  have hshort : WellFormed (0x9F :: ([0x81, 0x82] ++ [0x03])) :=
    .several (by decide) (by decide +kernel) (by decide)
  exact h _ _ hlong hshort (by decide) ⟨0x9F818203, [], [], by decide, by decide⟩

end Piggy.Piv
