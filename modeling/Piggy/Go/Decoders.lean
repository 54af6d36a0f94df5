import Piggy.Go.Blech32

/-!
# The blech32 decoders of both languages

Each decoder is known by what it lets through, so comparing decoders is comparing these
conditions: the decoder of byte slices has no check on the human-readable part, and the
width test of both Go decoders lets a bare checksum through, which the Rust decoder does
not take.
-/

namespace Piggy.Go.Blech32

open Piggy.Core
open Piggy.Markl.Blech32 (isHrpChar isLowerHrpChar charsetChar Carries)

/-! ## Panics -/

theorem payloadOf_eq_panic (t : CaseTables) {hrp data : Bytes} :
    payloadOf t hrp data = .panic ↔ verifyChecksum t hrp data = true ∧ data.length < 6 := by
  rw [payloadOf]
  by_cases hsum : verifyChecksum t hrp data = true
  · rw [if_neg (by simp [hsum]), Result.bind_eq_panic, dropChecksum]
    by_cases hlen : data.length < 6
    · simp [hlen, hsum]
    · simp [hlen, Result.lift_ne_panic]
  · rw [if_pos (by simpa using hsum)]
    simp [hsum]

theorem payloadOf_returns (t : CaseTables) {hrp data : Bytes} (h : 6 ≤ data.length) :
    payloadOf t hrp data ≠ .panic := by
  rw [Ne, payloadOf_eq_panic]
  omega

theorem decodeString_returns (t : CaseTables) (b : Bytes) : decodeString t b ≠ .panic := by
  intro h
  simp only [decodeString, Result.bind_eq_panic, Result.lift_ne_panic, false_or,
    Result.lift_eq_ok, validateSeparatorPosition_eq_ok] at h
  obtain ⟨⟨⟩, -, pos, ⟨hrp, rest, rfl, -, -, hlen, rfl⟩, ⟨⟩, -, groups, hgroups, h⟩ := h
  rw [(take_drop_separator hrp rest).2] at hgroups
  obtain ⟨rfl, -⟩ := readGroups_runes.mp hgroups
  rw [List.length_map] at hlen
  rcases h with h | ⟨payload, -, h⟩
  · exact payloadOf_returns t hlen h
  · cases h

theorem decode_returns (t : CaseTables) (b : Bytes) : decode t b ≠ .panic := by
  intro h
  simp only [decode, decodeData, Result.bind_eq_panic, Result.lift_ne_panic, false_or,
    Result.lift_eq_ok, validateSeparatorPosition_eq_ok] at h
  obtain ⟨⟨⟩, -, pos, ⟨hrp, rest, rfl, -, -, hlen, rfl⟩, h⟩ := h
  rcases h with ⟨⟨⟩, -, groups, hgroups, h⟩ | ⟨payload, -, h⟩
  · rw [(take_drop_separator hrp rest).2] at hgroups
    obtain ⟨rfl, -⟩ := readGroups_bytes.mp hgroups
    rw [List.length_map] at hlen
    exact payloadOf_returns t hlen h
  · cases h

/-- Groups without a human-readable part run into the slice only when there are none: the
residue of nothing is one. -/
theorem decodeDataOnly_eq_panic (t : CaseTables) {b : Bytes} :
    decodeDataOnly t b = .panic ↔ b = [] := by
  have hempty : hrpExpand t [] = [] := rfl
  simp only [decodeDataOnly, decodeData, Result.bind_eq_panic, Result.lift_ne_panic, false_or,
    Result.lift_eq_ok, payloadOf_eq_panic, verifyChecksum, hempty, List.nil_append,
    decide_eq_true_eq]
  constructor
  · rintro ⟨⟨⟩, -, groups, hgroups, hres, hlen⟩
    obtain ⟨rfl, hrange⟩ := readGroups_bytes.mp hgroups
    by_contra hne
    have hne' : groups ≠ [] := fun he => hne (by rw [he]; rfl)
    exact Markl.Blech32.polymod_short hrange hne' hlen hres
  · rintro rfl
    have hcase : validateCase t [] = .ok () :=
      (validateCase_eq_ok t (by simp [IsAscii])).mpr (by simp)
    exact ⟨(), hcase, [], rfl, rfl, by decide⟩

/-! ## Rust -/

/-- Both languages feed the same values to the checksum for a human-readable part in lower
case. -/
theorem hrpExpand_lower (t : CaseTables) {hrp : Bytes} (h : ∀ b ∈ hrp, isLowerHrpByte b = true) :
    hrpExpand t hrp = Markl.Blech32.hrpExpand (hrp.map asciiChar) := by
  have hascii := isAscii_of_lowerHrp h
  have hlow : (hrp.map asciiChar).map Char.toLower = hrp.map asciiChar := by
    rw [List.map_map]
    apply List.map_congr_left
    intro b hb
    exact charToLower_eq_self.mpr (isLowerHrpByte_spec (h b hb)).2.1
  rw [hrpExpand, Markl.Blech32.hrpExpand]
  cases hrp with
  | nil => rfl
  | cons c cs =>
    rw [if_neg (by simp), if_neg (by simp), hlow, toUTF8_ofList, utf8_map_asciiChar hascii,
      (toLower_eq_self t hascii).mpr fun b hb => (isLowerHrpByte_spec (h b hb)).2.1]

/-- The bytes of a text spelled in characters. -/
theorem utf8_spelled {hrp groups : Bytes} (hhrp : ∀ b ∈ hrp, isLowerHrpByte b = true)
    (hgroups : ∀ v ∈ groups, v.toNat < 2 ^ 5) :
    utf8 (hrp.map asciiChar ++ Markl.Blech32.separator :: groups.map charsetChar) =
      hrp ++ separator :: groups.map charsetByte := by
  have hsep : String.utf8EncodeChar Markl.Blech32.separator = [separator] := by decide
  rw [← map_asciiChar_charsetByte hgroups, utf8_append, utf8_cons, hsep,
    utf8_map_asciiChar (isAscii_of_lowerHrp hhrp),
    utf8_map_asciiChar (isAscii_of_lowerHrp (lowerHrp_map_charsetByte hgroups))]
  rfl

theorem lowerHrp_of_chars {hrp : List Char} (h : ∀ c ∈ hrp, isLowerHrpChar c = true) :
    (∀ b ∈ utf8 hrp, isLowerHrpByte b = true) ∧ (utf8 hrp).map asciiChar = hrp := by
  have hascii : ∀ c ∈ hrp, c.toNat < 128 := fun c hc =>
    ascii_of_isHrpChar (Bool.and_eq_true _ _ |>.mp (h c hc)).1
  have hbytes : IsAscii (utf8 hrp) := by
    intro b hb
    obtain ⟨c, hc, hmem⟩ := List.mem_flatMap.mp hb
    rw [utf8EncodeChar_ascii (hascii c hc), List.mem_singleton] at hmem
    rw [hmem, UInt8.toNat_ofNat_of_lt' (Nat.lt_trans (hascii c hc) (by decide))]
    exact hascii c hc
  refine ⟨?_, (eq_map_asciiChar hbytes).symm⟩
  intro b hb
  exact h _ ((mem_utf8_ascii (hbytes b hb)).mp hb)

/-- The decoder of strings on text. -/
theorem decodeString_utf8 (t : CaseTables) {s : List Char} {h payload : Bytes} :
    decodeString t (utf8 s) = .ok (h, payload) ↔ ∃ hrp groups, h = utf8 hrp ∧ hrp ≠ [] ∧
      (∀ c ∈ hrp, isLowerHrpChar c = true) ∧
      s = hrp ++ Markl.Blech32.separator :: groups.map charsetChar ∧
      Carries (Markl.Blech32.hrpExpand hrp) groups payload := by
  rw [decodeString_eq_ok]
  constructor
  · rintro ⟨hne, hlower, groups, hs, hcarries⟩
    have hback := utf8_map_asciiChar (isAscii_of_lowerHrp hlower)
    refine ⟨h.map asciiChar, groups, hback.symm, by simpa using hne, ?_, ?_, ?_⟩
    · intro c hc
      obtain ⟨b, hb, rfl⟩ := List.mem_map.mp hc
      exact hlower b hb
    · rw [← utf8_spelled hlower hcarries.range] at hs
      exact utf8_inj hs
    · rw [← hrpExpand_lower t hlower]
      exact hcarries
  · rintro ⟨hrp, groups, rfl, hne, hhrp, rfl, hcarries⟩
    obtain ⟨hlower, hback⟩ := lowerHrp_of_chars hhrp
    have hspelled := utf8_spelled hlower hcarries.range
    rw [hback] at hspelled
    refine ⟨?_, hlower, groups, hspelled, ?_⟩
    · intro he
      rw [he] at hback
      exact hne hback.symm
    · rw [hrpExpand_lower t hlower, hback]
      exact hcarries

/-- The Rust decoder takes what the Go decoder of strings takes, the empty payload aside. -/
theorem rust_decode_eq_ok (t : CaseTables) {s hrp : List Char} {payload : Bytes} :
    Markl.Blech32.decode s = .ok (hrp, payload) ↔
      decodeString t (utf8 s) = .ok (utf8 hrp, payload) ∧ payload ≠ [] := by
  rw [Markl.Blech32.decode_eq_ok, decodeString_utf8]
  constructor
  · rintro ⟨hne, hhrp, groups, hs, hcarries, hpayload⟩
    exact ⟨⟨hrp, groups, rfl, hne, hhrp, hs, hcarries⟩, hpayload⟩
  · rintro ⟨⟨hrp', groups, heq, hne, hhrp, hs, hcarries⟩, hpayload⟩
    obtain rfl : hrp = hrp' := utf8_inj heq
    exact ⟨hne, hhrp, groups, hs, hcarries, hpayload⟩

/-! ## Agreement -/

/-- On one input the decoders agree and all of them return. -/
structure Agree (t : CaseTables) (b : Bytes) : Prop where
  /-- Both Go decoders fail, or both give the same. -/
  go : (∃ e e', decode t b = .error e ∧ decodeString t b = .error e') ∨
    ∃ hrp payload, decode t b = .ok (hrp, payload) ∧ decodeString t b = .ok (hrp, payload)
  /-- On text the Rust decoder gives what they give, and nothing else. -/
  rust : ∀ s, b = utf8 s →
    (∀ hrp payload, Markl.Blech32.decode s = .ok (hrp, payload) →
      decode t b = .ok (utf8 hrp, payload)) ∧
    ∀ hrp payload, decode t b = .ok (hrp, payload) →
      ∃ h, hrp = utf8 h ∧ Markl.Blech32.decode s = .ok (h, payload)
  decode_returns : decode t b ≠ .panic
  decodeString_returns : decodeString t b ≠ .panic
  decodeDataOnly_returns : decodeDataOnly t b ≠ .panic

/-- The input is not empty, and where it is spelled as blech32 in lower case, with any bytes
for a human-readable part, that part is in the charset and something stands in front of the
checksum. -/
def WellSpelled (t : CaseTables) (b : Bytes) : Prop :=
  b ≠ [] ∧ ∀ hrp groups payload, hrp ≠ [] → separator ∉ hrp → validateCase t b = .ok () →
    b = hrp ++ separator :: groups.map charsetByte → Carries (hrpExpand t hrp) groups payload →
    (∀ c ∈ hrp, isLowerHrpByte c = true) ∧ 6 < groups.length

/-- What the decoder of strings takes, the decoder of byte slices takes too. -/
theorem decode_of_decodeString (t : CaseTables) {b hrp payload : Bytes}
    (h : decodeString t b = .ok (hrp, payload)) : decode t b = .ok (hrp, payload) := by
  obtain ⟨hne, hhrp, groups, rfl, hcarries⟩ := (decodeString_eq_ok t).mp h
  obtain ⟨hascii, hupper⟩ := lower_of_spelled hhrp hcarries.range
  exact (decode_eq_ok t).mpr ⟨hne, separator_of_lowerHrp hhrp,
    (validateCase_eq_ok t hascii).mpr hupper, groups, rfl, hcarries⟩

/-- Where the input is well spelled, the decoder of byte slices takes no more than the
others. -/
theorem WellSpelled.decodeString {t : CaseTables} {b hrp payload : Bytes} (hb : WellSpelled t b)
    (h : decode t b = .ok (hrp, payload)) :
    Blech32.decodeString t b = .ok (hrp, payload) ∧ payload ≠ [] := by
  obtain ⟨hne, hnot, hcase, groups, hspelled, hcarries⟩ := (decode_eq_ok t).mp h
  obtain ⟨hhrp, hlen⟩ := hb.2 hrp groups payload hne hnot hcase hspelled hcarries
  refine ⟨(decodeString_eq_ok t).mpr ⟨hne, hhrp, groups, hspelled, hcarries⟩, ?_⟩
  rw [Ne, ← hcarries.length_eq, Markl.Blech32.checksumLen]
  omega

/-- The decoders agree on an input exactly when it is well spelled. -/
theorem agree_iff_wellSpelled (t : CaseTables) (b : Bytes) : Agree t b ↔ WellSpelled t b := by
  constructor
  · intro h
    refine ⟨fun he => h.decodeDataOnly_returns ((decodeDataOnly_eq_panic t).mpr he), ?_⟩
    intro hrp groups payload hne hnot hcase hspelled hcarries
    have hdec := (decode_eq_ok t).mpr ⟨hne, hnot, hcase, groups, hspelled, hcarries⟩
    rcases h.go with ⟨e, e', he, -⟩ | ⟨hrp', payload', hdec', hstr⟩
    · rw [hdec] at he
      cases he
    · rw [hdec] at hdec'
      cases hdec'
      have hhrp := ((decodeString_eq_ok t).mp hstr).2.1
      have hutf8 : b = utf8 (b.map asciiChar) := by
        rw [hspelled, utf8_map_asciiChar (lower_of_spelled hhrp hcarries.range).1]
      obtain ⟨h', -, hrust⟩ := (h.rust _ hutf8).2 _ _ hdec
      have hpayload := ((rust_decode_eq_ok t).mp hrust).2
      refine ⟨hhrp, Nat.lt_of_le_of_ne hcarries.length ?_⟩
      exact fun he => hpayload (hcarries.length_eq.mp he.symm)
  · intro hb
    refine ⟨?_, ?_, decode_returns t b, decodeString_returns t b, ?_⟩
    · by_cases hok : ∃ hrp payload, decode t b = .ok (hrp, payload)
      · obtain ⟨hrp, payload, hdec⟩ := hok
        exact .inr ⟨hrp, payload, hdec, (hb.decodeString hdec).1⟩
      · obtain ⟨e, he⟩ := Result.eq_error (decode_returns t b)
          fun r hr => hok ⟨r.1, r.2, hr⟩
        obtain ⟨e', he'⟩ := Result.eq_error (decodeString_returns t b)
          fun r hr => hok ⟨r.1, r.2, decode_of_decodeString t hr⟩
        exact .inl ⟨e, e', he, he'⟩
    · rintro s rfl
      refine ⟨?_, ?_⟩
      · intro hrp payload hrust
        exact decode_of_decodeString t ((rust_decode_eq_ok t).mp hrust).1
      · intro hrp payload hdec
        obtain ⟨hstr, hpayload⟩ := hb.decodeString hdec
        have hhrp := ((decodeString_eq_ok t).mp hstr).2.1
        have hutf8 := utf8_map_asciiChar (isAscii_of_lowerHrp hhrp)
        refine ⟨hrp.map asciiChar, hutf8.symm, ?_⟩
        rw [rust_decode_eq_ok t, hutf8]
        exact ⟨hstr, hpayload⟩
    · rw [Ne, decodeDataOnly_eq_panic]
      exact hb.1

/-- The decoders part on three inputs: the empty one, a human-readable part with a dot, and a
bare checksum. -/
theorem not_agree_samples :
    ¬ Agree asciiTables [] ∧ ¬ Agree asciiTables (utf8 "a.b-qqghjlgy".toList) ∧
      ¬ Agree asciiTables (utf8 "a-2uel5l".toList) := by
  refine ⟨?_, ?_, ?_⟩
  · intro h
    exact h.decodeDataOnly_returns (by decide)
  · intro h
    have hdec : decode asciiTables (utf8 "a.b-qqghjlgy".toList) =
        .ok (utf8 "a.b".toList, [0]) := by decide
    have hstr : decodeString asciiTables (utf8 "a.b-qqghjlgy".toList) =
        .error (.invalidHRPCharacter 1 '.') := by decide
    rcases h.go with ⟨e, e', he, -⟩ | ⟨hrp, payload, -, hok⟩
    · rw [hdec] at he
      cases he
    · rw [hstr] at hok
      cases hok
  · intro h
    have hdec : decode asciiTables (utf8 "a-2uel5l".toList) = .ok (utf8 "a".toList, []) := by decide
    have hrust : Markl.Blech32.decode "a-2uel5l".toList = .error (.dataPortionTooShort 7 6) := by
      decide
    obtain ⟨hrp, -, hok⟩ := (h.rust _ rfl).2 _ _ hdec
    rw [hrust] at hok
    cases hok

/-! ## Reading back what was encoded -/

theorem encodeWith_eq_ok (t : CaseTables) {hrp data s : Bytes} :
    encodeWith t hrp data = .ok s ↔ validateCaseString t hrp = .ok () ∧ ∃ groups,
      Carries (hrpExpand t (toLower t hrp)) groups data ∧
      s = (if toLower t hrp ≠ [] then toLower t hrp ++ [separator] else []) ++
        groups.map charsetByte := by
  obtain ⟨values, -, hconv, -⟩ := Markl.Blech32.convertBits_encode data
  simp only [encodeWith, bind_ok, convertBits_eq_ok, hconv, Except.ok.injEq, exists_eq_left',
    pure_ok, createChecksum]
  constructor
  · rintro ⟨⟨⟩, hcase, rfl⟩
    refine ⟨hcase, _, Markl.Blech32.carries_iff.mpr ⟨values, hconv, rfl⟩, ?_⟩
    rw [List.map_append]
  · rintro ⟨hcase, groups, hcarries, rfl⟩
    obtain ⟨values', hconv', rfl⟩ := Markl.Blech32.carries_iff.mp hcarries
    obtain rfl : values = values' := Except.ok.inj (hconv.symm.trans hconv')
    exact ⟨(), hcase, by rw [List.map_append]⟩

/-- The encoder takes any printable ASCII without upper case for a human-readable part. -/
theorem encode_eq_ok (t : CaseTables) {hrp data s : Bytes} :
    encode t hrp data = .ok s ↔ hrp ≠ [] ∧
      (∀ b ∈ hrp, 33 ≤ b.toNat ∧ b.toNat ≤ 126 ∧ (asciiChar b).isUpper = false) ∧
      ∃ groups, s = hrp ++ separator :: groups.map charsetByte ∧
        Carries (hrpExpand t hrp) groups data := by
  have hrunes : (runes hrp).find? (fun r => r.2.toNat < 33 || 126 < r.2.toNat) = none ↔
      ∀ b ∈ hrp, 33 ≤ b.toNat ∧ b.toNat ≤ 126 := by
    have hfind : (runes hrp).find? (fun r => r.2.toNat < 33 || 126 < r.2.toNat) = none ↔
        ∀ c ∈ (runes hrp).map Prod.snd, 33 ≤ c.toNat ∧ c.toNat ≤ 126 := by
      simp only [List.find?_eq_none, List.forall_mem_map, Bool.or_eq_true, decide_eq_true_eq,
        not_or, Nat.not_lt]
    rw [hfind]
    constructor
    · intro h
      have hascii : IsAscii hrp := isAscii_of_runes fun r hr =>
        Nat.lt_of_le_of_lt (h _ (List.mem_map_of_mem hr)).2 (by decide)
      rw [runes_ascii hascii] at h
      intro b hb
      rw [← toNat_asciiChar]
      exact h _ (List.mem_map_of_mem hb)
    · intro h
      rw [runes_ascii fun b hb => Nat.lt_of_le_of_lt (h b hb).2 (by decide)]
      intro c hc
      obtain ⟨b, hb, rfl⟩ := List.mem_map.mp hc
      rw [toNat_asciiChar]
      exact h b hb
  rw [encode]
  by_cases hne : hrp = []
  · simp [hne]
  rw [if_neg (by simpa [Nat.lt_one_iff] using hne)]
  rcases hfind : (runes hrp).find? (fun r => r.2.toNat < 33 || 126 < r.2.toNat) with _ | ⟨pos, c⟩
  · have hrange := hrunes.mp hfind
    have hascii : IsAscii hrp := fun b hb => Nat.lt_of_le_of_lt (hrange b hb).2 (by decide)
    rw [hfind]
    simp only [encodeWith_eq_ok, validateCaseString_eq_ok t hascii]
    constructor
    · rintro ⟨hupper, groups, hcarries, rfl⟩
      rw [(toLower_eq_self t hascii).mpr hupper] at hcarries ⊢
      refine ⟨hne, fun b hb => ⟨(hrange b hb).1, (hrange b hb).2, hupper b hb⟩, groups, ?_, hcarries⟩
      rw [if_pos hne, List.append_assoc]
      rfl
    · rintro ⟨-, hchars, groups, rfl, hcarries⟩
      have hupper : ∀ b ∈ hrp, (asciiChar b).isUpper = false := fun b hb => (hchars b hb).2.2
      have hlow := (toLower_eq_self t hascii).mpr hupper
      refine ⟨hupper, groups, ?_, ?_⟩
      · rw [hlow]
        exact hcarries
      · rw [hlow, if_pos hne, List.append_assoc]
        rfl
  · rw [hfind]
    simp only [reduceCtorEq, false_iff]
    rintro ⟨-, hchars, -⟩
    rw [hrunes.mpr fun b hb => ⟨(hchars b hb).1, (hchars b hb).2.1⟩] at hfind
    cases hfind

/-- Every decoder reads the encoded text back, and the Rust encoder writes the same text. -/
structure ReadBack (t : CaseTables) (hrp payload s : Bytes) : Prop where
  decodeString : Blech32.decodeString t s = .ok (hrp, payload)
  decode : Blech32.decode t s = .ok (hrp, payload)
  rust : ∃ text h, s = utf8 text ∧ hrp = utf8 h ∧
    Markl.Blech32.decode text = .ok (h, payload) ∧ Markl.Blech32.encode h payload = .ok text

/-- What is encoded is read back exactly when the human-readable part is in the narrower
charset of the decoders; without such a part every payload is read back. -/
theorem readBack_iff_charset (t : CaseTables) :
    (∀ hrp payload s, payload ≠ [] → encode t hrp payload = .ok s →
      (ReadBack t hrp payload s ↔ ∀ b ∈ hrp, isHrpChar (asciiChar b) = true)) ∧
    ∀ d, ∃ s, encodeDataOnly t d = .ok s ∧ decodeDataOnly t s = .ok d := by
  refine ⟨?_, ?_⟩
  · intro hrp payload s hpayload henc
    obtain ⟨hne, hchars, groups, rfl, hcarries⟩ := (encode_eq_ok t).mp henc
    constructor
    · intro h b hb
      have hlower := ((decodeString_eq_ok t).mp h.decodeString).2.1
      exact (isLowerHrpByte_spec (hlower b hb)).1
    · intro hcharset
      have hlower : ∀ b ∈ hrp, isLowerHrpByte b = true := by
        intro b hb
        rw [isLowerHrpByte, isLowerHrpChar, hcharset b hb, (hchars b hb).2.2]
        rfl
      have hstr := (decodeString_eq_ok t).mpr ⟨hne, hlower, groups, rfl, hcarries⟩
      have hhrp := utf8_map_asciiChar (isAscii_of_lowerHrp hlower)
      have htext := utf8_map_asciiChar (lower_of_spelled hlower hcarries.range).1
      have hrust : Markl.Blech32.decode
          ((hrp ++ separator :: groups.map charsetByte).map asciiChar) =
            .ok (hrp.map asciiChar, payload) := by
        rw [rust_decode_eq_ok t, htext, hhrp]
        exact ⟨hstr, hpayload⟩
      exact ⟨hstr, decode_of_decodeString t hstr, _, _, htext.symm, hhrp.symm, hrust,
        Markl.Blech32.encode_of_decode hrust⟩
  · intro d
    obtain ⟨groups, hcarries⟩ := Markl.Blech32.exists_carries (hrpExpand t (toLower t [])) d
    have hcase : validateCaseString t [] = .ok () :=
      (validateCaseString_eq_ok t (by simp [IsAscii])).mpr (by simp)
    exact ⟨_, (encodeWith_eq_ok t).mpr ⟨hcase, groups, hcarries, rfl⟩,
      (decodeDataOnly_eq_ok t).mpr ⟨groups, rfl, hcarries⟩⟩

theorem readBack_iff_charset_sample :
    encode asciiTables (utf8 "a".toList) [0] = .ok (utf8 "a-qqqd87cq".toList) ∧
      (ReadBack asciiTables (utf8 "a".toList) [0] (utf8 "a-qqqd87cq".toList) ↔
        ∀ b ∈ utf8 "a".toList, isHrpChar (asciiChar b) = true) := by
  have henc : encode asciiTables (utf8 "a".toList) [0] = .ok (utf8 "a-qqqd87cq".toList) := by decide
  exact ⟨henc, (readBack_iff_charset asciiTables).1 _ _ _ (by decide) henc⟩

/-- A human-readable part with a dot is encoded and not read back. -/
theorem not_readBack_dot :
    encode asciiTables (utf8 "a.b".toList) [0] = .ok (utf8 "a.b-qqghjlgy".toList) ∧
      ¬ ReadBack asciiTables (utf8 "a.b".toList) [0] (utf8 "a.b-qqghjlgy".toList) := by
  refine ⟨by decide, ?_⟩
  intro h
  have hstr : decodeString asciiTables (utf8 "a.b-qqghjlgy".toList) =
      .error (.invalidHRPCharacter 1 '.') := by decide
  rw [h.decodeString] at hstr
  cases hstr

end Piggy.Go.Blech32
