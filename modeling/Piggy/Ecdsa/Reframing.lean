import Piggy.Ecdsa.Signature

/-!
# From one form of a signature to another

What is written in one form is read in the next, and what counts of an integer is its value: the
zeros in front come and go. No answer of a card makes a reader read out of bounds.
-/

namespace Piggy.Ecdsa

open Piggy.Core Piggy.Box

/-! ## Lengths -/

theorem ofNat_lt {n m : Nat} (h : n < m) (hm : m < 256) : UInt8.ofNat n < UInt8.ofNat m := by
  rw [UInt8.lt_iff_toNat_lt, UInt8.toNat_ofNat_of_lt' (by omega : n < 256),
    UInt8.toNat_ofNat_of_lt' hm]
  exact h

/-- A length that fits into two bytes is read back. -/
theorem parseDerLength_encodeDerLength {n : Nat} (h : n ≤ 0xFFFF) (rest : Bytes) :
    parseDerLength (encodeDerLength n ++ rest) = .ok (n, (encodeDerLength n).length) := by
  rw [encodeDerLength]
  by_cases hshort : n < 0x80
  · have hfirst : UInt8.ofNat n < 0x80 := ofNat_lt hshort (by decide)
    have hnumber : (UInt8.ofNat n).toNat = n := UInt8.toNat_ofNat_of_lt' (by omega : n < 256)
    rw [if_pos hshort, List.singleton_append, parseDerLength.eq_def]
    dsimp only
    rw [if_pos hfirst, hnumber]
    rfl
  rw [if_neg hshort]
  by_cases hone : n ≤ 0xFF
  · have hbyte : ¬ UInt8.ofNat n < 0x80 := by
      rw [UInt8.lt_iff_toNat_lt, UInt8.toNat_ofNat_of_lt' (by omega : n < 256)]
      exact hshort
    have hnumber : (UInt8.ofNat n).toNat = n := UInt8.toNat_ofNat_of_lt' (by omega : n < 256)
    rw [if_pos hone, List.cons_append, parseDerLength.eq_def]
    dsimp only
    rw [if_neg (by decide), if_pos rfl]
    simp only [List.singleton_append, if_neg hbyte, hnumber]
    rfl
  · have htwo : toBe 2 n = [UInt8.ofNat (n / 256), UInt8.ofNat n] := by simp [toBe]
    have hhi : UInt8.ofNat (n / 256) ≠ 0 := by
      intro hzero
      have hnumber := congrArg UInt8.toNat hzero
      rw [UInt8.toNat_ofNat_of_lt' (by omega : n / 256 < 256)] at hnumber
      have : n / 256 = 0 := hnumber
      omega
    have hvalue : ofBe [UInt8.ofNat (n / 256), UInt8.ofNat n] = n := by
      rw [← htwo, ofBe_toBe]
      exact Nat.mod_eq_of_lt (by omega)
    rw [if_neg hone, Nat.min_eq_left h, htwo, List.cons_append, parseDerLength.eq_def]
    dsimp only
    rw [if_neg (by decide), if_neg (by decide), if_pos rfl]
    simp only [List.cons_append, if_neg hhi, hvalue]
    rfl

/-- A length is less than `2 ^ 16`, and stands in the bytes it is read from. -/
theorem parseDerLength_bounds {bytes : Bytes} {x : Nat × Nat} (h : parseDerLength bytes = .ok x) :
    x.1 ≤ 0xFFFF ∧ 1 ≤ x.2 ∧ x.2 ≤ bytes.length := by
  rcases bytes with _ | ⟨first, rest⟩
  · cases h
  rw [parseDerLength.eq_def] at h
  dsimp only at h
  split at h
  · cases h
    have hfirst := first.toNat_lt
    refine ⟨by omega, le_rfl, ?_⟩
    rw [List.length_cons]
    omega
  split at h
  · rcases rest with _ | ⟨b, rest⟩
    · cases h
    · dsimp only at h
      split at h
      · cases h
      · cases h
        have hb := b.toNat_lt
        refine ⟨by omega, Nat.le_add_left 1 1, ?_⟩
        rw [List.length_cons, List.length_cons]
        omega
  split at h
  · rcases rest with _ | ⟨hi, _ | ⟨lo, rest⟩⟩
    · cases h
    · cases h
    · dsimp only at h
      split at h
      · cases h
      · cases h
        have hlt : ofBe [hi, lo] < 256 ^ 2 := ofBe_lt [hi, lo]
        refine ⟨by omega, Nat.le_add_left 1 2, ?_⟩
        rw [List.length_cons, List.length_cons, List.length_cons]
        omega
  · cases h

/-! ## Reading never leaves the bytes -/

theorem answers_readDerInteger {der : Bytes} {pos stop : Nat} (hstop : stop ≤ der.length)
    (label : String) :
    (readDerInteger der pos stop label).Answers fun x =>
      pos + 2 + x.1.length ≤ x.2 ∧ x.2 ≤ stop ∧ x.1.length ≤ 0xFFFF := by
  rw [readDerInteger]
  split
  · trivial
  next hpos =>
  refine (Checked.answers_get (by omega)).bind fun tag _ => ?_
  split
  · trivial
  refine (Checked.answers_slice (by omega) hstop).bind fun behind hbehind => ?_
  refine (Checked.answers_ofExcept fun x hx => parseDerLength_bounds hx).bind fun x hx => ?_
  obtain ⟨len, hdr⟩ := x
  obtain ⟨hlen, hone, hhdr⟩ := hx
  dsimp only at hlen hone hhdr ⊢
  have hbehindLength : behind.length = stop - (pos + 1) := by
    rw [hbehind, List.length_drop, List.length_take_of_le hstop]
  refine (Checked.answers_checkedAdd _ _ _).bind fun intEnd hend => ?_
  split
  · trivial
  next hfits =>
  refine (Checked.answers_slice (by omega) (by omega)).bind fun bytes hbytes => ?_
  have hlength : bytes.length = len := by
    rw [hbytes, List.length_drop, List.length_take_of_le (by omega)]
    omega
  exact ⟨by dsimp only; omega, by dsimp only; omega, by dsimp only; omega⟩

/-- Whatever a card answers, its signature is an error or two integers that stand in it. -/
theorem answers_decodeDerEcdsaSignature (der : Bytes) :
    (decodeDerEcdsaSignature der).Answers fun x =>
      x.1.length + x.2.length + 5 ≤ der.length ∧ x.1.length ≤ 0xFFFF ∧ x.2.length ≤ 0xFFFF := by
  rw [decodeDerEcdsaSignature]
  split
  · trivial
  next hhead =>
  have hpos : 1 ≤ der.length := by
    rcases der with _ | ⟨b, der⟩
    · exact absurd nofun hhead
    · exact Nat.succ_le_succ (Nat.zero_le _)
  refine (Checked.answers_slice hpos le_rfl).bind fun behind hbehind => ?_
  refine (Checked.answers_ofExcept fun x hx => parseDerLength_bounds hx).bind fun x hx => ?_
  obtain ⟨len, hdr⟩ := x
  obtain ⟨hlen, hone, hhdr⟩ := hx
  dsimp only at hlen hone hhdr ⊢
  refine (Checked.answers_checkedAdd _ _ _).bind fun seqEnd hend => ?_
  split
  · trivial
  next hfits =>
  refine (answers_readDerInteger (by omega) "r").bind fun x hx => ?_
  obtain ⟨r, afterR⟩ := x
  dsimp only at hx ⊢
  refine (answers_readDerInteger (by omega) "s").bind fun y hy => ?_
  obtain ⟨s, afterS⟩ := y
  dsimp only at hy ⊢
  split
  · trivial
  · exact ⟨by dsimp only; omega, hx.2.2, hy.2.2⟩

/-! ## Integers of a fixed width -/

theorem ofBe_stripZeros (fieldLen : Nat) (bs : Bytes) :
    ofBe (stripZeros fieldLen bs) = ofBe bs := by
  induction bs with
  | nil => rfl
  | cons b bs ih =>
    rw [stripZeros]
    split
    · next h =>
      rw [ih, ofBe_cons, h.2]
      simp
    · rfl

/-- What is left is no wider than the field, or its value is. -/
theorem length_stripZeros (fieldLen : Nat) (bs : Bytes) :
    (stripZeros fieldLen bs).length ≤ fieldLen ∨ 256 ^ fieldLen ≤ ofBe bs := by
  induction bs with
  | nil => exact .inl (Nat.zero_le _)
  | cons b bs ih =>
    rw [stripZeros]
    by_cases hstrip : fieldLen < bs.length + 1 ∧ b = 0
    · rw [if_pos hstrip, ofBe_cons, hstrip.2]
      simpa using ih
    · rw [if_neg hstrip]
      by_cases hshort : bs.length + 1 ≤ fieldLen
      · exact .inl hshort
      · have hb : 1 ≤ b.toNat :=
          Nat.one_le_iff_ne_zero.mpr fun hzero =>
            hstrip ⟨by omega, UInt8.toNat_inj.mp hzero⟩
        refine .inr ?_
        calc 256 ^ fieldLen ≤ 256 ^ bs.length := Nat.pow_le_pow_right (by decide) (by omega)
          _ ≤ b.toNat * 256 ^ bs.length := Nat.le_mul_of_pos_left _ hb
          _ ≤ ofBe (b :: bs) := by
            rw [ofBe_cons]
            exact Nat.le_add_right _ _

/-- An integer that fits into the field is written at its width, whatever stands in front. -/
theorem fixedWidthBe_of_lt {bs : Bytes} {fieldLen : Nat} (h : ofBe bs < 256 ^ fieldLen)
    (label : String) : fixedWidthBe bs fieldLen label = .ok (toBe fieldLen (ofBe bs)) := by
  have hshort : (stripZeros fieldLen bs).length ≤ fieldLen :=
    (length_stripZeros fieldLen bs).resolve_right (Nat.not_le.mpr h)
  have hwidth : (List.replicate (fieldLen - (stripZeros fieldLen bs).length) 0 ++
      stripZeros fieldLen bs).length = fieldLen := by
    rw [List.length_append, List.length_replicate]
    omega
  rw [fixedWidthBe]
  rw [if_neg (Nat.not_lt.mpr hshort), ← ofBe_stripZeros fieldLen bs,
    ← ofBe_replicate_zero (fieldLen - (stripZeros fieldLen bs).length), toBe_ofBe hwidth]

theorem fixedWidthBe_of_le {bs : Bytes} {fieldLen : Nat} (h : 256 ^ fieldLen ≤ ofBe bs)
    (label : String) : ∃ message, fixedWidthBe bs fieldLen label = .failed message := by
  have hlong : fieldLen < (stripZeros fieldLen bs).length := by
    by_contra hshort
    have hlt := ofBe_lt (stripZeros fieldLen bs)
    rw [ofBe_stripZeros] at hlt
    have hpow : 256 ^ (stripZeros fieldLen bs).length ≤ 256 ^ fieldLen :=
      Nat.pow_le_pow_right (by decide) (Nat.not_lt.mp hshort)
    omega
  rw [fixedWidthBe]
  rw [if_pos hlong]
  exact ⟨_, rfl⟩

/-- Two integers, each as wide as the field. -/
def rawRs (r s : Bytes) (fieldLen : Nat) : Checked Bytes := do
  let r ← fixedWidthBe r fieldLen "r"
  let s ← fixedWidthBe s fieldLen "s"
  .ok (r ++ s)

theorem rawRs_of_lt {r s : Bytes} {fieldLen : Nat} (hr : ofBe r < 256 ^ fieldLen)
    (hs : ofBe s < 256 ^ fieldLen) :
    rawRs r s fieldLen = .ok (toBe fieldLen (ofBe r) ++ toBe fieldLen (ofBe s)) := by
  rw [rawRs, fixedWidthBe_of_lt hr, Checked.ok_bind, fixedWidthBe_of_lt hs, Checked.ok_bind]

theorem rawRs_of_le {r s : Bytes} {fieldLen : Nat}
    (h : 256 ^ fieldLen ≤ ofBe r ∨ 256 ^ fieldLen ≤ ofBe s) :
    ∃ message, rawRs r s fieldLen = .failed message := by
  rw [rawRs]
  rcases Nat.lt_or_ge (ofBe r) (256 ^ fieldLen) with hr | hr
  · obtain ⟨message, hfailed⟩ := fixedWidthBe_of_le (h.resolve_left (Nat.not_le.mpr hr)) "s"
    rw [fixedWidthBe_of_lt hr, Checked.ok_bind, hfailed]
    exact ⟨message, rfl⟩
  · obtain ⟨message, hfailed⟩ := fixedWidthBe_of_le hr "r"
    rw [hfailed]
    exact ⟨message, rfl⟩

theorem derToRawRs_of_decode {der r s : Bytes} (h : decodeDerEcdsaSignature der = .ok (r, s))
    (fieldLen : Nat) : derToRawRs der fieldLen = rawRs r s fieldLen := by
  rw [derToRawRs, h]
  rfl

/-- Only the values of the two integers count. -/
theorem rawRs_same {r r' s s' : Bytes} (hr : ofBe r' = ofBe r) (hs : ofBe s' = ofBe s)
    (fieldLen : Nat) : Checked.Same (rawRs r s fieldLen) (rawRs r' s' fieldLen) := by
  by_cases hfits : ofBe r < 256 ^ fieldLen ∧ ofBe s < 256 ^ fieldLen
  · rw [rawRs_of_lt hfits.1 hfits.2, rawRs_of_lt (hr ▸ hfits.1) (hs ▸ hfits.2), hr, hs]
    exact .ok _
  · have hwide : 256 ^ fieldLen ≤ ofBe r ∨ 256 ^ fieldLen ≤ ofBe s := by
      rw [Classical.not_and_iff_not_or_not, Nat.not_lt, Nat.not_lt] at hfits
      exact hfits
    obtain ⟨message, hfailed⟩ := rawRs_of_le hwide
    obtain ⟨message', hfailed'⟩ := rawRs_of_le (r := r') (s := s') (by rwa [hr, hs])
    rw [hfailed, hfailed']
    exact .failed _ _

/-! ## What is written is read -/

/-- A DER integer of given bytes. -/
def derInteger (bytes : Bytes) : Bytes := 0x02 :: (encodeDerLength bytes.length ++ bytes)

/-- The bytes of an integer that is written: there is at least one. -/
def written (body : Bytes) : Bytes := if body = [] then [0] else body

theorem encodeDerInteger_eq (body : Bytes) : encodeDerInteger body = derInteger (written body) := by
  rw [encodeDerInteger, written]
  split
  · rfl
  · rfl

theorem ofBe_written (body : Bytes) : ofBe (written body) = ofBe body := by
  rw [written]
  split
  · next h =>
    rw [h]
    rfl
  · rfl

theorem length_written (body : Bytes) : (written body).length ≤ body.length + 1 := by
  rw [written]
  split
  · exact Nat.succ_le_succ (Nat.zero_le _)
  · exact Nat.le_succ _

theorem length_encodeDerLength (n : Nat) : (encodeDerLength n).length ≤ 3 := by
  rw [encodeDerLength]
  split
  · exact Nat.le_add_left 1 2
  split
  · exact Nat.le_succ _
  · rw [List.length_cons, length_toBe]

theorem length_derInteger (bytes : Bytes) :
    (derInteger bytes).length = 1 + (encodeDerLength bytes.length).length + bytes.length := by
  rw [derInteger, List.length_cons, List.length_append]
  omega

/-- An integer that was written is read, with whatever follows it in the sequence. -/
theorem readDerInteger_derInteger {der : Bytes} (front bytes back : Bytes)
    (hder : der = front ++ derInteger bytes ++ back) (hlength : bytes.length ≤ 0xFFFF)
    (hsize : der.length < 2 ^ 64) (label : String) :
    readDerInteger der front.length der.length label =
      .ok (bytes, front.length + (derInteger bytes).length) := by
  have hwhole : der.length = front.length + (derInteger bytes).length + back.length := by
    rw [hder, List.length_append, List.length_append]
  have hinteger := length_derInteger bytes
  have htag : Checked.get der front.length = .ok 0x02 :=
    Checked.get_append (by rw [hder, derInteger, List.append_assoc, List.cons_append]) rfl
  have hbehind : Checked.slice der (front.length + 1) der.length =
      .ok (encodeDerLength bytes.length ++ (bytes ++ back)) := by
    refine Checked.slice_append (front ++ [0x02]) [] ?_ ?_ ?_
    · rw [hder, derInteger]
      simp
    · rw [List.length_append]
      rfl
    · simp only [List.length_append, List.length_singleton]
      omega
  have hbytes : Checked.slice der (front.length + 1 + (encodeDerLength bytes.length).length)
      (front.length + 1 + (encodeDerLength bytes.length).length + bytes.length) = .ok bytes := by
    refine Checked.slice_append (front ++ 0x02 :: encodeDerLength bytes.length) back ?_ ?_ ?_
    · rw [hder, derInteger]
      simp
    · simp only [List.length_append, List.length_cons]
      omega
    · simp only [List.length_append, List.length_cons]
      omega
  rw [readDerInteger, if_neg (by omega), htag, Checked.ok_bind, if_neg (by decide), hbehind,
    Checked.ok_bind, parseDerLength_encodeDerLength hlength, Checked.ofExcept_ok, Checked.ok_bind]
  dsimp only
  rw [Checked.checkedAdd_of_lt (by omega), Checked.ok_bind, if_neg (by omega), hbytes,
    Checked.ok_bind, hinteger]
  congr 2
  omega

/-- A signature that was written is read. -/
theorem decode_encodeDerSequence {r s : Bytes}
    (hsize : (derInteger r ++ derInteger s).length ≤ 0xFFFF) :
    decodeDerEcdsaSignature (encodeDerSequence (derInteger r ++ derInteger s)) = .ok (r, s) := by
  have hr := length_derInteger r
  have hs := length_derInteger s
  have hboth : (derInteger r ++ derInteger s).length =
      (derInteger r).length + (derInteger s).length := List.length_append
  generalize hbody : derInteger r ++ derInteger s = body at hsize hboth ⊢
  have hheader := length_encodeDerLength body.length
  generalize hder : encodeDerSequence body = der
  rw [encodeDerSequence] at hder
  have hlength : der.length = 1 + (encodeDerLength body.length).length + body.length := by
    rw [← hder, List.length_cons, List.length_append]
    omega
  have hbehind : Checked.slice der 1 der.length = .ok (encodeDerLength body.length ++ body) := by
    refine Checked.slice_append [0x30] [] ?_ rfl ?_
    · rw [← hder, List.append_nil]
      rfl
    · rw [← hder]
      simp only [List.length_cons, List.length_nil]
      omega
  have hparts : der = (0x30 :: encodeDerLength body.length) ++ derInteger r ++ derInteger s := by
    rw [← hder, List.cons_append, List.cons_append, List.append_assoc, hbody]
  have hparts' : der = (0x30 :: (encodeDerLength body.length ++ derInteger r)) ++ derInteger s ++
      [] := by
    rw [hparts, List.append_nil, List.cons_append]
  have hread := readDerInteger_derInteger _ _ _ hparts (by omega) (by omega) "r"
  have hread' := readDerInteger_derInteger _ _ _ hparts' (by omega) (by omega) "s"
  rw [List.length_cons] at hread
  rw [List.length_cons, List.length_append] at hread'
  rw [decodeDerEcdsaSignature, if_neg (by rw [← hder]; exact not_not_intro rfl), hbehind,
    Checked.ok_bind, parseDerLength_encodeDerLength hsize, Checked.ofExcept_ok, Checked.ok_bind]
  dsimp only
  rw [Checked.checkedAdd_of_lt (by omega), Checked.ok_bind, ← hlength, if_neg (lt_irrefl _),
    Nat.add_comm 1, hread, Checked.ok_bind]
  dsimp only
  rw [show (encodeDerLength body.length).length + 1 + (derInteger r).length =
    (encodeDerLength body.length).length + (derInteger r).length + 1 by omega, hread',
    Checked.ok_bind]
  dsimp only
  rw [if_neg (by omega)]

/-! ## SSH signatures -/

theorem length_sshString (bytes : Bytes) : (sshString bytes).length = 4 + bytes.length := by
  rw [sshString, List.length_append, length_toBe]

/-- A string is read, with whatever follows it. -/
theorem readSshString_sshString {data : Bytes} (front bytes back : Bytes)
    (hdata : data = front ++ sshString bytes ++ back) (hlength : bytes.length < 2 ^ 32)
    (hsize : data.length < 2 ^ 64) (label : String) :
    readSshString data front.length label =
      .ok (bytes, front.length + (sshString bytes).length) := by
  have hwhole : data.length = front.length + (4 + bytes.length) + back.length := by
    rw [hdata, List.length_append, List.length_append, length_sshString]
  obtain ⟨b0, b1, b2, b3, hfour⟩ : ∃ b0 b1 b2 b3, toBe 4 bytes.length = [b0, b1, b2, b3] :=
    ⟨_, _, _, _, rfl⟩
  have hnumber : ofBe [b0, b1, b2, b3] = bytes.length := by
    rw [← hfour, ofBe_toBe]
    exact Nat.mod_eq_of_lt hlength
  rw [sshString, hfour] at hdata
  have hget : ∀ i x, [b0, b1, b2, b3][i]? = some x →
      Checked.get data (front.length + i) = .ok x := by
    intro i x hx
    have hi := (List.getElem?_eq_some_iff.mp hx).1
    have hi' : i < ([b0, b1, b2, b3] ++ bytes).length := by
      rw [List.length_append]
      omega
    rw [Checked.get, hdata, List.append_assoc, List.getElem?_append_right (Nat.le_add_right _ _),
      Nat.add_sub_cancel_left, List.getElem?_append_left hi', List.getElem?_append_left hi, hx]
  have hbytes : Checked.slice data (front.length + 4) (front.length + 4 + bytes.length) =
      .ok bytes := by
    refine Checked.slice_append (front ++ [b0, b1, b2, b3]) back ?_ ?_ ?_
    · rw [hdata]
      simp
    · rw [List.length_append]
      rfl
    · rw [List.length_append]
      rfl
  rw [readSshString]
  dsimp only
  rw [Checked.checkedAdd_of_lt (by omega), Checked.ok_bind, if_neg (by omega)]
  have hfirst := hget 0 b0 rfl
  rw [Nat.add_zero] at hfirst
  rw [hfirst, Checked.ok_bind, hget 1 b1 rfl, Checked.ok_bind, hget 2 b2 rfl, Checked.ok_bind,
    hget 3 b3 rfl, Checked.ok_bind, hnumber, Checked.checkedAdd_of_lt (by omega), Checked.ok_bind,
    if_neg (by omega), hbytes, Checked.ok_bind, length_sshString, Nat.add_assoc]

/-- The two integers of an SSH signature become those of a DER sequence. -/
theorem sshEcdsaBlobToDer_encode {r s : Bytes} (hr : r.length ≤ 0xFFFF) (hs : s.length ≤ 0xFFFF) :
    sshEcdsaBlobToDer (encodeEcdsaSshSignature r s) =
      .ok (encodeDerSequence (encodeDerInteger r ++ encodeDerInteger s)) := by
  have hlength : (encodeEcdsaSshSignature r s).length =
      (sshString r).length + (sshString s).length := List.length_append
  have hrLength := length_sshString r
  have hsLength := length_sshString s
  have hparts : encodeEcdsaSshSignature r s = [] ++ sshString r ++ sshString s := rfl
  have hparts' : encodeEcdsaSshSignature r s = sshString r ++ sshString s ++ [] :=
    (List.append_nil _).symm
  have hread := readSshString_sshString _ _ _ hparts (by omega) (by omega) "r"
  have hread' := readSshString_sshString _ _ _ hparts' (by omega) (by omega) "s"
  rw [List.length_nil, Nat.zero_add] at hread
  rw [sshEcdsaBlobToDer, hread, Checked.ok_bind]
  dsimp only
  rw [hread', Checked.ok_bind]
  dsimp only
  rw [if_neg (not_not_intro hlength.symm)]

/-- What the card says and what comes of it on the way through an agent is the same. -/
theorem agentToRawRs_same {der : Bytes} (h : der.length < 65000) (fieldLen : Nat) :
    Checked.Same (derToRawRs der fieldLen) (agentToRawRs der fieldLen) := by
  rcases (answers_decodeDerEcdsaSignature der).cases with ⟨message, hfailed⟩ |
    ⟨⟨r, s⟩, hdecode, hlength, hr, hs⟩
  · rw [derToRawRs, agentToRawRs, hfailed]
    exact .failed _ _
  · dsimp only at hlength hr hs
    have hsize : (derInteger (written r) ++ derInteger (written s)).length ≤ 0xFFFF := by
      have hrHeader := length_encodeDerLength (written r).length
      have hsHeader := length_encodeDerLength (written s).length
      have hrWritten := length_written r
      have hsWritten := length_written s
      rw [List.length_append, length_derInteger, length_derInteger]
      omega
    rw [derToRawRs_of_decode hdecode, agentToRawRs, hdecode, Checked.ok_bind]
    dsimp only
    rw [sshEcdsaBlobToDer_encode hr hs, Checked.ok_bind, encodeDerInteger_eq, encodeDerInteger_eq,
      derToRawRs_of_decode (decode_encodeDerSequence hsize)]
    exact rawRs_same (ofBe_written r) (ofBe_written s) fieldLen

end Piggy.Ecdsa
