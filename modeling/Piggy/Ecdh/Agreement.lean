import Piggy.Agent.Dispatch
import Piggy.Ecdh.Codecs
import Piggy.Ecdsa.Reframing
import Piggy.Piv.Tlv

/-!
# The wire forms agree

All readers split a string off the front of what they have. They read what the others wrote,
up to the length that 32 bits can tell, and whatever a peer sends they stay inside of it.
-/

namespace Piggy.Ecdh

open Piggy.Core Piggy.Markl
open Piggy.Box (Bytes strBytes BoxError EcCurve ecPointToSshPubkeyBlob)
open Piggy.Ecdsa (sshString length_sshString)

/-! ## The string at the front -/

/-- The string at the front of some bytes, and what follows it. -/
def split (buf : Bytes) : Option (Bytes × Bytes) :=
  if buf.length < 4 then none
  else if (buf.drop 4).length < ofBe (buf.take 4) then none
  else some ((buf.drop 4).take (ofBe (buf.take 4)), (buf.drop 4).drop (ofBe (buf.take 4)))

theorem split_sshString {bytes : Bytes} (h : bytes.length < 2 ^ 32) (rest : Bytes) :
    split (sshString bytes ++ rest) = some (bytes, rest) := by
  have htake : (sshString bytes ++ rest).take 4 = toBe 4 bytes.length := by
    rw [sshString, List.append_assoc, List.take_left' (length_toBe 4 _)]
  have hdrop : (sshString bytes ++ rest).drop 4 = bytes ++ rest := by
    rw [sshString, List.append_assoc, List.drop_left' (length_toBe 4 _)]
  have hnumber : ofBe (toBe 4 bytes.length) = bytes.length := by
    rw [ofBe_toBe]
    exact Nat.mod_eq_of_lt h
  rw [split, if_neg, htake, hdrop, hnumber, if_neg, List.take_left, List.drop_left]
  · rw [List.length_append]
    omega
  · rw [List.length_append, length_sshString]
    omega

theorem split_eq_some {buf bytes rest : Bytes} (h : split buf = some (bytes, rest)) :
    buf = sshString bytes ++ rest ∧ bytes.length < 2 ^ 32 := by
  rw [split] at h
  split at h
  · cases h
  next hfour =>
  split at h
  · cases h
  next hfits =>
  cases h
  have hlen : (buf.take 4).length = 4 := List.length_take_of_le (by omega)
  have hnumber : ((buf.drop 4).take (ofBe (buf.take 4))).length = ofBe (buf.take 4) :=
    List.length_take_of_le (by omega)
  constructor
  · rw [sshString, hnumber, toBe_ofBe hlen, List.append_assoc, List.take_append_drop,
      List.take_append_drop]
  · have hlt := ofBe_lt (buf.take 4)
    rw [hlen] at hlt
    rw [hnumber]
    exact hlt

/-- Where nothing can be split off. -/
theorem split_eq_none {buf : Bytes}
    (h : buf.length < 4 ∨ (buf.drop 4).length < ofBe (buf.take 4)) : split buf = none := by
  rw [split]
  split
  · rfl
  next hfour => rw [if_pos (h.resolve_left hfour)]

/-- A length of at least four, and what the four bytes say, split a string off. -/
theorem split_of_le {buf : Bytes} (h : 4 ≤ buf.length)
    (h' : ofBe (buf.take 4) ≤ (buf.drop 4).length) :
    split buf = some ((buf.drop 4).take (ofBe (buf.take 4)), (buf.drop 4).drop (ofBe (buf.take 4))) := by
  rw [split, if_neg (by omega), if_neg (by omega)]

/-- Four bytes that are there are read. -/
theorem four_bytes {data : Bytes} {offset : Nat} (h : offset + 4 ≤ data.length) :
    ∃ b0 b1 b2 b3, (data.drop offset).take 4 = [b0, b1, b2, b3] ∧
      Checked.get data offset = .ok b0 ∧ Checked.get data (offset + 1) = .ok b1 ∧
      Checked.get data (offset + 2) = .ok b2 ∧ Checked.get data (offset + 3) = .ok b3 := by
  have hget : ∀ i, i < 4 → ∃ b, data[offset + i]? = some b ∧ Checked.get data (offset + i) = .ok b := by
    intro i hi
    have hlt : offset + i < data.length := by omega
    refine ⟨data[offset + i], List.getElem?_eq_getElem hlt, ?_⟩
    rw [Checked.get, List.getElem?_eq_getElem hlt]
  obtain ⟨b0, h0, g0⟩ := hget 0 (by omega)
  obtain ⟨b1, h1, g1⟩ := hget 1 (by omega)
  obtain ⟨b2, h2, g2⟩ := hget 2 (by omega)
  obtain ⟨b3, h3, g3⟩ := hget 3 (by omega)
  refine ⟨b0, b1, b2, b3, ?_, g0, g1, g2, g3⟩
  apply List.ext_getElem?
  intro i
  rw [List.getElem?_take, List.getElem?_drop]
  rcases i with _ | _ | _ | _ | i
  · exact (if_pos (by omega)).trans h0
  · exact (if_pos (by omega)).trans h1
  · exact (if_pos (by omega)).trans h2
  · exact (if_pos (by omega)).trans h3
  · exact if_neg (by omega)

/-! ## The readers -/

/-- The box library's reader splits a string off, or says that it is cut short. -/
theorem getStringAt_eq (data : Bytes) (pos : Nat) :
    (split (data.drop pos) = none ∧ ∃ e, getStringAt data pos = .failed e) ∨
      ∃ bytes rest, split (data.drop pos) = some (bytes, rest) ∧
        getStringAt data pos = .ok (bytes, pos + 4 + bytes.length) := by
  have hneed : ∀ p n, n ≤ data.length - p → needAt data p n = .ok () := by
    intro p n h
    rw [needAt, Box.need, if_neg]
    · rfl
    · rw [Box.WireReader.remaining, List.length_drop]
      omega
  have hshort : ∀ p n, data.length - p < n → ∃ e, needAt data p n = .failed e := by
    intro p n h
    rw [needAt, Box.need, if_pos]
    · exact ⟨_, rfl⟩
    · rw [Box.WireReader.remaining, List.length_drop]
      omega
  have hdrop : (data.drop pos).drop 4 = data.drop (pos + 4) := by rw [List.drop_drop]
  rcases Nat.lt_or_ge (data.length - pos) 4 with hfour | hfour
  · obtain ⟨e, he⟩ := hshort pos 4 hfour
    refine .inl ⟨split_eq_none (.inl (by rw [List.length_drop]; exact hfour)), e, ?_⟩
    rw [getStringAt, he]
    rfl
  · have hword : Checked.slice data pos (pos + 4) = .ok ((data.drop pos).take 4) := by
      rw [Checked.slice, if_pos ⟨by omega, by omega⟩, List.drop_take]
      congr 2
      omega
    rcases Nat.lt_or_ge (data.length - (pos + 4)) (ofBe ((data.drop pos).take 4)) with hlen | hlen
    · obtain ⟨e, he⟩ := hshort (pos + 4) _ hlen
      refine .inl ⟨split_eq_none (.inr ?_), e, ?_⟩
      · rw [hdrop, List.length_drop]
        exact hlen
      · rw [getStringAt, hneed pos 4 hfour, Checked.ok_bind, hword, Checked.ok_bind]
        dsimp only
        rw [he]
        rfl
    · refine .inr ⟨_, _, split_of_le (by rw [List.length_drop]; exact hfour) ?_, ?_⟩
      · rw [hdrop, List.length_drop]
        exact hlen
      · rw [getStringAt, hneed pos 4 hfour, Checked.ok_bind, hword, Checked.ok_bind]
        dsimp only
        rw [hneed _ _ hlen, Checked.ok_bind, Checked.slice, if_pos ⟨by omega, by omega⟩,
          Checked.ok_bind, hdrop, List.length_take_of_le (by rw [List.length_drop]; exact hlen),
          List.drop_take]
        congr 3
        omega

/-- The agent's reader fails or splits a string off; of bytes that a machine can hold it fails
only where there is none. -/
theorem readSshString_eq (data : Bytes) (offset : Nat) :
    ((data.length < 2 ^ 64 → split (data.drop offset) = none) ∧
        ∃ e, readSshString data offset = .failed e) ∨
      ∃ bytes rest, split (data.drop offset) = some (bytes, rest) ∧
        readSshString data offset = .ok (bytes, offset + 4 + bytes.length) := by
  have hdrop : (data.drop offset).drop 4 = data.drop (offset + 4) := by rw [List.drop_drop]
  rcases Nat.lt_or_ge data.length (offset + 4) with hfour | hfour
  · refine .inl ⟨fun _ => split_eq_none (.inl (by rw [List.length_drop]; omega)), ?_⟩
    rw [readSshString, Checked.checkedAdd]
    split
    · exact ⟨_, if_pos hfour⟩
    · exact ⟨_, rfl⟩
  rcases Nat.lt_or_ge (offset + 4) (2 ^ 64) with hoffset | hoffset
  swap
  · refine .inl ⟨fun h => by omega, ?_⟩
    rw [readSshString, Checked.checkedAdd, if_neg (by omega)]
    exact ⟨_, rfl⟩
  obtain ⟨b0, b1, b2, b3, htake, h0, h1, h2, h3⟩ := four_bytes hfour
  have hread : readSshString data offset =
      (do
        let stop ← Checked.checkedAdd (offset + 4) (ofBe [b0, b1, b2, b3])
          s!"SSH string: length {ofBe [b0, b1, b2, b3]} exceeds remaining data {
            data.length - (offset + 4)}"
        if data.length < stop then
          .failed s!"SSH string: length {ofBe [b0, b1, b2, b3]} exceeds remaining data {
            data.length - (offset + 4)}"
        else do
          let payload ← Checked.slice data (offset + 4) stop
          .ok (payload, stop)) := by
    rw [readSshString]
    dsimp only
    rw [Checked.checkedAdd_of_lt hoffset, Checked.ok_bind, if_neg (by omega), h0, Checked.ok_bind,
      h1, Checked.ok_bind, h2, Checked.ok_bind, h3, Checked.ok_bind]
  rw [hread]
  rcases Nat.lt_or_ge (data.length - (offset + 4)) (ofBe [b0, b1, b2, b3]) with hlen | hlen
  · refine .inl ⟨fun _ => split_eq_none (.inr ?_), ?_⟩
    · rw [hdrop, List.length_drop, htake]
      exact hlen
    · rw [Checked.checkedAdd]
      split
      · exact ⟨_, if_pos (by omega)⟩
      · exact ⟨_, rfl⟩
  rcases Nat.lt_or_ge (offset + 4 + ofBe [b0, b1, b2, b3]) (2 ^ 64) with hstop | hstop
  swap
  · refine .inl ⟨fun h => by omega, ?_⟩
    rw [Checked.checkedAdd, if_neg (by omega)]
    exact ⟨_, rfl⟩
  refine .inr ⟨_, _, split_of_le (by rw [List.length_drop]; omega) ?_, ?_⟩
  · rw [hdrop, List.length_drop, htake]
    exact hlen
  · rw [Checked.checkedAdd_of_lt hstop, Checked.ok_bind, if_neg (by omega), Checked.slice,
      if_pos ⟨by omega, by omega⟩, Checked.ok_bind, hdrop, htake,
      List.length_take_of_le (by rw [List.length_drop]; exact hlen), List.drop_take]
    congr 3
    omega

/-- Where the requests of the agent are dispatched, strings are read in the same way. -/
theorem dispatch_readSshString {data : Bytes} (hsize : data.length < 2 ^ 64) (offset : Nat)
    (x : Bytes × Nat) :
    Agent.readSshString data offset = .ok x ↔ readSshString data offset = .ok x := by
  have hdrop : (data.drop offset).drop 4 = data.drop (offset + 4) := by rw [List.drop_drop]
  rw [Agent.readSshString]
  rcases readSshString_eq data offset with ⟨hnone, e, h⟩ | ⟨bytes, rest, hsome, h⟩ <;> rw [h]
  · have hsplit := hnone hsize
    rw [split, hdrop, List.length_drop] at hsplit
    split
    · simp
    next hfour =>
    rw [if_neg (by omega)] at hsplit
    dsimp only
    split
    · simp
    next hlen =>
    rw [if_neg hlen] at hsplit
    cases hsplit
  · rw [split, hdrop, List.length_drop] at hsome
    split at hsome
    · cases hsome
    next hfour =>
    split at hsome
    · cases hsome
    next hlen =>
    cases hsome
    dsimp only
    rw [if_neg (by omega), if_neg hlen, List.length_take_of_le (by omega)]
    simp

theorem answers_readSshString (data : Bytes) (offset : Nat) :
    (readSshString data offset).Answers fun _ => True := by
  rcases readSshString_eq data offset with ⟨-, e, h⟩ | ⟨bytes, rest, -, h⟩ <;> rw [h] <;> trivial

/-- A string is read wherever it stands. -/
theorem readSshString_append (front bytes back : Bytes) (h : bytes.length < 2 ^ 32)
    (hsize : (front ++ sshString bytes ++ back).length < 2 ^ 64) :
    readSshString (front ++ sshString bytes ++ back) front.length =
      .ok (bytes, front.length + (sshString bytes).length) := by
  have hsplit : split ((front ++ sshString bytes ++ back).drop front.length) = some (bytes, back) := by
    rw [List.append_assoc, List.drop_left]
    exact split_sshString h back
  rcases readSshString_eq (front ++ sshString bytes ++ back) front.length with
    ⟨hnone, -⟩ | ⟨bytes', rest', hsome, hread⟩
  · rw [hnone hsize] at hsplit
    cases hsplit
  · cases hsplit.symm.trans hsome
    rw [hread, length_sshString, Nat.add_assoc]

theorem answers_readU32Be (data : Bytes) (offset : Nat) (label : String) :
    (readU32Be data offset label).Answers fun _ => True := by
  refine (Checked.answers_checkedAdd _ _ _).bind fun stop hstop => ?_
  subst hstop
  split
  · trivial
  next h =>
  obtain ⟨b0, b1, b2, b3, -, h0, h1, h2, h3⟩ := four_bytes (Nat.le_of_not_lt h)
  rw [h0, Checked.ok_bind, h1, Checked.ok_bind, h2, Checked.ok_bind, h3]
  trivial

theorem readU32Be_append (front back : Bytes) (value : UInt32)
    (hsize : (front ++ toBe 4 value.toNat ++ back).length < 2 ^ 64) (label : String) :
    readU32Be (front ++ toBe 4 value.toNat ++ back) front.length label = .ok value := by
  have hlen : (front ++ toBe 4 value.toNat ++ back).length = front.length + 4 + back.length := by
    rw [List.length_append, List.length_append, length_toBe]
  have hfour : front.length + 4 ≤ (front ++ toBe 4 value.toNat ++ back).length := by omega
  obtain ⟨b0, b1, b2, b3, htake, h0, h1, h2, h3⟩ := four_bytes hfour
  have hword : [b0, b1, b2, b3] = toBe 4 value.toNat := by
    rw [← htake, List.append_assoc, List.drop_left, List.take_left' (length_toBe 4 _)]
  have hvalue : UInt32.ofNat (ofBe [b0, b1, b2, b3]) = value := by
    rw [hword, ofBe_toBe]
    exact (congrArg UInt32.ofNat (Nat.mod_eq_of_lt value.toNat_lt)).trans UInt32.ofNat_toNat
  rw [readU32Be, Checked.checkedAdd_of_lt (by omega), Checked.ok_bind, if_neg (by omega), h0,
    Checked.ok_bind, h1, Checked.ok_bind, h2, Checked.ok_bind, h3, Checked.ok_bind, hvalue]

/-- The reader of pigpen documents splits a string off. -/
theorem takeString_eq (buf : Bytes) : Oracle.takeString buf = .ok (split buf) := by
  rw [Oracle.takeString, split]
  split
  · rfl
  next hfour =>
  have hrest : Checked.slice buf 4 buf.length = .ok (buf.drop 4) := by
    rw [Checked.slice, if_pos ⟨by omega, le_rfl⟩, List.take_length]
  rw [hrest, Checked.ok_bind]
  split
  · rfl
  next hlen =>
  rw [Checked.slice, if_pos ⟨Nat.zero_le _, by omega⟩, Checked.ok_bind, Checked.slice,
    if_pos ⟨by omega, le_rfl⟩, Checked.ok_bind, List.take_length]
  rfl

/-! ## Requests -/

theorem toBe_mod (n : Nat) : toBe 4 (n % 2 ^ 32) = toBe 4 n := by
  have h := toBe_ofBe (length_toBe 4 n)
  rwa [ofBe_toBe] at h

theorem putString_eq (w data : Bytes) : Box.putString w data = w ++ sshString data := by
  rw [Box.putString, Box.putRaw, Box.putU32, UInt32.toNat_ofNat', toBe_mod, sshString,
    List.append_assoc]

theorem oracle_putString_eq (out bytes : Bytes) :
    Oracle.putString out bytes = out ++ sshString bytes := List.append_assoc ..

/-- The strings and the flags that a request is made of. -/
theorem encodeEcdhRequest_eq (selfKeyBlob partnerKeyBlob : Bytes) (flags : UInt32) :
    encodeEcdhRequest selfKeyBlob partnerKeyBlob flags =
      sshString (sshString selfKeyBlob ++ sshString partnerKeyBlob ++ toBe 4 flags.toNat) := by
  rw [encodeEcdhRequest, putString_eq, putString_eq, putString_eq, Box.putU32, List.nil_append,
    List.nil_append]

theorem ecPointToSshPubkeyBlob_eq (curve : EcCurve) (point : Bytes) :
    ecPointToSshPubkeyBlob curve point =
      sshString (strBytes curve.sshKeytype) ++ sshString (strBytes curve.wireName) ++
        sshString point := by
  rw [ecPointToSshPubkeyBlob, putString_eq, putString_eq, putString_eq, List.nil_append]

section

variable {Point Key : Type} {p256 : Oracle.P256 Point}

/-- The blob that the oracle sends is the library's. -/
theorem p256SshBlob_ok {sec1 : Bytes} {p : Point} (h : p256.fromSec1Bytes sec1 = .ok p)
    (what : String) :
    Oracle.p256SshBlob p256 sec1 what =
      .ok (ecPointToSshPubkeyBlob .nistP256 (p256.uncompressed p)) := by
  rw [Oracle.p256SshBlob, h, ecPointToSshPubkeyBlob_eq]
  refine congrArg Except.ok ?_
  rw [oracle_putString_eq, oracle_putString_eq, oracle_putString_eq, List.nil_append]
  rfl

/-- The oracle's request is the library's. -/
theorem requestDetails_ok {recipient : Id} {epk : Bytes} {p q : Point}
    (hformat : recipient.format = .pivyEcdhP256Pub)
    (hp : p256.fromSec1Bytes recipient.data = .ok p) (hq : p256.fromSec1Bytes epk = .ok q) :
    Oracle.requestDetails p256 recipient epk =
      .ok (encodeEcdhRequest (ecPointToSshPubkeyBlob .nistP256 (p256.uncompressed p))
        (ecPointToSshPubkeyBlob .nistP256 (p256.uncompressed q)) 0) := by
  rw [Oracle.requestDetails, if_neg (not_not_intro hformat), p256SshBlob_ok hp, ok_bind,
    p256SshBlob_ok hq, ok_bind, encodeEcdhRequest_eq]
  refine congrArg Except.ok ?_
  rw [oracle_putString_eq, oracle_putString_eq, oracle_putString_eq, List.nil_append]
  rfl

end

theorem length_ecPointToSshPubkeyBlob (curve : EcCurve) (point : Bytes) :
    (ecPointToSshPubkeyBlob curve point).length = 39 + point.length := by
  have hshort : (strBytes curve.sshKeytype).length = 19 ∧ (strBytes curve.wireName).length = 8 := by
    cases curve <;> decide +kernel
  rw [ecPointToSshPubkeyBlob_eq, List.length_append, List.length_append, length_sshString,
    length_sshString, length_sshString]
  omega

/-- The point of a blob is read back. -/
theorem extractEcPointFromSshBlob_blob (curve : EcCurve) {point : Bytes}
    (h : point.length < 2 ^ 32) :
    extractEcPointFromSshBlob (ecPointToSshPubkeyBlob curve point) = .ok point := by
  have hshort : (strBytes curve.sshKeytype).length = 19 ∧ (strBytes curve.wireName).length = 8 := by
    cases curve <;> decide +kernel
  have hsize : (sshString (strBytes curve.sshKeytype) ++ sshString (strBytes curve.wireName) ++
      sshString point).length = 39 + point.length := by
    rw [List.length_append, List.length_append, length_sshString, length_sshString,
      length_sshString]
    omega
  rw [ecPointToSshPubkeyBlob_eq]
  have hfirst := readSshString_append [] (strBytes curve.sshKeytype)
    (sshString (strBytes curve.wireName) ++ sshString point) (by omega)
    (by rw [List.nil_append, ← List.append_assoc]; omega)
  have hsecond := readSshString_append (sshString (strBytes curve.sshKeytype))
    (strBytes curve.wireName) (sshString point) (by omega) (by omega)
  have hthird := readSshString_append
    (sshString (strBytes curve.sshKeytype) ++ sshString (strBytes curve.wireName)) point [] h
    (by rw [List.append_nil]; omega)
  rw [List.nil_append, List.length_nil, Nat.zero_add, ← List.append_assoc] at hfirst
  rw [List.append_nil, List.length_append] at hthird
  rw [extractEcPointFromSshBlob, hfirst, Checked.ok_bind]
  dsimp only
  rw [hsecond, Checked.ok_bind]
  dsimp only
  rw [hthird, Checked.ok_bind]

section

variable {Point Key : Type} {p256 : Oracle.P256 Point} {publicKeyFromBytes : Bytes → Except String Key}

/-- What the agent reads from a request that was written for two keys. -/
theorem readEcdhRequest_encode {selfKeyBlob : Bytes} {key : Key}
    (hkey : publicKeyFromBytes selfKeyBlob = .ok key) (curve : EcCurve) {point : Bytes}
    (hlength : selfKeyBlob.length + point.length < 2 ^ 32 - 64) (flags : UInt32) :
    readEcdhRequest publicKeyFromBytes
        (encodeEcdhRequest selfKeyBlob (ecPointToSshPubkeyBlob curve point) flags) =
      .ok (key, point, flags) := by
  have hblob := length_ecPointToSshPubkeyBlob curve point
  have hpoint : extractEcPointFromSshBlob (ecPointToSshPubkeyBlob curve point) = .ok point :=
    extractEcPointFromSshBlob_blob curve (by omega)
  generalize ecPointToSshPubkeyBlob curve point = partnerBlob at hblob hpoint ⊢
  rw [encodeEcdhRequest_eq]
  have hinner : (sshString selfKeyBlob ++ sshString partnerBlob ++ toBe 4 flags.toNat).length =
      51 + selfKeyBlob.length + point.length := by
    rw [List.length_append, List.length_append, length_sshString, length_sshString, length_toBe]
    omega
  have houter := readSshString_append []
    (sshString selfKeyBlob ++ sshString partnerBlob ++ toBe 4 flags.toNat) [] (by omega)
    (by rw [List.nil_append, List.append_nil, length_sshString]; omega)
  have hcard := readSshString_append [] selfKeyBlob (sshString partnerBlob ++ toBe 4 flags.toNat)
    (by omega) (by rw [List.nil_append, ← List.append_assoc]; omega)
  have hpartner := readSshString_append (sshString selfKeyBlob) partnerBlob (toBe 4 flags.toNat)
    (by omega) (by omega)
  have hflags := readU32Be_append (sshString selfKeyBlob ++ sshString partnerBlob) [] flags
    (by rw [List.append_nil]; omega) "ecdh"
  rw [List.nil_append, List.append_nil, List.length_nil, Nat.zero_add] at houter
  rw [List.nil_append, List.length_nil, Nat.zero_add, ← List.append_assoc] at hcard
  rw [List.append_nil, List.length_append] at hflags
  rw [readEcdhRequest, houter, Checked.ok_bind]
  dsimp only
  rw [hcard, Checked.ok_bind]
  dsimp only
  rw [hpartner, Checked.ok_bind]
  dsimp only
  rw [hflags, Checked.ok_bind, hkey, hpoint]
  rfl

theorem answers_extractEcPointFromSshBlob (blob : Bytes) :
    (extractEcPointFromSshBlob blob).Answers fun _ => True := by
  refine (answers_readSshString _ _).bind fun _ _ => ?_
  refine (answers_readSshString _ _).bind fun _ _ => ?_
  exact (answers_readSshString _ _).bind fun _ _ => trivial

theorem answers_readEcdhRequest (publicKeyFromBytes : Bytes → Except String Key) (details : Bytes) :
    (readEcdhRequest publicKeyFromBytes details).Answers fun _ => True := by
  refine (answers_readSshString _ _).bind fun _ _ => ?_
  refine (answers_readSshString _ _).bind fun _ _ => ?_
  refine (answers_readSshString _ _).bind fun _ _ => ?_
  refine (answers_readU32Be _ _ _).bind fun _ _ => ?_
  refine (Checked.answers_ofExcept fun _ _ => trivial).bind fun _ _ => ?_
  exact (answers_extractEcPointFromSshBlob _).bind fun _ _ => trivial

/-! ## Responses -/

/-- Exactly the responses with nothing behind the secret are decoded. -/
theorem answers_decodeEcdhResponse (details : Bytes) :
    (decodeEcdhResponse details).Answers fun secret => details = ecdhResponse secret := by
  rw [decodeEcdhResponse]
  split
  · trivial
  rcases getStringAt_eq details 0 with ⟨-, e, h⟩ | ⟨bytes, rest, hsplit, h⟩
  · rw [h]
    trivial
  · rw [h]
    dsimp only
    have heq := (split_eq_some hsplit).1
    rw [List.drop_zero] at heq
    split
    · trivial
    next hrest =>
    have hall : details.length = 4 + bytes.length + rest.length := by
      rw [heq, List.length_append, length_sshString]
    obtain rfl : rest = [] := List.length_eq_zero_iff.mp (by omega)
    rw [heq, List.append_nil]
    rfl

theorem decodeEcdhResponse_ecdhResponse {secret : Bytes} (h : secret.length < 2 ^ 32) :
    decodeEcdhResponse (ecdhResponse secret) = .ok secret := by
  have hlength : (ecdhResponse secret).length = 4 + secret.length := length_sshString secret
  have hsplit : split ((ecdhResponse secret).drop 0) = some (secret, []) := by
    have := split_sshString h []
    rwa [List.append_nil] at this
  rcases getStringAt_eq (ecdhResponse secret) 0 with
    ⟨hnone, -⟩ | ⟨bytes, rest, hsome, hread⟩
  · rw [hsplit] at hnone
    cases hnone
  · cases hsplit.symm.trans hsome
    rw [decodeEcdhResponse, if_neg (by omega), hread]
    dsimp only
    rw [if_neg (by omega)]

theorem answers_parseReply (socket name : String) (reply : Bytes) :
    (parseReply socket name reply).Answers fun answer =>
      (answer = .refused ∧ reply.head? = some sshAgentFailure) ∨
        ∃ n ∈ names, ∃ secret : Bytes, answer = .secret secret ∧ secret.length = 32 ∧
          reply = extensionResponse n (ecdhResponse secret) := by
  rw [parseReply.eq_def]
  dsimp only
  split
  · trivial
  next kind rest =>
  split
  · next hkind => exact .inl ⟨rfl, by rw [hkind]; rfl⟩
  split
  swap
  · trivial
  next hkind =>
  have hbehind : Checked.slice (kind :: rest) 1 (kind :: rest).length = .ok rest := by
    rw [Checked.slice, if_pos ⟨by simp, le_rfl⟩, List.take_length, List.drop_one, List.tail_cons]
  rw [hbehind, Checked.ok_bind, takeString_eq, Checked.ok_bind]
  split
  · trivial
  next echoed behind hechoed =>
  split
  · trivial
  next hname =>
  rw [takeString_eq, Checked.ok_bind]
  split
  · trivial
  next secret last hsecret =>
  split
  · trivial
  next hlast =>
  split
  · trivial
  next hlength =>
  obtain ⟨heq, -⟩ := split_eq_some hechoed
  obtain ⟨heq', -⟩ := split_eq_some hsecret
  obtain ⟨n, hn, hecho⟩ : ∃ n ∈ names, strBytes n = echoed := by simpa using hname
  refine .inr ⟨n, hn, secret, rfl, Decidable.not_not.mp hlength, ?_⟩
  rw [extensionResponse, oracle_putString_eq, hkind, heq, heq', Decidable.not_not.mp hlast,
    hecho, List.append_nil]
  rfl

theorem length_names : ∀ name ∈ names, (strBytes name).length < 2 ^ 32 := by
  decide +kernel

/-- A response tells its secret. -/
theorem extensionResponse_inj {n name : String} (hn : n ∈ names) (hname : name ∈ names)
    {secret secret' : Bytes}
    (h : extensionResponse n (ecdhResponse secret) = extensionResponse name (ecdhResponse secret')) :
    secret = secret' := by
  rw [extensionResponse, extensionResponse, oracle_putString_eq, oracle_putString_eq] at h
  have hsplit := congrArg split (List.cons.inj h).2
  rw [List.nil_append, List.nil_append, split_sshString (length_names n hn),
    split_sshString (length_names name hname)] at hsplit
  have hresponse : ecdhResponse secret = ecdhResponse secret' :=
    (Prod.mk.inj (Option.some.inj hsplit)).2
  exact (List.append_inj hresponse (by rw [length_toBe, length_toBe])).2

theorem parseReply_of_length {secret : Bytes} (h : secret.length = 32) (socket asked : String)
    {name : String} (hname : name ∈ names) :
    parseReply socket asked (extensionResponse name (ecdhResponse secret)) =
      .ok (.secret secret) := by
  have hsecret : split (ecdhResponse secret) = some (secret, []) := by
    have := split_sshString (show secret.length < 2 ^ 32 by omega) []
    rwa [List.append_nil] at this
  have hecho : ¬ (!names.any fun n => strBytes n = strBytes name) = true := by
    simpa using ⟨name, hname, rfl⟩
  rw [extensionResponse, oracle_putString_eq, List.nil_append, parseReply]
  rw [if_neg (by decide), if_pos rfl, Checked.slice,
    if_pos ⟨by simp, le_rfl⟩, List.take_length, List.drop_one, List.tail_cons, Checked.ok_bind,
    takeString_eq, Checked.ok_bind, split_sshString (length_names name hname)]
  dsimp only
  rw [if_neg hecho, takeString_eq, Checked.ok_bind, hsecret]
  dsimp only
  rw [if_neg (not_not_intro rfl), if_neg (not_not_intro h)]

/-- The oracle accepts the secrets of 32 bytes only. -/
theorem parseReply_extensionResponse (socket asked : String) {name : String} (hname : name ∈ names)
    (secret : Bytes) :
    (secret.length = 32 ∧
        parseReply socket asked (extensionResponse name (ecdhResponse secret)) =
          .ok (.secret secret)) ∨
      (secret.length ≠ 32 ∧ ∃ e,
        parseReply socket asked (extensionResponse name (ecdhResponse secret)) = .failed e) := by
  by_cases h : secret.length = 32
  · exact .inl ⟨h, parseReply_of_length h socket asked hname⟩
  refine .inr ⟨h, ?_⟩
  rcases (answers_parseReply socket asked (extensionResponse name (ecdhResponse secret))).cases with
    hfailed | ⟨answer, -, ⟨-, hhead⟩ | ⟨n, hn, secret', -, hlength, heq⟩⟩
  · exact hfailed
  · exact absurd (Option.some.inj hhead) (by decide)
  · obtain rfl := extensionResponse_inj hname hn heq
    exact absurd hlength h

/-- What the three programs write and read fits together, and none of them reads outside of what
a peer sent. -/
structure CodecsAgree (p256 : Oracle.P256 Point) (publicKeyFromBytes : Bytes → Except String Key)
    (keyOf : Point → Key) : Prop where
  sameRequest : ∀ (recipient : Id) epk p q, recipient.format = .pivyEcdhP256Pub →
    p256.fromSec1Bytes recipient.data = .ok p → p256.fromSec1Bytes epk = .ok q →
    Oracle.requestDetails p256 recipient epk =
      .ok (encodeEcdhRequest (ecPointToSshPubkeyBlob .nistP256 (p256.uncompressed p))
        (ecPointToSshPubkeyBlob .nistP256 (p256.uncompressed q)) 0)
  requestRead : ∀ p q flags,
    readEcdhRequest publicKeyFromBytes
        (encodeEcdhRequest (ecPointToSshPubkeyBlob .nistP256 (p256.uncompressed p))
          (ecPointToSshPubkeyBlob .nistP256 (p256.uncompressed q)) flags) =
      .ok (keyOf p, p256.uncompressed q, flags)
  secretRead : ∀ secret : Bytes, secret.length < 2 ^ 32 →
    decodeEcdhResponse (ecdhResponse secret) = .ok secret
  /-- A card answers with no longer secret. -/
  cardSecretRead : ∀ resp secret, Piv.parseGaResponse resp = .ok secret →
    decodeEcdhResponse (ecdhResponse secret) = .ok secret
  replyRead : ∀ socket asked, ∀ name ∈ names, ∀ secret : Bytes,
    (secret.length = 32 ∧
        parseReply socket asked (extensionResponse name (ecdhResponse secret)) =
          .ok (.secret secret)) ∨
      (secret.length ≠ 32 ∧ ∃ e,
        parseReply socket asked (extensionResponse name (ecdhResponse secret)) = .failed e)
  requestAnswered : ∀ details,
    (readEcdhRequest publicKeyFromBytes details).Answers fun _ => True
  responseAnswered : ∀ details,
    (decodeEcdhResponse details).Answers fun secret => details = ecdhResponse secret
  replyAnswered : ∀ socket asked reply,
    (parseReply socket asked reply).Answers fun answer =>
      (answer = .refused ∧ reply.head? = some sshAgentFailure) ∨
        ∃ n ∈ names, ∃ secret : Bytes, answer = .secret secret ∧ secret.length = 32 ∧
          reply = extensionResponse n (ecdhResponse secret)

/-- The wire forms agree, for every secret that a card can answer with. -/
theorem codecsAgree {keyOf : Point → Key} (hlength : ∀ p, (p256.uncompressed p).length = 65)
    (hkey : ∀ p, publicKeyFromBytes (ecPointToSshPubkeyBlob .nistP256 (p256.uncompressed p)) =
      .ok (keyOf p)) :
    CodecsAgree p256 publicKeyFromBytes keyOf where
  sameRequest _ _ _ _ hformat hp hq := requestDetails_ok hformat hp hq
  requestRead p q flags := by
    refine readEcdhRequest_encode (hkey p) .nistP256 ?_ flags
    rw [length_ecPointToSshPubkeyBlob, hlength, hlength]
    decide
  secretRead _ h := decodeEcdhResponse_ecdhResponse h
  cardSecretRead _ _ h := decodeEcdhResponse_ecdhResponse
    ((Piv.length_parseGaResponse h).trans (by decide))
  replyRead socket asked _ hname secret := parseReply_extensionResponse socket asked hname secret
  requestAnswered := answers_readEcdhRequest publicKeyFromBytes
  responseAnswered := answers_decodeEcdhResponse
  replyAnswered := answers_parseReply

/-- A failure is told by its first byte, whatever stands behind it. -/
theorem not_whole : ¬ ∀ socket asked reply more answer answer', more ≠ [] →
    parseReply socket asked reply = .ok answer →
      parseReply socket asked (reply ++ more) ≠ .ok answer' :=
  fun h => h "agent.sock" canonical [5] [0] .refused .refused (by simp) rfl rfl

end

/-! ## Points of one byte -/

def sampleP256 : Oracle.P256 UInt8 where
  fromSec1Bytes bytes :=
    let p := bytes.getLastD 0
    if bytes = 2 :: List.replicate 31 0 ++ [p] ∨ bytes = 4 :: List.replicate 63 0 ++ [p] then .ok p
    else .error "crypto error"
  uncompressed p := 4 :: List.replicate 63 0 ++ [p]

/-- A key is told by the point of its blob. -/
def samplePublicKey (blob : Bytes) : Except String Bytes :=
  match extractEcPointFromSshBlob blob with
  | .ok point => .ok point
  | _ => .error "unexpected length"

theorem codecsAgree_sample :
    CodecsAgree sampleP256 samplePublicKey sampleP256.uncompressed ∧
      readEcdhRequest samplePublicKey
          (encodeEcdhRequest (ecPointToSshPubkeyBlob .nistP256 (sampleP256.uncompressed 3))
            (ecPointToSshPubkeyBlob .nistP256 (sampleP256.uncompressed 7)) 1) =
        .ok (sampleP256.uncompressed 3, sampleP256.uncompressed 7, 1) ∧
      decodeEcdhResponse (ecdhResponse [0xAA, 0xBB]) = .ok [0xAA, 0xBB] := by
  have h : CodecsAgree sampleP256 samplePublicKey sampleP256.uncompressed :=
    codecsAgree (fun _ => by simp [sampleP256]) fun p => by
      rw [samplePublicKey, extractEcPointFromSshBlob_blob _ (by simp [sampleP256])]
  refine ⟨h, h.requestRead 3 7 1, h.cardSecretRead [0x7C, 0x04, 0x82, 0x02, 0xAA, 0xBB] _ ?_⟩
  rfl

end Piggy.Ecdh
