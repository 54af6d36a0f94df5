import Piggy.Store.Listing

/-!
# The suffix of an ebox

A file name that is an ebox's ends in five ASCII characters, whatever stands before them. The
suffix is still there when the name is decoded for a listing, so it can be cut off.
-/

namespace Piggy.Store

open Piggy.Core
open Piggy.Box (Bytes strBytes strBytes_ofList fromUtf8 fromUtf8_ok fromUtf8Lossy utf8ErrorLen
  isContinuation)

/-! ## Decoding what ends in ASCII -/

/-- A broken sequence ends before an ASCII byte. -/
theorem utf8ErrorLen_append {x t : Bytes} (hx : x ≠ []) (ht : t ≠ []) (hascii : IsAscii t) :
    ∃ len, utf8ErrorLen (x ++ t) = some len ∧ 1 ≤ len ∧ len ≤ x.length := by
  obtain ⟨a, x, rfl⟩ := List.exists_cons_of_ne_nil hx
  obtain ⟨b, t, rfl⟩ := List.exists_cons_of_ne_nil ht
  have hb : b < 0x80 := UInt8.lt_iff_toNat_lt.mpr (hascii b List.mem_cons_self)
  have hlow : ∀ first low : UInt8, (b < if first = low then 0xA0 else 0x80) ∧
      (b < if first = low then 0x90 else 0x80) := by
    intro first low
    split
    · exact ⟨UInt8.lt_trans hb (by decide), UInt8.lt_trans hb (by decide)⟩
    · exact ⟨hb, hb⟩
  have hnot : isContinuation b = false := by
    rw [isContinuation, decide_eq_false (UInt8.not_le.mpr hb), Bool.false_and]
  cases x with
  | nil =>
    refine ⟨1, ?_, le_rfl, le_rfl⟩
    unfold utf8ErrorLen
    dsimp only [List.singleton_append]
    split
    · rfl
    split
    · rw [if_pos (by rw [decide_eq_true (hlow a 0xE0).1]; rfl)]
    split
    · rw [if_pos (by rw [decide_eq_true (hlow a 0xF0).2]; rfl)]
    · rfl
  | cons c x =>
    have hone : ∃ len, some 1 = some len ∧ 1 ≤ len ∧ len ≤ (a :: c :: x).length :=
      ⟨1, rfl, le_rfl, by simp⟩
    have htwo : ∃ len, some 2 = some len ∧ 1 ≤ len ∧ len ≤ (a :: c :: x).length :=
      ⟨2, rfl, by decide, by simp⟩
    have hempty : (x ++ b :: t).isEmpty = false := by cases x <;> rfl
    unfold utf8ErrorLen
    dsimp only [List.cons_append]
    split
    · exact hone
    split
    · generalize (decide (c < if a = 0xE0 then 0xA0 else 0x80) ||
        decide ((if a = 0xED then 0x9F else 0xBF) < c)) = bad
      cases bad with
      | true => exact hone
      | false =>
        rw [hempty]
        exact htwo
    split
    · generalize (decide (c < if a = 0xF0 then 0x90 else 0x80) ||
        decide ((if a = 0xF4 then 0x8F else 0xBF) < c)) = bad
      cases bad with
      | true => exact hone
      | false =>
        cases x with
        | nil =>
          dsimp only [List.nil_append]
          rw [hnot]
          exact htwo
        | cons d x =>
          dsimp only [List.cons_append]
          cases isContinuation d with
          | false => exact htwo
          | true =>
            have hempty' : (x ++ b :: t).isEmpty = false := by cases x <;> rfl
            rw [hempty']
            exact ⟨3, rfl, by decide, by simp⟩
    · exact hone

/-- The last characters of a text that ends in ASCII bytes. -/
theorem utf8_append_ascii {s : List Char} {x t : Bytes} (hascii : IsAscii t) (h : utf8 s = x ++ t) :
    ∃ front, s = front ++ t.map asciiChar ∧ utf8 front = x := by
  cases t with
  | nil => exact ⟨s, (List.append_nil s).symm, by rw [h, List.append_nil]⟩
  | cons b t =>
    obtain ⟨front, back, rfl, hfront, hback⟩ := utf8_split (hascii b List.mem_cons_self) h
    refine ⟨front, ?_, hfront.symm⟩
    have hrest : IsAscii (utf8 back) := by
      rw [← hback]
      exact fun c hc => hascii c (List.mem_cons_of_mem _ hc)
    rw [List.map_cons, hback, ← eq_map_asciiChar hrest]

theorem fromUtf8_utf8 (s : List Char) : fromUtf8 (utf8 s) = .ok (String.ofList s) :=
  fromUtf8_ok.mpr (strBytes_ofList s).symm

theorem strBytes_eq_utf8 (s : String) : strBytes s = utf8 s.toList := by
  rw [← String.ofList_toList (s := s), strBytes_ofList, String.toList_ofList]
  rfl

/-- Decoding with replacements keeps the ASCII characters at the end. -/
theorem fromUtf8Lossy_append_ascii (x : Bytes) {t : Bytes} (ht : t ≠ []) (hascii : IsAscii t) :
    ∃ front, fromUtf8Lossy (x ++ t) = front ++ t.map asciiChar := by
  induction hn : x.length using Nat.strongRecOn generalizing x with
  | _ n ih =>
    rw [fromUtf8Lossy]
    cases hdecode : fromUtf8 (x ++ t) with
    | ok s =>
      have hbytes : utf8 s.toList = x ++ t := by
        rw [fromUtf8_ok.mp hdecode, strBytes_eq_utf8]
      obtain ⟨front, hfront, -⟩ := utf8_append_ascii hascii hbytes
      exact ⟨front, hfront⟩
    | error e =>
      dsimp only
      generalize hv : ((List.range ((x ++ t).length + 1)).reverse.find? fun n =>
        (fromUtf8 ((x ++ t).take n)).isOk).getD 0 = v
      have hvalid : ∃ s : List Char, (x ++ t).take v = utf8 s := by
        cases hfind : ((List.range ((x ++ t).length + 1)).reverse.find? fun n =>
          (fromUtf8 ((x ++ t).take n)).isOk) with
        | none =>
          rw [hfind] at hv
          subst hv
          exact ⟨[], rfl⟩
        | some n =>
          rw [hfind] at hv
          obtain rfl : n = v := hv
          have hok : (fromUtf8 ((x ++ t).take n)).isOk = true := by
            simpa using List.find?_some hfind
          obtain ⟨s, hs⟩ := exists_ok hok
          exact ⟨s.toList, by rw [fromUtf8_ok.mp hs, strBytes_eq_utf8]⟩
      -- it ends before the ASCII bytes: these could be decoded as well
      have hlt : v < x.length := by
        by_contra hge
        obtain ⟨s, hs⟩ := hvalid
        rw [List.take_append, List.take_of_length_le (show x.length ≤ v by omega)] at hs
        have hrest : IsAscii (t.drop (v - x.length)) := fun c hc => hascii c (List.mem_of_mem_drop hc)
        have hall : fromUtf8 (x ++ t) =
            .ok (String.ofList (s ++ (t.drop (v - x.length)).map asciiChar)) := by
          rw [← fromUtf8_utf8, utf8_append, utf8_map_asciiChar hrest, ← hs, List.append_assoc,
            List.take_append_drop]
        rw [hall] at hdecode
        cases hdecode
      have hrest : (x ++ t).drop v = x.drop v ++ t := List.drop_append_of_le_length (by omega)
      rw [hrest]
      have hne : x.drop v ≠ [] := by
        apply List.ne_nil_of_length_pos
        rw [List.length_drop]
        omega
      obtain ⟨len, hlen, hpos, hle⟩ := utf8ErrorLen_append hne ht hascii
      rw [List.length_drop] at hle
      have hdrop : (x ++ t).drop (v + len) = x.drop (v + len) ++ t :=
        List.drop_append_of_le_length (show v + len ≤ x.length by omega)
      obtain ⟨front, hfront⟩ := ih (x.drop (v + len)).length (by rw [List.length_drop]; omega)
        (x.drop (v + len)) rfl
      rw [hlen]
      dsimp only
      rw [hdrop, if_pos (by simp only [List.length_append, List.length_drop]; omega), hfront]
      exact ⟨_, by rw [← List.cons_append, ← List.append_assoc]⟩

/-! ## Extensions -/

theorem strBytes_ebox : strBytes "ebox" = [0x65, 0x62, 0x6F, 0x78] := by
  decide +kernel

theorem strBytes_dotEbox : strBytes ".ebox" = dot :: strBytes "ebox" := by
  decide +kernel

theorem asciiLower_lt {b : UInt8} (h : (asciiLower b).toNat < 128) : b.toNat < 128 := by
  rw [asciiLower] at h
  split at h
  next hb =>
    have := UInt8.le_iff_toNat_le.mp hb.2
    have h5A : (0x5A : UInt8).toNat = 90 := rfl
    omega
  · exact h

/-- The extension of an ebox is ASCII and has no dot. -/
theorem ascii_of_ebox {ext : Bytes} (h : eqIgnoreAsciiCase ext (strBytes "ebox") = true) :
    IsAscii (dot :: ext) ∧ dot ∉ ext ∧ ext.length = 4 := by
  have hmap : ext.map asciiLower = [0x65, 0x62, 0x6F, 0x78] := by
    rw [of_decide_eq_true h, strBytes_ebox]
    decide
  have hmem : ∀ b ∈ ext, asciiLower b ∈ ([0x65, 0x62, 0x6F, 0x78] : Bytes) := by
    intro b hb
    rw [← hmap]
    exact List.mem_map_of_mem hb
  refine ⟨?_, ?_, ?_⟩
  · intro b hb
    rcases List.mem_cons.mp hb with rfl | hb
    · decide
    · refine asciiLower_lt ?_
      have := hmem b hb
      simp only [List.mem_cons, List.not_mem_nil, or_false] at this
      rcases this with h | h | h | h <;> rw [h] <;> decide
  · intro hdot
    exact absurd (hmem dot hdot) (by decide)
  · have := congrArg List.length hmap
    rwa [List.length_map] at this

/-- What is an ebox, by its file name. -/
theorem isEbox_iff {p name : Bytes} (h : osFileName p = some name) :
    isEbox p = true ↔ ∃ stem ext, stem ≠ [] ∧ name = stem ++ dot :: ext ∧
      eqIgnoreAsciiCase ext (strBytes "ebox") = true := by
  rw [isEbox, osExtension, h]
  dsimp only
  constructor
  · intro hebox
    have hsplit := List.takeWhile_append_dropWhile (p := (· ≠ dot)) (l := name.reverse)
    rcases hdrop : name.reverse.dropWhile (· ≠ dot) with _ | ⟨b, more⟩
    · rw [hdrop, List.append_nil] at hsplit
      rw [if_pos (by rw [hsplit, List.length_reverse, List.length_reverse])] at hebox
      cases hebox
    · have hb : b = dot := by
        have hhead : ∀ l : Bytes, l = b :: more → (w : l ≠ []) → l.head w = b := by
          rintro _ rfl _
          rfl
        have hne : name.reverse.dropWhile (· ≠ dot) ≠ [] := by
          rw [hdrop]
          exact List.cons_ne_nil _ _
        have hnot := List.head_dropWhile_not (· ≠ dot) hne
        rw [hhead _ hdrop hne] at hnot
        exact Decidable.not_not.mp (of_decide_eq_false hnot)
      rw [hdrop, hb] at hsplit
      generalize name.reverse.takeWhile (· ≠ dot) = after at hsplit hebox
      have hname : name = more.reverse ++ dot :: after.reverse := by
        rw [← List.reverse_reverse name, ← hsplit]
        simp
      have hlength : name.length = more.length + 1 + after.length := by
        rw [hname]
        simp only [List.length_append, List.length_cons, List.length_reverse]
        omega
      rw [List.length_reverse, if_neg (by omega)] at hebox
      by_cases hmore : name.length - after.length - 1 = 0
      · rw [if_pos hmore] at hebox
        cases hebox
      · rw [if_neg hmore] at hebox
        refine ⟨more.reverse, after.reverse, ?_, hname, hebox⟩
        apply List.ne_nil_of_length_pos
        rw [List.length_reverse]
        omega
  · rintro ⟨stem, ext, hstem, rfl, hebox⟩
    have hdot := (ascii_of_ebox hebox).2.1
    have hafter : (((stem ++ dot :: ext).reverse.takeWhile (· ≠ dot)).reverse) = ext := by
      have hall : ∀ b ∈ ext.reverse, decide (b ≠ dot) = true := by
        intro b hb
        refine decide_eq_true ?_
        rintro rfl
        exact hdot (List.mem_reverse.mp hb)
      rw [List.reverse_append, List.reverse_cons, List.append_assoc,
        List.takeWhile_append_of_pos hall]
      simp
    have hpos := List.length_pos_of_ne_nil hstem
    rw [hafter, if_neg, if_neg]
    · exact hebox
    · rw [List.length_append, List.length_cons]
      omega
    · rw [List.length_append, List.length_cons]
      omega

theorem osFileName_pathOf {root : Bytes} (hroot : root ≠ []) {above : List Bytes} {n : Bytes}
    (h : ∀ m ∈ above ++ [n], IsName m) : osFileName (pathOf root (above ++ [n])) = some n := by
  rw [osFileName, osComponents_pathOf hroot h, List.map_append, ← List.append_assoc, List.map_singleton,
    List.getLast?_concat]

/-- The suffix of an ebox's name can be cut off. -/
theorem stripEboxSuffix_ok (stem : Bytes) {ext : Bytes} (h : eqIgnoreAsciiCase ext (strBytes "ebox") = true) :
    ∃ front, fromUtf8Lossy (stem ++ dot :: ext) = front ++ (dot :: ext).map asciiChar ∧
      stripEboxSuffix (String.ofList (fromUtf8Lossy (stem ++ dot :: ext))) =
        some (String.ofList front) := by
  obtain ⟨hascii, -, hlength⟩ := ascii_of_ebox h
  obtain ⟨front, hfront⟩ := fromUtf8Lossy_append_ascii stem (List.cons_ne_nil dot ext) hascii
  refine ⟨front, hfront, ?_⟩
  have hbytes : strBytes (String.ofList (fromUtf8Lossy (stem ++ dot :: ext))) =
      utf8 front ++ dot :: ext := by
    rw [hfront, strBytes_eq_utf8, String.toList_ofList, utf8_append, utf8_map_asciiChar hascii]
  have hsuffix : (strBytes ".ebox").length = 5 := by decide +kernel
  have hsub : (utf8 front ++ dot :: ext).length - 5 = (utf8 front).length := by
    rw [List.length_append, List.length_cons, hlength]
    omega
  have hequal : eqIgnoreAsciiCase (dot :: ext) (strBytes ".ebox") = true := by
    rw [eqIgnoreAsciiCase, strBytes_dotEbox, List.map_cons, List.map_cons, of_decide_eq_true h]
    exact decide_eq_true rfl
  rw [stripEboxSuffix, hbytes, hsuffix, hsub, List.take_left, List.drop_left, fromUtf8_utf8, if_pos]
  · dsimp only
    rw [if_pos hequal]
  · rw [List.length_append, List.length_cons, hlength]
    omega

end Piggy.Store
