import Piggy.Go.Id

/-!
# The string functions of Go on text

Go cuts and trims byte strings. On the bytes of a text, and at ASCII patterns, that is what
cutting and trimming the characters gives.
-/

namespace Piggy.Go

open Piggy.Core

/-! ## Cutting at a pattern -/

/-- The parts of a string around the place that `strings.Index` finds. -/
def cutAt (pattern : Bytes) : Bytes → Option (Bytes × Bytes)
  | [] => if pattern = [] then some ([], []) else none
  | b :: bs =>
    if pattern <+: b :: bs then some ([], (b :: bs).drop pattern.length)
    else (cutAt pattern bs).map fun (before, after) => (b :: before, after)

/-- Bytes that do not start the pattern are passed over. -/
theorem cutAt_append {first : UInt8} {more passed : Bytes} (h : first ∉ passed) (rest : Bytes) :
    cutAt (first :: more) (passed ++ rest) =
      (cutAt (first :: more) rest).map fun (before, after) => (passed ++ before, after) := by
  induction passed with
  | nil => simp
  | cons b bs ih =>
    obtain ⟨hb, hbs⟩ := not_or.mp (mt List.mem_cons.mpr h)
    have hno : ¬ first :: more <+: b :: (bs ++ rest) := fun hp => hb (List.cons_prefix_cons.mp hp).1
    rw [List.cons_append, cutAt, if_neg hno, ih hbs, Option.map_map]
    rfl

/-- One text starts with another exactly when its bytes start with the other's. -/
theorem utf8_prefix_iff {m s : List Char} : utf8 m <+: utf8 s ↔ m <+: s := by
  constructor
  · intro h
    induction m generalizing s with
    | nil => exact List.nil_prefix
    | cons c m ih =>
      obtain ⟨rest, hrest⟩ := h
      rw [utf8_cons, List.append_assoc] at hrest
      cases s with
      | nil => exact absurd (List.append_eq_nil_iff.mp hrest).1 String.utf8EncodeChar_ne_nil
      | cons d s =>
        rw [utf8_cons] at hrest
        -- The first character is what the bytes decode to.
        have hc := decodeRune_utf8 c (utf8 m ++ rest)
        rw [hrest, decodeRune_utf8] at hc
        obtain rfl : d = c := (Prod.mk.inj hc).1
        exact List.cons_prefix_cons.mpr ⟨rfl, ih ⟨rest, List.append_cancel_left hrest⟩⟩
  · rintro ⟨rest, rfl⟩
    exact ⟨utf8 rest, (utf8_append m rest).symm⟩

/-- An ASCII byte inside a longer sequence does not occur. -/
theorem ascii_notMem_more {c : Char} {first b : UInt8} {more : Bytes}
    (h : String.utf8EncodeChar c = first :: more) (hb : b.toNat < 128) : b ∉ more := by
  intro hmem
  have hn := (mem_utf8EncodeChar_ascii hb).mp (by rw [h]; simp [hmem] : b ∈ String.utf8EncodeChar c)
  rw [utf8EncodeChar_ascii (by omega)] at h
  rw [← (List.cons.inj h).2] at hmem
  cases hmem

/-- A text is cut at an ASCII pattern where its characters are. -/
theorem cutAt_utf8 {c : Char} {m : List Char} (hc : c.toNat < 128) (s : List Char) :
    cutAt (utf8 (c :: m)) (utf8 s) =
      (splitOnce (c :: m) s).map fun x => (utf8 x.1, utf8 x.2) := by
  have hpattern : utf8 (c :: m) = UInt8.ofNat c.toNat :: utf8 m := by
    rw [utf8_cons, utf8EncodeChar_ascii hc]
    rfl
  have hbyte : (UInt8.ofNat c.toNat).toNat < 128 := by
    rwa [UInt8.toNat_ofNat_of_lt' (Nat.lt_trans hc (by decide))]
  induction s with
  | nil =>
    rw [hpattern]
    rfl
  | cons d s ih =>
    obtain ⟨first, more, hbytes, hvalue, -⟩ := Purpose.utf8_head d s
    by_cases hp : c :: m <+: d :: s
    · obtain ⟨rest, hrest⟩ := hp
      have hdrop : (utf8 (d :: s)).drop (utf8 (c :: m)).length = utf8 rest := by
        rw [← hrest, utf8_append, List.drop_left]
      have hdrop' : (d :: s).drop (c :: m).length = rest := by
        rw [← hrest, List.drop_left]
      have hpre := utf8_prefix_iff.mpr ⟨rest, hrest⟩
      rw [splitOnce, if_pos ⟨rest, hrest⟩, hdrop']
      rw [hvalue] at hpre hdrop ⊢
      rw [cutAt, if_pos hpre, hdrop]
      rfl
    · have hpre : ¬ utf8 (c :: m) <+: first :: (more ++ utf8 s) := by
        rw [← hvalue, utf8_prefix_iff]
        exact hp
      rw [hpattern] at ih hpre ⊢
      rw [splitOnce, if_neg hp, hvalue, cutAt, if_neg hpre,
        cutAt_append (ascii_notMem_more hbytes hbyte), ih, Option.map_map, Option.map_map,
        Option.map_map]
      congr 1
      funext x
      simp only [Function.comp_apply, utf8_cons, hbytes, List.cons_append]

/-! ## Trimming by Unicode whitespace -/

namespace Markl.Id

theorem trimLeft_utf8 {turns : Nat} {s : List Char} (h : s.length ≤ turns) :
    trimLeft turns (utf8 s) = utf8 (trimStart s) := by
  induction s generalizing turns with
  | nil => cases turns <;> simp [trimLeft, utf8, trimStart]
  | cons c s ih =>
    obtain ⟨turns, rfl⟩ : ∃ n, turns = n + 1 := Nat.exists_eq_add_one.mpr (by simp at h; omega)
    have hne : utf8 (c :: s) ≠ [] := by
      rw [utf8_cons]
      simp [String.utf8EncodeChar_ne_nil]
    have hdrop : (utf8 (c :: s)).drop c.utf8Size = utf8 s := by
      rw [utf8_cons, ← String.length_utf8EncodeChar, List.drop_left]
    have hrune : decodeRune (utf8 (c :: s)) = (c, c.utf8Size) := by
      rw [utf8_cons, decodeRune_utf8]
    rw [trimLeft, hrune]
    by_cases hc : isWhitespace c = true
    · rw [if_pos ⟨hne, hc⟩, hdrop, ih (by simpa using h), trimStart, trimStart,
        List.dropWhile_cons_of_pos hc]
    · rw [if_neg fun hcond => hc hcond.2, trimStart, List.dropWhile_cons_of_neg hc]

/-- The last rune of a text is its last character. -/
theorem runes_concat (s : List Char) (c : Char) :
    (runes (utf8 (s ++ [c]))).getLast? = some ((utf8 s).length, c) := by
  have hruns : ∀ (pos : Nat) (s : List Char),
      (runesFrom pos 0 (utf8 (s ++ [c]))).getLast? = some (pos + (utf8 s).length, c) := by
    intro pos s
    induction s generalizing pos with
    | nil =>
      have hlast := runesFrom_utf8_cons pos c []
      rw [List.nil_append, hlast]
      rfl
    | cons d s ih =>
      rw [List.cons_append, runesFrom_utf8_cons, List.getLast?_cons, ih]
      simp [utf8_cons, Nat.add_assoc]
  rw [runes, hruns, Nat.zero_add]

theorem trimRight_utf8 {turns : Nat} {s : List Char} (h : s.length ≤ turns) :
    trimRight turns (utf8 s) = utf8 (s.rdropWhile isWhitespace) := by
  induction s using List.reverseRecOn generalizing turns with
  | nil => cases turns <;> simp [trimRight, utf8, runes, runesFrom]
  | append_singleton s c ih =>
    obtain ⟨turns, rfl⟩ : ∃ n, turns = n + 1 := Nat.exists_eq_add_one.mpr (by simp at h; omega)
    rw [trimRight, runes_concat]
    by_cases hc : isWhitespace c = true
    · have htake : (utf8 (s ++ [c])).take (utf8 s).length = utf8 s := by
        rw [utf8_append, List.take_left]
      simp only [if_pos hc, htake]
      rw [ih (by simpa using h), List.rdropWhile_concat_pos _ _ _ hc]
    · simp only [if_neg hc]
      rw [List.rdropWhile_concat_neg _ _ _ hc]

theorem length_le_utf8 (s : List Char) : s.length ≤ (utf8 s).length := by
  induction s with
  | nil => simp
  | cons c s ih =>
    have hpos := c.utf8Size_pos
    simp only [utf8_cons, List.length_cons, List.length_append, String.length_utf8EncodeChar]
    omega

/-- A text is trimmed where its characters are. -/
theorem trimSpace_utf8 (s : List Char) : trimSpace (utf8 s) = utf8 (trim s) := by
  have hle : (trimStart s).length ≤ (utf8 s).length :=
    (List.length_dropWhile_le ..).trans (length_le_utf8 s)
  rw [trimSpace, trimLeft_utf8 (length_le_utf8 s), trimRight_utf8 hle, trim]

end Markl.Id

end Piggy.Go
