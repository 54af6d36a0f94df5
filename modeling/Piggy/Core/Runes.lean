import Mathlib.Data.List.Basic
import Mathlib.Data.List.Flatten

/-!
# Byte strings as runes

A byte string need not be UTF-8. Read rune by rune, each byte that starts no character
counts as one replacement rune. ASCII is where bytes and runes are the same thing: an
ASCII byte is never part of a longer sequence, so a byte string may be cut at one.
-/

namespace Piggy.Core

/-- The UTF-8 bytes of a text. -/
def utf8 (s : List Char) : List UInt8 := s.flatMap String.utf8EncodeChar

/-- The rune read where no character starts. -/
def runeError : Char := '\uFFFD'

/-- The rune at the head of the bytes and the number of bytes it takes. -/
def decodeRune (bytes : List UInt8) : Char × Nat :=
  match bytes.toByteArray.utf8DecodeChar? 0 with
  | some c => (c, c.utf8Size)
  | none => (runeError, 1)

/-- The runes with their offsets. The second argument counts the bytes that still belong
to the rune read last. -/
def runesFrom : Nat → Nat → List UInt8 → List (Nat × Char)
  | _, _, [] => []
  | pos, skip + 1, _ :: rest => runesFrom (pos + 1) skip rest
  | pos, 0, b :: rest =>
    let (c, width) := decodeRune (b :: rest)
    (pos, c) :: runesFrom (pos + 1) (width - 1) rest

/-- The characters of bytes, each with its offset. -/
def runes (bytes : List UInt8) : List (Nat × Char) := runesFrom 0 0 bytes

/-- The character an ASCII byte stands for. -/
def asciiChar (b : UInt8) : Char := Char.ofNat b.toNat

/-- A byte string of ASCII bytes only. -/
def IsAscii (bytes : List UInt8) : Prop := ∀ b ∈ bytes, b.toNat < 128

instance (bytes : List UInt8) : Decidable (IsAscii bytes) :=
  inferInstanceAs (Decidable (∀ b ∈ bytes, _))

/-! ## ASCII bytes -/

theorem toNat_asciiChar (b : UInt8) : (asciiChar b).toNat = b.toNat := by
  have hvalid : b.toNat.isValidChar := .inl (Nat.lt_trans b.toNat_lt (by decide))
  rw [asciiChar, Char.ofNat, dif_pos hvalid]
  rfl

theorem asciiChar_inj {a b : UInt8} : asciiChar a = asciiChar b ↔ a = b := by
  rw [← Char.toNat_inj, toNat_asciiChar, toNat_asciiChar, UInt8.toNat_inj]

/-- An ASCII byte stands for its own character only: every byte of a longer sequence has
its top bit set. -/
theorem mem_utf8EncodeChar_ascii {c : Char} {b : UInt8} (hb : b.toNat < 128) :
    b ∈ String.utf8EncodeChar c ↔ c.toNat = b.toNat := by
  have hc : c.val.toNat < 0x110000 := by
    have hv := c.valid
    simp only [UInt32.isValidChar, Nat.isValidChar] at hv
    omega
  change _ ↔ c.val.toNat = _
  simp only [String.utf8EncodeChar]
  split_ifs with h₁ h₂ h₃
  all_goals
    simp only [List.mem_cons, List.not_mem_nil, or_false, ← UInt8.toNat_inj, UInt8.toNat_ofNat']
  all_goals omega

/-- An ASCII character is one byte. -/
theorem utf8EncodeChar_ascii {c : Char} (hc : c.toNat < 128) :
    String.utf8EncodeChar c = [UInt8.ofNat c.toNat] := by
  have hle : c.val.toNat ≤ 0x7f := Nat.le_of_lt_succ hc
  simp only [String.utf8EncodeChar, if_pos hle]
  rfl

theorem utf8EncodeChar_asciiChar {b : UInt8} (hb : b.toNat < 128) :
    String.utf8EncodeChar (asciiChar b) = [b] := by
  rw [utf8EncodeChar_ascii (by rwa [toNat_asciiChar]), toNat_asciiChar, UInt8.ofNat_toNat]

theorem utf8Size_ascii {c : Char} (hc : c.toNat < 128) : c.utf8Size = 1 := by
  rw [← String.length_utf8EncodeChar, utf8EncodeChar_ascii hc, List.length_singleton]

/-! ## The bytes of a text -/

theorem toUTF8_ofList (s : List Char) : (String.ofList s).toUTF8.data.toList = utf8 s := by
  simp [String.toUTF8, List.utf8Encode, utf8]

theorem utf8_append (s t : List Char) : utf8 (s ++ t) = utf8 s ++ utf8 t := List.flatMap_append

theorem utf8_cons (c : Char) (s : List Char) : utf8 (c :: s) = String.utf8EncodeChar c ++ utf8 s :=
  List.flatMap_cons

theorem utf8_map_asciiChar {bytes : List UInt8} (h : IsAscii bytes) :
    utf8 (bytes.map asciiChar) = bytes := by
  induction bytes with
  | nil => rfl
  | cons b bs ih =>
    rw [List.map_cons, utf8_cons, utf8EncodeChar_asciiChar (h b (by simp)),
      ih fun b' hb' => h b' (by simp [hb'])]
    rfl

/-- Two texts with the same bytes are the same text. -/
theorem utf8_inj {s t : List Char} (h : utf8 s = utf8 t) : s = t := by
  induction s generalizing t with
  | nil =>
    cases t with
    | nil => rfl
    | cons c t =>
      rw [utf8_cons] at h
      exact absurd (List.append_eq_nil_iff.mp h.symm).1 String.utf8EncodeChar_ne_nil
  | cons c s ih =>
    cases t with
    | nil =>
      rw [utf8_cons] at h
      exact absurd (List.append_eq_nil_iff.mp h).1 String.utf8EncodeChar_ne_nil
    | cons d t =>
      rw [utf8_cons, utf8_cons] at h
      -- The first character is what the bytes decode to.
      have hc := @ByteArray.utf8DecodeChar?_utf8EncodeChar_append (utf8 s).toByteArray c
      have hd := @ByteArray.utf8DecodeChar?_utf8EncodeChar_append (utf8 t).toByteArray d
      rw [← List.toByteArray_append] at hc hd
      rw [h, hd] at hc
      obtain rfl : d = c := Option.some.inj hc
      rw [ih (List.append_cancel_left h)]

/-- The bytes of a text hold an ASCII byte exactly where the text holds its character. -/
theorem mem_utf8_ascii {s : List Char} {b : UInt8} (hb : b.toNat < 128) :
    b ∈ utf8 s ↔ asciiChar b ∈ s := by
  rw [utf8, List.mem_flatMap]
  constructor
  · rintro ⟨c, hc, hmem⟩
    have hn := (mem_utf8EncodeChar_ascii hb).mp hmem
    rwa [← Char.toNat_inj.mp (hn.trans (toNat_asciiChar b).symm)]
  · intro h
    exact ⟨_, h, by simp [utf8EncodeChar_asciiChar hb]⟩

/-- The bytes of a text, cut at an ASCII byte, are the bytes of the text cut there. -/
theorem utf8_split {s : List Char} {front back : List UInt8} {b : UInt8} (hb : b.toNat < 128)
    (h : utf8 s = front ++ b :: back) :
    ∃ s₁ s₂, s = s₁ ++ asciiChar b :: s₂ ∧ front = utf8 s₁ ∧ back = utf8 s₂ := by
  induction s generalizing front with
  | nil => exact absurd h (by simp [utf8])
  | cons c s ih =>
    rw [utf8_cons] at h
    by_cases hc : b ∈ String.utf8EncodeChar c
    · have hn := (mem_utf8EncodeChar_ascii hb).mp hc
      obtain rfl : c = asciiChar b := Char.toNat_inj.mp (hn.trans (toNat_asciiChar b).symm)
      rw [utf8EncodeChar_asciiChar hb] at h
      cases front with
      | nil => exact ⟨[], s, rfl, rfl, ((List.cons.inj h).2).symm⟩
      | cons x front =>
        obtain ⟨rfl, hrest⟩ := List.cons.inj h
        obtain ⟨s₁, s₂, rfl, rfl, rfl⟩ := ih hrest
        exact ⟨asciiChar b :: s₁, s₂, rfl, by rw [utf8_cons, utf8EncodeChar_asciiChar hb]; rfl, rfl⟩
    · -- The first character ends in front of the byte.
      rcases List.append_eq_append_iff.mp h with ⟨mid, rfl, hrest⟩ | ⟨mid, hc', hrest⟩
      · obtain ⟨s₁, s₂, rfl, rfl, rfl⟩ := ih hrest
        exact ⟨c :: s₁, s₂, rfl, (utf8_cons c s₁).symm, rfl⟩
      · cases mid with
        | nil =>
          rw [List.append_nil] at hc'
          obtain ⟨s₁, s₂, rfl, hs₁, rfl⟩ := @ih [] hrest.symm
          exact ⟨c :: s₁, s₂, rfl, by rw [utf8_cons, ← hs₁, hc', List.append_nil], rfl⟩
        | cons x mid =>
          obtain ⟨rfl, -⟩ := List.cons.inj hrest
          exact absurd (by simp [hc']) hc

/-- The bytes of a text end in an ASCII byte exactly where the text ends in its character. -/
theorem utf8_getLast? {s : List Char} {b : UInt8} (hb : b.toNat < 128) :
    (utf8 s).getLast? = some b ↔ s.getLast? = some (asciiChar b) := by
  rw [List.getLast?_eq_some_iff, List.getLast?_eq_some_iff]
  constructor
  · rintro ⟨front, h⟩
    obtain ⟨s₁, s₂, rfl, -, hback⟩ := utf8_split hb h
    obtain rfl : s₂ = [] := by
      apply utf8_inj
      rw [← hback]
      rfl
    exact ⟨s₁, rfl⟩
  · rintro ⟨s₁, rfl⟩
    refine ⟨utf8 s₁, ?_⟩
    rw [utf8_append, utf8_cons, utf8EncodeChar_asciiChar hb]
    rfl

/-- A text of ASCII bytes is the text of their characters. -/
theorem eq_map_asciiChar {s : List Char} (h : IsAscii (utf8 s)) : s = (utf8 s).map asciiChar :=
  utf8_inj (utf8_map_asciiChar h).symm

/-! ## Runes -/

theorem decodeRune_utf8 (c : Char) (rest : List UInt8) :
    decodeRune (String.utf8EncodeChar c ++ rest) = (c, c.utf8Size) := by
  rw [decodeRune, List.toByteArray_append, ByteArray.utf8DecodeChar?_utf8EncodeChar_append]

theorem decodeRune_ascii {b : UInt8} (hb : b.toNat < 128) (rest : List UInt8) :
    decodeRune (b :: rest) = (asciiChar b, 1) := by
  have h := decodeRune_utf8 (asciiChar b) rest
  rw [utf8EncodeChar_asciiChar hb, utf8Size_ascii (by rwa [toNat_asciiChar])] at h
  exact h

private theorem runesFrom_skip (pos : Nat) (skipped rest : List UInt8) :
    runesFrom pos skipped.length (skipped ++ rest) = runesFrom (pos + skipped.length) 0 rest := by
  induction skipped generalizing pos with
  | nil => rfl
  | cons b bs ih =>
    rw [List.length_cons, List.cons_append, runesFrom, ih, Nat.add_assoc, Nat.add_comm 1]

/-- The first rune of text is its first character, and the others follow its bytes. -/
theorem runesFrom_utf8_cons (pos : Nat) (c : Char) (s : List Char) :
    runesFrom pos 0 (utf8 (c :: s)) =
      (pos, c) :: runesFrom (pos + (String.utf8EncodeChar c).length) 0 (utf8 s) := by
  obtain ⟨b, bs, hbytes⟩ := List.exists_cons_of_ne_nil (@String.utf8EncodeChar_ne_nil c)
  have hlen : c.utf8Size - 1 = bs.length := by
    rw [← String.length_utf8EncodeChar, hbytes, List.length_cons, Nat.add_sub_cancel]
  have hdec := decodeRune_utf8 c (utf8 s)
  rw [hbytes, List.cons_append] at hdec
  rw [utf8_cons, hbytes, List.cons_append, runesFrom, hdec]
  simp only [hlen, runesFrom_skip, List.length_cons, Nat.add_assoc, Nat.add_comm 1]

/-- The runes of text are its characters. -/
theorem runesFrom_utf8 (pos : Nat) (s : List Char) :
    (runesFrom pos 0 (utf8 s)).map Prod.snd = s := by
  induction s generalizing pos with
  | nil => rfl
  | cons c s ih => rw [runesFrom_utf8_cons, List.map_cons, ih]

theorem runes_utf8 (s : List Char) : (runes (utf8 s)).map Prod.snd = s := runesFrom_utf8 0 s

/-- An ASCII rune is read from its byte. -/
theorem ascii_of_decodeRune {b : UInt8} {rest : List UInt8}
    (h : (decodeRune (b :: rest)).1.toNat < 128) : b.toNat < 128 := by
  rw [decodeRune] at h
  rcases hdec : (b :: rest).toByteArray.utf8DecodeChar? 0 with _ | c
  · simp only [hdec] at h
    exact absurd h (by decide)
  · simp only [hdec] at h
    obtain ⟨tail, htail⟩ := ByteArray.exists_of_utf8DecodeChar?_eq_some hdec
    rw [utf8EncodeChar_ascii h] at htail
    have hbytes := congrArg (fun a => a.data.toList) htail
    simp only [List.toList_data_toByteArray, ByteArray.data_append, Array.toList_append,
      List.singleton_append, List.cons.injEq] at hbytes
    rw [hbytes.1, UInt8.toNat_ofNat_of_lt' (Nat.lt_trans h (by decide))]
    exact h

/-- Runes of ASCII bytes are the characters of the bytes. -/
theorem runesFrom_ascii {bytes : List UInt8} (h : IsAscii bytes) (pos : Nat) :
    (runesFrom pos 0 bytes).map Prod.snd = bytes.map asciiChar := by
  induction bytes generalizing pos with
  | nil => rfl
  | cons b bs ih =>
    rw [runesFrom, decodeRune_ascii (h b (by simp))]
    simp only [List.map_cons, Nat.sub_self, ih fun b' hb' => h b' (by simp [hb'])]

theorem runes_ascii {bytes : List UInt8} (h : IsAscii bytes) :
    (runes bytes).map Prod.snd = bytes.map asciiChar := runesFrom_ascii h 0

/-- Where every rune is ASCII, every byte is. -/
theorem isAscii_of_runesFrom {bytes : List UInt8} {pos : Nat}
    (h : ∀ r ∈ runesFrom pos 0 bytes, r.2.toNat < 128) : IsAscii bytes := by
  induction bytes generalizing pos with
  | nil => exact fun b hb => nomatch hb
  | cons b bs ih =>
    rw [runesFrom] at h
    have hb : b.toNat < 128 := ascii_of_decodeRune (h _ (List.mem_cons_self ..))
    rw [decodeRune_ascii hb] at h
    have hrest := @ih (pos + 1) fun r hr => h r (List.mem_cons_of_mem _ hr)
    intro b' hb'
    rcases List.mem_cons.mp hb' with rfl | hmem
    · exact hb
    · exact hrest b' hmem

theorem isAscii_of_runes {bytes : List UInt8} (h : ∀ r ∈ runes bytes, r.2.toNat < 128) :
    IsAscii bytes := isAscii_of_runesFrom h

end Piggy.Core
