import Piggy.Core.Codec
import Piggy.Core.Runes
import Piggy.Box.Error

/-!
# The wire reader and writer

The reader keeps its offset, which its errors show. Every getter is exact for
the encoding the matching putter appends, with the length prefix as the only
bound on the values.
-/

namespace Piggy.Box

open Piggy.Core

/-- A byte string. -/
abbrev Bytes := List UInt8

/-- The reader's position: the offset reached and the bytes from there on. -/
abbrev WireReader := Cursor

/-- The writer's buffer. -/
abbrev WireWriter := Bytes

/-- The UTF-8 bytes of a string. -/
def strBytes (s : String) : Bytes := s.toUTF8.data.toList

/-! ## UTF-8 decoding -/

/-- A byte that continues a multi-byte sequence. -/
def isContinuation (b : UInt8) : Bool := 0x80 ≤ b && b ≤ 0xBF

/-- The length of the broken sequence at the head of the bytes; `none` when the
bytes end inside a sequence that could still be completed. -/
def utf8ErrorLen : Bytes → Option Nat
  | [] => none
  | first :: rest =>
    if 0xC2 ≤ first && first ≤ 0xDF then
      match rest with
      | [] => none
      | _ => some 1
    else if 0xE0 ≤ first && first ≤ 0xEF then
      match rest with
      | [] => none
      | second :: rest =>
        let low : UInt8 := if first = 0xE0 then 0xA0 else 0x80
        let high : UInt8 := if first = 0xED then 0x9F else 0xBF
        if second < low || high < second then some 1
        else if rest.isEmpty then none else some 2
    else if 0xF0 ≤ first && first ≤ 0xF4 then
      match rest with
      | [] => none
      | second :: rest =>
        let low : UInt8 := if first = 0xF0 then 0x90 else 0x80
        let high : UInt8 := if first = 0xF4 then 0x8F else 0xBF
        if second < low || high < second then some 1
        else match rest with
          | [] => none
          | third :: rest =>
            if !isContinuation third then some 2
            else if rest.isEmpty then none else some 3
    else some 1

/-- The text of the error that decoding invalid UTF-8 gives: the length of the
longest valid start and what breaks behind it. -/
def utf8ErrorText (bytes : Bytes) : String :=
  let lengths := (List.range (bytes.length + 1)).reverse
  let validUpTo := (lengths.find? fun n =>
    (String.fromUTF8? ⟨(bytes.take n).toArray⟩).isSome).getD 0
  match utf8ErrorLen (bytes.drop validUpTo) with
  | some len => s!"invalid utf-8 sequence of {len} bytes from index {validUpTo}"
  | none => s!"incomplete utf-8 byte sequence from index {validUpTo}"

/-- The string a byte string spells, or the text of the decoding error. -/
def fromUtf8 (bytes : Bytes) : Except String String :=
  match String.fromUTF8? ⟨bytes.toArray⟩ with
  | some s => .ok s
  | none => .error (utf8ErrorText bytes)

/-- Decoding gives exactly the string whose bytes were given. -/
theorem fromUtf8_ok {bytes : Bytes} {s : String} :
    fromUtf8 bytes = .ok s ↔ bytes = strBytes s := by
  have hs : fromUtf8 bytes = .ok s ↔ String.fromUTF8? ⟨bytes.toArray⟩ = some s := by
    unfold fromUtf8
    split <;> simp_all
  rw [hs, String.fromUTF8?, strBytes]
  constructor
  · intro h
    split at h
    · cases h
      rfl
    · cases h
  · intro h
    have ha : (⟨bytes.toArray⟩ : ByteArray) = s.toUTF8 := by
      rw [h]
    have hv : (⟨bytes.toArray⟩ : ByteArray).IsValidUTF8 := by
      rw [ha]
      exact s.isValidUTF8
    rw [dif_pos hv]
    exact congrArg some (String.toByteArray_inj.mp ha)

/-- Decodes bytes that may not be UTF-8: each broken sequence becomes one replacement
character. -/
def fromUtf8Lossy (bytes : Bytes) : List Char :=
  match fromUtf8 bytes with
  | .ok s => s.toList
  | .error _ =>
    let validUpTo := ((List.range (bytes.length + 1)).reverse.find? fun n =>
      (fromUtf8 (bytes.take n)).isOk).getD 0
    let valid := match fromUtf8 (bytes.take validUpTo) with
      | .ok s => s.toList
      | .error _ => []
    match utf8ErrorLen (bytes.drop validUpTo) with
    | none => valid ++ ['\uFFFD']
    | some len =>
      if (bytes.drop (validUpTo + len)).length < bytes.length then
        valid ++ '\uFFFD' :: fromUtf8Lossy (bytes.drop (validUpTo + len))
      else valid ++ ['\uFFFD']
termination_by bytes.length
decreasing_by assumption

/-- A text is determined by its bytes. -/
theorem strBytes_inj {a b : String} (h : strBytes a = strBytes b) : a = b := by
  simp only [strBytes] at h
  have h' : a.toUTF8 = b.toUTF8 := by
    apply ByteArray.ext
    exact Array.toList_inj.mp h
  exact String.toByteArray_inj.mp h'

/-- The bytes of a text are those of its characters. -/
theorem strBytes_ofList (s : List Char) :
    strBytes (String.ofList s) = s.flatMap String.utf8EncodeChar := toUTF8_ofList s

/-- A line feed among the bytes of a text is a line feed of the text. -/
theorem lineFeed_mem_strBytes (s : List Char) : 0x0A ∈ strBytes (String.ofList s) ↔ '\n' ∈ s := by
  rw [strBytes_ofList, List.mem_flatMap]
  constructor
  · rintro ⟨c, hc, hmem⟩
    have hn : c.toNat = 10 := (mem_utf8EncodeChar_ascii (by decide)).mp hmem
    rwa [show c = '\n' from Char.toNat_inj.mp hn] at hc
  · intro h
    exact ⟨'\n', h, by decide⟩

/-! ## Reader -/

/-- A reader at the start of the data. -/
def WireReader.new (data : Bytes) : WireReader := ⟨0, data⟩

/-- How many bytes are left to read. -/
def WireReader.remaining (r : WireReader) : Nat := r.rest.length

/-- The error of a read beyond the end of the data. -/
def shortRead (r : WireReader) (n : Nat) : BoxError :=
  .wire s!"need {n} bytes at offset {r.pos}, only {r.remaining} remain"

/-- Checks that `n` bytes are left. -/
def need (r : WireReader) (n : Nat) : Except BoxError Unit :=
  if r.remaining < n then .error (shortRead r n) else .ok ()

/-- The next `n` bytes. -/
def getBytes (r : WireReader) (n : Nat) : Except BoxError (Bytes × WireReader) := do
  need r n
  pure (r.rest.take n, r.advance n)

/-- One byte. -/
def getU8 (r : WireReader) : Except BoxError (UInt8 × WireReader) := do
  let (v, r) ← getBytes r 1
  pure (v.headD 0, r)

/-- A 32-bit big-endian word. -/
def getU32 (r : WireReader) : Except BoxError (UInt32 × WireReader) := do
  let (v, r) ← getBytes r 4
  pure (UInt32.ofNat (ofBe v), r)

/-- A 64-bit big-endian word. -/
def getU64 (r : WireReader) : Except BoxError (UInt64 × WireReader) := do
  let (v, r) ← getBytes r 8
  pure (UInt64.ofNat (ofBe v), r)

/-- `string8`: a length byte and that many bytes. -/
def getString8 (r : WireReader) : Except BoxError (Bytes × WireReader) := do
  let (len, r) ← getU8 r
  getBytes r len.toNat

/-- `cstring8`: a `string8` of UTF-8 text without NUL. -/
def getCstring8 (r : WireReader) : Except BoxError (String × WireReader) := do
  let (raw, r) ← getString8 r
  if raw.contains 0 then
    .error (.wire "cstring8 contains interior NUL")
  else match fromUtf8 raw with
    | .ok s => .ok (s, r)
    | .error e => .error (.wire s!"cstring8 not UTF-8: {e}")

/-- `eckey8`: a length byte and an EC point. -/
def getEckey8 (r : WireReader) : Except BoxError (Bytes × WireReader) := getString8 r

/-- `string`: a 32-bit length and that many bytes. -/
def getString (r : WireReader) : Except BoxError (Bytes × WireReader) := do
  let (len, r) ← getU32 r
  getBytes r len.toNat

/-- The loop `for _ in 0..n` over one getter. -/
def getMany {α : Type} (get : WireReader → Except BoxError (α × WireReader)) :
    Nat → WireReader → Except BoxError (List α × WireReader)
  | 0, r => pure ([], r)
  | n + 1, r => do
    let (a, r) ← get r
    let (as, r) ← getMany get n r
    pure (a :: as, r)

/-! ## Writer -/

/-- Appends one byte. -/
def putU8 (w : WireWriter) (v : UInt8) : WireWriter := w ++ [v]

/-- Appends a 32-bit big-endian word. -/
def putU32 (w : WireWriter) (v : UInt32) : WireWriter := w ++ toBe 4 v.toNat

/-- Appends a 64-bit big-endian word. -/
def putU64 (w : WireWriter) (v : UInt64) : WireWriter := w ++ toBe 8 v.toNat

/-- Appends raw bytes. -/
def putRaw (w : WireWriter) (data : Bytes) : WireWriter := w ++ data

/-- Appends a `string8`. -/
def putString8 (w : WireWriter) (data : Bytes) : Except BoxError WireWriter :=
  if 255 < data.length then
    .error (.wire s!"string8 too long: {data.length} bytes")
  else
    .ok (putRaw (putU8 w (UInt8.ofNat data.length)) data)

/-- Appends a `cstring8`. -/
def putCstring8 (w : WireWriter) (s : String) : Except BoxError WireWriter :=
  if (strBytes s).contains 0 then
    .error (.wire "cstring8 contains interior NUL")
  else
    putString8 w (strBytes s)

/-- Appends an `eckey8`. -/
def putEckey8 (w : WireWriter) (point : Bytes) : Except BoxError WireWriter :=
  putString8 w point

/-- Appends a `string`; the length is truncated to 32 bits. -/
def putString (w : WireWriter) (data : Bytes) : WireWriter :=
  putRaw (putU32 w (UInt32.ofNat data.length)) data

/-- The loop over a list with one fallible putter. -/
def putMany {α : Type} (put : WireWriter → α → Except BoxError WireWriter) :
    WireWriter → List α → Except BoxError WireWriter
  | w, [] => pure w
  | w, a :: as => do
    let w ← put w a
    putMany put w as

/-! ## Encodings -/

/-- The bytes of a `string8`. -/
def string8 (data : Bytes) : Bytes := UInt8.ofNat data.length :: data

/-- The bytes of a `cstring8`. -/
def cstring8 (s : String) : Bytes := string8 (strBytes s)

/-- The bytes of a `string`. -/
def string32 (data : Bytes) : Bytes := toBe 4 data.length ++ data

/-- The bytes a `string8` can carry. -/
def FitsString8 (data : Bytes) : Prop := data.length ≤ 255

/-- The text a `cstring8` can carry. -/
def FitsCstring8 (s : String) : Prop := 0 ∉ strBytes s ∧ (strBytes s).length ≤ 255

/-- The bytes a `string` can carry. -/
def FitsString (data : Bytes) : Prop := data.length < 2 ^ 32

instance (data : Bytes) : Decidable (FitsString8 data) :=
  inferInstanceAs (Decidable (data.length ≤ 255))

instance (s : String) : Decidable (FitsCstring8 s) :=
  inferInstanceAs (Decidable (0 ∉ strBytes s ∧ (strBytes s).length ≤ 255))

instance (data : Bytes) : Decidable (FitsString data) :=
  inferInstanceAs (Decidable (data.length < 2 ^ 32))

@[simp] theorem length_string8 (data : Bytes) : (string8 data).length = 1 + data.length := by
  simp [string8, Nat.add_comm]

@[simp] theorem length_cstring8 (s : String) :
    (cstring8 s).length = 1 + (strBytes s).length := length_string8 _

@[simp] theorem length_string32 (data : Bytes) : (string32 data).length = 4 + data.length := by
  simp [string32]

theorem need_ok {r : WireReader} {n : Nat} {u : Unit} : need r n = .ok u ↔ n ≤ r.rest.length := by
  rw [need, guard_ok, WireReader.remaining]
  simp

/-- Taking `n` bytes is exact for the byte strings of that length. -/
theorem getBytes_exact (n : Nat) :
    Exact (fun r => getBytes r n) id fun data => data.length = n := by
  intro r data r'
  simp only [getBytes, bind_ok, need_ok, pure_ok, Prod.mk.injEq, id]
  constructor
  · rintro ⟨-, hn, rfl, rfl⟩
    refine ⟨List.length_take_of_le hn, ?_, ?_⟩
    · exact (List.take_append_drop n r.rest).symm
    · rw [List.length_take_of_le hn]
      rfl
  · rintro ⟨rfl, hr, hp⟩
    refine ⟨⟨⟩, by simp [hr], by simp [hr], ?_⟩
    obtain ⟨pos', rest'⟩ := r'
    simp only [Cursor.advance, Cursor.mk.injEq]
    exact ⟨hp.symm, by simp [hr]⟩

/-- A byte getter is exact. -/
theorem getU8_exact : Exact getU8 (fun v => [v]) fun _ => True := by
  intro r v r'
  simp only [getU8, bind_ok, pure_ok, Prod.mk.injEq, true_and]
  constructor
  · rintro ⟨⟨data, r₁⟩, h, rfl, rfl⟩
    obtain ⟨hl, hr, hp⟩ := (getBytes_exact 1 _ _ _).mp h
    obtain ⟨b, rfl⟩ := List.length_eq_one_iff.mp hl
    exact ⟨hr, hp⟩
  · rintro ⟨hr, hp⟩
    exact ⟨([v], r'), (getBytes_exact 1 _ _ _).mpr ⟨rfl, hr, hp⟩, rfl, rfl⟩

/-- A 32-bit getter is exact. -/
theorem getU32_exact : Exact getU32 (fun v => toBe 4 v.toNat) fun _ => True := by
  intro r v r'
  simp only [getU32, bind_ok, pure_ok, Prod.mk.injEq, true_and]
  constructor
  · rintro ⟨⟨data, r₁⟩, h, rfl, rfl⟩
    obtain ⟨hl, hr, hp⟩ := (getBytes_exact 4 _ _ _).mp h
    have hlt : ofBe data < 2 ^ 32 := by simpa [hl] using ofBe_lt data
    have hv : toBe 4 (UInt32.ofNat (ofBe data)).toNat = data := by
      rw [UInt32.toNat_ofNat_of_lt' hlt, toBe_ofBe hl]
    rw [hv]
    exact ⟨hr, hp⟩
  · rintro ⟨hr, hp⟩
    refine ⟨(toBe 4 v.toNat, r'), (getBytes_exact 4 _ _ _).mpr ⟨by simp, hr, hp⟩, ?_, rfl⟩
    simp [ofBe_toBe]

/-- A 64-bit getter is exact. -/
theorem getU64_exact : Exact getU64 (fun v => toBe 8 v.toNat) fun _ => True := by
  intro r v r'
  simp only [getU64, bind_ok, pure_ok, Prod.mk.injEq, true_and]
  constructor
  · rintro ⟨⟨data, r₁⟩, h, rfl, rfl⟩
    obtain ⟨hl, hr, hp⟩ := (getBytes_exact 8 _ _ _).mp h
    have hlt : ofBe data < 2 ^ 64 := by simpa [hl] using ofBe_lt data
    have hv : toBe 8 (UInt64.ofNat (ofBe data)).toNat = data := by
      rw [UInt64.toNat_ofNat_of_lt' hlt, toBe_ofBe hl]
    rw [hv]
    exact ⟨hr, hp⟩
  · rintro ⟨hr, hp⟩
    refine ⟨(toBe 8 v.toNat, r'), (getBytes_exact 8 _ _ _).mpr ⟨by simp, hr, hp⟩, ?_, rfl⟩
    simp [ofBe_toBe]

/-- A `string8` getter is exact. -/
theorem getString8_exact : Exact getString8 string8 FitsString8 := by
  intro r data r'
  simp only [getString8, bind_ok, FitsString8]
  constructor
  · rintro ⟨⟨len, r₁⟩, hlen, h⟩
    obtain ⟨-, hr, hp⟩ := (getU8_exact _ _ _).mp hlen
    obtain ⟨hl, hr', hp'⟩ := (getBytes_exact _ _ _ _).mp h
    dsimp only at hl
    have hb : len.toNat < 256 := len.toNat_lt
    have hv : UInt8.ofNat data.length = len := by
      rw [hl]
      exact UInt8.ofNat_toNat
    refine ⟨by omega, ?_, ?_⟩
    · rw [hr, hr', string8, hv]
      rfl
    · rw [hp', hp, length_string8]
      simp [Nat.add_assoc]
  · rintro ⟨hl, hr, hp⟩
    refine ⟨(UInt8.ofNat data.length, ⟨r.pos + 1, data ++ r'.rest⟩), ?_, ?_⟩
    · exact (getU8_exact _ _ _).mpr ⟨trivial, by rw [hr]; rfl, rfl⟩
    · refine (getBytes_exact _ _ _ _).mpr ⟨?_, rfl, ?_⟩
      · exact (UInt8.toNat_ofNat_of_lt' (by omega : data.length < 256)).symm
      · rw [hp, length_string8]
        simp [Nat.add_assoc]

/-- A `string` getter is exact. -/
theorem getString_exact : Exact getString string32 FitsString := by
  intro r data r'
  simp only [getString, bind_ok, FitsString]
  constructor
  · rintro ⟨⟨len, r₁⟩, hlen, h⟩
    obtain ⟨-, hr, hp⟩ := (getU32_exact _ _ _).mp hlen
    obtain ⟨hl, hr', hp'⟩ := (getBytes_exact _ _ _ _).mp h
    dsimp only at hl
    have hb : len.toNat < 2 ^ 32 := len.toNat_lt
    refine ⟨by omega, ?_, ?_⟩
    · rw [hr, hr', string32, hl, List.append_assoc]
      rfl
    · rw [hp', hp, length_string32]
      simp [Nat.add_assoc]
  · rintro ⟨hl, hr, hp⟩
    refine ⟨(UInt32.ofNat data.length, ⟨r.pos + 4, data ++ r'.rest⟩), ?_, ?_⟩
    · refine (getU32_exact _ _ _).mpr ⟨trivial, ?_, by simp⟩
      dsimp only
      rw [UInt32.toNat_ofNat_of_lt' hl, hr, string32, List.append_assoc]
    · refine (getBytes_exact _ _ _ _).mpr ⟨?_, rfl, ?_⟩
      · exact (UInt32.toNat_ofNat_of_lt' hl).symm
      · rw [hp, length_string32]
        simp [Nat.add_assoc]

/-- A `cstring8` getter is exact. -/
theorem getCstring8_exact : Exact getCstring8 cstring8 FitsCstring8 := by
  intro r s r'
  unfold getCstring8
  simp only [bind_ok]
  constructor
  · rintro ⟨⟨raw, r₁⟩, hraw, h⟩
    obtain ⟨hl, hr, hp⟩ := (getString8_exact _ _ _).mp hraw
    obtain ⟨hz, h⟩ := guard_ok.mp h
    dsimp only at hz h
    split at h
    · next s' hs =>
      cases h
      have hb : raw = strBytes s := fromUtf8_ok.mp hs
      subst hb
      exact ⟨⟨by simpa using hz, hl⟩, hr, hp⟩
    · cases h
  · rintro ⟨⟨hz, hl⟩, hr, hp⟩
    refine ⟨(strBytes s, r'), (getString8_exact _ _ _).mpr ⟨hl, hr, hp⟩, ?_⟩
    refine guard_ok.mpr ⟨by simpa using hz, ?_⟩
    simp only [fromUtf8_ok.mpr (rfl : strBytes s = strBytes s)]

/-- Repeating an exact getter is exact for the lists of that length. -/
theorem getMany_exact {α : Type} {get : WireReader → Except BoxError (α × WireReader)}
    {enc : α → Bytes} {adm : α → Prop} (h : Exact get enc adm) (n : Nat) :
    Exact (getMany get n) (List.flatMap enc) fun as => as.length = n ∧ ∀ a ∈ as, adm a := by
  induction n with
  | zero =>
    intro r as r'
    simp only [getMany, pure_ok, Prod.mk.injEq, List.length_eq_zero_iff]
    constructor
    · rintro ⟨rfl, rfl⟩
      exact ⟨⟨rfl, by simp⟩, Spans.refl r⟩
    · rintro ⟨⟨rfl, -⟩, hs⟩
      exact ⟨rfl, (Spans.refl r).end_unique hs⟩
  | succ n ih =>
    intro r as r'
    simp only [getMany, bind_ok, pure_ok, Prod.mk.injEq]
    constructor
    · rintro ⟨⟨a, r₁⟩, ha, ⟨as', r₂⟩, has, rfl, rfl⟩
      obtain ⟨hadm, hr, hp⟩ := (h _ _ _).mp ha
      obtain ⟨⟨hl, hall⟩, hr', hp'⟩ := (ih _ _ _).mp has
      refine ⟨⟨by simp [hl], ?_⟩, ?_, ?_⟩
      · simpa using ⟨hadm, hall⟩
      · rw [hr, hr', List.flatMap_cons, List.append_assoc]
      · rw [hp', hp, List.flatMap_cons, List.length_append, Nat.add_assoc]
    · rintro ⟨⟨hl, hall⟩, hr, hp⟩
      obtain ⟨a, as, rfl⟩ : ∃ a as', as = a :: as' := List.exists_cons_of_length_eq_add_one hl
      refine ⟨(a, ⟨r.pos + (enc a).length, as.flatMap enc ++ r'.rest⟩), ?_, (as, r'), ?_, rfl, rfl⟩
      · refine (h _ _ _).mpr ⟨hall a (by simp), ?_, rfl⟩
        rw [hr, List.flatMap_cons, List.append_assoc]
      · refine (ih _ _ _).mpr ⟨⟨by simpa using hl, fun b hb => hall b (by simp [hb])⟩, rfl, ?_⟩
        rw [hp, List.flatMap_cons, List.length_append, Nat.add_assoc]

/-- Repeating a getter over the concatenated encodings of a list reads the list. -/
theorem getMany_reads {α β : Type} {get : WireReader → Except BoxError (β × WireReader)}
    {enc : α → Bytes} {f : α → β} {as : List α} (h : ∀ a ∈ as, Reads get (enc a) (f a)) :
    Reads (getMany get as.length) (as.flatMap enc) (as.map f) := by
  induction as with
  | nil =>
    intro pos tail
    rfl
  | cons a as ih =>
    intro pos tail
    have ha := h a (by simp) pos (as.flatMap enc ++ tail)
    have has := ih (fun b hb => h b (by simp [hb])) (pos + (enc a).length) tail
    rw [List.length_cons, getMany, List.flatMap_cons, List.append_assoc, ha, ok_bind]
    dsimp only
    rw [has, ok_bind, List.length_append, Nat.add_assoc]
    rfl

/-- A `string8` is appended exactly when it fits. -/
theorem putString8_ok {w w' : WireWriter} {data : Bytes} :
    putString8 w data = .ok w' ↔ FitsString8 data ∧ w' = w ++ string8 data := by
  rw [putString8, guard_ok, Except.ok.injEq, FitsString8, Nat.not_lt]
  simp [putRaw, putU8, string8, eq_comm]

/-- A `cstring8` is appended exactly when it fits. -/
theorem putCstring8_ok {w w' : WireWriter} {s : String} :
    putCstring8 w s = .ok w' ↔ FitsCstring8 s ∧ w' = w ++ cstring8 s := by
  rw [putCstring8, guard_ok, putString8_ok, FitsCstring8, FitsString8, cstring8]
  simp [and_assoc]

/-- A `string` is always appended. -/
theorem putString_eq (w : WireWriter) {data : Bytes} (h : FitsString data) :
    putString w data = w ++ string32 data := by
  simp [putString, putRaw, putU32, string32, UInt32.toNat_ofNat_of_lt' h]

/-- A list is appended element by element. -/
theorem putMany_of {α : Type} {put : WireWriter → α → Except BoxError WireWriter}
    {enc : α → Bytes} {as : List α} (h : ∀ a ∈ as, ∀ w, put w a = .ok (w ++ enc a))
    (w : WireWriter) : putMany put w as = .ok (w ++ as.flatMap enc) := by
  induction as generalizing w with
  | nil => simp [putMany, pure, Except.pure]
  | cons a as ih =>
    rw [putMany, h a (by simp), ok_bind, ih (fun b hb => h b (by simp [hb])),
      List.flatMap_cons, List.append_assoc]

/-- A list of images is appended as its elements are by the composed putter. -/
theorem putMany_map {α β : Type} {f : β → α}
    {put : WireWriter → α → Except BoxError WireWriter}
    {put' : WireWriter → β → Except BoxError WireWriter} (h : ∀ w b, put w (f b) = put' w b)
    (w : WireWriter) (bs : List β) : putMany put w (bs.map f) = putMany put' w bs := by
  induction bs generalizing w with
  | nil => rfl
  | cons b bs ih => simp only [List.map_cons, putMany, h, ih]

/-- When a list was appended, each element was appended to some buffer. -/
theorem putMany_written {α : Type} {put : WireWriter → α → Except BoxError WireWriter}
    {w w' : WireWriter} {as : List α} (h : putMany put w as = .ok w') {a : α} (ha : a ∈ as) :
    ∃ v v', put v a = .ok v' := by
  induction as generalizing w with
  | nil => cases ha
  | cons b as ih =>
    simp only [putMany, bind_ok] at h
    obtain ⟨w₁, hb, has⟩ := h
    rcases List.mem_cons.mp ha with rfl | ha
    · exact ⟨w, w₁, hb⟩
    · exact ih has ha

/-! ## Padding -/

/-- Pads to a multiple of the block size, by one whole block at least. -/
def pkcs7Pad (data : Bytes) (blockSize : Nat) : Bytes :=
  let padLen := blockSize - data.length % blockSize
  data ++ List.replicate padLen (UInt8.ofNat padLen)

/-- Strips the padding and rejects any byte string that does not end in one. -/
def pkcs7Unpad (data : Bytes) (blockSize : Nat) : Except BoxError Bytes :=
  match data.getLast? with
  | none => .error .badPadding
  | some padByte =>
    let padLen := padByte.toNat
    if padLen = 0 ∨ data.length < padLen ∨ blockSize < padLen then .error .badPadding
    else if (data.drop (data.length - padLen)).all (· == padByte) then
      .ok (data.take (data.length - padLen))
    else .error .badPadding

private theorem padLen_bounds (n : Nat) {blockSize : Nat} (hpos : 0 < blockSize) :
    0 < blockSize - n % blockSize ∧ blockSize - n % blockSize ≤ blockSize := by
  have hlt := Nat.mod_lt n hpos
  omega

/-- Unpadding takes off exactly what padding puts on. -/
theorem pkcs7Unpad_pkcs7Pad (data : Bytes) {blockSize : Nat} (hpos : 0 < blockSize)
    (hlt : blockSize < 256) : pkcs7Unpad (pkcs7Pad data blockSize) blockSize = .ok data := by
  obtain ⟨hpad, hle⟩ := padLen_bounds data.length hpos
  have hdef : pkcs7Pad data blockSize = data ++ List.replicate
      (blockSize - data.length % blockSize) (UInt8.ofNat (blockSize - data.length % blockSize)) := rfl
  generalize blockSize - data.length % blockSize = padLen at hdef hpad hle
  have hbyte : (UInt8.ofNat padLen).toNat = padLen :=
    UInt8.toNat_ofNat_of_lt' (by omega : padLen < 256)
  have hlast : (pkcs7Pad data blockSize).getLast? = some (UInt8.ofNat padLen) := by
    rw [hdef, List.getLast?_append_of_ne_nil _ (by simp; omega), List.getLast?_replicate,
      if_neg (by omega)]
  have hlen : (pkcs7Pad data blockSize).length - padLen = data.length := by
    rw [hdef, List.length_append, List.length_replicate]
    omega
  simp only [pkcs7Unpad, hlast, hbyte, hlen]
  rw [if_neg (by rw [hdef, List.length_append, List.length_replicate]; omega),
    hdef, List.drop_left, List.take_left, if_pos (by simp)]

@[simp] theorem length_pkcs7Pad (data : Bytes) (blockSize : Nat) :
    (pkcs7Pad data blockSize).length = data.length + (blockSize - data.length % blockSize) := by
  simp [pkcs7Pad]

end Piggy.Box
