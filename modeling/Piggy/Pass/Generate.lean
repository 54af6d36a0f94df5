import Piggy.Box.Wire
import Piggy.Core.Draws

/-!
# Generated passwords

The character set of a password is spelled with bracketed classes and literal bytes. The
password is drawn from the random bytes of the system: those of the set, in their order.
-/

namespace Piggy.Pass

open Piggy.Core Piggy.Box

/-! ## The character set -/

/-- A set of bytes in ascending order. -/
abbrev ByteSet : Type := List UInt8

/-- Puts a byte in its place. -/
def ByteSet.insert (b : UInt8) : ByteSet → ByteSet
  | [] => [b]
  | c :: cs => if b < c then b :: c :: cs else if b = c then c :: cs else c :: ByteSet.insert b cs

theorem ByteSet.mem_insert {b x : UInt8} {set : ByteSet} :
    x ∈ ByteSet.insert b set ↔ x = b ∨ x ∈ set := by
  induction set with
  | nil => simp [ByteSet.insert]
  | cons c cs ih =>
    rw [ByteSet.insert]
    split_ifs with hlt heq
    · simp
    · subst heq
      simp
    · rw [List.mem_cons, ih, List.mem_cons]
      exact or_left_comm

/-- The bytes between two bounds. -/
def byteRange (lo hi : UInt8) : List UInt8 :=
  (List.range' lo.toNat (hi.toNat + 1 - lo.toNat)).map UInt8.ofNat

/-- Puts in a range of bytes. -/
def addRangeInclusive (lo hi : UInt8) (set : ByteSet) : ByteSet :=
  (byteRange lo hi).foldl (fun set b => ByteSet.insert b set) set

/-- An ASCII letter or digit. -/
def isAlnum (b : UInt8) : Bool :=
  (0x30 ≤ b && b ≤ 0x39) || (0x41 ≤ b && b ≤ 0x5A) || (0x61 ≤ b && b ≤ 0x7A)

/-- Adds the bytes of a class. A name that is none adds nothing. -/
def addClass (name : Bytes) (set : ByteSet) : ByteSet :=
  let text := match fromUtf8 name with
    | .ok text => text
    | .error _ => ""
  match text with
  | "alnum" =>
    addRangeInclusive 0x30 0x39 (addRangeInclusive 0x41 0x5A (addRangeInclusive 0x61 0x7A set))
  | "alpha" => addRangeInclusive 0x41 0x5A (addRangeInclusive 0x61 0x7A set)
  | "digit" => addRangeInclusive 0x30 0x39 set
  | "lower" => addRangeInclusive 0x61 0x7A set
  | "upper" => addRangeInclusive 0x41 0x5A set
  | "punct" =>
    (byteRange 33 126).foldl
      (fun set b => if !isAlnum b && b != 0x20 then ByteSet.insert b set else set) set
  | _ => set

/-- Where a text occurs first. -/
def findSubseq (needle : Bytes) : Bytes → Option Nat
  | [] => if needle = [] then some 0 else none
  | b :: rest =>
    if needle.isPrefixOf (b :: rest) then some 0 else (findSubseq needle rest).map (· + 1)

/-- The rest of a specification is expanded into the set so far. -/
def expandFrom : Bytes → ByteSet → ByteSet
  | [], set => set
  | b :: rest, set =>
    if b = 0x5B ∧ rest.head? = some 0x3A then
      match findSubseq [0x3A, 0x5D] rest.tail with
      | some stop => expandFrom (rest.tail.drop (stop + 2)) (addClass (rest.tail.take stop) set)
      | none => expandFrom rest (ByteSet.insert b set)
    else expandFrom rest (ByteSet.insert b set)
termination_by bytes => bytes.length
decreasing_by all_goals (simp; try omega)

/-- The bytes that a specification means. -/
def expandCharset (spec : String) : ByteSet := expandFrom (strBytes spec) []

def defaultCharacterSet : String := "[:punct:][:alnum:]"

def defaultCharacterSetNoSymbols : String := "[:alnum:]"

/-- The bytes of a specification that stand outside its classes. -/
def literals : Bytes → List UInt8
  | [] => []
  | b :: rest =>
    if b = 0x5B ∧ rest.head? = some 0x3A then
      match findSubseq [0x3A, 0x5D] rest.tail with
      | some stop => literals (rest.tail.drop (stop + 2))
      | none => b :: literals rest
    else b :: literals rest
termination_by bytes => bytes.length
decreasing_by all_goals (simp; try omega)

/-! ## Drawing -/

/-- The random bytes of the system, as they are read. -/
structure Urandom where
  opened : Except String Unit
  read : Nat → Except String Bytes

/-- How the generation of a password ends. -/
inductive Generated where
  | panicked
  /-- The memory for the password is not there. -/
  | aborted
  | failed (text : String)
  | password (s : String)

/-- Takes the bytes of the alphabet from a buffer until there are enough. -/
def takeBytes (alphabet : ByteSet) (length : Nat) : Bytes → Bytes → Bytes
  | [], out => out
  | b :: rest, out =>
    if b ∈ alphabet then
      if (out ++ [b]).length = length then out ++ [b] else takeBytes alphabet length rest (out ++ [b])
    else takeBytes alphabet length rest out

/-- Reads until there are enough bytes. There is no result when the fuel is used up. -/
def readBytes (file : Urandom) (alphabet : ByteSet) (length : Nat) :
    Nat → Nat → Bytes → Option (Except String Bytes)
  | fuel, i, out =>
    if length ≤ out.length then some (.ok out)
    else match fuel with
      | 0 => none
      | fuel + 1 =>
        match file.read i with
        | .error e => some (.error s!"Could not generate password from /dev/urandom: {e}")
        | .ok buf =>
          if buf = [] then some (.error "Could not generate password from /dev/urandom.")
          else readBytes file alphabet length fuel (i + 1) (takeBytes alphabet length buf out)

/-- Draws a password. The vector for it is allocated before the first read: its capacity is a
signed number, and the allocator says whether it gives so many bytes. -/
def generatePassword (allocates : Nat → Bool) (file : Urandom) (length : Nat) (alphabet : ByteSet) (fuel : Nat) :
    Option Generated :=
  match file.opened with
  | .error e => some (.failed s!"Could not open /dev/urandom: {e}")
  | .ok () =>
    if 2 ^ 63 ≤ length then some .panicked
    else if 0 < length ∧ allocates length = false then some .aborted
    else match readBytes file alphabet length fuel 0 [] with
      | none => none
      | some (.error e) => some (.failed e)
      | some (.ok out) =>
        match fromUtf8 out with
        | .ok s => some (.password s)
        | .error _ => some .panicked

/-! ## What is in the set -/

theorem mem_foldl_insert {x : UInt8} {bytes : List UInt8} {set : ByteSet} :
    x ∈ bytes.foldl (fun set b => ByteSet.insert b set) set ↔ x ∈ bytes ∨ x ∈ set := by
  induction bytes generalizing set with
  | nil => simp
  | cons b bs ih =>
    rw [List.foldl_cons, ih, ByteSet.mem_insert, List.mem_cons]
    exact or_left_comm.trans or_assoc.symm

theorem le_of_mem_byteRange {x lo hi : UInt8} (h : x ∈ byteRange lo hi) : x ≤ hi := by
  obtain ⟨n, hn, rfl⟩ := List.mem_map.mp h
  rw [List.mem_range'_1] at hn
  have hhi := hi.toNat_lt
  rw [UInt8.le_iff_toNat_le, UInt8.toNat_ofNat']
  omega

theorem ascii_addRangeInclusive {x lo hi : UInt8} {set : ByteSet} (hhi : hi < 0x80)
    (hset : x ∈ set → x < 0x80) (h : x ∈ addRangeInclusive lo hi set) : x < 0x80 := by
  rcases mem_foldl_insert.mp h with h | h
  · exact UInt8.lt_of_le_of_lt (le_of_mem_byteRange h) hhi
  · exact hset h

theorem ascii_foldl_punct {x : UInt8} {bytes : List UInt8} {set : ByteSet}
    (hbytes : ∀ b ∈ bytes, b < 0x80) (hset : x ∈ set → x < 0x80)
    (h : x ∈ bytes.foldl
      (fun set b => if !isAlnum b && b != 0x20 then ByteSet.insert b set else set) set) :
    x < 0x80 := by
  induction bytes generalizing set with
  | nil => exact hset h
  | cons b bs ih =>
    refine ih (fun b' hb' => hbytes b' (List.mem_cons_of_mem b hb')) ?_ h
    intro hx
    dsimp only at hx
    split at hx
    · rcases ByteSet.mem_insert.mp hx with rfl | hx
      · exact hbytes x List.mem_cons_self
      · exact hset hx
    · exact hset hx

/-- A class adds ASCII bytes only. -/
theorem ascii_addClass {x : UInt8} {name : Bytes} {set : ByteSet} (hset : x ∈ set → x < 0x80)
    (h : x ∈ addClass name set) : x < 0x80 := by
  rw [addClass] at h
  split at h
  · exact ascii_addRangeInclusive (by decide) (ascii_addRangeInclusive (by decide)
      (ascii_addRangeInclusive (by decide) hset)) h
  · exact ascii_addRangeInclusive (by decide) (ascii_addRangeInclusive (by decide) hset) h
  · exact ascii_addRangeInclusive (by decide) hset h
  · exact ascii_addRangeInclusive (by decide) hset h
  · exact ascii_addRangeInclusive (by decide) hset h
  · refine ascii_foldl_punct (fun b hb => ?_) hset h
    exact UInt8.lt_of_le_of_lt (le_of_mem_byteRange hb) (by decide)
  · exact hset h

theorem mem_addRangeInclusive {x lo hi : UInt8} {set : ByteSet} (h : x ∈ set) :
    x ∈ addRangeInclusive lo hi set := mem_foldl_insert.mpr (.inr h)

/-- A class takes nothing away. -/
theorem mem_addClass {x : UInt8} {name : Bytes} {set : ByteSet} (h : x ∈ set) :
    x ∈ addClass name set := by
  rw [addClass]
  split
  · exact mem_addRangeInclusive (mem_addRangeInclusive (mem_addRangeInclusive h))
  · exact mem_addRangeInclusive (mem_addRangeInclusive h)
  · exact mem_addRangeInclusive h
  · exact mem_addRangeInclusive h
  · exact mem_addRangeInclusive h
  · generalize byteRange 33 126 = bytes
    induction bytes generalizing set with
    | nil => exact h
    | cons b bs ih =>
      rw [List.foldl_cons]
      refine ih ?_
      split
      · exact ByteSet.mem_insert.mpr (.inr h)
      · exact h
  · exact h

/-- A set that holds what it held before and some literal bytes, and else ASCII bytes only. -/
structure Expands (set : ByteSet) (bytes : List UInt8) (result : ByteSet) : Prop where
  holds : ∀ x, x ∈ set ∨ x ∈ bytes → x ∈ result
  only : ∀ x, x ∈ result → x ∈ set ∨ x ∈ bytes ∨ x < 0x80

theorem Expands.cls {name : Bytes} {set result : ByteSet} {bytes : List UInt8}
    (h : Expands (addClass name set) bytes result) : Expands set bytes result where
  holds x hx := h.holds x (hx.imp_left mem_addClass)
  only x hx := by
    rcases h.only x hx with hx | hx | hx
    · by_cases hset : x ∈ set
      · exact .inl hset
      · exact .inr (.inr (ascii_addClass (fun hin => absurd hin hset) hx))
    · exact .inr (.inl hx)
    · exact .inr (.inr hx)

theorem Expands.literal {b : UInt8} {set result : ByteSet} {bytes : List UInt8}
    (h : Expands (ByteSet.insert b set) bytes result) : Expands set (b :: bytes) result where
  holds x hx := by
    apply h.holds
    rcases hx with hx | hx
    · exact .inl (ByteSet.mem_insert.mpr (.inr hx))
    · exact (List.mem_cons.mp hx).imp (fun heq => ByteSet.mem_insert.mpr (.inl heq)) id
  only x hx := by
    rcases h.only x hx with hx | hx | hx
    · rcases ByteSet.mem_insert.mp hx with rfl | hx
      · exact .inr (.inl List.mem_cons_self)
      · exact .inl hx
    · exact .inr (.inl (List.mem_cons_of_mem b hx))
    · exact .inr (.inr hx)

theorem expands_expandFrom (spec : Bytes) (set : ByteSet) :
    Expands set (literals spec) (expandFrom spec set) := by
  fun_induction expandFrom spec set with
  | case1 set =>
    rw [literals]
    exact ⟨fun x h => h.resolve_right List.not_mem_nil, fun x h => .inl h⟩
  | case2 b rest set hclass stop hstop ih =>
    rw [literals, if_pos hclass, hstop]
    exact ih.cls
  | case3 b rest set hclass hstop ih =>
    rw [literals, if_pos hclass, hstop]
    exact ih.literal
  | case4 b rest set hclass ih =>
    rw [literals, if_neg hclass]
    exact ih.literal

/-! ## What is drawn -/

variable {alphabet : ByteSet} {length : Nat} {stream : Nat → UInt8} {sizes : Nat → Nat}

variable (alphabet) in
/-- A buffer is taken whole, unless there are enough bytes within it. -/
theorem takeBytes_spec (buf : Bytes) {out : Bytes} (hout : out.length < length) :
    ∃ front, front <+: buf ∧
      takeBytes alphabet length buf out = out ++ front.filter (· ∈ alphabet) ∧
      ((takeBytes alphabet length buf out).length = length ∨
        front = buf ∧ (takeBytes alphabet length buf out).length < length) := by
  induction buf generalizing out with
  | nil => exact ⟨[], List.nil_prefix, by rw [takeBytes]; simp, .inr ⟨rfl, by rwa [takeBytes]⟩⟩
  | cons b bs ih =>
    rw [takeBytes]
    by_cases hb : b ∈ alphabet
    · rw [if_pos hb]
      by_cases hfull : (out ++ [b]).length = length
      · rw [if_pos hfull]
        exact ⟨[b], ⟨bs, rfl⟩, by simp [hb], .inl hfull⟩
      · rw [if_neg hfull]
        have hroom : (out ++ [b]).length < length := by
          rw [List.length_append, List.length_singleton] at hfull ⊢
          omega
        obtain ⟨front, hfront, htaken, hend⟩ := ih hroom
        refine ⟨b :: front, List.cons_prefix_cons.mpr ⟨rfl, hfront⟩, ?_, ?_⟩
        · rw [htaken, List.filter_cons_of_pos (by simpa using hb), List.append_assoc]
          rfl
        · exact hend.imp_right fun ⟨heq, hlt⟩ => ⟨by rw [heq], hlt⟩
    · rw [if_neg hb]
      obtain ⟨front, hfront, htaken, hend⟩ := ih hout
      refine ⟨b :: front, List.cons_prefix_cons.mpr ⟨rfl, hfront⟩, ?_, ?_⟩
      · rw [htaken, List.filter_cons_of_neg (by simpa using hb)]
      · exact hend.imp_right fun ⟨heq, hlt⟩ => ⟨by rw [heq], hlt⟩

/-- Random bytes that come from a stream, in pieces. -/
def Urandom.ofStream (stream : Nat → UInt8) (sizes : Nat → Nat) : Urandom :=
  ⟨.ok (), fun i => .ok (piece stream sizes i)⟩

/-- The bytes so far are those of the alphabet in the pieces so far, and too few, or they are what
was to be drawn. -/
def Drawing (alphabet : ByteSet) (length : Nat) (stream : Nat → UInt8) (sizes : Nat → Nat) (i : Nat)
    (out : Bytes) : Prop :=
  out.length < length ∧ out = accepted (· ∈ alphabet) stream (pieceStart sizes i) ∨
    Drawn (· ∈ alphabet) stream length out

theorem drawing_zero (hlength : 0 < length) : Drawing alphabet length stream sizes 0 [] :=
  .inl ⟨hlength, rfl⟩

theorem Drawing.step {i : Nat} {out : Bytes} (h : Drawing alphabet length stream sizes i out)
    (hout : out.length < length) :
    Drawing alphabet length stream sizes (i + 1)
      (takeBytes alphabet length (piece stream sizes i) out) := by
  rcases h with ⟨-, heq⟩ | ⟨n, -, hfull⟩
  · obtain ⟨front, hfront, htaken, hend⟩ := takeBytes_spec alphabet (piece stream sizes i) hout
    rcases hend with hend | ⟨rfl, hend⟩
    · refine .inr ⟨pieceStart sizes i + front.length, ?_, hend⟩
      rw [htaken, heq]
      exact accepted_front hfront
    · refine .inl ⟨hend, ?_⟩
      rw [htaken, heq, accepted_pieceStart_succ]
  · omega

/-- What reading gives has been drawn from the stream. -/
theorem drawn_of_readBytes {fuel i : Nat} {out : Bytes} {r : Except String Bytes}
    (hsizes : ∀ i, 0 < sizes i) (hout : Drawing alphabet length stream sizes i out)
    (h : readBytes (.ofStream stream sizes) alphabet length fuel i out = some r) :
    ∃ drawn, r = .ok drawn ∧ Drawn (· ∈ alphabet) stream length drawn := by
  induction fuel generalizing i out with
  | zero =>
    rw [readBytes] at h
    split at h
    · next hfull =>
      exact ⟨out, (Option.some.inj h).symm, hout.resolve_left fun ⟨hlt, _⟩ => by omega⟩
    · cases h
  | succ fuel ih =>
    rw [readBytes] at h
    split at h
    · next hfull =>
      exact ⟨out, (Option.some.inj h).symm, hout.resolve_left fun ⟨hlt, _⟩ => by omega⟩
    · next hless =>
      have hpiece : piece stream sizes i ≠ [] := by
        intro hnil
        have hlen := congrArg List.length hnil
        rw [piece, List.length_map, List.length_range] at hlen
        have hpos := hsizes i
        rw [hlen] at hpos
        exact absurd hpos (Nat.lt_irrefl 0)
      simp only [Urandom.ofStream, if_neg hpiece] at h
      exact ih (hout.step (Nat.lt_of_not_le hless)) h

/-- Reading ends when the stream has enough bytes of the alphabet. -/
theorem readBytes_isSome {fuel i n : Nat} {out : Bytes} (hsizes : ∀ i, 0 < sizes i)
    (hn : length ≤ (accepted (· ∈ alphabet) stream n).length)
    (hout : Drawing alphabet length stream sizes i out) (hfuel : n ≤ i + fuel) :
    (readBytes (.ofStream stream sizes) alphabet length fuel i out).isSome := by
  induction fuel generalizing i out with
  | zero =>
    have hfull : length ≤ out.length := by
      rcases hout with ⟨-, heq⟩ | ⟨m, -, heq⟩
      · have hstart : n ≤ pieceStart sizes i := Nat.le_trans hfuel (le_pieceStart hsizes i)
        rw [heq]
        exact Nat.le_trans hn (length_accepted_le hstart)
      · exact heq.ge
    rw [readBytes, if_pos hfull]
    rfl
  | succ fuel ih =>
    rw [readBytes]
    split
    · rfl
    · next hless =>
      dsimp only [Urandom.ofStream]
      split
      · rfl
      · exact ih (hout.step (Nat.lt_of_not_le hless)) (by omega)

/-! ## Bytes that are no text -/

/-- The byte that starts a sequence is none of those behind it. -/
theorem lead_ne_continuation {x y : Nat} (hlow : 192 ≤ x) (hhigh : x < 256) :
    UInt8.ofNat x ≠ UInt8.ofNat (y % 64 + 128) := by
  intro h
  have hlead : (UInt8.ofNat x).toNat = x := UInt8.toNat_ofNat_of_lt' hhigh
  have hcont : (UInt8.ofNat (y % 64 + 128)).toNat = y % 64 + 128 :=
    UInt8.toNat_ofNat_of_lt' (by omega : y % 64 + 128 < 256)
  rw [h, hcont] at hlead
  omega

/-- The bytes of a character are not all one byte, unless it is ASCII. -/
theorem utf8EncodeChar_not_constant {c : Char} {b : UInt8} (hb : 0x80 ≤ b) :
    ¬ ∀ x ∈ String.utf8EncodeChar c, x = b := by
  intro h
  have hc : c.val.toNat < 0x110000 := by
    have hv := c.valid
    simp only [UInt32.isValidChar, Nat.isValidChar] at hv
    omega
  simp only [String.utf8EncodeChar] at h
  split_ifs at h with h₁ h₂ h₃
  · have hbyte := congrArg UInt8.toNat (h _ List.mem_cons_self)
    have hle : 128 ≤ b.toNat := UInt8.le_iff_toNat_le.mp hb
    rw [UInt8.toNat_ofNat'] at hbyte
    omega
  all_goals
    simp only [List.forall_mem_cons] at h
    exact lead_ne_continuation (by omega) (by omega) (h.1.trans h.2.1.symm)

/-- One byte over and over is no text, unless it is ASCII. -/
theorem strBytes_ne_replicate {s : String} {b : UInt8} {n : Nat} (hb : 0x80 ≤ b) (hn : 0 < n) :
    strBytes s ≠ List.replicate n b := by
  intro h
  have hall : ∀ x ∈ strBytes s, x = b := fun x hx => List.eq_of_mem_replicate (h ▸ hx)
  rw [← String.ofList_toList (s := s), strBytes_ofList] at h hall
  rcases hs : s.toList with _ | ⟨c, cs⟩
  · rw [hs] at h
    have hlen := congrArg List.length h
    rw [List.length_replicate] at hlen
    exact absurd hlen (Nat.ne_of_lt hn)
  · rw [hs, List.flatMap_cons] at hall
    exact utf8EncodeChar_not_constant hb fun x hx => hall x (List.mem_append_left _ hx)

/-- ASCII bytes are a text. -/
theorem exists_strBytes_of_ascii {bytes : Bytes} (h : ∀ b ∈ bytes, b < 0x80) :
    ∃ s, fromUtf8 bytes = .ok s := by
  refine ⟨String.ofList (bytes.map asciiChar), fromUtf8_ok.mpr ?_⟩
  rw [strBytes_ofList]
  have hascii : IsAscii bytes := fun b hb => UInt8.lt_iff_toNat_lt.mp (h b hb)
  exact (utf8_map_asciiChar hascii).symm

/-! ## Which passwords are generated -/

/-- The vector of the password is allocated. -/
structure HasRoom (allocates : Nat → Bool) (length : Nat) : Prop where
  capacity : length < 2 ^ 63
  memory : allocates length = true

variable {allocates : Nat → Bool}

theorem generatePassword_ofStream (alphabet : ByteSet) (length : Nat) (stream : Nat → UInt8)
    (sizes : Nat → Nat) (fuel : Nat) (hroom : HasRoom allocates length) :
    generatePassword allocates (.ofStream stream sizes) length alphabet fuel =
      (readBytes (.ofStream stream sizes) alphabet length fuel 0 []).map fun r =>
        match r with
        | .error e => .failed e
        | .ok out => match fromUtf8 out with
          | .ok s => .password s
          | .error _ => .panicked := by
  rw [generatePassword]
  have hgiven : ¬ (0 < length ∧ allocates length = false) := by simp [hroom.memory]
  simp only [Urandom.ofStream, if_neg (Nat.not_le_of_lt hroom.capacity), if_neg hgiven]
  rcases readBytes _ alphabet length fuel 0 [] with _ | _ | out
  · rfl
  · rfl
  · rw [Option.map_some]
    dsimp only
    rcases fromUtf8 out with _ | _
    · rfl
    · rfl

/-- However the random bytes come, a password is made, and every one that is made consists of the
first bytes of the set among them. -/
def GeneratesFrom (allocates : Nat → Bool) (spec : String) (length : Nat) : Prop :=
  ∀ stream sizes, (∀ i, 0 < sizes i ∧ sizes i ≤ 4096) →
    Recurring (· ∈ expandCharset spec) stream →
      (∃ fuel, (generatePassword allocates (.ofStream stream sizes) length (expandCharset spec)
        fuel).isSome) ∧
      ∀ fuel r,
        generatePassword allocates (.ofStream stream sizes) length (expandCharset spec) fuel = some r →
          ∃ s, r = .password s ∧ Drawn (· ∈ expandCharset spec) stream length (strBytes s)

theorem generatesFrom_of_ascii {spec : String} (hlength : 1 ≤ length)
    (hroom : HasRoom allocates length) (hascii : ∀ b ∈ literals (strBytes spec), b < 0x80) :
    GeneratesFrom allocates spec length := by
  intro stream sizes hsizes hrecurring
  have hpos : ∀ i, 0 < sizes i := fun i => (hsizes i).1
  have hstart : Drawing (expandCharset spec) length stream sizes 0 [] := drawing_zero hlength
  have hset : ∀ b ∈ expandCharset spec, b < 0x80 := by
    intro b hb
    rcases (expands_expandFrom (strBytes spec) []).only b hb with h | h | h
    · cases h
    · exact hascii b h
    · exact h
  refine ⟨?_, ?_⟩
  · obtain ⟨n, hn⟩ := hrecurring.exists_length length
    refine ⟨n, ?_⟩
    rw [generatePassword_ofStream _ _ _ _ _ hroom, Option.isSome_map]
    exact readBytes_isSome hpos hn hstart (by omega)
  · intro fuel r hr
    rw [generatePassword_ofStream _ _ _ _ _ hroom] at hr
    obtain ⟨read, hread, rfl⟩ := Option.map_eq_some_iff.mp hr
    obtain ⟨out, rfl, hdrawn⟩ := drawn_of_readBytes hpos hstart hread
    obtain ⟨n, hn, -⟩ := id hdrawn
    have hout : ∀ b ∈ out, b < 0x80 := by
      intro b hb
      rw [hn, accepted, List.mem_filter] at hb
      exact hset b (of_decide_eq_true hb.2)
    obtain ⟨s, hs⟩ := exists_strBytes_of_ascii hout
    refine ⟨s, by simp only [hs], ?_⟩
    rwa [← fromUtf8_ok.mp hs]

/-- The sets that are used when none is configured are spelled with classes only. -/
theorem generatesFrom_default (hlength : 1 ≤ length) (hroom : HasRoom allocates length) :
    GeneratesFrom allocates defaultCharacterSet length ∧
      GeneratesFrom allocates defaultCharacterSetNoSymbols length := by
  have hnone : literals (strBytes defaultCharacterSet) = [] ∧
      literals (strBytes defaultCharacterSetNoSymbols) = [] := by decide +kernel
  refine ⟨generatesFrom_of_ascii hlength hroom fun b hb => ?_,
    generatesFrom_of_ascii hlength hroom fun b hb => ?_⟩
  · rw [hnone.1] at hb
    cases hb
  · rw [hnone.2] at hb
    cases hb

/-- The stream of one byte only. -/
theorem recurring_const {b : UInt8} (hb : b ∈ alphabet) :
    Recurring (· ∈ alphabet) fun _ => b := fun n => ⟨n, Nat.le_refl n, decide_eq_true hb⟩

theorem eq_replicate_of_drawn {b : UInt8} {out : Bytes}
    (h : Drawn (· ∈ alphabet) (fun _ => b) length out) : out = List.replicate length b := by
  obtain ⟨n, hn, hlength⟩ := h
  refine List.eq_replicate_iff.mpr ⟨hlength, fun x hx => ?_⟩
  rw [hn, accepted, List.mem_filter] at hx
  obtain ⟨i, -, rfl⟩ := List.mem_map.mp hx.1
  rfl

/-- Without the vector nothing is drawn. -/
theorem not_generatesFrom_of_room {spec : String} (hspec : expandCharset spec ≠ [])
    (hlength : 1 ≤ length) (hroom : ¬ HasRoom allocates length) :
    ¬ GeneratesFrom allocates spec length := by
  intro h
  obtain ⟨b, hb⟩ := List.exists_mem_of_ne_nil _ hspec
  have hmade := (h _ _ (fun _ => ⟨Nat.one_pos, by decide⟩) (recurring_const hb)).2 0
  rw [generatePassword] at hmade
  by_cases hlong : 2 ^ 63 ≤ length
  · simp only [Urandom.ofStream, if_pos hlong] at hmade
    obtain ⟨s, hs, -⟩ := hmade _ rfl
    cases hs
  · have hrefused : 0 < length ∧ allocates length = false :=
      ⟨hlength, Bool.eq_false_iff.mpr fun hmemory => hroom ⟨Nat.lt_of_not_le hlong, hmemory⟩⟩
    simp only [Urandom.ofStream, if_neg hlong, if_pos hrefused] at hmade
    obtain ⟨s, hs, -⟩ := hmade _ rfl
    cases hs

/-- A literal byte that is not ASCII may come over and over. -/
theorem not_generatesFrom_of_literal {spec : String} {b : UInt8} (hb : b ∈ literals (strBytes spec))
    (hhigh : 0x80 ≤ b) (hlength : 1 ≤ length) : ¬ GeneratesFrom allocates spec length := by
  intro h
  have hin : b ∈ expandCharset spec := (expands_expandFrom (strBytes spec) []).holds b (.inr hb)
  obtain ⟨⟨fuel, hfuel⟩, hmade⟩ := h _ _ (fun _ => ⟨Nat.one_pos, by decide⟩) (recurring_const hin)
  obtain ⟨r, hr⟩ := Option.isSome_iff_exists.mp hfuel
  obtain ⟨s, -, hdrawn⟩ := hmade fuel r hr
  exact strBytes_ne_replicate hhigh hlength (eq_replicate_of_drawn hdrawn)

/-- Passwords are generated when the vector for them is allocated, and a specification has ASCII
bytes only outside its classes. -/
theorem generatesFrom_iff {spec : String} (hspec : expandCharset spec ≠ []) (hlength : 1 ≤ length) :
    GeneratesFrom allocates spec length ↔
      HasRoom allocates length ∧ ∀ b ∈ literals (strBytes spec), b < 0x80 := by
  constructor
  · intro h
    refine ⟨?_, fun b hb => ?_⟩
    · by_contra hroom
      exact not_generatesFrom_of_room hspec hlength hroom h
    · by_contra hhigh
      exact not_generatesFrom_of_literal hb (UInt8.not_lt.mp hhigh) hlength h
  · rintro ⟨hroom, hascii⟩
    exact generatesFrom_of_ascii hlength hroom hascii

/-- The set of the digits, spelled as a class, on a machine with a megabyte to give. -/
theorem generatesFrom_digits :
    expandCharset "[:digit:]" ≠ [] ∧
      (GeneratesFrom (· ≤ 2 ^ 20) "[:digit:]" 25 ↔
        HasRoom (· ≤ 2 ^ 20) 25 ∧ ∀ b ∈ literals (strBytes "[:digit:]"), b < 0x80) := by
  have hset : expandCharset "[:digit:]" ≠ [] := by decide +kernel
  exact ⟨hset, generatesFrom_iff hset (by decide)⟩

/-- A letter with an accent is two bytes, and one of them alone is no text. -/
theorem not_generatesFrom_accent :
    expandCharset "é" ≠ [] ∧ ¬ GeneratesFrom (· ≤ 2 ^ 20) "é" 1 := by
  have hbytes : strBytes "é" = [0xC3, 0xA9] := by decide +kernel
  refine ⟨by decide +kernel, not_generatesFrom_of_literal (b := 0xC3) ?_ (by decide) (Nat.le_refl 1)⟩
  rw [hbytes, literals, if_neg (by decide)]
  exact List.mem_cons_self

end Piggy.Pass
