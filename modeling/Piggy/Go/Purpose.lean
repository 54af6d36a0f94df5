import Piggy.Go.Base
import Piggy.Markl.Spelling

/-!
# Purpose slots in Go

The Go package scans a purpose slot byte by byte and undoes its escapes rune by rune. On
text the two agree with scanning characters, because quotes, backslash and the join are
ASCII: no byte of a longer sequence is taken for one of them.
-/

namespace Piggy.Go

open Piggy.Core

/-- `strings.Cut` and `bytes.Cut` at one byte. -/
def cut (sep : UInt8) (s : Bytes) : Option (Bytes × Bytes) :=
  match s.idxOf? sep with
  | some i => some (s.take i, s.drop (i + 1))
  | none => none

theorem cut_eq_some {sep : UInt8} {s front back : Bytes} :
    cut sep s = some (front, back) ↔ s = front ++ sep :: back ∧ sep ∉ front := by
  rw [cut]
  constructor
  · intro h
    rcases hidx : s.idxOf? sep with _ | i
    · rw [hidx] at h
      cases h
    · obtain ⟨front', back', rfl, hnot, rfl⟩ := idxOf?_eq_some_iff.mp hidx
      rw [hidx] at h
      simp only [List.take_left, ← List.drop_drop, List.drop_left, List.drop_one, List.tail_cons,
        Option.some.injEq, Prod.mk.injEq] at h
      obtain ⟨rfl, rfl⟩ := h
      exact ⟨rfl, hnot⟩
  · rintro ⟨rfl, hnot⟩
    rw [idxOf?_eq_some_iff.mpr ⟨front, back, rfl, hnot, rfl⟩]
    simp

theorem cut_eq_none {sep : UInt8} {s : Bytes} : cut sep s = none ↔ sep ∉ s := by
  rw [cut, ← List.idxOf?_eq_none_iff]
  rcases s.idxOf? sep with _ | i
  · simp
  · simp

namespace Purpose

def quoteDouble : UInt8 := 0x22

def quoteSingle : UInt8 := 0x27

def backslash : UInt8 := 0x5C

def join : UInt8 := 0x40

/-- The errors of purposes. -/
inductive Error where
  | invalidPurposeCharset (purposeId : Bytes) (rune : Option Char)
  | unterminatedQuotedPurpose (purposeId : Bytes)
  deriving DecidableEq

/-- The scan for the closing quote: the bytes up to and with it and the bytes behind it. A
backslash takes the next byte with it. -/
def scanQuoted (quote : UInt8) : Bytes → Option (Bytes × Bytes)
  | [] => none
  | b :: bs =>
    if b = backslash then
      match bs with
      | [] => none
      | escaped :: bs => (scanQuoted quote bs).map fun (front, back) => (b :: escaped :: front, back)
    else if b = quote then some ([b], bs)
    else (scanQuoted quote bs).map fun (front, back) => (b :: front, back)

/-- The slot, when there is one, and the body. A quoted slot that does not resolve is the
whole value. -/
def splitPurposeSlot (value : Bytes) : Option Bytes × Bytes :=
  match value with
  | [] => (none, value)
  | quote :: bs =>
    if quote ≠ quoteDouble ∧ quote ≠ quoteSingle then
      match cut join value with
      | some (slot, body) => (some slot, body)
      | none => (none, value)
    else
      match scanQuoted quote bs with
      | some (slot, b :: body) => if b = join then (some (quote :: slot), body) else (some value, [])
      | _ => (some value, [])

/-- Without a slot the body is the value. -/
theorem splitPurposeSlot_none {value body : Bytes} (h : splitPurposeSlot value = (none, body)) :
    value = body := by
  cases value with
  | nil => exact (Prod.mk.inj h).2
  | cons quote bs =>
    rw [splitPurposeSlot] at h
    by_cases hq : quote ≠ quoteDouble ∧ quote ≠ quoteSingle
    · rw [if_pos hq] at h
      rcases hcut : cut join (quote :: bs) with _ | ⟨slot, rest⟩
      · simp only [hcut] at h
        exact (Prod.mk.inj h).2
      · simp only [hcut] at h
        cases h
    · rw [if_neg hq] at h
      rcases hscan : scanQuoted quote bs with _ | ⟨slot, _ | ⟨b, rest⟩⟩
      · simp only [hscan] at h
        cases h
      · simp only [hscan] at h
        cases h
      · simp only [hscan] at h
        by_cases hb : b = join
        · rw [if_pos hb] at h
          cases h
        · rw [if_neg hb] at h
          cases h

/-- A purpose that needs no quotes. -/
def purposeIsBareExpressible (purposeId : Bytes) : Bool :=
  purposeId ≠ [] && (runes purposeId).all fun r => Markl.isBareChar r.2

/-- The purpose in double quotes, its runes escaped one by one. -/
def quotePurpose (purposeId : Bytes) : Bytes := utf8 (Markl.quotePurpose ((runes purposeId).map Prod.snd))

/-- A purpose, in quotes where it needs them. -/
def spellPurpose (purposeId : Bytes) : Bytes :=
  if purposeIsBareExpressible purposeId then purposeId else quotePurpose purposeId

/-- The interior with its escapes undone; without a backslash it is not touched. -/
def unescapePurposeInterior (interior : Bytes) : Bytes :=
  if backslash ∈ interior then utf8 (Markl.unescapePurposeInterior ((runes interior).map Prod.snd))
  else interior

/-- The purpose that a slot spells. -/
def unquotePurpose (slot : Bytes) : Except Error Bytes :=
  match slot with
  | [] => .error (.invalidPurposeCharset slot none)
  | quote :: rest =>
    if quote ≠ quoteDouble ∧ quote ≠ quoteSingle then
      if purposeIsBareExpressible slot then .ok slot
      else .error (.invalidPurposeCharset slot
        (((runes slot).find? fun r => !Markl.isBareChar r.2).map Prod.snd))
    else if rest.getLast? = some quote then .ok (unescapePurposeInterior rest.dropLast)
    else .error (.unterminatedQuotedPurpose slot)

/-! ## On text -/

/-- Bytes that are neither a backslash nor the quote are passed over. -/
theorem scanQuoted_append {quote : UInt8} {plain : Bytes}
    (h : ∀ b ∈ plain, b ≠ backslash ∧ b ≠ quote) (rest : Bytes) :
    scanQuoted quote (plain ++ rest) = (scanQuoted quote rest).map fun x => (plain ++ x.1, x.2) := by
  induction plain with
  | nil => simp
  | cons b bs ih =>
    obtain ⟨hback, hquote⟩ := h b (by simp)
    have hcons : scanQuoted quote (b :: (bs ++ rest)) =
        (scanQuoted quote (bs ++ rest)).map fun x => (b :: x.1, x.2) := by
      cases hbs : bs ++ rest <;> simp [scanQuoted, hback, hquote]
    rw [List.cons_append, hcons, ih fun b' hb' => h b' (by simp [hb']), Option.map_map]
    rfl

/-- Bytes of a character that is not ASCII are no ASCII bytes. -/
theorem utf8EncodeChar_plain {c : Char} {ascii : UInt8} (hascii : ascii.toNat < 128)
    (h : c ≠ asciiChar ascii) : ∀ b ∈ String.utf8EncodeChar c, b ≠ ascii := by
  rintro b hb rfl
  have hn := (mem_utf8EncodeChar_ascii hascii).mp hb
  exact h (Char.toNat_inj.mp (hn.trans (toNat_asciiChar b).symm))

/-- The scan over the bytes of a text is the scan over its characters. -/
theorem scanQuoted_utf8 {quote : UInt8} (hascii : quote.toNat < 128) (hne : quote ≠ backslash)
    (cs : List Char) :
    scanQuoted quote (utf8 cs) =
      (Markl.scanQuoted (asciiChar quote) cs).map fun x => (utf8 x.1, utf8 x.2) := by
  have hq : String.utf8EncodeChar (asciiChar quote) = [quote] := utf8EncodeChar_asciiChar hascii
  have hb : String.utf8EncodeChar '\\' = [backslash] := by decide
  have hback : asciiChar backslash = '\\' := by decide
  fun_induction Markl.scanQuoted (asciiChar quote) cs with
  | case1 => rfl
  | case2 =>
    rw [utf8_cons, hb]
    rfl
  | case3 escaped cs ih =>
    -- The first byte of the escaped character is skipped, the others are plain.
    obtain ⟨first, more, hbytes⟩ := List.exists_cons_of_ne_nil (@String.utf8EncodeChar_ne_nil escaped)
    have hmore : ∀ b ∈ more, b ≠ backslash ∧ b ≠ quote := by
      by_cases hc : escaped.toNat < 128
      · rw [utf8EncodeChar_ascii hc] at hbytes
        rw [(List.cons.inj hbytes).2.symm]
        exact fun b hb => by cases hb
      · intro b hmem
        have hmem' : b ∈ String.utf8EncodeChar escaped := by simp [hbytes, hmem]
        refine ⟨?_, ?_⟩
        · rintro rfl
          have hn := (mem_utf8EncodeChar_ascii (by decide)).mp hmem'
          exact hc (hn ▸ by decide)
        · rintro rfl
          have hn := (mem_utf8EncodeChar_ascii hascii).mp hmem'
          exact hc (hn ▸ hascii)
    have hscan : scanQuoted quote (backslash :: first :: (more ++ utf8 cs)) =
        (scanQuoted quote (more ++ utf8 cs)).map fun x => (backslash :: first :: x.1, x.2) := by
      simp [scanQuoted]
    rw [utf8_cons, utf8_cons, hb, hbytes, List.singleton_append, List.cons_append, hscan,
      scanQuoted_append hmore, ih]
    simp only [Option.map_map]
    congr 1
    funext x
    simp only [Function.comp_apply, utf8_cons, hb, hbytes, List.cons_append, List.nil_append]
  | case4 cs hesc =>
    rw [utf8_cons, hq, List.singleton_append]
    have hself : scanQuoted quote (quote :: utf8 cs) = some ([quote], utf8 cs) := by
      cases hcs : utf8 cs <;> simp [scanQuoted, hne]
    rw [hself]
    simp [hq, utf8]
  | case5 c cs hesc hquote ih =>
    have hplain : ∀ b ∈ String.utf8EncodeChar c, b ≠ backslash ∧ b ≠ quote := fun b hb =>
      ⟨utf8EncodeChar_plain (by decide) (by rwa [hback]) b hb, utf8EncodeChar_plain hascii hquote b hb⟩
    rw [utf8_cons, scanQuoted_append hplain, ih]
    simp only [Option.map_map]
    congr 1

/-- The first byte of a text is an ASCII byte exactly when its first character is. -/
theorem utf8_head (c : Char) (cs : List Char) :
    ∃ first more, String.utf8EncodeChar c = first :: more ∧
      utf8 (c :: cs) = first :: (more ++ utf8 cs) ∧
      ∀ b : UInt8, b.toNat < 128 → (first = b ↔ c = asciiChar b) := by
  obtain ⟨first, more, hbytes⟩ := List.exists_cons_of_ne_nil (@String.utf8EncodeChar_ne_nil c)
  refine ⟨first, more, hbytes, by rw [utf8_cons, hbytes, List.cons_append], ?_⟩
  intro b hb
  constructor
  · rintro rfl
    have hn := (mem_utf8EncodeChar_ascii hb).mp (by rw [hbytes]; simp)
    exact Char.toNat_inj.mp (hn.trans (toNat_asciiChar first).symm)
  · rintro rfl
    rw [utf8EncodeChar_asciiChar hb] at hbytes
    exact (List.cons.inj hbytes).1.symm

/-- A text starts with a quote exactly when its bytes do, and then with that one byte. -/
theorem utf8_quote (c : Char) (cs : List Char) :
    (∃ first more, utf8 (c :: cs) = first :: more ∧ (first ≠ quoteDouble ∧ first ≠ quoteSingle) ∧
        c ≠ '"' ∧ c ≠ '\'') ∨
      ∃ quote, utf8 (c :: cs) = quote :: utf8 cs ∧ quote.toNat < 128 ∧ quote ≠ backslash ∧
        c = asciiChar quote ∧ ¬ (quote ≠ quoteDouble ∧ quote ≠ quoteSingle) ∧
        ¬ (c ≠ '"' ∧ c ≠ '\'') := by
  obtain ⟨first, more, hbytes, hvalue, hfirst⟩ := utf8_head c cs
  have hd : first = quoteDouble ↔ c = '"' := hfirst quoteDouble (by decide)
  have hs : first = quoteSingle ↔ c = '\'' := hfirst quoteSingle (by decide)
  by_cases hc : c = '"'
  · subst hc
    exact .inr ⟨quoteDouble, by rw [utf8_cons]; rfl, by decide, by decide, by decide, by simp, by simp⟩
  by_cases hc' : c = '\''
  · subst hc'
    exact .inr ⟨quoteSingle, by rw [utf8_cons]; rfl, by decide, by decide, by decide, by simp, by simp⟩
  · exact .inl ⟨first, _, hvalue, ⟨mt hd.mp hc, mt hs.mp hc'⟩, hc, hc'⟩

theorem cut_utf8 {b : UInt8} (hb : b.toNat < 128) (s : List Char) :
    cut b (utf8 s) =
      (Markl.splitOnceAt (· = asciiChar b) s).map fun x => (utf8 x.1, utf8 x.2) := by
  by_cases hmem : asciiChar b ∈ s
  · obtain ⟨front, back, rfl, hnot⟩ := List.eq_append_cons_of_mem hmem
    have hsplit : Markl.splitOnceAt (· = asciiChar b) (front ++ asciiChar b :: back) =
        some (front, back) := by
      refine Markl.splitOnceAt_append ?_ (decide_eq_true rfl) back
      intro c hc
      refine decide_eq_false ?_
      rintro rfl
      exact hnot hc
    rw [hsplit, Option.map_some, cut_eq_some, utf8_append, utf8_cons, utf8EncodeChar_asciiChar hb]
    exact ⟨rfl, fun h => hnot ((mem_utf8_ascii hb).mp h)⟩
  · have hsplit : Markl.splitOnceAt (· = asciiChar b) s = none := by
      apply Markl.splitOnceAt_none
      intro c hc
      refine decide_eq_false ?_
      rintro rfl
      exact hmem hc
    rw [hsplit, Option.map_none, cut_eq_none]
    exact fun h => hmem ((mem_utf8_ascii hb).mp h)

/-- On text the slot and the body are those that the characters give. -/
theorem splitPurposeSlot_utf8 (s : List Char) :
    splitPurposeSlot (utf8 s) =
      ((Markl.splitPurposeSlot s).1.map utf8, utf8 (Markl.splitPurposeSlot s).2) := by
  cases s with
  | nil => rfl
  | cons c cs =>
    rcases utf8_quote c cs with ⟨first, more, hvalue, hfirst, hc⟩ |
      ⟨quote, hvalue, hascii, hne, rfl, hisQuote, hquote⟩
    · rw [Markl.splitPurposeSlot, if_pos hc, hvalue, splitPurposeSlot, if_pos hfirst, ← hvalue,
        cut_utf8 (by decide), show asciiChar join = '@' by decide]
      rcases Markl.splitOnceAt (· = '@') (c :: cs) with _ | ⟨slot, body⟩
      · rfl
      · rfl
    · rw [hvalue, splitPurposeSlot, if_neg hisQuote, scanQuoted_utf8 hascii hne]
      rcases hscan : Markl.scanQuoted (asciiChar quote) cs with _ | ⟨slot, after⟩
      · rw [Markl.splitPurposeSlot, if_neg hquote, hscan]
        simp only [Option.map_none, Option.map_some, hvalue]
        rfl
      · cases after with
        | nil =>
          rw [Markl.splitPurposeSlot, if_neg hquote, hscan]
          simp only [Option.map_some, hvalue]
          rfl
        | cons d body =>
          rw [Markl.splitPurposeSlot_scan hquote hscan]
          obtain ⟨b, bs, hbytes, hd, hfirst⟩ := utf8_head d body
          have hat : b = join ↔ d = '@' := hfirst join (by decide)
          simp only [Option.map_some, hd]
          by_cases hjoin : d = '@'
          · subst hjoin
            obtain rfl : bs = [] := (List.cons.inj hbytes).2.symm
            rw [if_pos (hat.mpr rfl), if_pos rfl]
            simp only [Option.map_some, List.nil_append, utf8_cons, utf8EncodeChar_asciiChar hascii,
              List.singleton_append]
          · rw [if_neg (mt hat.mp hjoin), if_neg hjoin]
            simp only [Option.map_some, hvalue]
            rfl

theorem purposeIsBareExpressible_utf8 (p : List Char) :
    purposeIsBareExpressible (utf8 p) = Markl.purposeIsBareExpressible p := by
  have hall : (runes (utf8 p)).all (fun r => Markl.isBareChar r.2) = p.all Markl.isBareChar := by
    conv_rhs => rw [← runes_utf8 p, List.all_map]
    rfl
  rw [purposeIsBareExpressible, Markl.purposeIsBareExpressible, hall]
  cases p with
  | nil => rfl
  | cons c cs =>
    have hne : utf8 (c :: cs) ≠ [] := by
      rw [utf8_cons]
      simp [String.utf8EncodeChar_ne_nil]
    simp [hne]

theorem unescapePurposeInterior_utf8 (interior : List Char) :
    unescapePurposeInterior (utf8 interior) = utf8 (Markl.unescapePurposeInterior interior) := by
  rw [unescapePurposeInterior, runes_utf8]
  by_cases hmem : backslash ∈ utf8 interior
  · rw [if_pos hmem]
  · rw [if_neg hmem]
    have hnot : '\\' ∉ interior := by
      rw [mem_utf8_ascii (by decide)] at hmem
      exact hmem
    congr 1
    clear hmem
    induction interior with
    | nil => rfl
    | cons c cs ih =>
      have hc : c ≠ '\\' := fun he => hnot (by simp [he])
      rw [Markl.unescapePurposeInterior_cons hc, ← ih fun h => hnot (by simp [h])]

/-- The errors of the slot as Go words them. -/
def goError : Markl.PurposeError → Error
  | .invalidBarePurpose p c => .invalidPurposeCharset (utf8 p) c
  | .unterminatedQuoted p => .unterminatedQuotedPurpose (utf8 p)

/-- On text a slot spells the same purpose, or fails the same way. -/
theorem unquotePurpose_utf8 (slot : List Char) :
    unquotePurpose (utf8 slot) =
      match Markl.unquotePurpose slot with
      | .ok value => .ok (utf8 value)
      | .error e => .error (goError e) := by
  cases slot with
  | nil => rfl
  | cons c cs =>
    rcases utf8_quote c cs with ⟨first, more, hvalue, hfirst, hc⟩ |
      ⟨quote, hvalue, hascii, hne, rfl, hisQuote, hquote⟩
    · rw [hvalue, unquotePurpose, if_pos hfirst, ← hvalue, purposeIsBareExpressible_utf8,
        Markl.unquotePurpose, if_pos hc]
      by_cases hbare : Markl.purposeIsBareExpressible (c :: cs) = true
      · rw [if_pos hbare, if_pos hbare]
      · have hfind : ((runes (utf8 (c :: cs))).find? fun r => !Markl.isBareChar r.2).map Prod.snd =
            (c :: cs).find? fun c => !Markl.isBareChar c := by
          conv_rhs => rw [← runes_utf8 (c :: cs), List.find?_map]
          rfl
        rw [if_neg hbare, if_neg hbare, hfind]
        rfl
    · rw [hvalue, unquotePurpose, if_neg hisQuote, Markl.unquotePurpose, if_neg hquote]
      by_cases hlast : cs.getLast? = some (asciiChar quote)
      · obtain ⟨front, rfl⟩ := List.getLast?_eq_some_iff.mp hlast
        rw [if_pos ((utf8_getLast? hascii).mpr hlast), if_pos hlast, List.dropLast_concat, utf8_append,
          utf8_cons, utf8EncodeChar_asciiChar hascii]
        change Except.ok (unescapePurposeInterior (utf8 front ++ [quote]).dropLast) = _
        rw [List.dropLast_concat, unescapePurposeInterior_utf8]
      · rw [if_neg (mt (utf8_getLast? hascii).mp hlast), if_neg hlast, ← hvalue]
        rfl

theorem spellPurpose_utf8 (p : List Char) : spellPurpose (utf8 p) = utf8 (Markl.spellPurpose p) := by
  rw [spellPurpose, Markl.spellPurpose, purposeIsBareExpressible_utf8, quotePurpose, runes_utf8]
  split <;> rfl

/-- A purpose that is text is split off its body and read back. -/
theorem splitPurposeSlot_spell (p body : List Char) :
    splitPurposeSlot (spellPurpose (utf8 p) ++ join :: utf8 body) =
        (some (spellPurpose (utf8 p)), utf8 body) ∧
      unquotePurpose (spellPurpose (utf8 p)) = .ok (utf8 p) := by
  obtain ⟨hsplit, hback⟩ := Markl.splitPurposeSlot_spell p body
  have hvalue : spellPurpose (utf8 p) ++ join :: utf8 body =
      utf8 (Markl.spellPurpose p ++ '@' :: body) := by
    rw [utf8_append, utf8_cons, spellPurpose_utf8]
    rfl
  refine ⟨?_, ?_⟩
  · rw [hvalue, splitPurposeSlot_utf8, hsplit, spellPurpose_utf8]
    rfl
  · rw [spellPurpose_utf8, unquotePurpose_utf8, hback]

end Purpose

end Piggy.Go
