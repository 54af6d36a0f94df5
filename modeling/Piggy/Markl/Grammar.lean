import Piggy.Core.Peg
import Piggy.Markl.Spelling

/-!
# The grammar of markl ids

The rules of `marklid.peg`, and what they say of a text: a slot in front of the join where
there is one, and a digest behind it. The grammar knows nothing of checksums and registries;
`Accepted` adds these to it and states which texts are ids.
-/

namespace Piggy.Markl.Grammar

open Piggy.Core Piggy.Core.Peg
open Piggy.Markl.Blech32 (isHrpChar isLowerHrpChar charset charsetChar separator hrpExpand Carries)

/-! ## The rules -/

/-- A character of the charset. -/
def dataChar : Peg := .char (charset.contains ·)

/-- Seven characters of the charset or more. -/
def data : Peg := times 7 dataChar (.star dataChar)

/-- A character of a format. -/
def formatChar : Peg := .char isHrpChar

/-- The name of a format. -/
def format : Peg := plus formatChar

/-- A format and its data. -/
def formatDataBare : Peg := .seq format (.seq (lit '-') data)

/-- A character in quotes, which may be escaped. -/
def char : Peg := .alt (.seq (lit '\\') any) any

/-- What follows the opening quote. -/
def quotedRest (quote : Char) : Peg :=
  .seq (.star (.seq (.not (lit quote)) char)) (lit quote)

/-- A text in quotes. -/
def string : Peg := .alt (.seq (lit '"') (quotedRest '"')) (.seq (lit '\'') (quotedRest '\''))

/-- A format and its data, bare or in quotes. -/
def formatData : Peg := .alt formatDataBare string

/-- A character of a bare purpose. -/
def purposeChar : Peg := .char isBareChar

/-- A purpose without quotes. -/
def purposeBare : Peg := plus purposeChar

/-- A purpose. -/
def purpose : Peg := .alt purposeBare string

/-- The purpose with its join. -/
def slot : Peg := .seq purpose (lit '@')

/-- An id whose digest slot is given by a rule. -/
def idOf (digest : Peg) : Peg := .seq (opt (.seq (opt slot) digest)) eof

/-- An id. -/
def marklId : Peg := idOf formatData

/-- A text that matches the grammar with a digest that is not in quotes. -/
def Matches (s : List Char) : Prop := Run (idOf formatDataBare) s (some [])

/-- What matches with a bare digest matches the whole grammar. -/
theorem Matches.marklId {s : List Char} (h : Matches s) : Run marklId s (some []) := by
  obtain ⟨rest, hbody, heof⟩ := run_seq_some.mp h
  refine run_seq_some.mpr ⟨rest, ?_, heof⟩
  cases hbody with
  | altFirst he =>
    obtain ⟨body, hslot, hdigest⟩ := run_seq_some.mp he
    exact .altFirst (.seqBoth hslot (.altFirst hdigest))
  | altSecond he hempty =>
    cases hempty
    obtain rfl : s = [] := by
      by_contra hne
      have hres := run_eof.mp heof
      rw [if_neg hne] at hres
      cases hres
    exact .altSecond (.seqBoth (.altSecond (.seqFails (.altSecond (.seqFails .charEnd)
      (.altSecond (.seqFails .charEnd) (.seqFails .charEnd)))) .empty)
      (.altSecond (.seqFails (.seqFails .charEnd))
        (.altSecond (.seqFails .charEnd) (.seqFails .charEnd)))) .empty

/-- A text that is not empty matches when what its slot leaves matches the digest. -/
theorem matches_iff {s : List Char} (hne : s ≠ []) :
    Matches s ↔ ∃ body, Run (opt slot) s (some body) ∧ Run formatDataBare body (some []) := by
  constructor
  · intro h
    obtain ⟨rest, hbody, heof⟩ := run_seq_some.mp h
    have hrest : rest = [] := by
      by_contra hrest
      have hres := run_eof.mp heof
      rw [if_neg hrest] at hres
      cases hres
    subst hrest
    cases hbody with
    | altFirst he =>
      obtain ⟨body, hslot, hdigest⟩ := run_seq_some.mp he
      exact ⟨body, hslot, hdigest⟩
    | altSecond he hempty =>
      cases hempty
      exact absurd rfl hne
  · rintro ⟨body, hslot, hdigest⟩
    exact run_seq_some.mpr ⟨[], .altFirst (.seqBoth hslot hdigest), run_eof.mpr rfl⟩

/-! ## Quoted strings -/

theorem run_char_other {c : Char} (hc : c ≠ '\\') (cs : List Char) :
    Run char (c :: cs) (some cs) :=
  .altSecond (.seqFails (.charOther (by simpa using hc))) (.charTaken rfl)

theorem run_not_lit {q c : Char} (hc : c ≠ q) {f : Peg} {cs : List Char} {r : Option (List Char)}
    (h : Run f (c :: cs) r) : Run (.seq (.not (lit q)) f) (c :: cs) r :=
  .seqBoth (.notTaken (.charOther (by simpa using hc))) h

/-- The rule of quoted strings finds the quote that the scan finds. -/
theorem run_quotedRest {quote : Char} (hquote : quote ≠ '\\') (cs : List Char) :
    Run (quotedRest quote) cs ((scanQuoted quote cs).map Prod.snd) := by
  fun_induction scanQuoted quote cs with
  | case1 =>
    exact .seqBoth (.starDone (.seqBoth (.notTaken .charEnd)
      (.altSecond (.seqFails .charEnd) .charEnd))) .charEnd
  | case2 =>
    -- A backslash at the end is taken as it stands, and no quote follows.
    have hback : Run (.seq (.not (lit quote)) char) ['\\'] (some []) :=
      run_not_lit hquote.symm (.altSecond (.seqBoth (.charTaken rfl) .charEnd) (.charTaken rfl))
    exact hback.starSeq (.seqBoth (.starDone (.seqBoth (.notTaken .charEnd)
      (.altSecond (.seqFails .charEnd) .charEnd))) .charEnd)
  | case3 escaped cs ih =>
    have hback : Run (.seq (.not (lit quote)) char) ('\\' :: escaped :: cs) (some cs) :=
      run_not_lit hquote.symm (.altFirst (.seqBoth (.charTaken rfl) (.charTaken rfl)))
    rw [Option.map_map]
    exact hback.starSeq ih
  | case4 cs hesc =>
    have hstop : Run (.seq (.not (lit quote)) char) (quote :: cs) none :=
      .seqFails (.notFails (.charTaken (by simp)))
    exact .seqBoth (.starDone hstop) (.charTaken (by simp))
  | case5 c cs hesc hq ih =>
    rw [Option.map_map]
    exact (run_not_lit hq (run_char_other hesc cs)).starSeq ih

/-! ## The slot and the body -/

/-- What the grammar takes a text apart to: a slot as it is spelled, when there is one, and
the rest of the text. -/
inductive Slot : List Char → Option (List Char) → List Char → Prop
  | without {s} (h : Run slot s none) : Slot s none s
  | purposed {p body} (h : Run purpose (p ++ '@' :: body) (some ('@' :: body))) :
      Slot (p ++ '@' :: body) (some p) body

/-- The purpose that a slot spells: what is in quotes is unescaped. -/
def slotValue (p : List Char) : List Char :=
  match p with
  | [] => []
  | quote :: rest =>
    if quote = '"' ∨ quote = '\'' then unescapePurposeInterior rest.dropLast else p

theorem Slot.run {s body : List Char} {p : Option (List Char)} (h : Slot s p body) :
    Run (opt slot) s (some body) := by
  cases h with
  | without h => exact .altSecond h .empty
  | purposed h => exact .altFirst (.seqBoth h (.charTaken rfl))

/-- What the parsers read off a text before they look at the body. -/
def Reads (s : List Char) (value : Option (List Char)) (body : List Char) : Prop :=
  (value = none ∧ splitPurposeSlot s = (none, body)) ∨
    ∃ p v, value = some v ∧ splitPurposeSlot s = (some p, body) ∧ unquotePurpose p = .ok v

/-- A bare slot is the longest front of bare characters. -/
theorem bare_split {p body : List Char} (hp : ∀ c ∈ p, isBareChar c = true) :
    (p ++ '@' :: body).takeWhile isBareChar = p ∧
      (p ++ '@' :: body).dropWhile isBareChar = '@' :: body := by
  constructor
  · rw [List.takeWhile_append_of_pos hp, List.takeWhile_cons, if_neg (by decide), List.append_nil]
  · rw [List.dropWhile_append_of_pos hp, List.dropWhile_cons, if_neg (by decide)]

theorem isBareExpressible_iff {p : List Char} :
    purposeIsBareExpressible p = true ↔ p ≠ [] ∧ ∀ c ∈ p, isBareChar c = true := by
  simp [purposeIsBareExpressible]

theorem run_purposeBare {p body : List Char} :
    Run purposeBare (p ++ '@' :: body) (some ('@' :: body)) ↔ purposeIsBareExpressible p = true := by
  rw [purposeBare, purposeChar, run_plus_char, isBareExpressible_iff]
  constructor
  · rintro ⟨hne, hrest⟩
    have hp : p = (p ++ '@' :: body).takeWhile isBareChar := by
      have hsplit := List.takeWhile_append_dropWhile (p := isBareChar) (l := p ++ '@' :: body)
      rw [← hrest] at hsplit
      exact (List.append_cancel_right hsplit).symm
    rw [← hp] at hne
    refine ⟨hne, ?_⟩
    intro c hc
    rw [hp] at hc
    exact List.mem_takeWhile_imp hc
  · rintro ⟨hne, hall⟩
    obtain ⟨htake, hdrop⟩ := @bare_split p body hall
    rw [htake, hdrop]
    exact ⟨hne, rfl⟩

/-- A quoted string in front of the join is a slot that the scan finds. -/
theorem run_quoted {quote : Char} (hquote : quote ≠ '\\') {s rest : List Char} :
    Run (.seq (lit quote) (quotedRest quote)) s (some rest) ↔
      ∃ cs before, s = quote :: cs ∧ scanQuoted quote cs = some (before, rest) := by
  rw [run_seq_some]
  constructor
  · rintro ⟨cs, hq, hrest⟩
    obtain ⟨c, rfl, hc⟩ := run_char_some.mp hq
    obtain rfl : c = quote := by simpa using hc
    have hscan := hrest.unique (run_quotedRest hquote cs)
    obtain ⟨⟨before, after⟩, hbefore, rfl⟩ := Option.map_eq_some_iff.mp hscan.symm
    exact ⟨cs, before, rfl, hbefore⟩
  · rintro ⟨cs, before, rfl, hscan⟩
    have hrest := run_quotedRest hquote cs
    rw [hscan] at hrest
    exact ⟨cs, .charTaken (by simp), hrest⟩

/-- A quoted slot that the scan finds. -/
theorem splitPurposeSlot_string {quote : Char} (hquote : quote = '"' ∨ quote = '\'')
    {cs before body : List Char} (hscan : scanQuoted quote cs = some (before, '@' :: body)) :
    splitPurposeSlot (quote :: cs) = (some (quote :: before), body) ∧
      unquotePurpose (quote :: before) = .ok (slotValue (quote :: before)) ∧
      quote :: cs = (quote :: before) ++ '@' :: body := by
  have hq : ¬ (quote ≠ '"' ∧ quote ≠ '\'') := by
    rintro ⟨hd, hs⟩
    exact hquote.elim hd hs
  refine ⟨?_, ?_, ?_⟩
  · rw [splitPurposeSlot_scan hq hscan, if_pos rfl]
  · obtain ⟨interior, rfl⟩ := scanQuoted_last hscan
    rw [unquotePurpose, if_neg hq, if_pos List.getLast?_concat, slotValue, if_pos hquote]
  · rw [scanQuoted_eq_some hscan]
    rfl

/-- The value of a bare slot is the slot. -/
theorem slotValue_bare {p : List Char} (h : purposeIsBareExpressible p = true) :
    slotValue p = p := by
  obtain ⟨hne, hall⟩ := isBareExpressible_iff.mp h
  cases p with
  | nil => rfl
  | cons c cs =>
    have hc := hall c (by simp)
    rw [slotValue, if_neg]
    rintro (rfl | rfl)
    · cases hc
    · cases hc

/-- The rule of purposes takes a slot off a text as the parsers do. -/
theorem split_of_run {p body : List Char}
    (h : Run purpose (p ++ '@' :: body) (some ('@' :: body))) :
    splitPurposeSlot (p ++ '@' :: body) = (some p, body) ∧ unquotePurpose p = .ok (slotValue p) := by
  have hquoted : ∀ {quote : Char}, quote = '"' ∨ quote = '\'' →
      Run (.seq (lit quote) (quotedRest quote)) (p ++ '@' :: body) (some ('@' :: body)) →
      splitPurposeSlot (p ++ '@' :: body) = (some p, body) ∧
        unquotePurpose p = .ok (slotValue p) := by
    intro quote hquote hrun
    have hne : quote ≠ '\\' := by
      rcases hquote with rfl | rfl
      all_goals decide
    obtain ⟨cs, before, hs, hscan⟩ := (run_quoted hne).mp hrun
    obtain ⟨hsplit, hvalue, heq⟩ := splitPurposeSlot_string hquote hscan
    obtain rfl : p = quote :: before := List.append_cancel_right (hs.trans heq)
    rw [hs]
    exact ⟨hsplit, hvalue⟩
  cases h with
  | altFirst hbare =>
    have hp := run_purposeBare.mp hbare
    rw [slotValue_bare hp]
    exact splitPurposeSlot_bare hp body
  | altSecond _ hstring =>
    cases hstring with
    | altFirst hd => exact hquoted (.inl rfl) hd
    | altSecond _ hs => exact hquoted (.inr rfl) hs

/-- A slot that the parsers take is one of the grammar. -/
theorem run_of_split {s p v body : List Char} (hbody : body ≠ [])
    (hsplit : splitPurposeSlot s = (some p, body)) (hvalue : unquotePurpose p = .ok v) :
    s = p ++ '@' :: body ∧ Run purpose s (some ('@' :: body)) := by
  cases s with
  | nil => cases hsplit
  | cons quote cs =>
    by_cases hq : quote ≠ '"' ∧ quote ≠ '\''
    · have hs : quote :: cs = p ++ '@' :: body := by
        rcases splitPurposeSlot_eq hsplit with ⟨hnone, -⟩ | ⟨p', hp', hs⟩ | hnil
        · cases hnone
        · cases hp'
          exact hs
        · exact absurd hnil hbody
      refine ⟨hs, ?_⟩
      rw [hs]
      refine .altFirst (run_purposeBare.mpr ?_)
      cases p with
      | nil => cases hvalue
      | cons c p =>
        obtain rfl : quote = c := (List.cons.inj hs).1
        rw [unquotePurpose, if_pos hq] at hvalue
        by_contra hbare
        rw [if_neg hbare] at hvalue
        cases hvalue
    · rcases hscan : scanQuoted quote cs with _ | ⟨before, after⟩
      · rw [splitPurposeSlot, if_neg hq, hscan] at hsplit
        exact absurd (Prod.mk.inj hsplit).2.symm hbody
      · cases after with
        | nil =>
          rw [splitPurposeSlot, if_neg hq, hscan] at hsplit
          exact absurd (Prod.mk.inj hsplit).2.symm hbody
        | cons d after =>
          have hd : d = '@' := by
            by_contra hd
            rw [splitPurposeSlot_scan hq hscan, if_neg hd] at hsplit
            exact hbody (Prod.mk.inj hsplit).2.symm
          subst hd
          have hquote : quote = '"' ∨ quote = '\'' := by
            by_contra hno
            exact hq (not_or.mp hno)
          obtain ⟨hsplit', -, hs⟩ := splitPurposeSlot_string hquote hscan
          rw [hsplit'] at hsplit
          cases hsplit
          refine ⟨hs, .altSecond ?_ ?_⟩
          · refine .seqFails (.charOther ?_)
            rcases hquote with rfl | rfl
            all_goals decide
          · rcases hquote with rfl | rfl
            · exact .altFirst ((run_quoted (by decide)).mpr ⟨cs, before, rfl, hscan⟩)
            · exact .altSecond (.seqFails (.charOther (by decide)))
                ((run_quoted (by decide)).mpr ⟨cs, before, rfl, hscan⟩)

/-- In front of a body of wire characters the parsers read what the grammar reads. -/
theorem reads_iff {s body : List Char} {value : Option (List Char)} (hbody : body ≠ [])
    (hwire : ∀ c ∈ body, Blech32.isWireChar c = true) :
    Reads s value body ↔ ∃ p, Slot s p body ∧ p.map slotValue = value := by
  constructor
  · rintro (⟨rfl, hsplit⟩ | ⟨p, v, rfl, hsplit, hvalue⟩)
    · have hs : s = body := by
        rcases splitPurposeSlot_eq hsplit with ⟨-, hs⟩ | ⟨p, hp, -⟩ | hnil
        · exact hs
        · cases hp
        · exact absurd hnil hbody
      subst hs
      -- Every character is bare, and nothing is left for the join.
      have hbare : ∀ c ∈ s, isBareChar c = true := fun c hc => isBareChar_of_wire (hwire c hc)
      have hrun : Run purposeBare s (some []) := by
        rw [purposeBare, purposeChar, run_plus_char, List.takeWhile_eq_self_iff.mpr hbare,
          List.dropWhile_eq_nil_iff.mpr hbare]
        exact ⟨hbody, rfl⟩
      exact ⟨none, .without (.seqBoth (.altFirst hrun) .charEnd), rfl⟩
    · obtain ⟨rfl, hrun⟩ := run_of_split hbody hsplit hvalue
      obtain ⟨-, hvalue'⟩ := split_of_run hrun
      rw [hvalue] at hvalue'
      exact ⟨some p, .purposed hrun, by rw [Option.map_some, Except.ok.inj hvalue']⟩
  · rintro ⟨p, hslot, rfl⟩
    cases hslot with
    | without h => exact .inl ⟨rfl, Id.splitPurposeSlot_wire hwire⟩
    | purposed h =>
      obtain ⟨hsplit, hvalue⟩ := split_of_run h
      exact .inr ⟨_, _, rfl, hsplit, hvalue⟩

/-! ## Accepted texts -/

/-- The digest of a format whose groups are given. -/
def digest (name : List Char) (groups : List UInt8) : List Char :=
  name ++ separator :: groups.map charsetChar

/-- The parts of a text: its slot, and the format and the groups of its digest. -/
structure Parts (s : List Char) (p : Option (List Char)) (name : List Char)
    (groups : List UInt8) : Prop where
  slot : Slot s p (digest name groups)
  format : Run format (digest name groups) (some (separator :: groups.map charsetChar))

/-- The texts that the grammar and the registries admit: the text matches with a bare digest,
its groups carry a payload behind a checksum for the format, and the format is registered for
that size and that purpose. -/
def Accepted (admits : Option (List Char) → List Char → Nat → Prop) (s : List Char) : Prop :=
  Matches s ∧ ∃ p name groups payload, Parts s p name groups ∧
    Carries (hrpExpand name) groups payload ∧ admits (p.map slotValue) name payload.length

theorem run_format {name : List Char} {groups : List UInt8} :
    Run format (digest name groups) (some (separator :: groups.map charsetChar)) ↔
      name ≠ [] ∧ ∀ c ∈ name, isHrpChar c = true := by
  rw [format, formatChar, run_plus_char]
  constructor
  · rintro ⟨hne, hrest⟩
    have hname : name = (digest name groups).takeWhile isHrpChar := by
      have hsplit := List.takeWhile_append_dropWhile (p := isHrpChar) (l := digest name groups)
      rw [← hrest] at hsplit
      exact (List.append_cancel_right hsplit).symm
    rw [← hname] at hne
    refine ⟨hne, ?_⟩
    intro c hc
    rw [hname] at hc
    exact List.mem_takeWhile_imp hc
  · rintro ⟨hne, hall⟩
    rw [digest, List.takeWhile_append_of_pos hall, List.dropWhile_append_of_pos hall,
      List.takeWhile_cons, List.dropWhile_cons, if_neg (by decide), if_neg (by decide),
      List.append_nil]
    exact ⟨hne, rfl⟩

/-- A digest matches its rule when something stands in front of the checksum. -/
theorem run_formatDataBare {name : List Char} {groups : List UInt8}
    (hformat : Run format (digest name groups) (some (separator :: groups.map charsetChar)))
    (hgroups : ∀ v ∈ groups, v.toNat < 2 ^ 5) :
    Run formatDataBare (digest name groups) (some []) ↔ 7 ≤ groups.length := by
  have hdata : ∀ c ∈ groups.map charsetChar, charset.contains c = true := by
    intro c hc
    obtain ⟨v, hv, rfl⟩ := List.mem_map.mp hc
    rw [List.contains_iff_mem, ← List.isSome_idxOf?, (Blech32.charsetChar_spec (hgroups v hv)).1]
    rfl
  have hrun : ∀ rest, Run format (digest name groups) (some rest) ↔
      rest = '-' :: groups.map charsetChar := by
    intro rest
    constructor
    · exact fun h => Option.some.inj (h.unique hformat)
    · rintro rfl
      exact hformat
  rw [formatDataBare, run_seq_some]
  simp only [hrun, exists_eq_left, run_seq_some, run_lit_cons, if_true, Option.some.injEq, data,
    dataChar, run_times_char]
  rw [List.takeWhile_eq_self_iff.mpr hdata, List.dropWhile_eq_nil_iff.mpr hdata, List.length_map]
  exact and_iff_left rfl

theorem digest_ne_nil (name : List Char) (groups : List UInt8) : digest name groups ≠ [] := by
  simp [digest]

/-- The parsers read the parts of a text whose format is in lower case. -/
theorem reads_parts {s name : List Char} {value : Option (List Char)} {groups : List UInt8}
    (hne : name ≠ []) (hname : ∀ c ∈ name, isLowerHrpChar c = true)
    (hgroups : ∀ v ∈ groups, v.toNat < 2 ^ 5) :
    Reads s value (digest name groups) ↔ ∃ p, Parts s p name groups ∧ p.map slotValue = value := by
  have hwire := Blech32.isWireChar_of_spelled hname hgroups
  have hchars : ∀ c ∈ name, isHrpChar c = true := fun c hc =>
    (Bool.and_eq_true _ _ |>.mp (hname c hc)).1
  rw [reads_iff (digest_ne_nil name groups) hwire]
  constructor
  · rintro ⟨p, hslot, hvalue⟩
    exact ⟨p, ⟨hslot, run_format.mpr ⟨hne, hchars⟩⟩, hvalue⟩
  · rintro ⟨p, hparts, hvalue⟩
    exact ⟨p, hparts.slot, hvalue⟩

/-- Where only formats in lower case are registered, a text is accepted when the parsers read
a purpose and a digest off it that carries a payload. -/
theorem accepted_iff {admits : Option (List Char) → List Char → Nat → Prop}
    (hadmits : ∀ value name n, admits value name n → (∀ c ∈ name, isHrpChar c = true) →
      ∀ c ∈ name, isLowerHrpChar c = true) {s : List Char} (hne : s ≠ []) :
    Accepted admits s ↔ ∃ value name groups payload, Reads s value (digest name groups) ∧
      name ≠ [] ∧ (∀ c ∈ name, isLowerHrpChar c = true) ∧
      Carries (hrpExpand name) groups payload ∧ payload ≠ [] ∧
      admits value name payload.length := by
  constructor
  · rintro ⟨hmatches, p, name, groups, payload, hparts, hcarries, hadm⟩
    obtain ⟨hname, hchars⟩ := run_format.mp hparts.format
    have hlower := hadmits _ _ _ hadm hchars
    obtain ⟨body, hrun, hdigest⟩ := (matches_iff hne).mp hmatches
    obtain rfl : digest name groups = body := Option.some.inj (hparts.slot.run.unique hrun)
    have hlen := (run_formatDataBare hparts.format hcarries.range).mp hdigest
    refine ⟨_, name, groups, payload, (reads_parts hname hlower hcarries.range).mpr
      ⟨p, hparts, rfl⟩, hname, hlower, hcarries, ?_, hadm⟩
    rw [Ne, ← hcarries.length_eq, Blech32.checksumLen]
    omega
  · rintro ⟨value, name, groups, payload, hreads, hname, hlower, hcarries, hpayload, hadm⟩
    obtain ⟨p, hparts, rfl⟩ := (reads_parts hname hlower hcarries.range).mp hreads
    have hlen : 7 ≤ groups.length :=
      Nat.lt_of_le_of_ne hcarries.length fun he => hpayload (hcarries.length_eq.mp he.symm)
    exact ⟨(matches_iff hne).mpr ⟨_, hparts.slot.run,
      (run_formatDataBare hparts.format hcarries.range).mpr hlen⟩,
      p, name, groups, payload, hparts, hcarries, hadm⟩

/-! ## The parser -/

/-- What the enumerated formats and purposes admit. -/
def admits (value : Option (List Char)) (name : List Char) (size : Nat) : Prop :=
  ∃ f, FormatId.parse (String.ofList name) = .ok f ∧ size = f.size ∧
    checkPurpose f (value.map fun v => PurposeId.parse (String.ofList v)) = none

theorem name_of_admits {name : List Char} {f : FormatId}
    (h : FormatId.parse (String.ofList name) = .ok f) :
    name = f.asStr.toList ∧ name ≠ [] ∧ ∀ c ∈ name, isLowerHrpChar c = true := by
  have hname : name = f.asStr.toList := by
    rw [← FormatId.parse_eq_ok.mp h, String.toList_ofList]
  obtain ⟨hne, hchars⟩ := Id.asStr_chars f
  rw [hname]
  exact ⟨rfl, List.isEmpty_eq_false_iff.mp hne, List.all_eq_true.mp hchars⟩

theorem new_eq_ok_iff {value : Option PurposeId} {f : FormatId} {payload : List UInt8} {id : Id} :
    Id.new value f payload = .ok id ↔ payload.length = f.size ∧ checkPurpose f value = none ∧
      id.purpose = value ∧ id.format = f ∧ id.data = payload := by
  constructor
  · intro h
    obtain ⟨hp, hf, hd⟩ := Id.new_eq_ok h
    subst hp hf hd
    refine ⟨id.size, ?_, rfl, rfl, rfl⟩
    rw [checkPurpose, Option.filter_eq_none_iff]
    intro p hp
    cases ho : p.isOther with
    | true => simp
    | false => simp [id.compatible p hp ho]
  · rintro ⟨-, -, rfl, rfl, rfl⟩
    exact Id.new_ok id

theorem parseBody_eq_ok {body : List Char} {f : FormatId} {payload : List UInt8} :
    Id.parseBody body = .ok (f, payload) ↔ ∃ groups, body = digest f.asStr.toList groups ∧
      Carries (hrpExpand f.asStr.toList) groups payload ∧ payload ≠ [] := by
  obtain ⟨hne, hchars⟩ := Id.asStr_chars f
  constructor
  · intro h
    rw [Id.parseBody] at h
    rcases hdec : Blech32.decode body with e | ⟨name, data⟩
    · simp only [hdec] at h
      cases h
    · simp only [hdec] at h
      rcases hname : FormatId.parse (String.ofList name) with e | g
      · simp only [hname] at h
        cases h
      · simp only [hname] at h
        cases h
        obtain ⟨-, -, groups, hbody, hcarries, hpayload⟩ := Blech32.decode_eq_ok.mp hdec
        rw [(name_of_admits hname).1] at hbody hcarries
        exact ⟨groups, hbody, hcarries, hpayload⟩
  · rintro ⟨groups, rfl, hcarries, hpayload⟩
    have hdec := Blech32.decode_eq_ok.mpr ⟨List.isEmpty_eq_false_iff.mp hne,
      List.all_eq_true.mp hchars, groups, rfl, hcarries, hpayload⟩
    have hformat : FormatId.parse f.asStr = .ok f := FormatId.parse_eq_ok.mpr rfl
    rw [Id.parseBody, digest, hdec]
    simp only [String.ofList_toList, hformat]

/-- The parser takes a text apart into a purpose, a format and a payload that fit. -/
theorem parse_eq_ok {s : List Char} {id : Id} :
    Id.parse s = .ok id ↔ ∃ value groups, Reads s value (digest id.format.asStr.toList groups) ∧
      Carries (hrpExpand id.format.asStr.toList) groups id.data ∧
      id.purpose = value.map fun v => PurposeId.parse (String.ofList v) := by
  rcases hsplit : splitPurposeSlot s with ⟨slot, body⟩
  have hparse : Id.parse s = .ok id ↔ Id.parsePurpose slot = .ok id.purpose ∧
      Id.parseBody body = .ok (id.format, id.data) := by
    simp only [Id.parse, hsplit, bind_ok]
    constructor
    · rintro ⟨purpose, hpurpose, ⟨f, data⟩, hbody, hnew⟩
      obtain ⟨-, -, rfl, rfl, rfl⟩ := new_eq_ok_iff.mp hnew
      exact ⟨hpurpose, hbody⟩
    · rintro ⟨hpurpose, hbody⟩
      exact ⟨id.purpose, hpurpose, (id.format, id.data), hbody, id.new_ok⟩
  rw [hparse, parseBody_eq_ok]
  constructor
  · rintro ⟨hpurpose, groups, rfl, hcarries, -⟩
    cases slot with
    | none => exact ⟨none, groups, .inl ⟨rfl, hsplit⟩, hcarries, (Except.ok.inj hpurpose).symm⟩
    | some p =>
      rw [Id.parsePurpose] at hpurpose
      rcases hv : unquotePurpose p with e | v
      · simp only [hv] at hpurpose
        cases hpurpose
      · simp only [hv] at hpurpose
        exact ⟨some v, groups, .inr ⟨p, v, rfl, hsplit, hv⟩, hcarries,
          (Except.ok.inj hpurpose).symm⟩
  · rintro ⟨value, groups, hreads, hcarries, hpurpose⟩
    rw [hpurpose]
    rcases hreads with ⟨rfl, hs⟩ | ⟨p, v, rfl, hs, hv⟩
    · cases hsplit.symm.trans hs
      exact ⟨rfl, groups, rfl, hcarries, id.data_ne_nil⟩
    · cases hsplit.symm.trans hs
      refine ⟨?_, groups, rfl, hcarries, id.data_ne_nil⟩
      simp only [Id.parsePurpose, hv, Option.map_some]

/-- The parser accepts exactly the texts that grammar and registries admit. -/
theorem parse_accepts {s : List Char} (hne : s ≠ []) :
    (∃ id, Id.parse s = .ok id) ↔ Accepted admits s := by
  have hlower : ∀ value name n, admits value name n → (∀ c ∈ name, isHrpChar c = true) →
      ∀ c ∈ name, isLowerHrpChar c = true := by
    rintro value name n ⟨f, hf, -, -⟩ -
    exact (name_of_admits hf).2.2
  rw [accepted_iff hlower hne]
  constructor
  · rintro ⟨id, h⟩
    obtain ⟨value, groups, hreads, hcarries, hpurpose⟩ := parse_eq_ok.mp h
    obtain ⟨-, hcheck, -⟩ := new_eq_ok_iff.mp id.new_ok
    have hformat : FormatId.parse (String.ofList id.format.asStr.toList) = .ok id.format := by
      rw [String.ofList_toList]
      exact FormatId.parse_eq_ok.mpr rfl
    obtain ⟨-, hname, hchars⟩ := name_of_admits hformat
    refine ⟨value, _, groups, id.data, hreads, hname, hchars, hcarries, id.data_ne_nil, id.format,
      hformat, id.size, ?_⟩
    rw [← hpurpose]
    exact hcheck
  · rintro ⟨value, name, groups, payload, hreads, -, -, hcarries, -, f, hf, hsize, hcheck⟩
    obtain ⟨rfl, -⟩ := name_of_admits hf
    let id : Id := ⟨_, f, payload, hsize, checkPurpose_none hcheck⟩
    exact ⟨id, parse_eq_ok.mpr ⟨value, groups, hreads, hcarries, rfl⟩⟩

end Piggy.Markl.Grammar
