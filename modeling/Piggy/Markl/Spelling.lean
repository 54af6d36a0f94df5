import Piggy.Core.Text
import Piggy.Markl.Id

/-!
# The spellings of an id

A key may be spelled bare, with its purpose in front, or with the purpose in quotes. The
text of a line knows none of this: it is cut at whitespace and at `#`. An id with a
purpose that is enumerated, or with none, has neither in any of its spellings.
-/

namespace Piggy.Markl

open Piggy.Core

/-- A text that a line keeps together: no whitespace in it and no `#`. -/
def IsWord (s : List Char) : Prop := ∀ c ∈ s, isWhitespace c = false ∧ c ≠ '#'

theorem IsWord.append {s t : List Char} (hs : IsWord s) (ht : IsWord t) : IsWord (s ++ t) := by
  intro c hc
  rcases List.mem_append.mp hc with h | h
  · exact hs c h
  · exact ht c h

theorem IsWord.cons {c : Char} {s : List Char} (hc : isWhitespace c = false ∧ c ≠ '#')
    (hs : IsWord s) : IsWord (c :: s) := by
  intro c' hc'
  rcases List.mem_cons.mp hc' with rfl | h
  · exact hc
  · exact hs c' h

theorem isBareChar_word {c : Char} (h : isBareChar c = true) :
    isWhitespace c = false ∧ c ≠ '#' := by
  constructor
  · have hn : (65 ≤ c.toNat ∧ c.toNat ≤ 90 ∨ 97 ≤ c.toNat ∧ c.toNat ≤ 122) ∨
        (48 ≤ c.toNat ∧ c.toNat ≤ 57) ∨ c.toNat = 95 ∨ c.toNat = 47 ∨ c.toNat = 45 := by
      simp only [isBareChar, isAlphanum_iff, isUpper_iff, isLower_iff, isDigit_iff,
        Bool.or_eq_true, beq_iff_eq] at h
      obtain ((h | rfl) | rfl) | rfl := h
      · rcases h with h | h
        · exact Or.inl h
        · exact Or.inr (Or.inl h)
      all_goals decide
    simp only [isWhitespace, Bool.or_eq_false_iff, Bool.and_eq_false_iff,
      decide_eq_false_iff_not]
    omega
  · rintro rfl
    revert h
    decide

theorem isWord_of_bare {s : List Char} (h : ∀ c ∈ s, isBareChar c = true) : IsWord s :=
  fun c hc => isBareChar_word (h c hc)

theorem isBareChar_of_hrp {c : Char} (h : Blech32.isHrpChar c = true) : isBareChar c = true := by
  simp only [Blech32.isHrpChar, Bool.or_eq_true] at h
  simp only [isBareChar, Bool.or_eq_true]
  tauto

/-! ## Splitting and joining again -/

theorem scanQuoted_eq_some {quote : Char} {text before after : List Char}
    (h : scanQuoted quote text = some (before, after)) : text = before ++ after := by
  fun_induction scanQuoted quote text generalizing before with
  | case1 => cases h
  | case2 => cases h
  | case3 escaped cs ih =>
    obtain ⟨⟨before', after'⟩, hscan, heq⟩ := Option.map_eq_some_iff.mp h
    cases heq
    rw [ih hscan]
    rfl
  | case4 cs hq => cases h; rfl
  | case5 c cs hesc hq ih =>
    obtain ⟨⟨before', after'⟩, hscan, heq⟩ := Option.map_eq_some_iff.mp h
    cases heq
    rw [ih hscan]
    rfl

/-- The scan ends with the quote it looks for. -/
theorem scanQuoted_last {quote : Char} {text before after : List Char}
    (h : scanQuoted quote text = some (before, after)) : ∃ interior, before = interior ++ [quote] := by
  fun_induction scanQuoted quote text generalizing before with
  | case1 => cases h
  | case2 => cases h
  | case3 escaped cs ih =>
    obtain ⟨⟨before', after'⟩, hscan, heq⟩ := Option.map_eq_some_iff.mp h
    cases heq
    obtain ⟨interior, rfl⟩ := ih hscan
    exact ⟨'\\' :: escaped :: interior, rfl⟩
  | case4 cs hq =>
    cases h
    exact ⟨[], rfl⟩
  | case5 c cs hesc hq ih =>
    obtain ⟨⟨before', after'⟩, hscan, heq⟩ := Option.map_eq_some_iff.mp h
    cases heq
    obtain ⟨interior, rfl⟩ := ih hscan
    exact ⟨c :: interior, rfl⟩

/-- A quoted slot resolves when the join follows its closing quote. -/
theorem splitPurposeSlot_scan {quote d : Char} {cs slot body : List Char}
    (hquote : ¬ (quote ≠ '"' ∧ quote ≠ '\''))
    (hscan : scanQuoted quote cs = some (slot, d :: body)) :
    splitPurposeSlot (quote :: cs) =
      if d = '@' then (some (quote :: slot), body) else (some (quote :: cs), []) := by
  rw [splitPurposeSlot, if_neg hquote]
  by_cases hd : d = '@'
  · subst hd
    simp only [hscan, if_true]
  · simp only [hscan, if_neg hd]
    split
    · next heq =>
      simp only [Option.some.injEq, Prod.mk.injEq, List.cons.injEq] at heq
      exact absurd heq.2.1 hd
    · rfl

/-- A text is its slot, the join and its body; without a slot it is its body. A quoted slot
that nothing follows as it should has an empty body. -/
theorem splitPurposeSlot_eq {text body : List Char} {slot : Option (List Char)}
    (h : splitPurposeSlot text = (slot, body)) :
    (slot = none ∧ text = body) ∨ (∃ s, slot = some s ∧ text = s ++ '@' :: body) ∨
      body = [] := by
  cases text with
  | nil =>
    cases h
    exact Or.inl ⟨rfl, rfl⟩
  | cons quote cs =>
    rw [splitPurposeSlot] at h
    by_cases hq : quote ≠ '"' ∧ quote ≠ '\''
    · rw [if_pos hq] at h
      rcases hsplit : splitOnceAt (· = '@') (quote :: cs) with _ | ⟨before, after⟩
      · simp only [hsplit] at h
        cases h
        exact Or.inl ⟨rfl, rfl⟩
      · simp only [hsplit] at h
        cases h
        obtain ⟨c, hc, heq⟩ := splitOnceAt_eq_some hsplit
        obtain rfl := of_decide_eq_true hc
        exact Or.inr (Or.inl ⟨_, rfl, heq⟩)
    · rw [if_neg hq] at h
      rcases hscan : scanQuoted quote cs with _ | ⟨before, after⟩
      · simp only [hscan] at h
        cases h
        exact Or.inr (Or.inr rfl)
      · have hcs := scanQuoted_eq_some hscan
        rcases after with _ | ⟨c, after⟩
        · simp only [hscan] at h
          cases h
          exact Or.inr (Or.inr rfl)
        · by_cases hc : c = '@'
          · subst hc
            simp only [hscan] at h
            cases h
            exact Or.inr (Or.inl ⟨_, rfl, by rw [hcs]; rfl⟩)
          · simp only [hscan] at h
            split at h
            · next heq => simp at heq; exact absurd heq.2.1 hc
            · cases h
              exact Or.inr (Or.inr rfl)

/-! ## Words -/

theorem isBareChar_of_wire {c : Char} (h : Blech32.isWireChar c = true) : isBareChar c = true := by
  simp only [Blech32.isWireChar, Blech32.isLowerHrpChar, Bool.or_eq_true, Bool.and_eq_true] at h
  rcases h with ⟨h, -⟩ | h
  · exact isBareChar_of_hrp h
  · rw [eq_of_beq h]
    decide

/-- A body that decodes is made of bare characters. -/
theorem parseBody_chars {body : List Char} {format : FormatId} {data : List UInt8}
    (h : Id.parseBody body = .ok (format, data)) : ∀ c ∈ body, isBareChar c = true := by
  rw [Id.parseBody] at h
  rcases hdec : Blech32.decode body with e | ⟨name, payload⟩
  · simp only [hdec] at h
    cases h
  · obtain ⟨-, hhrp, groups, rfl, hcarries, -⟩ := Blech32.decode_eq_ok.mp hdec
    intro c hc
    exact isBareChar_of_wire (Blech32.isWireChar_of_spelled hhrp hcarries.range c hc)

/-- Undoing escapes keeps whitespace and `#` where they stand. -/
theorem isWord_of_unescape {s : List Char} (h : IsWord (unescapePurposeInterior s)) :
    IsWord s := by
  fun_induction unescapePurposeInterior s with
  | case1 => exact h
  | case2 c cs hc ih =>
    exact IsWord.cons (h c (by simp)) (ih fun c' hc' => h c' (by simp [hc']))
  | case3 c hc =>
    obtain rfl : c = '\\' := by simpa using hc
    exact h
  | case4 c hc escaped cs ih =>
    obtain rfl : c = '\\' := by simpa using hc
    refine IsWord.cons ⟨rfl, by decide⟩ (IsWord.cons ?_ (ih fun c' hc' => h c' (by simp [hc'])))
    by_cases hb : isBareChar escaped = true
    · exact isBareChar_word hb
    · -- every escape with a meaning is a letter; another one stands for itself
      have hself : unescape escaped = escaped := by
        have hne : ∀ c : Char, isBareChar c = true → escaped ≠ c := by
          rintro c hc rfl
          exact hb hc
        simp only [unescape]
        rw [if_neg (hne 'n' rfl), if_neg (hne 't' rfl), if_neg (hne 'r' rfl), if_neg (hne 'a' rfl),
          if_neg (hne 'b' rfl), if_neg (hne 'f' rfl), if_neg (hne 'v' rfl)]
      rw [← hself]
      exact h (unescape escaped) (by simp)

/-- A slot that stands for a purpose that is enumerated is a word, in quotes or bare. -/
theorem unquotePurpose_isWord {slot name : List Char} (h : unquotePurpose slot = .ok name)
    (hname : (PurposeId.parse (String.ofList name)).isOther = false) : IsWord slot := by
  have hword : IsWord name := by
    have hbare := (Id.enumerated_spec hname).1
    rw [PurposeId.asStr_parse, String.toList_ofList, purposeIsBareExpressible,
      Bool.and_eq_true, List.all_eq_true] at hbare
    exact isWord_of_bare hbare.2
  cases slot with
  | nil => cases h
  | cons first rest =>
    rw [unquotePurpose] at h
    by_cases hq : first ≠ '"' ∧ first ≠ '\''
    · rw [if_pos hq] at h
      by_cases hbare : purposeIsBareExpressible (first :: rest) = true
      · rw [if_pos hbare] at h
        cases h
        exact hword
      · rw [if_neg hbare] at h
        cases h
    · rw [if_neg hq] at h
      have hfirst : isWhitespace first = false ∧ first ≠ '#' := by
        by_cases hd : first = '"'
        · rw [hd]
          decide
        · have hs : first = '\'' := by
            by_contra hs
            exact hq ⟨hd, hs⟩
          rw [hs]
          decide
      by_cases hlast : rest.getLast? = some first
      · rw [if_pos hlast] at h
        cases h
        have hrest : rest = rest.dropLast ++ [first] := (List.dropLast_append_getLast? _ hlast).symm
        rw [hrest]
        exact IsWord.cons hfirst ((isWord_of_unescape hword).append
          (IsWord.cons hfirst (fun c hc => by cases hc)))
      · rw [if_neg hlast] at h
        cases h

namespace Id

/-- What a text must be to spell an id. -/
theorem parse_cases {s : List Char} {id : Id} (h : parse s = .ok id) :
    ∃ body, parseBody body = .ok (id.format, id.data) ∧
      ((id.purpose = none ∧ s = body) ∨
        ∃ slot name, unquotePurpose slot = .ok name ∧ s = slot ++ '@' :: body ∧
          id.purpose = some (PurposeId.parse (String.ofList name))) := by
  simp only [parse, bind_ok] at h
  obtain ⟨purpose, hpurpose, ⟨format, data⟩, hbody, hnew⟩ := h
  have hid : id.purpose = purpose ∧ id.format = format ∧ id.data = data := new_eq_ok hnew
  rw [← hid.1] at hpurpose
  rw [← hid.2.1, ← hid.2.2] at hbody
  refine ⟨_, hbody, ?_⟩
  rcases hsplit : splitPurposeSlot s with ⟨slot, body⟩
  rw [hsplit] at hpurpose hbody
  rcases splitPurposeSlot_eq hsplit with ⟨rfl, rfl⟩ | ⟨slot, rfl, rfl⟩ | rfl
  · exact Or.inl ⟨(Except.ok.inj hpurpose).symm, rfl⟩
  · refine Or.inr ?_
    rw [parsePurpose] at hpurpose
    rcases hname : unquotePurpose slot with e | name
    · simp only [hname] at hpurpose
      cases hpurpose
    · simp only [hname] at hpurpose
      exact ⟨slot, name, hname, rfl, (Except.ok.inj hpurpose).symm⟩
  · cases hbody

/-- Every spelling of an id without purpose, or with one that is enumerated, is a word. -/
theorem parse_isWord {s : List Char} {id : Id} (h : parse s = .ok id)
    (henum : ∀ p ∈ id.purpose, p.isOther = false) : IsWord s ∧ s ≠ [] := by
  obtain ⟨body, hbody, ⟨-, rfl⟩ | ⟨slot, name, hname, rfl, hpurpose⟩⟩ := parse_cases h
  · refine ⟨isWord_of_bare (parseBody_chars hbody), ?_⟩
    rintro rfl
    cases hbody
  · refine ⟨(unquotePurpose_isWord hname (henum _ hpurpose)).append (IsWord.cons (by decide)
      (isWord_of_bare (parseBody_chars hbody))), by simp⟩

/-! ## One wire form for each id -/

/-- A body that decodes is the body of the id it belongs to. -/
theorem body_of_parseBody {id : Id} {text : List Char}
    (h : parseBody text = .ok (id.format, id.data)) : id.body = text := by
  rw [parseBody] at h
  rcases hdec : Blech32.decode text with e | ⟨name, data⟩
  · simp only [hdec] at h
    cases h
  · simp only [hdec] at h
    rcases hname : FormatId.parse (String.ofList name) with e | f
    · simp only [hname] at h
      cases h
    · simp only [hname, Except.ok.injEq, Prod.mk.injEq] at h
      obtain ⟨rfl, rfl⟩ := h
      have hasStr : id.format.asStr.toList = name := by
        rw [← FormatId.parse_eq_ok.mp hname, String.toList_ofList]
      rw [body, hasStr, Blech32.encode_of_decode hdec]

/-- A wire form is one line: a line break in a purpose is escaped. -/
theorem newline_notMem_toWire (id : Id) : '\n' ∉ id.toWire := by
  have hbody : '\n' ∉ id.body := by
    intro h
    exact absurd (id.parseBody_body.2 _ h) (by decide)
  cases hp : id.purpose with
  | none => simpa only [toWire, hp] using hbody
  | some p =>
    have hspell : '\n' ∉ spellPurpose p.asStr.toList := by
      rw [spellPurpose]
      split
      · next hbare =>
        intro h
        simp only [purposeIsBareExpressible, Bool.and_eq_true, List.all_eq_true] at hbare
        exact absurd (hbare.2 _ h) (by decide)
      · obtain ⟨escape, hescape, hquote⟩ := quotePurpose_eq p.asStr.toList
        have hchars : '\n' ∉ p.asStr.toList.flatMap escape := by
          intro h
          obtain ⟨c, -, hmem⟩ := List.mem_flatMap.mp h
          rcases hescape c with ⟨hc, hplain⟩ | ⟨letter, hletter, hc, -⟩
          · rw [hc, List.mem_singleton] at hmem
            exact hplain (hmem ▸ (by decide))
          · have hall : ∀ l ∈ escapeLetters, '\n' ∉ ['\\', l] := by
              simp only [escapeLetters, List.forall_mem_cons, List.not_mem_nil, false_imp_iff,
                implies_true, and_true]
              decide
            exact hall letter hletter (hc ▸ hmem)
        rw [hquote]
        simpa using hchars
    simp only [toWire, hp]
    simpa using ⟨hspell, hbody⟩

/-- The purpose of an id made from a parsed purpose is the one its name stands for. -/
private theorem parsed_of_new {name : Option String} {format : FormatId} {data : List UInt8}
    {id : Id} (h : Id.new (name.map PurposeId.parse) format data = .ok id) :
    ∀ p ∈ id.purpose, PurposeId.parse p.asStr = p := by
  intro p hp
  rw [(new_eq_ok h).1] at hp
  obtain ⟨s, -, rfl⟩ := Option.mem_map.mp hp
  rw [PurposeId.asStr_parse]

/-- The purpose of an id that was read is the one its name stands for. -/
theorem parsed_of_parse {s : List Char} {id : Id} (h : parse s = .ok id) :
    ∀ p ∈ id.purpose, PurposeId.parse p.asStr = p := by
  intro p hp
  obtain ⟨body, -, ⟨hnone, -⟩ | ⟨slot, name, -, -, hsome⟩⟩ := parse_cases h
  · rw [hnone] at hp
    cases hp
  · rw [hsome] at hp
    obtain rfl := Option.mem_some_iff.mp hp
    rw [PurposeId.asStr_parse]

/-- An id is read back from its wire form whatever its purpose, no two ids share a wire
form, and a text that is read is the wire form up to the spelling of its purpose. -/
theorem wire_canonical :
    (∀ (name : Option String) (format : FormatId) (data : List UInt8) (id : Id),
      Id.new (name.map PurposeId.parse) format data = .ok id → parse id.toWire = .ok id) ∧
    (∀ (name name' : Option String) (format format' : FormatId) (data data' : List UInt8)
      (id id' : Id), Id.new (name.map PurposeId.parse) format data = .ok id →
        Id.new (name'.map PurposeId.parse) format' data' = .ok id' →
        id.toWire = id'.toWire → id = id') ∧
    (∀ (s : List Char) (id : Id), parse s = .ok id →
      parse id.toWire = .ok id ∧ (splitPurposeSlot id.toWire).2 = (splitPurposeSlot s).2) := by
  refine ⟨?_, ?_, ?_⟩
  · intro name format data id h
    exact parse_toWire_of_parsed (parsed_of_new h)
  · intro name name' format format' data data' id id' h h' hwire
    have hid := parse_toWire_of_parsed (parsed_of_new h)
    rw [hwire, parse_toWire_of_parsed (parsed_of_new h')] at hid
    exact (Except.ok.inj hid).symm
  · intro s id h
    refine ⟨parse_toWire_of_parsed (parsed_of_parse h), ?_⟩
    simp only [parse, bind_ok] at h
    obtain ⟨purpose, -, ⟨format, data⟩, hbody, hnew⟩ := h
    obtain ⟨-, rfl, rfl⟩ := new_eq_ok hnew
    rw [splitPurposeSlot_toWire]
    exact body_of_parseBody hbody

/-- A purpose with a quote, a backslash, the join and a line break in it. -/
def sampleQuoted : Id where
  purpose := some (PurposeId.parse "say \"a@b\"\n\\")
  format := .sha256
  data := List.replicate 32 7
  size := rfl
  compatible := by
    rintro p ⟨⟩ hp
    cases hp

theorem wire_canonical_sampleQuoted : parse sampleQuoted.toWire = .ok sampleQuoted :=
  wire_canonical.1 (some "say \"a@b\"\n\\") .sha256 (List.replicate 32 7) sampleQuoted
    sampleQuoted.new_ok

end Id

end Piggy.Markl
