import Piggy.Core.Lists
import Piggy.Ids.RecipientFile

/-!
# Adding recipients

New ids are appended as text to a copy of the live file. The copy is then read as a whole
and rendered again, and only that is installed. What the last line of the live file was
decides what becomes of the first new id.
-/

namespace Piggy.Pass

open Piggy.Core Piggy.Markl Piggy.Ids

/-- The file operations of a command that edits a recipient file; each may fail. -/
structure FileOps where
  /-- Reading the live file back. -/
  read : Bool
  /-- Writing the candidate next to the live file. -/
  stage : Bool
  /-- Running the canonicalizer and its own writes. -/
  canonicalize : Bool
  /-- Renaming the candidate over the live file. -/
  install : Bool
  deriving DecidableEq

/-- Nothing fails. -/
def FileOps.succeed : FileOps := ⟨true, true, true, true⟩

/-- How adding ends. -/
inductive AddExit where
  | usage
  | stageFailed
  | invalidRecipients
  | installFailed
  | installed
  deriving DecidableEq

/-- The text of a file after new lines were appended. -/
def appendIds (text : List Char) (ids : List (List Char)) : List Char :=
  text ++ ids.flatMap fun id => id ++ ['\n']

/-- What the canonicalizer makes of a file; none when it fails. -/
def canonicalize (text : List Char) : Option (List Char) :=
  match Ids.parse text with
  | .error _ => none
  | .ok rs => some (render rs)

/-- Adds recipients: the live file as it is left and how the command ended. -/
def add (ops : FileOps) (live : List Char) (ids : List (List Char)) : List Char × AddExit :=
  if ids.isEmpty then (live, .usage)
  else if !ops.stage then (live, .stageFailed)
  else
    match canonicalize (appendIds live ids) with
    | none => (live, .invalidRecipients)
    | some candidate =>
      if !ops.canonicalize then (live, .invalidRecipients)
      else if !ops.install then (live, .installFailed)
      else (candidate, .installed)

/-! ## The candidate -/

/-- A file has as many recipients as lines that are not skipped. -/
theorem parseLines_length {n : Nat} {ls : List (List Char)} {rs : List Recipient}
    (h : parseLines n ls = .ok rs) : rs.length = (ls.filter fun l => !isSkipped l).length := by
  induction ls generalizing n rs with
  | nil =>
    cases h
    rfl
  | cons raw rest ih =>
    rw [parseLines] at h
    cases hskip : isSkipped raw with
    | true =>
      rw [if_pos hskip] at h
      rw [List.filter_cons_of_neg (by simp [hskip])]
      exact ih h
    | false =>
      rw [if_neg (by simp [hskip])] at h
      simp only [bind_ok, pure_ok] at h
      obtain ⟨r, -, rs', hrs, rfl⟩ := h
      rw [List.filter_cons_of_pos (by simp [hskip]), List.length_cons, List.length_cons, ih hrs]

/-- Text behind a line that is not blank does not change whether it is skipped. -/
theorem isSkipped_append {line : List Char} (h : ¬ IsBlank line) (t : List Char) :
    isSkipped (line ++ t) = isSkipped line := by
  have happend : ¬ IsBlank (line ++ t) := by
    intro hb
    exact h fun c hc => hb c (List.mem_append_left _ hc)
  have hhead : (trimStart (line ++ t)).head? = (trimStart line).head? := by
    have hne : trimStart line ≠ [] := fun hn => h (trimStart_eq_nil_iff.mp hn)
    have hdrop : trimStart (line ++ t) = trimStart line ++ t := by
      simp only [trimStart, List.dropWhile_append]
      rw [if_neg]
      simpa [trimStart] using hne
    rw [hdrop, List.head?_append_of_ne_nil _ hne]
  have hne : ∀ s : List Char, ¬ IsBlank s → (trim s).isEmpty = false := by
    intro s hs
    rw [List.isEmpty_eq_false_iff]
    exact fun hn => hs (trim_eq_nil_iff.mp hn)
  rw [isSkipped, isSkipped, hne _ h, hne _ happend, head?_trim h, head?_trim happend, hhead]

/-- A blank line is skipped. -/
theorem isSkipped_of_blank {line : List Char} (h : IsBlank line) : isSkipped line = true := by
  rw [isSkipped, trim_eq_nil_iff.mpr h]
  rfl

/-- The lines of a text: those that are ended, and the last one when it is not empty. -/
theorem lines_eq (text : List Char) :
    lines text = lines (fullLines text) ++ if lastLine text = [] then [] else [lastLine text] := by
  have hlines := lines_append (terminated_fullLines text) (lastLine text)
  rw [fullLines_append_lastLine] at hlines
  rw [hlines]
  by_cases hl : lastLine text = []
  · rw [if_pos hl, hl]
    rfl
  · rw [if_neg hl, lines_of_newline_notMem (newline_notMem_lastLine text) hl]

/-- A word ends neither a line nor in a line end. -/
private theorem word_line {word : List Char} (hw : IsWord word) (hne : word ≠ [])
    {before : List Char} (hb : '\n' ∉ before) :
    '\n' ∉ before ++ word ∧ (before ++ word).getLast? ≠ some '\r' := by
  refine ⟨?_, ?_⟩
  · intro hmem
    rcases List.mem_append.mp hmem with h | h
    · exact hb h
    · exact absurd (hw _ h).1 (by decide)
  · rw [List.getLast?_append_of_ne_nil _ hne]
    intro hlast
    exact absurd (hw _ (List.mem_of_getLast? hlast)).1 (by decide)

/-- Words that are appended stand on lines of their own. -/
theorem lines_words {ids : List (List Char)} (h : ∀ s ∈ ids, IsWord s ∧ s ≠ []) :
    lines (ids.flatMap fun id => id ++ ['\n']) = ids := by
  induction ids with
  | nil => rfl
  | cons s ids ih =>
    obtain ⟨hword, hne⟩ := h s List.mem_cons_self
    have hline := word_line hword hne (List.not_mem_nil : '\n' ∉ [])
    rw [List.nil_append] at hline
    have hcons : ((s :: ids).flatMap fun id => id ++ ['\n']) =
        s ++ '\n' :: ids.flatMap fun id => id ++ ['\n'] := by
      simp
    rw [hcons, lines_line hline.1 hline.2, ih fun s hs => h s (List.mem_cons_of_mem _ hs)]

/-- The first word that is appended goes on the last line of the text. -/
theorem lines_appendIds {text s : List Char} {ids : List (List Char)}
    (h : ∀ s' ∈ s :: ids, IsWord s' ∧ s' ≠ []) :
    lines (appendIds text (s :: ids)) = lines (fullLines text) ++ (lastLine text ++ s) :: ids := by
  obtain ⟨hword, hne⟩ := h s List.mem_cons_self
  obtain ⟨hnl, hcr⟩ := word_line hword hne (newline_notMem_lastLine text)
  have htext : appendIds text (s :: ids) = fullLines text ++
      ((lastLine text ++ s) ++ '\n' :: ids.flatMap fun id => id ++ ['\n']) := by
    rw [appendIds]
    nth_rewrite 1 [← fullLines_append_lastLine text]
    simp
  rw [htext, lines_append (terminated_fullLines text), lines_line hnl hcr,
    lines_words fun s' hs' => h s' (List.mem_cons_of_mem _ hs')]

/-! ## What adding gives -/

/-- A text that spells an id which may stand in a recipient file. -/
def SpellsRecipient (s : List Char) : Prop := ∃ id, Id.parse s = .ok id ∧ shapeOk id = true

/-- A recipient that carries the supplied id, as it is rendered. -/
def Supplies (s : List Char) (r : Recipient) : Prop :=
  ∃ id, Id.parse s = .ok id ∧ r.id = canonicalizeForRender id

/-- A file with the old recipients in order, comments included, and behind them one for
each supplied id. -/
def AddsAll (old : List Recipient) (ids : List (List Char)) (text : List Char) : Prop :=
  ∃ new, Ids.parse text = .ok (old.map Recipient.canonical ++ new) ∧
    List.Forall₂ Supplies ids new

/-- A text that spells a recipient is a word. -/
theorem SpellsRecipient.isWord {s : List Char} (h : SpellsRecipient s) : IsWord s ∧ s ≠ [] := by
  obtain ⟨id, hid, hshape⟩ := h
  refine Id.parse_isWord hid ?_
  intro p hp
  simp only [shapeOk, Option.mem_def.mp hp] at hshape
  exact (shapeOk_of_tagged hshape).2 p hp

/-- The supplied id of a recipient may stand in a recipient file. -/
theorem Supplies.spellsRecipient {s : List Char} {r : Recipient} (h : Supplies s r) :
    SpellsRecipient s := by
  obtain ⟨id, hid, hr⟩ := h
  refine ⟨id, hid, ?_⟩
  have hshape := r.shape
  rw [hr] at hshape
  rcases hp : id.purpose with _ | p
  · rcases hnew : Id.new (some .piggyRecipientV1) id.format id.data with e | tagged
    · have hcan : canonicalizeForRender id = id := by
        simp only [canonicalizeForRender, hp, hnew]
      rwa [hcan] at hshape
    · -- the tagged id was checked against the purpose
      obtain ⟨hpurpose, hformat, -⟩ := Id.new_eq_ok hnew
      have haccepts := tagged.compatible .piggyRecipientV1 hpurpose rfl
      rw [hformat] at haccepts
      simp only [shapeOk, hp]
      exact haccepts
  · have hcan : canonicalizeForRender id = id := by simp only [canonicalizeForRender, hp]
    rwa [hcan] at hshape

/-- A line with a supplied id and nothing else but blanks in front. -/
theorem parseLine_word {blanks s : List Char} (hb : IsBlank blanks) (h : SpellsRecipient s) :
    isSkipped (blanks ++ s) = false ∧
      ∃ r, (∀ n, parseLine (blanks ++ s) n = .ok r) ∧ Supplies s r.canonical := by
  obtain ⟨hword, hne⟩ := h.isWord
  obtain ⟨id, hid, hshape⟩ := h
  have hline : blanks ++ s = blanks ++ (s ++ []) := by rw [List.append_nil]
  refine ⟨by rw [hline]; exact isSkipped_word hb hword hne, ⟨id, none, hshape⟩, ?_, id, hid, rfl⟩
  intro n
  have htail : ∀ c ∈ ([] : List Char).head?, isAsciiWhitespace c = true := by simp
  have hsplit := splitTokenAndComment_word hb hword hne htail
  rw [← hline] at hsplit
  simp only [parseLine, hsplit, hid, dif_pos hshape, commentBehind]
  rw [if_neg (by simpa using hne)]
  rfl

/-- Supplied ids on lines of their own are read one by one. -/
theorem parseLines_words {ids : List (List Char)} (h : ∀ s ∈ ids, SpellsRecipient s) (n : Nat) :
    ∃ new, parseLines n ids = .ok new ∧
      List.Forall₂ Supplies ids (new.map Recipient.canonical) := by
  induction ids generalizing n with
  | nil => exact ⟨[], rfl, .nil⟩
  | cons s ids ih =>
    obtain ⟨new, hnew, hall⟩ := ih (fun s' hs' => h s' (List.mem_cons_of_mem _ hs')) (n + 1)
    obtain ⟨hskip, r, hr, hs⟩ := parseLine_word isBlank_nil (h s List.mem_cons_self)
    rw [List.nil_append] at hskip hr
    refine ⟨r :: new, ?_, .cons hs hall⟩
    rw [parseLines, if_neg (by simp [hskip]), hr n, hnew]
    rfl

/-- Either a candidate that could be read is installed as it renders, or the live file stays
as it is. -/
theorem add_cases (ops : FileOps) (live : List Char) (ids : List (List Char)) :
    (∃ rs, ids ≠ [] ∧ Ids.parse (appendIds live ids) = .ok rs ∧
      add ops live ids = (render rs, .installed)) ∨
    ((add ops live ids).1 = live ∧ (add ops live ids).2 ≠ .installed) := by
  rw [add]
  by_cases hids : ids.isEmpty = true
  · rw [if_pos hids]
    exact Or.inr ⟨rfl, nofun⟩
  rw [if_neg hids]
  by_cases hstage : (!ops.stage) = true
  · rw [if_pos hstage]
    exact Or.inr ⟨rfl, nofun⟩
  rw [if_neg hstage, canonicalize]
  rcases hparse : Ids.parse (appendIds live ids) with e | rs
  · exact Or.inr ⟨rfl, nofun⟩
  · by_cases hcan : (!ops.canonicalize) = true
    · refine Or.inr ?_
      simp [hcan]
    by_cases hins : (!ops.install) = true
    · refine Or.inr ?_
      simp [hcan, hins]
    · simp only [if_neg hcan, if_neg hins]
      exact Or.inl ⟨rs, by simpa using hids, rfl, rfl⟩

/-- A candidate that can be read is installed when no file operation fails. -/
theorem add_succeed {live : List Char} {ids : List (List Char)} {rs : List Recipient}
    (hids : ids ≠ []) (h : Ids.parse (appendIds live ids) = .ok rs) :
    add .succeed live ids = (render rs, .installed) := by
  have hempty : ids.isEmpty = false := List.isEmpty_eq_false_iff.mpr hids
  simp [add, FileOps.succeed, canonicalize, hempty, h]

/-- The recipients of the live file are those of its ended lines when nothing else stands
behind them. -/
theorem parse_fullLines {live : List Char} {old : List Recipient} (h : Ids.parse live = .ok old)
    (hblank : IsBlank (lastLine live)) : parseLines 1 (lines (fullLines live)) = .ok old := by
  rw [Ids.parse, lines_eq live] at h
  obtain ⟨ra, rb, ha, hb, rfl⟩ := parseLines_append.mp h
  have hnil : rb = [] := by
    by_cases hl : lastLine live = []
    · rw [if_pos hl] at hb
      exact (Except.ok.inj hb).symm
    · rw [if_neg hl] at hb
      rcases parseLines_single.mp hb with ⟨-, hrb⟩ | ⟨hskip, -⟩
      · exact hrb
      · rw [isSkipped_of_blank hblank] at hskip
        cases hskip
  rw [hnil, List.append_nil]
  exact ha

/-- Behind a blank last line every supplied id gets a line of its own. -/
theorem parse_appendIds {live : List Char} {old : List Recipient} (h : Ids.parse live = .ok old)
    (hblank : IsBlank (lastLine live)) {ids : List (List Char)} (hids : ids ≠ [])
    (hspell : ∀ s ∈ ids, SpellsRecipient s) :
    ∃ new, Ids.parse (appendIds live ids) = .ok (old ++ new) ∧
      List.Forall₂ Supplies ids (new.map Recipient.canonical) := by
  obtain ⟨s, ids, rfl⟩ := List.exists_cons_of_ne_nil hids
  obtain ⟨new, hnew, hall⟩ :=
    parseLines_words (fun s' hs' => hspell s' (List.mem_cons_of_mem _ hs')) 2
  obtain ⟨hskip, r, hr, hs⟩ := parseLine_word hblank (hspell s List.mem_cons_self)
  refine ⟨r :: new, ?_, .cons hs hall⟩
  rw [Ids.parse, lines_appendIds fun s' hs' => (hspell s' hs').isWord]
  refine parseLines_append.mpr ⟨old, r :: new, parse_fullLines h hblank, ?_, rfl⟩
  rw [parseLines, if_neg (by simp [hskip]), hr 1, hnew]
  rfl

/-- A last line that is not blank swallows the first supplied id. -/
theorem length_parse_appendIds {live : List Char} {old rs : List Recipient}
    (h : Ids.parse live = .ok old) (hblank : ¬ IsBlank (lastLine live)) {ids : List (List Char)}
    (hids : ids ≠ []) (hspell : ∀ s ∈ ids, SpellsRecipient s)
    (hrs : Ids.parse (appendIds live ids) = .ok rs) : rs.length < old.length + ids.length := by
  obtain ⟨s, ids, rfl⟩ := List.exists_cons_of_ne_nil hids
  have hne : lastLine live ≠ [] := by
    intro hn
    rw [hn] at hblank
    exact hblank isBlank_nil
  have hold := parseLines_length h
  have hnew := parseLines_length hrs
  rw [lines_eq live, if_neg hne, List.filter_append, List.length_append] at hold
  rw [lines_appendIds fun s' hs' => (hspell s' hs').isWord, List.filter_append,
    List.length_append, ← List.singleton_append, List.filter_append, List.length_append] at hnew
  have hsame : ([lastLine live ++ s].filter fun l => !isSkipped l).length =
      ([lastLine live].filter fun l => !isSkipped l).length := by
    simp only [List.filter_cons, isSkipped_append hblank, List.filter_nil]
    split <;> rfl
  have hle : (ids.filter fun l => !isSkipped l).length ≤ ids.length := List.length_filter_le _ _
  rw [List.length_cons]
  omega

/-- Adding loses no recipient exactly when the last line of the live file is blank and every
supplied text spells a recipient; when nothing is installed the live file is unchanged. -/
theorem add_addsAll_iff (ops : FileOps) {live : List Char} {old : List Recipient}
    (h : Ids.parse live = .ok old) (ids : List (List Char)) :
    ((add ops live ids).2 = .installed →
      (AddsAll old ids (add ops live ids).1 ↔
        IsBlank (lastLine live) ∧ ∀ s ∈ ids, SpellsRecipient s)) ∧
    ((add ops live ids).2 ≠ .installed → (add ops live ids).1 = live) := by
  rcases add_cases ops live ids with ⟨rs, hids, hrs, hadd⟩ | ⟨hlive, hexit⟩
  · refine ⟨fun _ => ?_, fun hno => absurd (by rw [hadd]) hno⟩
    have hrender := parse_render_parse hrs
    rw [hadd]
    constructor
    · rintro ⟨new, hnew, hall⟩
      rw [hrender, Except.ok.injEq] at hnew
      have hspell : ∀ s ∈ ids, SpellsRecipient s := by
        intro s hs
        obtain ⟨r, -, hr⟩ := forall₂_mem_left hall hs
        exact hr.spellsRecipient
      refine ⟨?_, hspell⟩
      by_contra hblank
      have hlt := length_parse_appendIds h hblank hids hspell hrs
      have hlen := congrArg List.length hnew
      rw [List.length_map, List.length_append, List.length_map, ← hall.length_eq] at hlen
      omega
    · rintro ⟨hblank, hspell⟩
      obtain ⟨new, hnew, hall⟩ := parse_appendIds h hblank hids hspell
      obtain rfl : rs = old ++ new := by
        rw [hrs, Except.ok.injEq] at hnew
        exact hnew
      exact ⟨new.map Recipient.canonical, by rw [hrender, List.map_append], hall⟩
  · exact ⟨fun hyes => absurd hyes hexit, fun _ => hlive⟩

/-! ## A comment without a line end -/

/-- A line with a recipient and a comment, without its end. -/
def sampleLine : List Char :=
  ("piggy-recipient-v1@pivy_ecdh_p256_pub-" ++
    "qgzsqqqqqqqqqqqqqqqqqqqqqqqqqqqqqqqqqqqqqqqqqqqqqqqqqczgz8p  # laptop").toList

/-- Another recipient, spelled bare. -/
def sampleBareId : List Char :=
  ("pivy_ecdh_p256_pub-" ++
    "qgrsqqqqqqqqqqqqqqqqqqqqqqqqqqqqqqqqqqqqqqqqqqqqqqqqqdhvn4c").toList

theorem sampleBareId_spellsRecipient : SpellsRecipient sampleBareId :=
  map_ok.mp (of_toList_append (p := fun s => shapeOk <$> Id.parse s = .ok true) (by decide +kernel))

/-- How many recipients the sample files list. -/
theorem sampleLine_counts :
    List.length <$> Ids.parse sampleLine = .ok 1 ∧
      List.length <$> Ids.parse (appendIds sampleLine [sampleBareId]) = .ok 1 ∧
      (Ids.parse (sampleLine ++ ['\n'])).isOk = true :=
  of_toList_append (p := fun line => List.length <$> Ids.parse line = .ok 1 ∧
      List.length <$> Ids.parse (appendIds line [sampleBareId]) = .ok 1 ∧
      (Ids.parse (line ++ ['\n'])).isOk = true)
    (of_toList_append (p := fun s => _ ∧ List.length <$> Ids.parse (appendIds _ [s]) = .ok 1 ∧ _)
      (by decide +kernel))

/-- Behind a comment without line end the new recipient is lost, and the command succeeds. -/
theorem not_addsAll_unterminated :
    ∃ old, Ids.parse sampleLine = .ok old ∧
      (add .succeed sampleLine [sampleBareId]).2 = .installed ∧
      ¬ AddsAll old [sampleBareId] (add .succeed sampleLine [sampleBareId]).1 := by
  obtain ⟨hone, hstill, -⟩ := sampleLine_counts
  obtain ⟨old, hold, hlen⟩ := map_ok.mp hone
  obtain ⟨rs, hrs, hcount⟩ := map_ok.mp hstill
  have hadd := add_succeed (by simp) hrs
  refine ⟨old, hold, by rw [hadd], ?_⟩
  rintro ⟨new, hnew, hall⟩
  rw [hadd, parse_render_parse hrs, Except.ok.injEq] at hnew
  have hsum := congrArg List.length hnew
  rw [List.length_map, List.length_append, List.length_map, ← hall.length_eq, hcount, hlen] at hsum
  cases hsum

/-- Behind a line with its end the new recipient is added. -/
theorem addsAll_terminated :
    ∃ old, Ids.parse (sampleLine ++ ['\n']) = .ok old ∧
      (add .succeed (sampleLine ++ ['\n']) [sampleBareId]).2 = .installed ∧
      AddsAll old [sampleBareId] (add .succeed (sampleLine ++ ['\n']) [sampleBareId]).1 := by
  have hspell : ∀ s ∈ [sampleBareId], SpellsRecipient s := by
    intro s hs
    obtain rfl := List.mem_singleton.mp hs
    exact sampleBareId_spellsRecipient
  have hblank : IsBlank (lastLine (sampleLine ++ ['\n'])) := by
    rw [lastLine_newline]
    exact isBlank_nil
  obtain ⟨old, hold⟩ := exists_ok sampleLine_counts.2.2
  obtain ⟨new, hnew, -⟩ := parse_appendIds hold hblank (by simp) hspell
  have hinstalled : (add .succeed (sampleLine ++ ['\n']) [sampleBareId]).2 = .installed := by
    rw [add_succeed (by simp) hnew]
  exact ⟨old, hold, hinstalled, ((add_addsAll_iff _ hold _).1 hinstalled).mpr ⟨hblank, hspell⟩⟩

end Piggy.Pass
