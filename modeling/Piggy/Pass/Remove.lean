import Piggy.Pass.Add

/-!
# Removing recipients

The live file is rendered in place first. Then the lines whose id is one of the supplied
texts are dropped, text against text, and the rest is installed as it stands.
-/

namespace Piggy.Pass

open Piggy.Core Piggy.Markl Piggy.Ids

/-! ## The line filter -/

/-- The pieces of a text, each up to and with its newline; the last one may have none. -/
def splitInclusive : List Char → List (List Char)
  | [] => []
  | c :: cs =>
    if c = '\n' then [c] :: splitInclusive cs
    else match splitInclusive cs with
      | [] => [[c]]
      | line :: rest => (c :: line) :: rest

/-- A line that lists nothing. -/
def isCommentOrBlank (line : List Char) : Bool :=
  let trimmed := trimStart line
  trimmed.isEmpty || trimmed.head? == some '#'

/-- The scan for an inline comment, with the characters passed so far in reverse. It finds
where the whitespace in front of the comment starts. -/
def findCommentStartFrom (before : List Char) : List Char → Option Nat
  | [] => none
  | c :: cs =>
    if c = '#' ∧ before.head?.any isAsciiWhitespace = true then
      some (before.dropWhile isAsciiWhitespace).length
    else findCommentStartFrom (c :: before) cs

/-- Where a comment starts. -/
def findCommentStart (line : List Char) : Option Nat := findCommentStartFrom [] line

/-- The id in a line. -/
def recipientIdOfLine (line : List Char) : List Char :=
  trim (match findCommentStart line with
    | some idx => line.take idx
    | none => line)

/-- What the filter keeps of a piece. -/
def filterLine (targets : List (List Char)) (line : List Char) : List Char :=
  let (body, newline) :=
    if line.getLast? = some '\n' then (line.dropLast, ['\n']) else (line, [])
  if isCommentOrBlank body then line
  else if recipientIdOfLine body ∈ targets.filter (· ≠ []) then []
  else body ++ newline

/-- The file without the lines of some ids. -/
def filterOutRecipients (contents : List Char) (targets : List (List Char)) : List Char :=
  (splitInclusive contents).flatMap (filterLine targets)

/-! ## The command -/

/-- How removing ends. -/
inductive RemoveExit where
  | usage
  | invalidLive
  | readFailed
  | noMatch
  | stageFailed
  | installFailed
  | installed
  deriving DecidableEq

/-- The ends without an error. -/
def RemoveExit.isSuccess : RemoveExit → Bool
  | noMatch | installed => true
  | _ => false

/-- Removes recipients: the live file as it is left and how the command ended. -/
def remove (ops : FileOps) (live : List Char) (ids : List (List Char)) :
    List Char × RemoveExit :=
  if ids.isEmpty then (live, .usage)
  else
    match canonicalize live with
    | none => (live, .invalidLive)
    | some original =>
      if !ops.canonicalize then (live, .invalidLive)
      else if !ops.read then (original, .readFailed)
      else
        let filtered := filterOutRecipients original ids
        if filtered = original then (original, .noMatch)
        else if !ops.stage then (original, .stageFailed)
        else if !ops.install then (original, .installFailed)
        else (filtered, .installed)

/-! ## Filtering a rendered file -/

theorem splitInclusive_line {line : List Char} (h : '\n' ∉ line) (t : List Char) :
    splitInclusive (line ++ '\n' :: t) = (line ++ ['\n']) :: splitInclusive t := by
  induction line with
  | nil => rw [List.nil_append, splitInclusive, if_pos rfl, List.nil_append]
  | cons c line ih =>
    have hc : c ≠ '\n' := fun he => h (he ▸ List.mem_cons_self)
    rw [List.cons_append, splitInclusive, if_neg hc, ih fun hm => h (List.mem_cons_of_mem _ hm)]
    rfl

/-- A word is passed over in the scan for a comment. -/
theorem findCommentStartFrom_word {word : List Char} (h : IsWord word) (before t : List Char) :
    findCommentStartFrom before (word ++ t) =
      findCommentStartFrom (word.reverse ++ before) t := by
  induction word generalizing before with
  | nil => rfl
  | cons c word ih =>
    have hc := (h c List.mem_cons_self).2
    rw [List.cons_append, findCommentStartFrom, if_neg fun he => hc he.1,
      ih (fun c' hc' => h c' (List.mem_cons_of_mem _ hc')), List.reverse_cons, List.append_assoc]
    rfl

/-- The id of a rendered line is the wire form of its recipient. -/
theorem recipientIdOfLine_renderLine (r : Recipient) :
    recipientIdOfLine (renderLine r) = (canonicalizeForRender r.id).toWire := by
  obtain ⟨-, hword, hne⟩ := toWire_spec r
  have htrim : trim (canonicalizeForRender r.id).toWire = (canonicalizeForRender r.id).toWire := by
    refine trim_of_trimmed ⟨?_, ?_⟩
    · exact fun c hc => (hword c (List.mem_of_mem_head? hc)).1
    · exact fun c hc => (hword c (List.mem_of_getLast? hc)).1
  rw [renderLine]
  generalize (canonicalizeForRender r.id).toWire = wire at hword hne htrim
  cases r.comment with
  | none =>
    have hnone : findCommentStart (wire ++ renderComment none) = none := by
      rw [findCommentStart, findCommentStartFrom_word hword]
      rfl
    rw [recipientIdOfLine, hnone]
    simpa [renderComment] using htrim
  | some comment =>
    have hlast : wire.reverse.dropWhile isAsciiWhitespace = wire.reverse := by
      cases hrev : wire.reverse with
      | nil => rfl
      | cons c cs =>
        have hc : c ∈ wire := List.mem_reverse.mp (by rw [hrev]; exact List.mem_cons_self)
        refine List.dropWhile_cons_of_neg ?_
        intro hws
        have hblank := isWhitespace_of_ascii hws
        rw [(hword c hc).1] at hblank
        cases hblank
    have hstart : findCommentStart (wire ++ renderComment (some comment)) = some wire.length := by
      rw [findCommentStart, findCommentStartFrom_word hword, List.append_nil]
      change some (wire.reverse.dropWhile isAsciiWhitespace).length = _
      rw [hlast, List.length_reverse]
    rw [recipientIdOfLine, hstart]
    simp only [List.take_left]
    exact htrim

/-- The text that must be supplied for a recipient to be dropped. -/
def wireOf (r : Recipient) : List Char := (canonicalizeForRender r.id).toWire

/-- The recipients whose wire form is not among the supplied texts. -/
def keptBy (ids : List (List Char)) (r : Recipient) : Bool := wireOf r ∉ ids

/-- A rendered line is kept or dropped as its recipient is. -/
private theorem filterLine_renderLine (ids : List (List Char)) (r : Recipient) :
    filterLine ids (renderLine r ++ ['\n']) = if keptBy ids r then renderLine r ++ ['\n'] else [] := by
  obtain ⟨-, hword, hne⟩ := toWire_spec r
  have hcomment : isCommentOrBlank (renderLine r) = false := by
    obtain ⟨c, cs, hwire⟩ := List.exists_cons_of_ne_nil hne
    rw [renderLine, hwire]
    obtain ⟨hc, hhash⟩ := hword c (by rw [hwire]; exact List.mem_cons_self)
    have hstart : trimStart (c :: cs ++ renderComment r.comment) =
        c :: cs ++ renderComment r.comment := by
      refine trimStart_of_head ?_
      intro c' hc'
      obtain rfl : c = c' := by simpa using hc'
      exact hc
    rw [isCommentOrBlank, hstart]
    simpa using hhash
  have hwant : recipientIdOfLine (renderLine r) ∈ ids.filter (· ≠ []) ↔ wireOf r ∈ ids := by
    rw [recipientIdOfLine_renderLine, List.mem_filter]
    simp [wireOf, hne]
  simp only [filterLine, List.getLast?_concat, if_true, List.dropLast_concat, hcomment,
    Bool.false_eq_true, if_false, hwant, keptBy]
  by_cases hmem : wireOf r ∈ ids
  · simp [hmem]
  · simp [hmem]

/-- Filtering a rendered file drops exactly the recipients whose wire form is supplied. -/
theorem filterOutRecipients_render (ids : List (List Char)) {rs : List Recipient}
    (h : ∀ r ∈ rs, FitsLine r.comment) :
    filterOutRecipients (render rs) ids = render (rs.filter (keptBy ids)) := by
  have hpieces : splitInclusive (render rs) = rs.map fun r => renderLine r ++ ['\n'] := by
    induction rs with
    | nil => rfl
    | cons r rs ih =>
      have hcons : render (r :: rs) = renderLine r ++ '\n' :: render rs := by
        simp [render]
      have hnl := newline_notMem_renderLine fun c hc => (h r List.mem_cons_self c hc).2
      rw [hcons, splitInclusive_line hnl, ih fun r' hr' => h r' (List.mem_cons_of_mem _ hr')]
      rfl
  rw [filterOutRecipients, hpieces, List.flatMap_map]
  clear hpieces
  induction rs with
  | nil => rfl
  | cons r rs ih =>
    rw [List.flatMap_cons, filterLine_renderLine,
      ih fun r' hr' => h r' (List.mem_cons_of_mem _ hr'), List.filter_cons]
    by_cases hk : keptBy ids r = true
    · rw [if_pos hk, if_pos hk]
      simp [render]
    · rw [if_neg hk, if_neg hk, List.nil_append]

/-- Without an error the recipients that are kept are left, and a new text is installed
exactly when one is not kept. -/
theorem remove_success (ops : FileOps) {live : List Char} {old : List Recipient}
    (h : Ids.parse live = .ok old) {ids : List (List Char)}
    (hok : (remove ops live ids).2.isSuccess = true) :
    Ids.parse (remove ops live ids).1 =
        .ok ((old.filter (keptBy ids)).map Recipient.canonical) ∧
      ((remove ops live ids).2 = .installed ↔ ∃ r ∈ old, keptBy ids r = false) := by
  have hfits := parse_fitsLine h
  have hfilter := filterOutRecipients_render ids hfits
  have hkept : Ids.parse (render (old.filter (keptBy ids))) =
      .ok ((old.filter (keptBy ids)).map Recipient.canonical) :=
    parse_render fun r hr => hfits r (List.mem_filter.mp hr).1
  -- the text stays as it is only when every recipient is kept
  have hsame : render (old.filter (keptBy ids)) = render old ↔ ∀ r ∈ old, keptBy ids r = true := by
    constructor
    · intro he
      have hparse := hkept
      rw [he, parse_render hfits, Except.ok.injEq] at hparse
      have hlen := congrArg List.length hparse
      rw [List.length_map, List.length_map] at hlen
      exact List.length_filter_eq_length_iff.mp hlen.symm
    · intro hall
      rw [List.filter_eq_self.mpr hall]
  rw [remove] at hok ⊢
  by_cases hids : ids.isEmpty = true
  · rw [if_pos hids] at hok
    cases hok
  rw [if_neg hids, canonicalize, h] at hok ⊢
  dsimp only at hok ⊢
  by_cases hcan : (!ops.canonicalize) = true
  · rw [if_pos hcan] at hok
    cases hok
  rw [if_neg hcan] at hok ⊢
  by_cases hread : (!ops.read) = true
  · rw [if_pos hread] at hok
    cases hok
  rw [if_neg hread, hfilter] at hok ⊢
  by_cases heq : render (old.filter (keptBy ids)) = render old
  · rw [if_pos heq]
    refine ⟨?_, ?_⟩
    · rw [← heq]
      exact hkept
    · refine ⟨(fun h => by cases h), ?_⟩
      rintro ⟨r, hr, hno⟩
      rw [hsame.mp heq r hr] at hno
      cases hno
  rw [if_neg heq] at hok ⊢
  by_cases hstage : (!ops.stage) = true
  · rw [if_pos hstage] at hok
    cases hok
  rw [if_neg hstage] at hok ⊢
  by_cases hinstall : (!ops.install) = true
  · rw [if_pos hinstall] at hok
    cases hok
  rw [if_neg hinstall]
  refine ⟨hkept, fun _ => ?_, fun _ => rfl⟩
  by_contra hall
  refine heq (hsame.mpr ?_)
  intro r hr
  by_contra hno
  exact hall ⟨r, hr, by simpa using hno⟩

/-! ## Removing what was named -/

/-- Whether a recipient's key is that of an id. -/
def sameKey (id : Id) (r : Recipient) : Bool := id.format == r.id.format && id.data == r.id.data

/-- Whether one of the supplied texts names the key of a recipient, in whatever spelling. -/
def named (ids : List (List Char)) (r : Recipient) : Bool :=
  ids.any fun s =>
    match Id.parse s with
    | .ok id => sameKey id r
    | .error _ => false

/-- Removing leaves exactly the recipients that were not named, in order and with their
comments, and installs no file without encryption recipients while there are eboxes under
it. -/
structure RemovesExactly (old : List Recipient) (ids : List (List Char)) (eboxes : Nat)
    (out : List Char × RemoveExit) : Prop where
  recipients : Ids.parse out.1 = .ok ((old.filter fun r => !named ids r).map Recipient.canonical)
  readers : out.2 = .installed → ∀ rs, Ids.parse out.1 = .ok rs → encryptionRecipients rs = [] →
    eboxes = 0

/-- Every listed key that is named is also spelled the way it is rendered. -/
def SpelledOnWire (old : List Recipient) (ids : List (List Char)) : Prop :=
  ∀ r ∈ old, named ids r = true → wireOf r ∈ ids

/-- Something is left to encrypt to, unless there is nothing to encrypt or to drop. -/
def LeavesReader (old : List Recipient) (ids : List (List Char)) (eboxes : Nat) : Prop :=
  (∃ r ∈ old, wireOf r ∈ ids) →
    eboxes = 0 ∨ ∃ r ∈ old, r.isEncryptionRecipient = true ∧ wireOf r ∉ ids

/-- The rendered spelling of a recipient names its key. -/
theorem named_of_wireOf {ids : List (List Char)} {r : Recipient} (h : wireOf r ∈ ids) :
    named ids r = true := by
  obtain ⟨hparse, -, -⟩ := toWire_spec r
  obtain ⟨-, hformat, hdata⟩ := canonicalizeForRender_spec r.shape
  refine List.any_eq_true.mpr ⟨wireOf r, h, ?_⟩
  rw [wireOf, hparse]
  simp [sameKey, hformat, hdata]

/-- What is kept is what was not named exactly when the named keys are spelled as rendered. -/
private theorem kept_eq_iff {old : List Recipient} {ids : List (List Char)} :
    (old.filter (keptBy ids)).map Recipient.canonical =
        (old.filter fun r => !named ids r).map Recipient.canonical ↔ SpelledOnWire old ids := by
  have hsub : ∀ r : Recipient, (!named ids r) = true → keptBy ids r = true := by
    intro r hr
    refine decide_eq_true ?_
    intro hmem
    rw [named_of_wireOf hmem] at hr
    cases hr
  have htwice : (old.filter fun r => !named ids r) =
      (old.filter (keptBy ids)).filter fun r => !named ids r := by
    rw [List.filter_filter]
    refine List.filter_congr fun r _ => ?_
    cases hn : (!named ids r) with
    | false => rfl
    | true => rw [hsub r hn]; rfl
  constructor
  · intro heq r hr hnamed
    by_contra hmem
    have hlen := congrArg List.length heq
    rw [List.length_map, List.length_map, htwice] at hlen
    have hall := List.length_filter_eq_length_iff.mp hlen.symm
    have hno := hall r (List.mem_filter.mpr ⟨hr, decide_eq_true hmem⟩)
    rw [hnamed] at hno
    cases hno
  · intro hspell
    have hsame : old.filter (keptBy ids) = old.filter fun r => !named ids r := by
      refine List.filter_congr fun r hr => ?_
      cases hn : named ids r with
      | true => simp [keptBy, hspell r hr hn]
      | false => exact hsub r (by rw [hn]; rfl)
    rw [hsame]

/-- Nothing is left to encrypt to exactly when every encryption recipient was dropped. -/
private theorem encryptionRecipients_kept {old : List Recipient} {ids : List (List Char)} :
    encryptionRecipients ((old.filter (keptBy ids)).map Recipient.canonical) = [] ↔
      ¬ ∃ r ∈ old, r.isEncryptionRecipient = true ∧ wireOf r ∉ ids := by
  rw [encryptionRecipients, List.filter_eq_nil_iff]
  constructor
  · rintro hnone ⟨r, hr, henc, hmem⟩
    refine hnone r.canonical (List.mem_map_of_mem (List.mem_filter.mpr ⟨hr, decide_eq_true hmem⟩)) ?_
    rw [Recipient.canonical_isEncryptionRecipient, henc]
  · intro hnone r' hr' henc
    obtain ⟨r, hr, rfl⟩ := List.mem_map.mp hr'
    obtain ⟨hold, hkept⟩ := List.mem_filter.mp hr
    rw [Recipient.canonical_isEncryptionRecipient] at henc
    exact hnone ⟨r, hold, henc, of_decide_eq_true hkept⟩

/-- Removing is exact exactly when every listed key that is named is spelled the way it is
rendered, and what is dropped leaves a key to encrypt to. -/
theorem remove_removesExactly_iff (ops : FileOps) {live : List Char} {old : List Recipient}
    (h : Ids.parse live = .ok old) {ids : List (List Char)}
    (hok : (remove ops live ids).2.isSuccess = true) (eboxes : Nat) :
    RemovesExactly old ids eboxes (remove ops live ids) ↔
      SpelledOnWire old ids ∧ LeavesReader old ids eboxes := by
  obtain ⟨hparse, hinstalled⟩ := remove_success ops h hok
  have hdropped : (∃ r ∈ old, keptBy ids r = false) ↔ ∃ r ∈ old, wireOf r ∈ ids := by
    simp [keptBy]
  rw [hdropped] at hinstalled
  constructor
  · rintro ⟨hrecipients, hreaders⟩
    rw [hparse, Except.ok.injEq] at hrecipients
    refine ⟨kept_eq_iff.mp hrecipients, ?_⟩
    intro hdrop
    by_contra hno
    obtain ⟨heboxes, hnone⟩ := not_or.mp hno
    exact heboxes (hreaders (hinstalled.mpr hdrop) _ hparse (encryptionRecipients_kept.mpr hnone))
  · rintro ⟨hspell, hleaves⟩
    refine ⟨?_, ?_⟩
    · rw [hparse, kept_eq_iff.mpr hspell]
    · intro hins rs hrs hempty
      rw [hparse, Except.ok.injEq] at hrs
      subst hrs
      rcases hleaves (hinstalled.mp hins) with hzero | hreader
      · exact hzero
      · exact absurd hreader (encryptionRecipients_kept.mp hempty)

/-! ## The same key in two spellings -/

/-- The recipient that is spelled bare, with its purpose. -/
def sampleTaggedId : List Char := "piggy-recipient-v1@".toList ++ sampleBareId

/-- A rendered file with two recipients. -/
def sampleLive : List Char := sampleLine ++ '\n' :: sampleTaggedId ++ ['\n']

/-- What is computed of a file: how many recipients the command keeps and how many have another key
when the one spelling is supplied; whether the other one finds all of its key and leaves a reader. -/
def sampleChecks (bare tagged live : List Char) : Prop :=
  (fun old : List Recipient => ((old.filter (keptBy [bare])).length,
    (old.filter fun r => !named [bare] r).length)) <$> Ids.parse live = .ok (2, 1) ∧
  (remove .succeed live [bare]).2 = .noMatch ∧
  (fun old : List Recipient =>
    (old.all fun r => !named [tagged] r || decide (wireOf r ∈ [tagged])) &&
      old.any fun r => r.isEncryptionRecipient && decide (wireOf r ∉ [tagged])) <$>
    Ids.parse live = .ok true ∧
  (remove .succeed live [tagged]).2.isSuccess = true

instance (bare tagged live : List Char) : Decidable (sampleChecks bare tagged live) :=
  inferInstanceAs (Decidable (_ ∧ _ ∧ _ ∧ _))

theorem sampleLive_checks : sampleChecks sampleBareId sampleTaggedId sampleLive :=
  of_toList_append (p := fun line => sampleChecks sampleBareId sampleTaggedId
      (line ++ '\n' :: sampleTaggedId ++ ['\n']))
    (of_toList_append (p := fun s => sampleChecks s ("piggy-recipient-v1@".toList ++ s)
      (_ ++ '\n' :: ("piggy-recipient-v1@".toList ++ s) ++ ['\n'])) (by decide +kernel))

/-- Supplied in its bare spelling, a listed recipient is not found and stays. -/
theorem not_removesExactly_bare :
    ∃ old, Ids.parse sampleLive = .ok old ∧
      (remove .succeed sampleLive [sampleBareId]).2 = .noMatch ∧
      ¬ RemovesExactly old [sampleBareId] 1 (remove .succeed sampleLive [sampleBareId]) := by
  obtain ⟨hcounted, hexit, -⟩ := sampleLive_checks
  obtain ⟨old, hold, hcounts⟩ := map_ok.mp hcounted
  refine ⟨old, hold, hexit, ?_⟩
  rintro ⟨hrecipients, -⟩
  have hparse := (remove_success .succeed hold (by rw [hexit]; rfl)).1
  rw [hrecipients, Except.ok.injEq] at hparse
  have hlen := congrArg List.length hparse
  rw [List.length_map, List.length_map, (Prod.mk.inj hcounts).1, (Prod.mk.inj hcounts).2] at hlen
  cases hlen

/-- Supplied in its rendered spelling, it is removed and the other recipient stays. -/
theorem removesExactly_tagged :
    ∃ old, Ids.parse sampleLive = .ok old ∧
      RemovesExactly old [sampleTaggedId] 1 (remove .succeed sampleLive [sampleTaggedId]) := by
  obtain ⟨-, -, hchecked, hexit⟩ := sampleLive_checks
  obtain ⟨old, hold, hchecks⟩ := map_ok.mp hchecked
  obtain ⟨hall, hany⟩ := Bool.and_eq_true_iff.mp hchecks
  refine ⟨old, hold, (remove_removesExactly_iff .succeed hold hexit 1).mpr ⟨?_, ?_⟩⟩
  · intro r hr hnamed
    simpa [hnamed] using List.all_eq_true.mp hall r hr
  · intro _
    obtain ⟨r, hr, hreader⟩ := List.any_eq_true.mp hany
    exact Or.inr ⟨r, hr, by simpa using hreader⟩

end Piggy.Pass
