import Piggy.Markl.Spelling

/-!
# Recipient files

A recipient file has one recipient a line, with a comment behind it where there is one.
Reading is permissive about the purpose: a bare id of an encryption format stands for the
tagged one. Rendering always writes the tagged form.
-/

namespace Piggy.Ids

open Piggy.Core Piggy.Markl

/-- Whether an id is tagged as an entry of a recipient file. -/
def purposeTaggedEntryOk (id : Id) : Bool :=
  match id.purpose with
  | some .piggyRecipientV1 => PurposeId.accepts .piggyRecipientV1 id.format
  | some .piggyPivAuthV1 => PurposeId.accepts .piggyPivAuthV1 id.format
  | _ => false

/-- Whether an id may stand on a line: tagged as an entry, or bare and of a format that a
recipient may have. -/
def shapeOk (id : Id) : Bool :=
  match id.purpose with
  | none => PurposeId.accepts .piggyRecipientV1 id.format
  | some _ => purposeTaggedEntryOk id

/-- One recipient line. -/
structure Recipient where
  id : Id
  comment : Option (List Char)
  shape : shapeOk id = true
  deriving DecidableEq

/-- A key the encrypt pipeline can wrap a secret to. -/
def Recipient.isEncryptionRecipient (r : Recipient) : Bool :=
  (r.id.format matches .pivyEcdhP256Pub | .ageX25519Pub)

/-- How a recipient file can be malformed. Lines count from one. -/
inductive ParseError where
  | markl (line : Nat) (token : List Char) (source : Markl.ParseError)
  | invalidRecipientShape (line : Nat) (purpose : Option PurposeId) (format : FormatId)
  | emptyToken (line : Nat)
  deriving DecidableEq

/-- The id that is written for a recipient. The other branch, where the program would stop,
is not reached: the shape of a recipient makes a bare id one of the tagged formats. -/
def canonicalizeForRender (id : Id) : Id :=
  match id.purpose with
  | some _ => id
  | none =>
    match Id.new (some .piggyRecipientV1) id.format id.data with
    | .ok tagged => tagged
    | .error _ => id

/-- The token of a line and the comment behind it. Other text behind the token is
ignored. -/
def splitTokenAndComment (line : List Char) : List Char × Option (List Char) :=
  let trimmed := trimStart line
  let token := trimmed.takeWhile fun c => !isAsciiWhitespace c
  match trimStart (trimmed.dropWhile fun c => !isAsciiWhitespace c) with
  | '#' :: stripped => (token, some (trim stripped))
  | _ => (token, none)

/-- The recipient of a line. -/
def parseLine (raw : List Char) (lineNo : Nat) : Except ParseError Recipient :=
  let (token, comment) := splitTokenAndComment raw
  if token.isEmpty then .error (.emptyToken lineNo)
  else match Id.parse token with
    | .error e => .error (.markl lineNo token e)
    | .ok id =>
      if hshape : shapeOk id = true then .ok ⟨id, comment, hshape⟩
      else .error (.invalidRecipientShape lineNo id.purpose id.format)

/-- Blank lines and lines that are only a comment. -/
def isSkipped (raw : List Char) : Bool :=
  let trimmed := trim raw
  trimmed.isEmpty || trimmed.head? == some '#'

/-- The loop over the lines. -/
def parseLines : Nat → List (List Char) → Except ParseError (List Recipient)
  | _, [] => .ok []
  | lineNo, raw :: rest =>
    if isSkipped raw then parseLines (lineNo + 1) rest
    else do
      let r ← parseLine raw lineNo
      let rs ← parseLines (lineNo + 1) rest
      pure (r :: rs)

/-- The recipients of a file, in the order of their lines. -/
def parse (input : List Char) : Except ParseError (List Recipient) := parseLines 1 (lines input)

/-- The comment behind an id. -/
def renderComment : Option (List Char) → List Char
  | some comment => "  # ".toList ++ comment
  | none => []

/-- The line of a recipient, without its end. -/
def renderLine (r : Recipient) : List Char :=
  (canonicalizeForRender r.id).toWire ++ renderComment r.comment

/-- The lines of recipients. -/
def render (rs : List Recipient) : List Char := rs.flatMap fun r => renderLine r ++ ['\n']

/-- The recipients that can be encrypted for. -/
def encryptionRecipients (rs : List Recipient) : List Recipient :=
  rs.filter Recipient.isEncryptionRecipient

/-! ## Lines -/

/-- What a line holds does not depend on its number. -/
theorem parseLine_ok_congr {raw : List Char} {n : Nat} {r : Recipient}
    (h : parseLine raw n = .ok r) (m : Nat) : parseLine raw m = .ok r := by
  simp only [parseLine, guard_ok] at h ⊢
  refine ⟨h.1, ?_⟩
  rcases hid : Id.parse (splitTokenAndComment raw).1 with e | id
  · simp only [hid] at h
    cases h.2
  · simp only [hid] at h ⊢
    by_cases hshape : shapeOk id = true
    · rw [dif_pos hshape] at h ⊢
      rw [h.2]
    · rw [dif_neg hshape] at h
      cases h.2

/-- The recipients of lines do not depend on the numbers of the lines. -/
theorem parseLines_ok_congr {ls : List (List Char)} {n : Nat} {rs : List Recipient}
    (h : parseLines n ls = .ok rs) (m : Nat) : parseLines m ls = .ok rs := by
  induction ls generalizing n m rs with
  | nil => exact h
  | cons raw rest ih =>
    rw [parseLines] at h ⊢
    by_cases hskip : isSkipped raw = true
    · rw [if_pos hskip] at h ⊢
      exact ih h _
    · rw [if_neg hskip] at h ⊢
      simp only [bind_ok, pure_ok] at h ⊢
      obtain ⟨r, hr, rs', hrs, rfl⟩ := h
      exact ⟨r, parseLine_ok_congr hr m, rs', ih hrs _, rfl⟩

/-- Lines behind each other are read one after the other. -/
theorem parseLines_append {a b : List (List Char)} {n : Nat} {rs : List Recipient} :
    parseLines n (a ++ b) = .ok rs ↔
      ∃ ra rb, parseLines n a = .ok ra ∧ parseLines 1 b = .ok rb ∧ rs = ra ++ rb := by
  induction a generalizing n rs with
  | nil =>
    simp only [List.nil_append, parseLines, Except.ok.injEq]
    constructor
    · intro h
      exact ⟨[], rs, rfl, parseLines_ok_congr h 1, rfl⟩
    · rintro ⟨_, rb, rfl, hb, rfl⟩
      exact parseLines_ok_congr hb n
  | cons raw a ih =>
    rw [List.cons_append, parseLines, parseLines]
    by_cases hskip : isSkipped raw = true
    · rw [if_pos hskip, if_pos hskip, ih]
    · rw [if_neg hskip, if_neg hskip]
      simp only [bind_ok, pure_ok, ih]
      constructor
      · rintro ⟨r, hr, _, ⟨ra, rb, ha, hb, rfl⟩, rfl⟩
        exact ⟨r :: ra, rb, ⟨r, hr, ra, ha, rfl⟩, hb, rfl⟩
      · rintro ⟨_, rb, ⟨r, hr, ra, ha, rfl⟩, hb, rfl⟩
        exact ⟨r, hr, ra ++ rb, ⟨ra, rb, ha, hb, rfl⟩, rfl⟩

/-- The recipients of a single line. -/
theorem parseLines_single {raw : List Char} {n : Nat} {rs : List Recipient} :
    parseLines n [raw] = .ok rs ↔
      (isSkipped raw = true ∧ rs = []) ∨
        (isSkipped raw = false ∧ ∃ r, parseLine raw n = .ok r ∧ rs = [r]) := by
  rw [parseLines, parseLines]
  cases hskip : isSkipped raw with
  | true => simp [eq_comm]
  | false =>
    simp only [Bool.false_eq_true, if_false, bind_ok, pure_ok, Except.ok.injEq, false_and,
      false_or, true_and]
    constructor
    · rintro ⟨r, hr, _, rfl, rfl⟩
      exact ⟨r, hr, rfl⟩
    · rintro ⟨r, hr, rfl⟩
      exact ⟨r, hr, [], rfl, rfl⟩

/-- The comment in the text behind a token. -/
def commentBehind (tail : List Char) : Option (List Char) :=
  match trimStart tail with
  | '#' :: stripped => some (trim stripped)
  | _ => none

/-- A word behind blanks is the token of its line. -/
theorem splitTokenAndComment_word {blanks word tail : List Char} (hb : IsBlank blanks)
    (hw : IsWord word) (hne : word ≠ []) (ht : ∀ c ∈ tail.head?, isAsciiWhitespace c = true) :
    splitTokenAndComment (blanks ++ (word ++ tail)) = (word, commentBehind tail) := by
  have htrim : trimStart (blanks ++ (word ++ tail)) = word ++ tail := by
    rw [trimStart_append_of_blank hb, trimStart_of_head]
    intro c hc
    rw [List.head?_append_of_ne_nil _ hne] at hc
    exact (hw c (List.mem_of_mem_head? hc)).1
  have hall : ∀ c ∈ word, (!isAsciiWhitespace c) = true := by
    intro c hc
    by_contra hws
    have hblank := isWhitespace_of_ascii (by simpa using hws)
    rw [(hw c hc).1] at hblank
    cases hblank
  have htail : tail.takeWhile (fun c => !isAsciiWhitespace c) = [] ∧
      tail.dropWhile (fun c => !isAsciiWhitespace c) = tail := by
    cases tail with
    | nil => exact ⟨rfl, rfl⟩
    | cons c tail => simp [ht c rfl]
  have htoken : (word ++ tail).takeWhile (fun c => !isAsciiWhitespace c) = word := by
    rw [List.takeWhile_append_of_pos hall, htail.1, List.append_nil]
  have hrest : (word ++ tail).dropWhile (fun c => !isAsciiWhitespace c) = tail := by
    rw [List.dropWhile_append_of_pos hall, htail.2]
  simp only [splitTokenAndComment, htrim, htoken, hrest, commentBehind]
  split <;> rfl

/-- A line that starts with a word is not skipped. -/
theorem isSkipped_word {blanks word tail : List Char} (hb : IsBlank blanks) (hw : IsWord word)
    (hne : word ≠ []) : isSkipped (blanks ++ (word ++ tail)) = false := by
  obtain ⟨c, cs, rfl⟩ := List.exists_cons_of_ne_nil hne
  obtain ⟨hc, hhash⟩ := hw c (by simp)
  have hblank : ¬ IsBlank (blanks ++ (c :: cs ++ tail)) := by
    intro h
    have := h c (by simp)
    rw [hc] at this
    cases this
  have hhead : (trim (blanks ++ (c :: cs ++ tail))).head? = some c := by
    rw [head?_trim hblank, trimStart_append_of_blank hb, trimStart_of_head]
    · rfl
    · intro c' hc'
      obtain rfl : c = c' := by simpa using hc'
      exact hc
  have hnil : trim (blanks ++ (c :: cs ++ tail)) ≠ [] := fun h => hblank (trim_eq_nil_iff.mp h)
  simp only [isSkipped, hhead, Bool.or_eq_false_iff]
  exact ⟨by simpa using hnil, by simpa using hhash⟩

/-! ## The rendered form -/

theorem shapeOk_of_tagged {id : Id} (h : purposeTaggedEntryOk id = true) :
    shapeOk id = true ∧ ∀ p ∈ id.purpose, p.isOther = false := by
  rw [purposeTaggedEntryOk] at h
  rw [shapeOk]
  rcases hp : id.purpose with _ | p
  · simp only [hp] at h
    cases h
  · simp only [hp] at h ⊢
    refine ⟨by simp only [purposeTaggedEntryOk, hp]; exact h, ?_⟩
    intro q hq
    obtain rfl := Option.mem_some_iff.mp hq
    cases p with
    | other name => cases h
    | _ => rfl

/-- A recipient under the purpose that the written form has; a bare id is refused. -/
def Recipient.new (id : Id) (comment : Option (List Char)) : Except ParseError Recipient :=
  if h : purposeTaggedEntryOk id = true then .ok ⟨id, comment, (shapeOk_of_tagged h).1⟩
  else .error (.invalidRecipientShape 0 id.purpose id.format)

/-- Rendering tags a recipient and keeps its key. -/
theorem canonicalizeForRender_spec {id : Id} (h : shapeOk id = true) :
    purposeTaggedEntryOk (canonicalizeForRender id) = true ∧
      (canonicalizeForRender id).format = id.format ∧
      (canonicalizeForRender id).data = id.data := by
  rw [shapeOk] at h
  rcases hp : id.purpose with _ | p
  · simp only [hp] at h
    have hcompat : ∀ p ∈ some PurposeId.piggyRecipientV1, p.isOther = false →
        p.accepts id.format = true := by
      intro p hp _
      obtain rfl := Option.mem_some_iff.mp hp
      exact h
    have hnew := Id.new_ok ⟨some .piggyRecipientV1, id.format, id.data, id.size, hcompat⟩
    have hcan : canonicalizeForRender id =
        ⟨some .piggyRecipientV1, id.format, id.data, id.size, hcompat⟩ := by
      simp only [canonicalizeForRender, hp, hnew]
    rw [hcan]
    exact ⟨h, rfl, rfl⟩
  · simp only [hp] at h
    have hcan : canonicalizeForRender id = id := by simp only [canonicalizeForRender, hp]
    rw [hcan]
    exact ⟨h, rfl, rfl⟩

/-- The recipient that a rendered line stands for. -/
def Recipient.canonical (r : Recipient) : Recipient where
  id := canonicalizeForRender r.id
  comment := r.comment
  shape := (shapeOk_of_tagged (canonicalizeForRender_spec r.shape).1).1

@[simp] theorem Recipient.canonical_comment (r : Recipient) : r.canonical.comment = r.comment := rfl

/-- A tagged id is written as it is. -/
theorem canonicalizeForRender_tagged {id : Id} (h : purposeTaggedEntryOk id = true) :
    canonicalizeForRender id = id := by
  rw [purposeTaggedEntryOk] at h
  rcases hp : id.purpose with _ | p
  · simp only [hp] at h
    cases h
  · simp only [canonicalizeForRender, hp]

theorem canonicalizeForRender_idem {id : Id} (h : shapeOk id = true) :
    canonicalizeForRender (canonicalizeForRender id) = canonicalizeForRender id :=
  canonicalizeForRender_tagged (canonicalizeForRender_spec h).1

@[simp] theorem Recipient.canonical_canonical (r : Recipient) :
    r.canonical.canonical = r.canonical := by
  simp only [canonical, canonicalizeForRender_idem r.shape]

@[simp] theorem Recipient.canonical_isEncryptionRecipient (r : Recipient) :
    r.canonical.isEncryptionRecipient = r.isEncryptionRecipient := by
  have hformat : r.canonical.id.format = r.id.format := (canonicalizeForRender_spec r.shape).2.1
  rw [isEncryptionRecipient, isEncryptionRecipient, hformat]

/-- The wire form of a rendered id is a word and is read back. -/
theorem toWire_spec (r : Recipient) :
    Id.parse (canonicalizeForRender r.id).toWire = .ok (canonicalizeForRender r.id) ∧
      IsWord (canonicalizeForRender r.id).toWire ∧ (canonicalizeForRender r.id).toWire ≠ [] := by
  have henum := (shapeOk_of_tagged (canonicalizeForRender_spec r.shape).1).2
  have hparse := Id.parse_toWire henum
  exact ⟨hparse, Id.parse_isWord hparse henum⟩

/-- A comment that a line can hold. -/
def FitsLine (comment : Option (List Char)) : Prop := ∀ c ∈ comment, Trimmed c ∧ '\n' ∉ c

/-- What stands behind a token is read as the comment, trimmed. -/
private theorem renderComment_read {comment : Option (List Char)} {tail : List Char}
    (h : renderComment comment = tail ∨ renderComment comment = tail ++ ['\r']) :
    (∀ c ∈ tail.head?, isAsciiWhitespace c = true) ∧ commentBehind tail = comment.map trim := by
  cases comment with
  | none =>
    rcases h with rfl | h
    · exact ⟨by simp [renderComment], rfl⟩
    · simp [renderComment] at h
  | some text =>
    have hread : ∀ text', trim text' = trim text → tail = "  # ".toList ++ text' →
        (∀ c ∈ tail.head?, isAsciiWhitespace c = true) ∧ commentBehind tail = some (trim text) := by
      rintro text' htext rfl
      have hstart : trimStart ("  # ".toList ++ text') = '#' :: ' ' :: text' := rfl
      have hblank : trimStart (' ' :: text') = trimStart text' :=
        trimStart_append_of_blank (s := [' ']) (by simp [IsBlank, isWhitespace]) text'
      refine ⟨by simp [isAsciiWhitespace], ?_⟩
      simp only [commentBehind, hstart]
      rw [trim, hblank, ← trim, htext]
    rcases h with rfl | h
    · exact hread text rfl rfl
    · rcases List.eq_nil_or_concat' text with rfl | ⟨front, last, rfl⟩
      · have hlast := congrArg List.getLast? h
        rw [List.getLast?_concat] at hlast
        simp [renderComment] at hlast
      · rw [renderComment, ← List.append_assoc] at h
        obtain ⟨htail, hlast⟩ := List.append_inj' h rfl
        obtain rfl : last = '\r' := List.singleton_inj.mp hlast
        exact hread front (trim_concat_blank (by decide) front).symm htail.symm

/-- The recipient that a rendered line is read as. -/
def Recipient.reread (r : Recipient) : Recipient := { r.canonical with comment := r.comment.map trim }

/-- A rendered line is read as its recipient, also when it lost a carriage return. -/
theorem parseLine_renderLine {r : Recipient} {line : List Char}
    (h : renderLine r = line ∨ renderLine r = line ++ ['\r']) :
    isSkipped line = false ∧ ∀ n, parseLine line n = .ok r.reread := by
  obtain ⟨hparse, hword, hne⟩ := toWire_spec r
  obtain ⟨tail, rfl, htail⟩ : ∃ tail, line = (canonicalizeForRender r.id).toWire ++ tail ∧
      (renderComment r.comment = tail ∨ renderComment r.comment = tail ++ ['\r']) := by
    rcases h with rfl | h
    · exact ⟨_, rfl, .inl rfl⟩
    · rw [renderLine] at h
      rcases List.eq_nil_or_concat' (renderComment r.comment) with hnil | ⟨tail, last, hconcat⟩
      · rw [hnil, List.append_nil] at h
        have hws := (hword '\r' (by rw [h]; simp)).1
        cases hws
      · rw [hconcat, ← List.append_assoc] at h
        obtain ⟨hline, hlast⟩ := List.append_inj' h rfl
        exact ⟨tail, hline.symm, .inr (by rw [hconcat, hlast])⟩
  obtain ⟨hhead, hcomment⟩ := renderComment_read htail
  have hskipped : isSkipped ([] ++ ((canonicalizeForRender r.id).toWire ++ tail)) = false :=
    isSkipped_word isBlank_nil hword hne
  refine ⟨hskipped, ?_⟩
  intro n
  have hshape : shapeOk (canonicalizeForRender r.id) = true := r.canonical.shape
  have hsplit := splitTokenAndComment_word isBlank_nil hword hne hhead
  rw [List.nil_append] at hsplit
  simp only [parseLine, hsplit, hparse, hcomment]
  rw [if_neg (by simpa using hne), dif_pos hshape]
  rfl

theorem newline_notMem_renderLine {r : Recipient} (h : ∀ c ∈ r.comment, '\n' ∉ c) :
    '\n' ∉ renderLine r := by
  obtain ⟨-, hword, -⟩ := toWire_spec r
  rw [renderLine, List.mem_append]
  rintro (hmem | hmem)
  · have hws := (hword _ hmem).1
    cases hws
  · rcases hc : r.comment with _ | text
    · rw [hc] at hmem
      cases hmem
    · rw [hc, renderComment] at hmem
      exact h text hc (by simpa using hmem)

/-- Reading a rendered file gives back the recipients in their tagged form, with their
comments trimmed. -/
theorem parse_render_reread {rs : List Recipient} (h : ∀ r ∈ rs, ∀ c ∈ r.comment, '\n' ∉ c) :
    parse (render rs) = .ok (rs.map Recipient.reread) := by
  have hparse : ∀ n, parseLines n (lines (render rs)) = .ok (rs.map Recipient.reread) := by
    induction rs with
    | nil => exact fun _ => rfl
    | cons r rs ih =>
      intro n
      have hnl := newline_notMem_renderLine (h r List.mem_cons_self)
      obtain ⟨read, hread, hlines⟩ := lines_line_stripped hnl (render rs)
      obtain ⟨hskip, hline⟩ := parseLine_renderLine hread
      have hcons : render (r :: rs) = renderLine r ++ '\n' :: render rs := by
        simp [render]
      rw [hcons, hlines, parseLines, if_neg (by simp [hskip]), hline n,
        ih (fun r' hr' => h r' (List.mem_cons_of_mem _ hr')) (n + 1)]
      rfl
  exact hparse 1

/-- Reading a rendered file gives back the recipients in their tagged form. -/
theorem parse_render {rs : List Recipient} (h : ∀ r ∈ rs, FitsLine r.comment) :
    parse (render rs) = .ok (rs.map Recipient.canonical) := by
  rw [parse_render_reread fun r hr c hc => (h r hr c hc).2]
  congr 1
  apply List.map_congr_left
  intro r hr
  have hcomment : r.comment.map trim = r.comment := by
    rcases hc : r.comment with _ | c
    · rfl
    · rw [Option.map_some, trim_of_trimmed (h r hr c hc).1]
  rw [Recipient.reread, hcomment]
  rfl

/-- The comment that a line holds fits a line. -/
private theorem parseLine_fitsLine {raw : List Char} {n : Nat} {r : Recipient}
    (hnl : '\n' ∉ raw) (h : parseLine raw n = .ok r) : FitsLine r.comment := by
  have hcomment : r.comment = (splitTokenAndComment raw).2 := by
    simp only [parseLine, guard_ok] at h
    rcases hid : Id.parse (splitTokenAndComment raw).1 with e | id
    · simp only [hid] at h
      cases h.2
    · simp only [hid] at h
      by_cases hshape : shapeOk id = true
      · rw [dif_pos hshape] at h
        cases h.2
        rfl
      · rw [dif_neg hshape] at h
        cases h.2
  rw [hcomment]
  intro c hc
  simp only [splitTokenAndComment] at hc
  split at hc
  · next stripped heq =>
    obtain rfl := Option.mem_some_iff.mp hc
    refine ⟨trimmed_trim _, ?_⟩
    intro hmem
    have hrest : '\n' ∈ '#' :: stripped := List.mem_cons_of_mem _ (mem_of_mem_trim hmem)
    rw [← heq] at hrest
    exact hnl (mem_of_mem_trimStart ((List.dropWhile_suffix _).subset (mem_of_mem_trimStart hrest)))
  · cases hc

/-- Every comment of a file fits a line. -/
theorem parse_fitsLine {input : List Char} {rs : List Recipient} (h : parse input = .ok rs) :
    ∀ r ∈ rs, FitsLine r.comment := by
  have hlines : ∀ ls : List (List Char), (∀ line ∈ ls, '\n' ∉ line) → ∀ n rs,
      parseLines n ls = .ok rs → ∀ r ∈ rs, FitsLine r.comment := by
    intro ls hls
    induction ls with
    | nil =>
      rintro n rs ⟨⟩ r hr
      cases hr
    | cons raw rest ih =>
      have hrest := ih fun line hl => hls line (List.mem_cons_of_mem _ hl)
      intro n rs hparse r hr
      rw [parseLines] at hparse
      by_cases hskip : isSkipped raw = true
      · rw [if_pos hskip] at hparse
        exact hrest _ _ hparse r hr
      · rw [if_neg hskip] at hparse
        simp only [bind_ok, pure_ok] at hparse
        obtain ⟨first, hfirst, rs', hrs, rfl⟩ := hparse
        rcases List.mem_cons.mp hr with rfl | hmem
        · exact parseLine_fitsLine (hls raw List.mem_cons_self) hfirst
        · exact hrest _ _ hrs r hmem
  exact hlines _ (fun _ => newline_notMem_lines) _ _ h

/-- Rendering what was read loses no recipient and no comment. -/
theorem parse_render_parse {input : List Char} {rs : List Recipient} (h : parse input = .ok rs) :
    parse (render rs) = .ok (rs.map Recipient.canonical) :=
  parse_render (parse_fitsLine h)

end Piggy.Ids
