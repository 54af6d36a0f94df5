import Piggy.Box.Wire
import Piggy.Core.Lists
import Piggy.Markl.Spelling

/-!
# Hyphence framing

A document is a section of metadata lines between two boundaries and, behind an empty
line, a body. Every line has a kind, a blank and a text. Documents are written with
their lines ordered by kind, and read in any order.
-/

namespace Piggy.Pigpen

open Piggy.Core
open Piggy.Box (Bytes strBytes fromUtf8 fromUtf8_ok lineFeed_mem_strBytes)

/-- How a document can be malformed, and how opening it can fail. -/
inductive Error where
  | hyphence (text : String)
  /-- A metadata line without kind and blank; the message shows the line. -/
  | malformedLine (line : Bytes)
  /-- An error of the markl codec, behind the given text. -/
  | markl (context : String) (e : Markl.ParseError)
  | unsupportedFormat (text : String)
  | malformed (text : String)
  | crypto (text : String)
  | noRecipient
  | oracle (text : String)
  | macMismatch
  | payload (text : String)
  deriving DecidableEq

/-- The kinds of metadata line. -/
inductive LineKind where
  | hash
  | dash
  | atSign
  | bang
  deriving DecidableEq

/-- The byte a line of a kind starts with. -/
def LineKind.byte : LineKind → UInt8
  | hash => 0x23
  | dash => 0x2D
  | atSign => 0x40
  | bang => 0x21

/-- The kind that a first byte stands for. -/
def LineKind.ofByte (b : UInt8) : Option LineKind :=
  if b = 0x23 then some hash
  else if b = 0x2D then some dash
  else if b = 0x40 then some atSign
  else if b = 0x21 then some bang
  else none

theorem LineKind.ofByte_byte (k : LineKind) : ofByte k.byte = some k := by
  cases k <;> rfl

theorem LineKind.ofByte_eq_some {b : UInt8} {k : LineKind} : ofByte b = some k ↔ b = k.byte := by
  constructor
  · intro h
    unfold ofByte at h
    split at h
    · next hb =>
      cases h
      exact hb
    split at h
    · next hb =>
      cases h
      exact hb
    split at h
    · next hb =>
      cases h
      exact hb
    split at h
    · next hb =>
      cases h
      exact hb
    · cases h
  · rintro rfl
    exact k.ofByte_byte

/-- A line of the metadata. -/
structure MetaLine where
  kind : LineKind
  body : List Char
  deriving DecidableEq

/-- Framing-level view of a document. -/
structure HyphenceDoc where
  lines : List MetaLine
  body : Bytes
  deriving DecidableEq

/-- The boundary `---` with its line feed. -/
def boundary : Bytes := [0x2D, 0x2D, 0x2D, 0x0A]

namespace HyphenceDoc

/-- A line refers to a body elsewhere. -/
def hasAtRef (d : HyphenceDoc) : Bool := d.lines.any (·.kind = .atSign)

/-! ## Writing -/

/-- The bytes of a metadata line. -/
def marshalLine (l : MetaLine) : Bytes :=
  l.kind.byte :: 0x20 :: (strBytes (String.ofList l.body) ++ [0x0A])

/-- Lines in the order they are written in: by kind, otherwise as they stand. -/
def canonicalOrder (lines : List MetaLine) : List MetaLine :=
  [LineKind.hash, .dash, .atSign, .bang].flatMap fun want => lines.filter (·.kind = want)

/-- The metadata section with both boundaries. -/
def marshalMetadata (d : HyphenceDoc) : Bytes :=
  boundary ++ (canonicalOrder d.lines).flatMap marshalLine ++ boundary

/-- The bytes of a document. -/
def marshal (d : HyphenceDoc) : Except Error Bytes :=
  if d.hasAtRef && !d.body.isEmpty then
    .error (.hyphence "'@' blob reference together with an inline body")
  else .ok (d.marshalMetadata ++ if d.body.isEmpty then [] else 0x0A :: d.body)

/-! ## Reading -/

/-- The lines of a document, each with its line feed; the last one may lack it. -/
def readLines : Bytes → List Bytes
  | [] => []
  | b :: bs =>
    if b = 0x0A then [b] :: readLines bs
    else match readLines bs with
      | [] => [[b]]
      | line :: rest => (b :: line) :: rest

/-- A line without its line feed. -/
def stripLf (line : Bytes) : Bytes := if line.getLast? = some 0x0A then line.dropLast else line

/-- A character in quotes as `{:?}` prints it. -/
def debugChar (c : Char) : String :=
  if c = '\'' then "'\\''" else if c = '"' then "'\"'"
  else "'" ++ Markl.PurposeId.debugChar c ++ "'"

/-- Reads a line of the metadata. -/
def parseMetaLine (line : Bytes) : Except Error MetaLine :=
  match stripLf line with
  | kind :: blank :: body =>
    if blank ≠ 0x20 then .error (.malformedLine line)
    else match LineKind.ofByte kind with
      | none =>
        .error (.hyphence ("unknown metadata prefix " ++ debugChar (Char.ofNat kind.toNat)))
      | some kind =>
        match fromUtf8 body with
        | .ok text => .ok ⟨kind, text.toList⟩
        | .error _ => .error (.hyphence "metadata line body is not valid UTF-8")
  | _ => .error (.malformedLine line)

/-- The metadata lines up to the closing boundary, and the bytes behind it. -/
def parseLines : List Bytes → Except Error (List MetaLine × Bytes)
  | [] => .error (.hyphence "missing closing '---' boundary")
  | line :: rest =>
    if line = boundary then .ok ([], rest.flatten)
    else do
      let l ← parseMetaLine line
      let (ls, rest) ← parseLines rest
      pure (l :: ls, rest)

/-- The body behind the empty line that sets it off. -/
def parseRest : Bytes → Except Error Bytes
  | [] => .ok []
  | b :: body =>
    if b ≠ 0x0A then .error (.hyphence "body present without blank-line separator") else .ok body

/-- The framing of a document. -/
def parse (raw : Bytes) : Except Error HyphenceDoc :=
  match readLines raw with
  | [] => .error (.hyphence "empty input")
  | first :: rest =>
    if first ≠ boundary then .error (.hyphence "missing opening '---' boundary")
    else do
      let (lines, rest) ← parseLines rest
      let body ← parseRest rest
      let doc : HyphenceDoc := { lines, body }
      if doc.hasAtRef && !doc.body.isEmpty then
        .error (.hyphence "'@' blob reference together with an inline body")
      else .ok doc

/-! ## Lines -/

/-- The lines put together are the document. -/
theorem flatten_readLines (text : Bytes) : (readLines text).flatten = text := by
  induction text with
  | nil => rfl
  | cons b bs ih =>
    rw [readLines]
    by_cases hb : b = 0x0A
    · rw [if_pos hb, List.flatten_cons, ih]
      rfl
    · rw [if_neg hb]
      cases hl : readLines bs with
      | nil =>
        rw [hl] at ih
        rw [← ih]
        rfl
      | cons line rest =>
        rw [hl] at ih
        rw [← ih]
        rfl

/-- One line in front of the others. -/
theorem readLines_line {line : Bytes} (h : 0x0A ∉ line) (rest : Bytes) :
    readLines (line ++ 0x0A :: rest) = (line ++ [0x0A]) :: readLines rest := by
  induction line with
  | nil => rw [List.nil_append, readLines, if_pos rfl, List.nil_append]
  | cons b bs ih =>
    have hb : b ≠ 0x0A := fun he => h (he ▸ List.mem_cons_self)
    rw [List.cons_append, readLines, if_neg hb, ih fun hm => h (List.mem_cons_of_mem _ hm)]
    rfl

/-- A line without its line feed has no line feed in it. -/
theorem lineFeed_notMem_stripLf {text line : Bytes} (h : line ∈ readLines text) :
    0x0A ∉ stripLf line := by
  have hends : ∀ {text line : Bytes}, line ∈ readLines text →
      ∃ content, 0x0A ∉ content ∧ (line = content ∨ line = content ++ [0x0A]) := by
    intro text
    induction text with
    | nil => exact fun h => nomatch h
    | cons b bs ih =>
      intro line h
      rw [readLines] at h
      by_cases hb : b = 0x0A
      · rw [if_pos hb] at h
        rcases List.mem_cons.mp h with rfl | hmem
        · exact ⟨[], by simp, Or.inr (by rw [hb]; rfl)⟩
        · exact ih hmem
      · rw [if_neg hb] at h
        cases hl : readLines bs with
        | nil =>
          rw [hl] at h
          obtain rfl := List.mem_singleton.mp h
          exact ⟨[b], by simpa [eq_comm] using hb, Or.inl rfl⟩
        | cons first rest =>
          rw [hl] at h ih
          rcases List.mem_cons.mp h with rfl | hmem
          · obtain ⟨content, hno, hfirst⟩ := ih List.mem_cons_self
            refine ⟨b :: content, by simpa [eq_comm] using ⟨hb, hno⟩, ?_⟩
            rcases hfirst with rfl | rfl
            · exact Or.inl rfl
            · exact Or.inr rfl
          · exact ih (List.mem_cons_of_mem _ hmem)
  obtain ⟨content, hno, rfl | rfl⟩ := hends h
  · rw [stripLf, if_neg fun hlast => hno (List.mem_of_getLast? hlast)]
    exact hno
  · rw [stripLf, if_pos List.getLast?_concat, List.dropLast_concat]
    exact hno

/-- What a metadata line is read from. -/
theorem parseMetaLine_ok {line : Bytes} {l : MetaLine} (h : parseMetaLine line = .ok l) :
    ∃ kind, LineKind.ofByte kind = some l.kind ∧
      stripLf line = kind :: 0x20 :: strBytes (String.ofList l.body) := by
  rw [parseMetaLine] at h
  rcases hs : stripLf line with _ | ⟨kind, _ | ⟨blank, body⟩⟩
  · simp only [hs] at h
    cases h
  · simp only [hs] at h
    cases h
  · simp only [hs, guard_ok, not_not] at h
    obtain ⟨rfl, h⟩ := h
    rcases hk : LineKind.ofByte kind with _ | k
    · simp only [hk] at h
      cases h
    · rcases ht : fromUtf8 body with e | text
      · simp only [hk, ht] at h
        cases h
      · simp only [hk, ht] at h
        cases h
        refine ⟨kind, hk, ?_⟩
        rw [fromUtf8_ok.mp ht, String.ofList_toList]

/-- The text of a metadata line that was read has no line feed in it. -/
theorem parseLines_lineFeed {text rest : Bytes} {ls : List Bytes} {lines : List MetaLine}
    (hls : ls ⊆ readLines text) (h : parseLines ls = .ok (lines, rest)) :
    ∀ l ∈ lines, '\n' ∉ l.body := by
  induction ls generalizing lines with
  | nil => cases h
  | cons line ls ih =>
    rw [parseLines] at h
    by_cases hb : line = boundary
    · rw [if_pos hb] at h
      cases h
      exact fun l hl => nomatch hl
    · simp only [if_neg hb, bind_ok, pure_ok, Prod.mk.injEq] at h
      obtain ⟨l, hl, ⟨lines', rest'⟩, hrest, rfl, rfl⟩ := h
      intro l' hl'
      rcases List.mem_cons.mp hl' with rfl | hmem
      · obtain ⟨kind, -, hstrip⟩ := parseMetaLine_ok hl
        have hno := lineFeed_notMem_stripLf (hls List.mem_cons_self)
        rw [hstrip] at hno
        intro hn
        exact hno (by simp [(lineFeed_mem_strBytes l'.body).mpr hn])
      · exact ih (fun x hx => hls (List.mem_cons_of_mem _ hx)) hrest l' hmem

/-- What the framing of a document is read from. -/
theorem parse_ok {raw : Bytes} {d : HyphenceDoc} (h : parse raw = .ok d) :
    (∀ l ∈ d.lines, '\n' ∉ l.body) ∧ (d.hasAtRef && !d.body.isEmpty) = false := by
  rw [parse] at h
  rcases hl : readLines raw with _ | ⟨first, rest⟩
  · simp only [hl] at h
    cases h
  · simp only [hl, guard_ok, bind_ok] at h
    obtain ⟨-, ⟨lines, rest'⟩, hlines, body, hbody, hno, heq⟩ := h
    cases heq
    have hsub : rest ⊆ readLines raw := by
      rw [hl]
      exact List.subset_cons_self first rest
    exact ⟨parseLines_lineFeed hsub hlines, by simpa using hno⟩

/-- The metadata lines stand before the closing boundary, each on a line of its own. -/
theorem parseLines_shape {ls : List Bytes} {lines : List MetaLine} {rest : Bytes}
    (h : parseLines ls = .ok (lines, rest)) :
    ∃ heads tail, ls = heads ++ boundary :: tail ∧ rest = tail.flatten ∧
      List.Forall₂ (fun line l => parseMetaLine line = .ok l) heads lines := by
  induction ls generalizing lines with
  | nil => cases h
  | cons line ls ih =>
    rw [parseLines] at h
    by_cases hb : line = boundary
    · rw [if_pos hb] at h
      cases h
      exact ⟨[], ls, by rw [hb, List.nil_append], rfl, .nil⟩
    · simp only [if_neg hb, bind_ok, pure_ok, Prod.mk.injEq] at h
      obtain ⟨l, hl, ⟨lines', rest'⟩, hrest, rfl, rfl⟩ := h
      obtain ⟨heads, tail, rfl, hrest', hheads⟩ := ih hrest
      exact ⟨line :: heads, tail, rfl, hrest', .cons hl hheads⟩

theorem parse_shape {raw : Bytes} {d : HyphenceDoc} (h : parse raw = .ok d) :
    ∃ heads tail, readLines raw = boundary :: (heads ++ boundary :: tail) ∧
      List.Forall₂ (fun line l => parseMetaLine line = .ok l) heads d.lines ∧
      parseRest tail.flatten = .ok d.body := by
  rw [parse] at h
  rcases hl : readLines raw with _ | ⟨first, ls⟩
  · rw [hl] at h
    cases h
  · simp only [hl, guard_ok, bind_ok, not_not] at h
    obtain ⟨rfl, ⟨lines, rest⟩, hlines, body, hbody, -, hdoc⟩ := h
    cases hdoc
    obtain ⟨heads, tail, rfl, rfl, hheads⟩ := parseLines_shape hlines
    exact ⟨heads, tail, rfl, hheads, hbody⟩

/-- The lines of a kind in a document without a body. -/
theorem mem_lines_iff {raw : Bytes} {d : HyphenceDoc} (h : parse raw = .ok d) (hbody : d.body = [])
    {k : LineKind} {body : Bytes} :
    (∃ line ∈ readLines raw, stripLf line = k.byte :: 0x20 :: body) ↔
      ∃ l ∈ d.lines, l.kind = k ∧ body = strBytes (String.ofList l.body) := by
  obtain ⟨heads, tail, hlines, hheads, hrest⟩ := parse_shape h
  rw [hlines]
  constructor
  · rintro ⟨line, hmem, hstrip⟩
    have hboundary : line ≠ boundary := by
      rintro rfl
      exact absurd (List.cons.inj (List.cons.inj hstrip).2).1 (by decide)
    have htail : line ∉ tail := by
      intro hmem
      have hblank : 0x20 ∈ stripLf line := by simp [hstrip]
      have hline : 0x20 ∈ line := by
        rw [stripLf] at hblank
        split at hblank
        · exact List.dropLast_subset line hblank
        · exact hblank
      have hflat : 0x20 ∈ tail.flatten := List.mem_flatten.mpr ⟨line, hmem, hline⟩
      rw [hbody] at hrest
      generalize tail.flatten = rest at hflat hrest
      rcases rest with _ | ⟨b, rest⟩
      · cases hflat
      · simp only [parseRest, guard_ok, not_not, Except.ok.injEq] at hrest
        obtain ⟨rfl, rfl⟩ := hrest
        exact absurd hflat (by decide)
    obtain ⟨l, hl, hparse⟩ := forall₂_mem_left hheads (a := line) (by simpa [hboundary, htail] using hmem)
    obtain ⟨kind, hkind, hshape⟩ := parseMetaLine_ok hparse
    obtain ⟨hbyte, hrest⟩ := List.cons.inj (hstrip.symm.trans hshape)
    refine ⟨l, hl, ?_, (List.cons.inj hrest).2⟩
    rw [← hbyte, k.ofByte_byte] at hkind
    exact (Option.some.inj hkind).symm
  · rintro ⟨l, hl, rfl, rfl⟩
    obtain ⟨line, hline, hparse⟩ := forall₂_mem_right hheads (b := l) hl
    obtain ⟨kind, hkind, hshape⟩ := parseMetaLine_ok hparse
    rw [LineKind.ofByte_eq_some.mp hkind] at hshape
    exact ⟨line, by simp [hline], hshape⟩

/-! ## Round trip -/

/-- A boundary is a line. -/
theorem readLines_boundary (rest : Bytes) :
    readLines (boundary ++ rest) = boundary :: readLines rest :=
  readLines_line (by decide : (0x0A : UInt8) ∉ [0x2D, 0x2D, 0x2D]) rest

/-- A line is written as a content without line feed, and a line feed. -/
private theorem marshalLine_eq {l : MetaLine} (h : '\n' ∉ l.body) :
    ∃ content, 0x0A ∉ content ∧ marshalLine l = content ++ [0x0A] ∧
      content ++ [0x0A] ≠ boundary ∧ parseMetaLine (content ++ [0x0A]) = .ok l := by
  refine ⟨l.kind.byte :: 0x20 :: strBytes (String.ofList l.body), ?_, rfl, ?_, ?_⟩
  · have hbody := (lineFeed_mem_strBytes l.body).not.mpr h
    have hkind : 0x0A ≠ l.kind.byte := by cases l.kind <;> decide
    simp [hbody, hkind]
  · intro he
    have hblank := (List.cons.inj (List.cons.inj he).2).1
    exact absurd hblank (by decide)
  · have hstrip : stripLf (l.kind.byte :: 0x20 :: strBytes (String.ofList l.body) ++ [0x0A]) =
        l.kind.byte :: 0x20 :: strBytes (String.ofList l.body) := by
      rw [stripLf, if_pos List.getLast?_concat, List.dropLast_concat]
    have hutf8 := fromUtf8_ok.mpr (rfl : strBytes (String.ofList l.body) = _)
    rw [parseMetaLine, hstrip]
    simp only [l.kind.ofByte_byte, hutf8, String.toList_ofList]
    rfl

/-- Written lines are read back up to the closing boundary. -/
private theorem parseLines_marshal {lines : List MetaLine} (h : ∀ l ∈ lines, '\n' ∉ l.body)
    (rest : Bytes) :
    parseLines (readLines (lines.flatMap marshalLine ++ (boundary ++ rest))) = .ok (lines, rest) := by
  induction lines with
  | nil =>
    rw [List.flatMap_nil, List.nil_append, readLines_boundary, parseLines, if_pos rfl,
      flatten_readLines]
  | cons l ls ih =>
    obtain ⟨content, hno, hline, hne, hparse⟩ := marshalLine_eq (h l List.mem_cons_self)
    rw [List.flatMap_cons, hline, List.append_assoc, List.append_assoc, List.singleton_append,
      readLines_line hno, parseLines, if_neg hne, hparse,
      ih fun l' hl' => h l' (List.mem_cons_of_mem _ hl')]
    rfl

/-- A document whose lines are in order is read back from its bytes. -/
theorem parse_marshal {d : HyphenceDoc} (horder : canonicalOrder d.lines = d.lines)
    (hlines : ∀ l ∈ d.lines, '\n' ∉ l.body) {raw : Bytes} (h : d.marshal = .ok raw) :
    parse raw = .ok d := by
  rw [marshal, guard_ok] at h
  obtain ⟨hno, hraw⟩ := h
  have hparts : raw = boundary ++ (d.lines.flatMap marshalLine ++
      (boundary ++ if d.body.isEmpty then [] else 0x0A :: d.body)) := by
    rw [← Except.ok.inj hraw, marshalMetadata, horder]
    simp
  have hrest : parseRest (if d.body.isEmpty then [] else 0x0A :: d.body) = .ok d.body := by
    rcases hb : d.body with _ | ⟨b, bs⟩ <;> rfl
  rw [parse, hparts, readLines_boundary]
  simp only [parseLines_marshal hlines, ok_bind, hrest]
  rw [if_neg (by simp), if_neg hno]

end HyphenceDoc

end Piggy.Pigpen
