import Piggy.Go.Strings
import Piggy.Pigpen.Hyphence

/-!
# Hyphence framing in Go

The Go package reads and writes the frame of a document as the Rust crate does: a reader that
returns one line after the other, and the same order of the lines it writes. The errors carry
what their texts show.
-/

namespace Piggy.Go.Pigpen

open Piggy.Core
open Piggy.Box (fromUtf8 fromUtf8_ok strBytes strBytes_ofList)
open Piggy.Pigpen (LineKind boundary)
open Piggy.Pigpen.HyphenceDoc (readLines)

/-- What the package refuses. -/
inductive Error where
  | noOpeningBoundary
  | noClosingBoundary
  | missingSeparator
  | atRefWithInlineBody
  | unknownPrefix (lead : UInt8)
  | malformedLine (line : Bytes)
  | notUtf8
  | control (field : String)
  /-- An error of the markl codec on a text, which the context says what it was read as. -/
  | markl (context : String) (text : Bytes) (e : Markl.Error)
  /-- The type of a document that is no pointer, if it has one. -/
  | notPointer (type : Option Bytes)
  | manyTypes
  | pointerBody
  | unexpectedDash (line : Bytes)
  | missingTag (field : String)
  | kindEmpty
  | kindSeparator (kind : Bytes)
  | doubleQuote (field : String)
  | noMarklId
  | emptyPurpose (id : Bytes)
  | noWrapFormat (format : Bytes)
  | emptyWrap (format : Bytes)
  | wrapPurpose (purpose : Bytes)
  | wrapFormat (recipient got want : Bytes)
  | emptyMac
  | macPurpose (text : Bytes)
  | macFormat (got : Bytes)
  | atRef
  | missingType
  | unexpectedType (tag : Bytes)
  | mixed
  | noWrapped
  | missingMac
  | missingPayload
  | pointerDocument
  /-- A line of a list of ids, counted from one. -/
  | secondToken (line : Nat) (rest : Bytes)
  | badId (line : Nat) (id : Bytes) (e : Markl.Error)
  | notRecipient (line : Nat) (id : Bytes)
  deriving DecidableEq

/-- A line of the metadata. -/
structure MetaLine where
  lead : UInt8
  body : Bytes
  deriving DecidableEq

/-- The lines of a document in their order, and its body. -/
structure HyphenceDoc where
  lines : List MetaLine
  body : Bytes
  deriving DecidableEq

namespace HyphenceDoc

/-- A body follows the metadata. -/
def hasInlineBody (h : HyphenceDoc) : Bool := 0 < h.body.length

/-- A line refers to a body elsewhere. -/
def hasAtRef (h : HyphenceDoc) : Bool := h.lines.any (·.lead = 0x40)

/-! ## Writing -/

/-- The section of the lines: descriptions, tags, blob references, type. -/
def marshalMetadata (h : HyphenceDoc) : Bytes :=
  boundary ++ ([0x23, 0x2D, 0x40, 0x21].flatMap fun want =>
    (h.lines.filter (·.lead = want)).flatMap fun l => l.lead :: 0x20 :: (l.body ++ [0x0A])) ++ boundary

/-- The bytes of a document. -/
def marshal (h : HyphenceDoc) : Except Error Bytes :=
  if h.hasAtRef && h.hasInlineBody then .error .atRefWithInlineBody
  else .ok (if h.hasInlineBody then h.marshalMetadata ++ 0x0A :: h.body else h.marshalMetadata)

end HyphenceDoc

/-! ## Reading -/

/-- One line, with the line feed that it ends with. -/
def parseMetaLine (line : Bytes) : Except Error MetaLine :=
  match line.dropLast with
  | lead :: blank :: body =>
    if blank ≠ 0x20 then .error (.malformedLine line)
    else if lead ∈ [0x23, 0x2D, 0x40, 0x21] then
      if (fromUtf8 body).isOk then .ok ⟨lead, body⟩ else .error .notUtf8
    else .error (.unknownPrefix lead)
  | _ => .error (.malformedLine line)

/-- The lines up to the closing boundary, and what is left to read. A line without a line feed is
the end of the input. -/
def parseLines : List Bytes → Except Error (List MetaLine × Bytes)
  | [] => .error .noClosingBoundary
  | line :: rest =>
    if line.getLast? ≠ some 0x0A then .error .noClosingBoundary
    else if line = boundary then .ok ([], rest.flatten)
    else do
      let l ← parseMetaLine line
      let (ls, rest) ← parseLines rest
      pure (l :: ls, rest)

/-- The body behind the separator. -/
def parseRest : Bytes → Except Error Bytes
  | [] => .ok []
  | b :: body => if b ≠ 0x0A then .error .missingSeparator else .ok body

/-- Reads the metadata and the body. -/
def parseHyphence (raw : Bytes) : Except Error HyphenceDoc :=
  match readLines raw with
  | [] => .error .noOpeningBoundary
  | first :: rest =>
    if first ≠ boundary then .error .noOpeningBoundary
    else do
      let (lines, rest) ← parseLines rest
      let body ← parseRest rest
      let doc : HyphenceDoc := { lines, body }
      if doc.hasAtRef && doc.hasInlineBody then .error .atRefWithInlineBody
      else .ok doc

/-! ## The same frame -/

/-- The line of the Rust crate in bytes. -/
def MetaLine.ofRust (l : Piggy.Pigpen.MetaLine) : MetaLine := ⟨l.kind.byte, utf8 l.body⟩

/-- The frame as the Go package holds it. -/
def HyphenceDoc.ofRust (d : Piggy.Pigpen.HyphenceDoc) : HyphenceDoc :=
  ⟨d.lines.map .ofRust, d.body⟩

theorem mem_leads_iff {b : UInt8} :
    b ∈ ([0x23, 0x2D, 0x40, 0x21] : List UInt8) ↔ ∃ k : LineKind, b = k.byte := by
  constructor
  · intro h
    simp only [List.mem_cons, List.not_mem_nil, or_false] at h
    rcases h with rfl | rfl | rfl | rfl
    · exact ⟨.hash, rfl⟩
    · exact ⟨.dash, rfl⟩
    · exact ⟨.atSign, rfl⟩
    · exact ⟨.bang, rfl⟩
  · rintro ⟨k, rfl⟩
    cases k <;> decide

/-- What both packages take for a metadata line. -/
theorem parseMetaLine_iff {line : Bytes} (hline : line.getLast? = some 0x0A) {g : MetaLine} :
    parseMetaLine line = .ok g ↔
      ∃ l, Piggy.Pigpen.HyphenceDoc.parseMetaLine line = .ok l ∧ g = .ofRust l := by
  have hstrip : Piggy.Pigpen.HyphenceDoc.stripLf line = line.dropLast := if_pos hline
  rw [parseMetaLine, Piggy.Pigpen.HyphenceDoc.parseMetaLine, hstrip]
  rcases line.dropLast with _ | ⟨lead, _ | ⟨blank, body⟩⟩
  · exact error_ok_exists
  · exact error_ok_exists
  dsimp only
  by_cases hblank : blank ≠ 0x20
  · rw [if_pos hblank, if_pos hblank]
    exact error_ok_exists
  rw [if_neg hblank, if_neg hblank]
  rcases hkind : LineKind.ofByte lead with _ | k
  · have hlead : lead ∉ ([0x23, 0x2D, 0x40, 0x21] : List UInt8) := by
      intro hmem
      obtain ⟨k, hk⟩ := mem_leads_iff.mp hmem
      rw [LineKind.ofByte_eq_some.mpr hk] at hkind
      cases hkind
    rw [if_neg hlead]
    exact error_ok_exists
  obtain rfl := LineKind.ofByte_eq_some.mp hkind
  rw [if_pos (mem_leads_iff.mpr ⟨k, rfl⟩)]
  rcases hbody : fromUtf8 body with e | text
  · exact error_ok_exists
  have hutf8 : body = utf8 text.toList := by
    rw [fromUtf8_ok.mp hbody, ← toUTF8_ofList, String.ofList_toList]
    rfl
  constructor
  · rintro ⟨⟩
    exact ⟨_, rfl, by rw [MetaLine.ofRust, ← hutf8]⟩
  · rintro ⟨_, ⟨⟩, rfl⟩
    rw [MetaLine.ofRust, ← hutf8]
    rfl

/-- Every line but the last ends with a line feed. -/
theorem readLines_isChain (text : Bytes) :
    (readLines text).IsChain fun line _ => line.getLast? = some 0x0A := by
  induction text with
  | nil => exact .nil
  | cons b bs ih =>
    rw [readLines]
    split
    · next hb =>
      subst hb
      rcases hl : readLines bs with _ | ⟨line, rest⟩
      · exact .singleton _
      · exact .cons_cons rfl (hl ▸ ih)
    · rcases hl : readLines bs with _ | ⟨line, _ | ⟨next, rest⟩⟩
      · exact .singleton _
      · exact .singleton _
      · rw [hl] at ih
        obtain ⟨hline, hrest⟩ := List.isChain_cons_cons.mp ih
        refine .cons_cons ?_ hrest
        rw [List.getLast?_cons, hline]
        rfl

/-- What both packages take for the lines of a document. -/
theorem parseLines_iff {ls : List Bytes} (hls : ls.IsChain fun line _ => line.getLast? = some 0x0A)
    {rest : Bytes} {gs : List MetaLine} :
    parseLines ls = .ok (gs, rest) ↔
      ∃ lines, Piggy.Pigpen.HyphenceDoc.parseLines ls = .ok (lines, rest) ∧ gs = lines.map .ofRust := by
  induction ls generalizing gs with
  | nil =>
    refine iff_of_false (fun h => by cases h) ?_
    rintro ⟨_, h, -⟩
    cases h
  | cons line ls ih =>
    rw [parseLines, Piggy.Pigpen.HyphenceDoc.parseLines]
    by_cases hend : line.getLast? = some 0x0A
    · rw [if_neg (not_not.mpr hend)]
      by_cases hboundary : line = boundary
      · rw [if_pos hboundary, if_pos hboundary]
        constructor
        · rintro ⟨⟩
          exact ⟨[], rfl, rfl⟩
        · rintro ⟨_, ⟨⟩, rfl⟩
          rfl
      · rw [if_neg hboundary, if_neg hboundary]
        have ih : ∀ {gs : List MetaLine}, parseLines ls = .ok (gs, rest) ↔
            ∃ lines, Piggy.Pigpen.HyphenceDoc.parseLines ls = .ok (lines, rest) ∧
              gs = lines.map .ofRust := ih (List.IsChain.of_cons hls)
        simp only [bind_ok, pure_ok, Prod.mk.injEq]
        constructor
        · rintro ⟨g, hg, ⟨gs', rest'⟩, hgs, rfl, rfl⟩
          obtain ⟨l, hl, rfl⟩ := (parseMetaLine_iff hend).mp hg
          obtain ⟨lines, hlines, rfl⟩ := ih.mp hgs
          exact ⟨_, ⟨l, hl, _, hlines, rfl, rfl⟩, rfl⟩
        · rintro ⟨_, ⟨l, hl, ⟨lines, rest'⟩, hlines, rfl, rfl⟩, rfl⟩
          exact ⟨_, (parseMetaLine_iff hend).mpr ⟨l, hl, rfl⟩, _, ih.mpr ⟨_, hlines, rfl⟩, rfl, rfl⟩
    · rw [if_pos hend]
      refine ⟨(fun h => by cases h), ?_⟩
      rintro ⟨lines, hlines, -⟩
      -- a line that is not ended is the last one
      have hboundary : line ≠ boundary := fun h => hend (h ▸ rfl)
      rw [if_neg hboundary] at hlines
      simp only [bind_ok, pure_ok] at hlines
      obtain ⟨l, -, x, hx, -⟩ := hlines
      rcases ls with _ | ⟨next, ls⟩
      · cases hx
      · exact absurd (List.isChain_cons_cons.mp hls).1 hend

theorem hasAtRef_ofRust (d : Piggy.Pigpen.HyphenceDoc) :
    (HyphenceDoc.ofRust d).hasAtRef = d.hasAtRef := by
  rw [HyphenceDoc.hasAtRef, HyphenceDoc.ofRust, Piggy.Pigpen.HyphenceDoc.hasAtRef, List.any_map]
  congr 1
  funext l
  rcases l with ⟨_ | _ | _ | _, body⟩ <;> rfl

theorem hasInlineBody_ofRust (d : Piggy.Pigpen.HyphenceDoc) :
    (HyphenceDoc.ofRust d).hasInlineBody = !d.body.isEmpty := by
  rw [HyphenceDoc.hasInlineBody, HyphenceDoc.ofRust]
  cases d.body <;> rfl

theorem refused_ofRust (d : Piggy.Pigpen.HyphenceDoc) :
    ((HyphenceDoc.ofRust d).hasAtRef && (HyphenceDoc.ofRust d).hasInlineBody) =
      (d.hasAtRef && !d.body.isEmpty) := by
  rw [hasAtRef_ofRust, hasInlineBody_ofRust]

theorem parseRest_iff {rest body : Bytes} :
    parseRest rest = .ok body ↔ Piggy.Pigpen.HyphenceDoc.parseRest rest = .ok body := by
  cases rest with
  | nil => rw [parseRest, Piggy.Pigpen.HyphenceDoc.parseRest, Except.ok.injEq, Except.ok.injEq]
  | cons b bs =>
    rw [parseRest, Piggy.Pigpen.HyphenceDoc.parseRest]
    split
    · exact error_ok_iff
    · rw [Except.ok.injEq, Except.ok.injEq]

/-- Both packages accept the same frames. -/
theorem parseHyphence_iff {raw : Bytes} {h : HyphenceDoc} :
    parseHyphence raw = .ok h ↔ ∃ d, Piggy.Pigpen.HyphenceDoc.parse raw = .ok d ∧ h = .ofRust d := by
  have hchain := readLines_isChain raw
  rw [parseHyphence, Piggy.Pigpen.HyphenceDoc.parse]
  generalize readLines raw = all at hchain
  rcases all with _ | ⟨first, ls⟩
  · exact error_ok_exists
  dsimp only
  by_cases hfirst : first ≠ boundary
  · rw [if_pos hfirst, if_pos hfirst]
    exact error_ok_exists
  rw [if_neg hfirst, if_neg hfirst]
  have hlines : ∀ {rest : Bytes} {gs : List MetaLine}, parseLines ls = .ok (gs, rest) ↔
      ∃ lines, Piggy.Pigpen.HyphenceDoc.parseLines ls = .ok (lines, rest) ∧
        gs = lines.map .ofRust :=
    parseLines_iff (List.IsChain.of_cons hchain)
  simp only [bind_ok, guard_ok]
  constructor
  · rintro ⟨⟨gs, rest⟩, hgs, body, hbody, hno, hdoc⟩
    obtain ⟨lines, hrust, rfl⟩ := hlines.mp hgs
    have hrefused := refused_ofRust ⟨lines, body⟩
    exact ⟨⟨lines, body⟩, ⟨_, hrust, body, parseRest_iff.mp hbody, fun h => hno (hrefused.trans h), rfl⟩,
      (Except.ok.inj hdoc).symm⟩
  · rintro ⟨d, ⟨⟨lines, rest⟩, hrust, body, hbody, hno, hdoc⟩, rfl⟩
    cases hdoc
    have hrefused := refused_ofRust ⟨lines, body⟩
    exact ⟨_, hlines.mpr ⟨lines, hrust, rfl⟩, body, parseRest_iff.mpr hbody,
      fun h => hno (hrefused.symm.trans h), rfl⟩

/-- Lines of one kind. -/
theorem filter_ofRust (lines : List Piggy.Pigpen.MetaLine) (k : LineKind) :
    (lines.map MetaLine.ofRust).filter (·.lead = k.byte) =
      (lines.filter (·.kind = k)).map MetaLine.ofRust := by
  rw [List.filter_map]
  congr 1
  refine List.filter_congr fun l _ => ?_
  rcases l with ⟨_ | _ | _ | _, body⟩ <;> cases k <;> rfl

/-- Both packages write the same bytes. -/
theorem marshal_ofRust (d : Piggy.Pigpen.HyphenceDoc) {out : Bytes} :
    (HyphenceDoc.ofRust d).marshal = .ok out ↔ d.marshal = .ok out := by
  have hmeta : (HyphenceDoc.ofRust d).marshalMetadata = d.marshalMetadata := by
    have hline : ∀ l : Piggy.Pigpen.MetaLine, (MetaLine.ofRust l).lead :: 0x20 ::
        ((MetaLine.ofRust l).body ++ [0x0A]) = Piggy.Pigpen.HyphenceDoc.marshalLine l := by
      intro l
      rw [Piggy.Pigpen.HyphenceDoc.marshalLine, strBytes_ofList]
      rfl
    have hsection : ∀ k : LineKind, ((d.lines.map MetaLine.ofRust).filter (·.lead = k.byte)).flatMap
        (fun l => l.lead :: 0x20 :: (l.body ++ [0x0A])) =
          (d.lines.filter (·.kind = k)).flatMap Piggy.Pigpen.HyphenceDoc.marshalLine := by
      intro k
      rw [filter_ofRust, List.flatMap_map]
      exact List.flatMap_congr fun l _ => hline l
    rw [HyphenceDoc.marshalMetadata, Piggy.Pigpen.HyphenceDoc.marshalMetadata,
      Piggy.Pigpen.HyphenceDoc.canonicalOrder]
    simp only [List.flatMap_cons, List.flatMap_nil, List.flatMap_append, List.append_nil]
    rw [← hsection .hash, ← hsection .dash, ← hsection .atSign, ← hsection .bang]
    rfl
  rw [HyphenceDoc.marshal, Piggy.Pigpen.HyphenceDoc.marshal, hasAtRef_ofRust, hasInlineBody_ofRust, hmeta]
  split
  · exact error_ok_iff
  · rw [Except.ok.injEq, Except.ok.injEq]
    cases hbody : d.body with
    | nil => simp
    | cons b bs => simp [HyphenceDoc.ofRust, hbody]

end Piggy.Go.Pigpen
