import Piggy.Go.Document
import Piggy.Pigpen.Pointer

/-!
# Pointer documents in Go

Both packages read the same bytes as the same pointer, and neither takes them for a document.
What is read is written only when its values are plain: the readers take whatever stands between
the outer quotes, the writers do not.
-/

namespace Piggy.Go.Pigpen

open Piggy.Core
open Piggy.Pigpen (dropPrefix?_iff dropSuffix?_iff LineKind boundary)
open Piggy.Pigpen.HyphenceDoc (readLines stripLf)
open Piggy.Box (strBytes_ofList)

/-- A pointer to a document elsewhere. -/
structure Pointer where
  kind : Bytes
  locator : Bytes
  deriving DecidableEq

def pointerTypeTag : Bytes := utf8 "pigpen-pointer-v1".toList

/-- A kind names a program that is looked up, so it is no path. -/
def validatePointerKind (kind : Bytes) : Except Error Unit :=
  if kind = [] then .error .kindEmpty
  else if 0x2F ∈ kind ∨ 0x00 ∈ kind then .error (.kindSeparator kind)
  else .ok ()

/-- The value of a tag `key="value"`. -/
def quotedTagValue (body key : Bytes) : Option Bytes := do
  let rest ← body.dropPrefix? (key ++ [0x3D, 0x22])
  rest.dropSuffix? [0x22]

/-- A line break is refused. -/
def rejectControl (field : String) (s : Bytes) : Except Error Unit :=
  if 0x0A ∈ s ∨ 0x0D ∈ s then .error (.control field) else .ok ()

namespace Pointer

/-! ## Writing -/

/-- A value that can be quoted. -/
def checkValue (field : String) (value : Bytes) : Except Error Unit := do
  rejectControl field value
  if 0x22 ∈ value then .error (.doubleQuote field) else .ok ()

/-- A tag with its value in quotes. -/
def quotedTag (key : String) (value : Bytes) : Bytes :=
  utf8 key.toList ++ 0x3D :: 0x22 :: (value ++ [0x22])

/-- The document of a pointer. -/
def frame (p : Pointer) : HyphenceDoc :=
  ⟨[⟨0x2D, quotedTag "kind" p.kind⟩, ⟨0x2D, quotedTag "locator" p.locator⟩, ⟨0x21, pointerTypeTag⟩], []⟩

/-- The fields are walked as a map, in either order. -/
def fields (kindFirst : Bool) (p : Pointer) : List (String × Bytes) :=
  if kindFirst then [("kind", p.kind), ("locator", p.locator)]
  else [("locator", p.locator), ("kind", p.kind)]

/-- Writes a pointer, its fields in one of two orders. -/
def marshalText (kindFirst : Bool) (p : Pointer) : Except Error Bytes := do
  validatePointerKind p.kind
  (p.fields kindFirst).forM fun (field, value) => checkValue field value
  p.frame.marshal

/-! ## Reading -/

/-- One turn of the loop that counts the type lines: each of them names a pointer. -/
def countType (typeLines : Nat) (l : MetaLine) : Except Error Nat :=
  if l.body ≠ pointerTypeTag then .error (.notPointer (some l.body)) else .ok (typeLines + 1)

/-- How many type lines there are, each of them a pointer's. -/
def countTypes (lines : List MetaLine) : Except Error Nat :=
  (lines.filter (·.lead = 0x21)).foldlM countType 0

/-- There is one type line, and it is a pointer's. -/
def checkType (lines : List MetaLine) : Except Error Unit := do
  let typeLines ← countTypes lines
  if typeLines = 0 then .error (.notPointer none)
  else if typeLines = 1 then .ok ()
  else .error .manyTypes

/-- The tags that were read so far. -/
structure Tags where
  kind : Option Bytes := none
  locator : Option Bytes := none
  deriving DecidableEq

/-- A tag line is a kind or a locator that is not there yet. -/
def readTag (s : Tags) (l : MetaLine) : Except Error Tags :=
  if l.lead ≠ 0x2D then .ok s
  else
    match quotedTagValue l.body (utf8 "kind".toList), s.kind with
    | some value, none => .ok { s with kind := some value }
    | _, _ =>
      match quotedTagValue l.body (utf8 "locator".toList), s.locator with
      | some value, none => .ok { s with locator := some value }
      | _, _ => .error (.unexpectedDash l.body)

/-- Both tags are there. -/
def ofTags (s : Tags) : Except Error Pointer :=
  match s.kind with
  | none => .error (.missingTag "kind")
  | some kind =>
    match s.locator with
    | none => .error (.missingTag "locator")
    | some locator => do
      validatePointerKind kind
      pure ⟨kind, locator⟩

end Pointer

/-- Reads a pointer. -/
def parsePointer (raw : Bytes) : Except Error Pointer := do
  let h ← parseHyphence raw
  Pointer.checkType h.lines
  if 0 < h.body.length then .error .pointerBody
  else do
    let s ← h.lines.foldlM Pointer.readTag {}
    Pointer.ofTags s

/-! ## The same pointers -/

namespace Pointer

/-- A pointer as the Go package holds it. -/
def ofRust (p : Piggy.Pigpen.Pointer) : Pointer := ⟨utf8 p.kind, utf8 p.locator⟩

theorem quotedTag_utf8 (key : String) (value : List Char) :
    quotedTag key (utf8 value) = utf8 (Piggy.Pigpen.Pointer.quotedTag key value) := by
  have hquote : utf8 ['"'] = [0x22] := by decide
  have hopen : utf8 ['=', '"'] = [0x3D, 0x22] := by decide
  calc quotedTag key (utf8 value)
      = utf8 key.toList ++ (utf8 ['=', '"'] ++ (utf8 value ++ utf8 ['"'])) := by
        rw [hquote, hopen]
        rfl
    _ = utf8 (Piggy.Pigpen.Pointer.quotedTag key value) := by
        rw [← utf8_append, ← utf8_append, ← utf8_append]
        rfl

theorem quotedTagValue_iff {body value : Bytes} {key : String} :
    quotedTagValue body (utf8 key.toList) = some value ↔ body = quotedTag key value := by
  simp only [quotedTagValue, Option.bind_eq_bind, Option.bind_eq_some_iff, dropPrefix?_iff,
    dropSuffix?_iff, quotedTag]
  constructor
  · rintro ⟨_, rfl, rfl⟩
    simp
  · rintro rfl
    exact ⟨_, by simp, rfl⟩

/-- The tags of a text are the texts of its tags. -/
theorem quotedTag_eq_utf8 {body : List Char} {value : Bytes} {key : String}
    (h : utf8 body = quotedTag key value) :
    ∃ v, value = utf8 v ∧ body = Piggy.Pigpen.Pointer.quotedTag key v := by
  have hsplit : utf8 body = (utf8 key.toList ++ [0x3D]) ++ 0x22 :: (value ++ [0x22]) := by
    rw [h, quotedTag]
    simp
  obtain ⟨-, back, -, -, hback⟩ := utf8_split (by decide) hsplit
  have hvalue : utf8 back = value ++ 0x22 :: [] := hback.symm
  obtain ⟨v, -, -, rfl, -⟩ := utf8_split (by decide) hvalue
  refine ⟨v, rfl, utf8_inj ?_⟩
  rw [h, quotedTag_utf8]

theorem quotedTagValue_utf8 (body : List Char) (key : String) :
    quotedTagValue (utf8 body) (utf8 key.toList) =
      (Piggy.Pigpen.parseQuotedKv body key.toList).map utf8 := by
  rcases hkv : Piggy.Pigpen.parseQuotedKv body key.toList with _ | v
  · rw [Option.map_none, Option.eq_none_iff_forall_ne_some]
    intro value hvalue
    obtain ⟨v, -, hbody⟩ := quotedTag_eq_utf8 (quotedTagValue_iff.mp hvalue)
    rw [Piggy.Pigpen.parseQuotedKv_iff.mpr hbody] at hkv
    cases hkv
  · rw [Option.map_some, quotedTagValue_iff, Piggy.Pigpen.parseQuotedKv_iff.mp hkv, quotedTag_utf8]

theorem validatePointerKind_utf8 {kind : List Char} :
    validatePointerKind (utf8 kind) = .ok () ↔ Piggy.Pigpen.validatePointerKind kind = .ok () := by
  rw [validatePointerKind, guard_ok, guard_ok, Piggy.Pigpen.validatePointerKind_ok, not_or,
    mem_utf8_ascii (by decide), mem_utf8_ascii (by decide)]
  have hempty : utf8 kind = [] ↔ kind = [] :=
    ⟨fun h => utf8_inj (t := []) h, fun h => h ▸ rfl⟩
  rw [hempty]
  simp only [and_true]
  rfl

theorem body_ofRust_eq {l : Piggy.Pigpen.MetaLine} :
    (MetaLine.ofRust l).body = pointerTypeTag ↔ l.body = Piggy.Pigpen.pointerTypeTag :=
  ⟨fun h => utf8_inj h, fun h => congrArg utf8 h⟩

theorem countType_ofRust (n : Nat) (l : Piggy.Pigpen.MetaLine) (m : Nat) :
    countType n (.ofRust l) = .ok m ↔ ∃ k, Piggy.Pigpen.Pointer.countType n l = .ok k ∧ m = k := by
  simp only [countType, Piggy.Pigpen.Pointer.countType, guard_ok, not_not, body_ofRust_eq, Except.ok.injEq]
  constructor
  · rintro ⟨hbody, rfl⟩
    exact ⟨_, ⟨hbody, rfl⟩, rfl⟩
  · rintro ⟨_, ⟨hbody, rfl⟩, rfl⟩
    exact ⟨hbody, rfl⟩

theorem countTypes_ofRust {lines : List Piggy.Pigpen.MetaLine} {n : Nat} :
    countTypes (lines.map .ofRust) = .ok n ↔ Piggy.Pigpen.Pointer.countTypes lines = .ok n := by
  have hfilter := filter_ofRust lines .bang
  rw [LineKind.byte] at hfilter
  rw [countTypes, hfilter, Piggy.Pigpen.Pointer.countTypes]
  refine (foldlM_iff (i := id) (s := 0) countType_ofRust).trans ?_
  simp [eq_comm]

theorem checkType_ofRust {lines : List Piggy.Pigpen.MetaLine} :
    checkType (lines.map .ofRust) = .ok () ↔ Piggy.Pigpen.Pointer.checkType lines = .ok () := by
  rw [checkType, Piggy.Pigpen.Pointer.checkType, bind_ok, bind_ok]
  simp only [countTypes_ofRust, guard_ok]
  refine exists_congr fun n => and_congr_right fun _ => and_congr_right fun _ => ?_
  split
  · exact ⟨fun _ => rfl, fun _ => rfl⟩
  · exact error_ok_iff

/-- The tags as the Go package holds them. -/
def Tags.ofRust (s : Piggy.Pigpen.Pointer.Tags) : Tags := ⟨s.kind.map utf8, s.locator.map utf8⟩

theorem readTag_ofRust (s : Piggy.Pigpen.Pointer.Tags) (l : Piggy.Pigpen.MetaLine) (g : Tags) :
    readTag (.ofRust s) (.ofRust l) = .ok g ↔
      ∃ s', Piggy.Pigpen.Pointer.readTag s l = .ok s' ∧ g = .ofRust s' := by
  obtain ⟨kind, locator⟩ := s
  obtain ⟨k, body⟩ := l
  by_cases hk : k = .dash
  · subst hk
    have hlead : (MetaLine.ofRust ⟨.dash, body⟩).lead = 0x2D := rfl
    rw [readTag, if_neg (not_not.mpr hlead), Piggy.Pigpen.Pointer.readTag, if_neg (not_not.mpr rfl)]
    dsimp only [MetaLine.ofRust, Tags.ofRust]
    rw [quotedTagValue_utf8, quotedTagValue_utf8]
    rcases Piggy.Pigpen.parseQuotedKv body "kind".toList with _ | v <;>
      rcases kind with _ | kind <;>
      rcases Piggy.Pigpen.parseQuotedKv body "locator".toList with _ | w <;>
      rcases locator with _ | locator <;>
      simp [eq_comm]
  · have hlead : k.byte ≠ 0x2D := by
      cases k with
      | dash => exact absurd rfl hk
      | _ => decide
    rw [readTag, MetaLine.ofRust, if_pos hlead, Piggy.Pigpen.Pointer.readTag, if_pos hk]
    simp [eq_comm]

theorem ofTags_ofRust (s : Piggy.Pigpen.Pointer.Tags) (g : Pointer) :
    ofTags (.ofRust s) = .ok g ↔ ∃ p, Piggy.Pigpen.Pointer.ofTags s = .ok p ∧ g = ofRust p := by
  rcases s with ⟨_ | kind, _ | locator⟩
  · exact ⟨nofun, nofun⟩
  · exact ⟨nofun, nofun⟩
  · exact ⟨nofun, nofun⟩
  · simp only [ofTags, Piggy.Pigpen.Pointer.ofTags, Tags.ofRust, Option.map_some, bind_ok, pure_ok]
    constructor
    · rintro ⟨⟨⟩, hkind, rfl⟩
      exact ⟨_, ⟨(), validatePointerKind_utf8.mp hkind, rfl⟩, rfl⟩
    · rintro ⟨_, ⟨⟨⟩, hkind, rfl⟩, rfl⟩
      exact ⟨(), validatePointerKind_utf8.mpr hkind, rfl⟩

end Pointer

/-- Both readers take the same bytes for the same pointer. -/
theorem parsePointer_iff {raw : Bytes} {g : Pointer} :
    parsePointer raw = .ok g ↔ ∃ p, Piggy.Pigpen.Pointer.parse raw = .ok p ∧ g = .ofRust p := by
  have hfold : ∀ {lines : List Piggy.Pigpen.MetaLine} {g : Pointer.Tags},
      (lines.map MetaLine.ofRust).foldlM Pointer.readTag {} = .ok g ↔
        ∃ s, lines.foldlM Piggy.Pigpen.Pointer.readTag {} = .ok s ∧ g = .ofRust s :=
    foldlM_iff (s := {}) Pointer.readTag_ofRust
  simp only [parsePointer, Piggy.Pigpen.Pointer.parse, bind_ok, guard_ok]
  constructor
  · rintro ⟨h, hh, ⟨⟩, htype, hbody, tags, htags, hg⟩
    obtain ⟨d, hd, rfl⟩ := parseHyphence_iff.mp hh
    obtain ⟨s, hs, rfl⟩ := hfold.mp htags
    obtain ⟨p, hp, rfl⟩ := (Pointer.ofTags_ofRust s g).mp hg
    refine ⟨p, ⟨d, hd, (), Pointer.checkType_ofRust.mp htype, ?_, s, hs, hp⟩, rfl⟩
    simpa [HyphenceDoc.ofRust] using hbody
  · rintro ⟨p, ⟨d, hd, ⟨⟩, htype, hbody, s, hs, hp⟩, rfl⟩
    refine ⟨.ofRust d, parseHyphence_iff.mpr ⟨d, hd, rfl⟩, (), Pointer.checkType_ofRust.mpr htype, ?_,
      .ofRust s, hfold.mpr ⟨s, hs, rfl⟩, (Pointer.ofTags_ofRust s _).mpr ⟨p, hp, rfl⟩⟩
    simpa [HyphenceDoc.ofRust] using hbody

/-! ## No document -/

theorem parseTypeLine_pointer (t : CaseTables) (mac out : Option Bytes) :
    parseTypeLine t pointerTypeTag mac ≠ .ok out := by
  rw [parseTypeLine, show cut 0x40 pointerTypeTag = none by decide]
  exact nofun

namespace Pointer

/-- The Go package does not take a pointer for a document either. -/
theorem not_document {raw : Bytes} {p : Piggy.Pigpen.Pointer}
    (h : Piggy.Pigpen.Pointer.parse raw = .ok p) (t : CaseTables) (d : Document) :
    parseDocument t raw ≠ .ok d := by
  intro hdoc
  obtain ⟨f, hf, htype, -⟩ := Piggy.Pigpen.Pointer.parse_ok h
  obtain ⟨hname, hone⟩ := Piggy.Pigpen.Pointer.checkType_ok.mp htype
  obtain ⟨l, hl, hbang⟩ := List.countP_pos_iff.mp (hone ▸ Nat.one_pos)
  simp only [decide_eq_true_eq] at hbang
  have hframe := parseHyphence_iff.mpr ⟨f, hf, rfl⟩
  simp only [parseDocument, Result.bind_eq_ok, Result.lift_eq_ok, hframe] at hdoc
  obtain ⟨h, ⟨⟩, s, hs, -⟩ := hdoc
  obtain ⟨r, r', hturn⟩ := Result.turn_of_foldlM hs (List.mem_map_of_mem hl)
  have hlead : (MetaLine.ofRust l).lead = 0x21 := by
    rw [MetaLine.ofRust, hbang]
    rfl
  have hbody := body_ofRust_eq.mpr (hname l hl hbang)
  rw [readMetaLine, hlead, if_neg (by decide), if_neg (by decide), if_neg (by decide), if_pos rfl] at hturn
  simp only [Result.guard_eq_ok, Result.bind_eq_ok, hbody] at hturn
  obtain ⟨-, mac, hmac, -⟩ := hturn
  exact parseTypeLine_pointer t _ _ hmac

/-! ## The same bytes -/

theorem checkValue_utf8 {field : String} {value : List Char} :
    checkValue field (utf8 value) = .ok () ↔ Piggy.Pigpen.Pointer.Plain value := by
  simp only [checkValue, rejectControl, bind_ok, guard_ok, Piggy.Pigpen.Pointer.Plain, not_or, and_true]
  rw [mem_utf8_ascii (by decide), mem_utf8_ascii (by decide), mem_utf8_ascii (by decide)]
  constructor
  · rintro ⟨-, ⟨hnl, hcr⟩, hquote⟩
    exact ⟨hnl, hcr, hquote⟩
  · rintro ⟨hnl, hcr, hquote⟩
    exact ⟨(), ⟨hnl, hcr⟩, hquote⟩

theorem frame_ofRust (p : Piggy.Pigpen.Pointer) : (ofRust p).frame = .ofRust p.frame := by
  rw [frame, ofRust, quotedTag_utf8, quotedTag_utf8]
  rfl

/-- Both writers write the same pointers, and the same bytes. -/
theorem marshalText_ofRust {p : Piggy.Pigpen.Pointer} {kindFirst : Bool} {out : Bytes} :
    (ofRust p).marshalText kindFirst = .ok out ↔ p.toBytes = .ok out := by
  have hfields : ((ofRust p).fields kindFirst).forM (fun (field, value) => checkValue field value) = .ok () ↔
      Piggy.Pigpen.Pointer.Plain p.kind ∧ Piggy.Pigpen.Pointer.Plain p.locator := by
    have hboth : ∀ (a b : String × List Char),
        [(a.1, utf8 a.2), (b.1, utf8 b.2)].forM (fun (field, value) => checkValue field value) = .ok () ↔
          Piggy.Pigpen.Pointer.Plain a.2 ∧ Piggy.Pigpen.Pointer.Plain b.2 := by
      intro a b
      simp only [List.forM_eq_forM, List.forM_cons, List.forM_nil, bind_ok, pure_ok]
      constructor
      · rintro ⟨⟨⟩, ha, ⟨⟩, hb, -⟩
        exact ⟨checkValue_utf8.mp ha, checkValue_utf8.mp hb⟩
      · rintro ⟨ha, hb⟩
        exact ⟨(), checkValue_utf8.mpr ha, (), checkValue_utf8.mpr hb, trivial⟩
    cases kindFirst with
    | false => exact (hboth ("locator", p.locator) ("kind", p.kind)).trans and_comm
    | true => exact hboth ("kind", p.kind) ("locator", p.locator)
  rw [Piggy.Pigpen.Pointer.toBytes_ok, ← validatePointerKind_utf8]
  simp only [marshalText, bind_ok, frame_ofRust, marshal_ofRust]
  constructor
  · rintro ⟨⟨⟩, hkind, ⟨⟩, hvalues, hout⟩
    obtain ⟨hplain, hplain'⟩ := hfields.mp hvalues
    exact ⟨hkind, hplain, hplain', hout⟩
  · rintro ⟨hkind, hplain, hplain', hout⟩
    exact ⟨(), hkind, (), hfields.mpr ⟨hplain, hplain'⟩, hout⟩

end Pointer

/-! ## Readers and writers -/

/-- No quote and no carriage return stands between the outer quotes of a tag. -/
def PlainTags (raw : Bytes) : Prop :=
  ∀ line ∈ readLines raw, ∀ key ∈ ["kind", "locator"], ∀ value,
    stripLf line = 0x2D :: 0x20 :: Pointer.quotedTag key value → 0x22 ∉ value ∧ 0x0D ∉ value

/-- The writer of the Rust crate accepts a pointer, and both readers read it back. -/
def WrittenBack (p : Piggy.Pigpen.Pointer) : Prop :=
  ∃ out, p.toBytes = .ok out ∧ Piggy.Pigpen.Pointer.parse out = .ok p ∧
    parsePointer out = .ok (.ofRust p)

/-- The writer of the Go package accepts a pointer, whichever field it looks at first, and both
readers read it back. -/
def Pointer.WrittenBack (g : Pointer) : Prop :=
  ∀ kindFirst, ∃ out, g.marshalText kindFirst = .ok out ∧ parsePointer out = .ok g ∧
    ∃ p, Piggy.Pigpen.Pointer.parse out = .ok p ∧ g = .ofRust p

theorem writtenBack_iff {p : Piggy.Pigpen.Pointer} :
    WrittenBack p ↔ ∃ out, p.toBytes = .ok out := by
  constructor
  · rintro ⟨out, hout, -⟩
    exact ⟨out, hout⟩
  · rintro ⟨out, hout⟩
    have hparse := (Piggy.Pigpen.Pointer.parse_toBytes hout).2
    exact ⟨out, hout, hparse, parsePointer_iff.mpr ⟨p, hparse, rfl⟩⟩

theorem writtenBack_ofRust {p : Piggy.Pigpen.Pointer} :
    (Pointer.ofRust p).WrittenBack ↔ WrittenBack p := by
  rw [writtenBack_iff]
  constructor
  · intro h
    obtain ⟨out, hout, -⟩ := h true
    exact ⟨out, Pointer.marshalText_ofRust.mp hout⟩
  · rintro ⟨out, hout⟩ kindFirst
    have hparse := (Piggy.Pigpen.Pointer.parse_toBytes hout).2
    exact ⟨out, Pointer.marshalText_ofRust.mpr hout, parsePointer_iff.mpr ⟨p, hparse, rfl⟩, p, hparse, rfl⟩

/-- What a pointer is read from has plain tags exactly when its values can be written. -/
theorem plainTags_iff {raw : Bytes} {p : Piggy.Pigpen.Pointer}
    (h : Piggy.Pigpen.Pointer.parse raw = .ok p) : PlainTags raw ↔ WrittenBack p := by
  obtain ⟨d, hd, -, hbody, hkind, hperm⟩ := Piggy.Pigpen.Pointer.parse_ok h
  obtain ⟨hnl, -⟩ := Piggy.Pigpen.HyphenceDoc.parse_ok hd
  -- the dash lines are the two tags
  have hmem : ∀ {body : List Char}, body ∈ [Piggy.Pigpen.Pointer.quotedTag "kind" p.kind,
      Piggy.Pigpen.Pointer.quotedTag "locator" p.locator] ↔ ∃ l ∈ d.lines, l.kind = .dash ∧ l.body = body := by
    intro body
    rw [hperm.mem_iff, List.mem_map]
    simp only [List.mem_filter, decide_eq_true_eq, and_assoc]
  have hline : ∀ {body : Bytes}, (∃ line ∈ readLines raw, stripLf line = 0x2D :: 0x20 :: body) ↔
      ∃ l ∈ d.lines, l.kind = .dash ∧ body = utf8 l.body := by
    intro body
    have hlines : (∃ line ∈ readLines raw, stripLf line = LineKind.dash.byte :: 0x20 :: body) ↔
        ∃ l ∈ d.lines, l.kind = .dash ∧ body = Piggy.Box.strBytes (String.ofList l.body) :=
      Piggy.Pigpen.HyphenceDoc.mem_lines_iff hd hbody
    simp only [strBytes_ofList] at hlines
    exact hlines
  have hvalue : ∀ key ∈ ["kind", "locator"], ∀ v, Piggy.Pigpen.Pointer.quotedTag key v ∈
      [Piggy.Pigpen.Pointer.quotedTag "kind" p.kind, Piggy.Pigpen.Pointer.quotedTag "locator" p.locator] →
        PlainTags raw → Piggy.Pigpen.Pointer.Plain v := by
    intro key hkey v hv hplain
    obtain ⟨l, hl, hdash, hlbody⟩ := hmem.mp hv
    obtain ⟨line, hread, hstrip⟩ := hline.mpr ⟨l, hl, hdash, rfl⟩
    rw [hlbody, ← Pointer.quotedTag_utf8] at hstrip
    obtain ⟨hquote, hcr⟩ := hplain line hread key hkey _ hstrip
    rw [mem_utf8_ascii (by decide)] at hquote hcr
    have hnl := hnl l hl
    rw [hlbody, Piggy.Pigpen.Pointer.quotedTag] at hnl
    exact ⟨fun hmem => hnl (by simp [hmem]), hcr, hquote⟩
  rw [writtenBack_iff]
  simp only [Piggy.Pigpen.Pointer.toBytes_ok]
  constructor
  · intro hplain
    obtain ⟨out, hout⟩ := p.frame_marshal
    exact ⟨out, hkind, hvalue "kind" (by simp) _ (by simp) hplain,
      hvalue "locator" (by simp) _ (by simp) hplain, hout⟩
  · rintro ⟨out, -, hplain, hplain', -⟩ line hread key hkey value hstrip
    obtain ⟨l, hl, hdash, hutf8⟩ := hline.mp ⟨line, hread, hstrip⟩
    obtain ⟨v, rfl, hlbody⟩ := Pointer.quotedTag_eq_utf8 hutf8.symm
    rw [mem_utf8_ascii (by decide), mem_utf8_ascii (by decide)]
    rcases Piggy.Pigpen.Pointer.value_of_tag hkey (hmem.mpr ⟨l, hl, hdash, hlbody⟩) with rfl | rfl
    · exact ⟨hplain.2.2, hplain.2.1⟩
    · exact ⟨hplain'.2.2, hplain'.2.1⟩

/-- Both packages read the same pointers and take none of them for a document. What was read is
written and read back exactly when its tags are plain. -/
theorem pointers_iff (t : CaseTables) (raw : Bytes) :
    (∀ g, parsePointer raw = .ok g ↔ ∃ p, Piggy.Pigpen.Pointer.parse raw = .ok p ∧ g = .ofRust p) ∧
    (∀ p, Piggy.Pigpen.Pointer.parse raw = .ok p →
      (∀ d, Piggy.Pigpen.Document.parse raw ≠ .ok d) ∧ ∀ d, parseDocument t raw ≠ .ok d) ∧
    (∀ p, Piggy.Pigpen.Pointer.parse raw = .ok p → (WrittenBack p ↔ PlainTags raw)) ∧
    ∀ g, parsePointer raw = .ok g → (g.WrittenBack ↔ PlainTags raw) := by
  refine ⟨fun _ => parsePointer_iff, fun p h => ⟨Piggy.Pigpen.Pointer.not_document h,
    Pointer.not_document h t⟩, fun p h => (plainTags_iff h).symm, ?_⟩
  intro g hg
  obtain ⟨p, hp, rfl⟩ := parsePointer_iff.mp hg
  exact writtenBack_ofRust.trans (plainTags_iff hp).symm

/-- A locator with a quote in it. -/
def sampleQuoted : Piggy.Pigpen.Pointer := ⟨['a'], ['b', '"', 'c']⟩

def sampleQuotedText : Bytes :=
  utf8 "---\n- kind=\"a\"\n- locator=\"b\"c\"\n! pigpen-pointer-v1\n---\n".toList

/-- A quote inside the quotes is read, by both packages, and written by neither. -/
theorem not_pointers_written :
    Piggy.Pigpen.Pointer.parse sampleQuotedText = .ok sampleQuoted ∧ ¬ WrittenBack sampleQuoted ∧
      parsePointer sampleQuotedText = .ok (.ofRust sampleQuoted) ∧
      ¬ (Pointer.ofRust sampleQuoted).WrittenBack := by
  have hmarshal : sampleQuoted.frame.marshal = .ok sampleQuotedText := by decide +kernel
  have hframe := Piggy.Pigpen.HyphenceDoc.parse_marshal rfl
    (Piggy.Pigpen.Pointer.lineFeed_notMem_frame (by decide) (by decide)) hmarshal
  have hparse := Piggy.Pigpen.Pointer.parse_of_frame
    (Piggy.Pigpen.validatePointerKind_ok.mpr (by decide)) hframe
  have hno : ¬ WrittenBack sampleQuoted := by
    rw [writtenBack_iff]
    rintro ⟨out, hout⟩
    obtain ⟨-, -, hplain, -⟩ := Piggy.Pigpen.Pointer.toBytes_ok.mp hout
    exact hplain.2.2 (by decide)
  exact ⟨hparse, hno, parsePointer_iff.mpr ⟨_, hparse, rfl⟩, fun h => hno (writtenBack_ofRust.mp h)⟩

end Piggy.Go.Pigpen
