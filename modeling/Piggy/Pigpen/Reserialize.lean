import Piggy.Pigpen.Lines

/-!
# Writing what was read

A document that was read is written back and read again as the same document, unless a
description or a comment has a carriage return in it, which the writer refuses, or a
purpose holds a mark that its line is cut at.
-/

namespace Piggy.Pigpen

open Piggy.Core
open Piggy.Markl
open Piggy.Box (Bytes)

/-! ## Descriptions -/

/-- The description is empty only when it is absent, and is made of the lines and blanks. -/
private theorem addDescription_spec (description : Option (List Char)) (body : List Char)
    (hne : ∀ d ∈ description, d ≠ []) {c : Char} (hc : c ≠ ' ') :
    (∀ d ∈ addDescription description body, d ≠ []) ∧
      ((∃ d ∈ addDescription description body, c ∈ d) ↔ (∃ d ∈ description, c ∈ d) ∨ c ∈ body) := by
  rw [addDescription]
  by_cases hb : body.isEmpty = true
  · rw [if_pos hb]
    refine ⟨hne, ?_⟩
    rw [List.isEmpty_iff.mp hb]
    simp
  · rw [if_neg hb]
    have hbody : body ≠ [] := by simpa using hb
    cases description with
    | none => simp [hbody]
    | some d =>
      have hd : d.isEmpty = false := List.isEmpty_eq_false_iff.mpr (hne d rfl)
      simp [hd, hc]

/-- The loop over the description lines keeps both facts. -/
theorem foldl_addDescription {bodies : List (List Char)} {description : Option (List Char)}
    (hne : ∀ d ∈ description, d ≠ []) {c : Char} (hc : c ≠ ' ') :
    (∀ d ∈ bodies.foldl addDescription description, d ≠ []) ∧
      ((∃ d ∈ bodies.foldl addDescription description, c ∈ d) ↔
        (∃ d ∈ description, c ∈ d) ∨ ∃ body ∈ bodies, c ∈ body) := by
  induction bodies generalizing description with
  | nil => simpa using hne
  | cons body bodies ih =>
    obtain ⟨hstep, hmem⟩ := addDescription_spec description body hne hc
    obtain ⟨hrun, hruns⟩ := ih hstep
    refine ⟨hrun, ?_⟩
    rw [List.foldl_cons, hruns, hmem, or_assoc]
    simp

/-! ## The loop over the metadata lines -/

/-- The texts of the lines of a kind. -/
def bodiesOf (kind : LineKind) (lines : List MetaLine) : List (List Char) :=
  (lines.filter (·.kind = kind)).map MetaLine.body

private theorem bodiesOf_cons_of_eq {l : MetaLine} {kind : LineKind} (h : l.kind = kind)
    (lines : List MetaLine) : bodiesOf kind (l :: lines) = l.body :: bodiesOf kind lines := by
  simp [bodiesOf, h]

private theorem bodiesOf_cons_of_ne {l : MetaLine} {kind : LineKind} (h : l.kind ≠ kind)
    (lines : List MetaLine) : bodiesOf kind (l :: lines) = bodiesOf kind lines := by
  simp [bodiesOf, h]

/-- What the loop over the metadata lines collects. -/
structure Collects (lines : List MetaLine) (s s' : Reading) : Prop where
  description : s'.description = (bodiesOf .hash lines).foldl addDescription s.description
  recipients : ∃ rs, s'.recipients = s.recipients ++ rs ∧
    List.Forall₂ (fun body r => parseRecipientLine body = .ok r) (bodiesOf .dash lines) rs
  mac : s'.mac = s.mac ∨ ∃ body, parseTypeLine body = .ok s'.mac

/-- The loop collects its lines: one step for each kind of line, by induction on the
lines. -/
theorem collects_of_foldlM {lines : List MetaLine} {s s' : Reading}
    (h : lines.foldlM readMetaLine s = .ok s') : Collects lines s s' := by
  induction lines generalizing s with
  | nil =>
    rw [List.foldlM_nil, pure_ok] at h
    subst h
    exact ⟨rfl, ⟨[], by simp, .nil⟩, Or.inl rfl⟩
  | cons l lines ih =>
    rw [List.foldlM_cons] at h
    simp only [bind_ok] at h
    obtain ⟨s₁, hl, hlines⟩ := h
    obtain ⟨hdesc, ⟨rs, hrs, hall⟩, hmac⟩ := ih hlines
    rw [readMetaLine] at hl
    cases hk : l.kind with
    | hash =>
      simp only [hk, Except.ok.injEq] at hl
      subst hl
      refine ⟨?_, ⟨rs, hrs, ?_⟩, hmac⟩
      · rw [bodiesOf_cons_of_eq hk, List.foldl_cons]
        exact hdesc
      · rw [bodiesOf_cons_of_ne (by simp [hk])]
        exact hall
    | dash =>
      simp only [hk, bind_ok, pure_ok] at hl
      obtain ⟨r, hr, rfl⟩ := hl
      refine ⟨?_, ⟨r :: rs, ?_, ?_⟩, hmac⟩
      · rw [bodiesOf_cons_of_ne (by simp [hk])]
        exact hdesc
      · rw [hrs, List.append_assoc, List.singleton_append]
      · rw [bodiesOf_cons_of_eq hk]
        exact .cons hr hall
    | atSign =>
      simp only [hk] at hl
      cases hl
    | bang =>
      simp only [hk, guard_ok, bind_ok, pure_ok] at hl
      obtain ⟨-, mac, hm, rfl⟩ := hl
      refine ⟨?_, ⟨rs, hrs, ?_⟩, Or.inr ?_⟩
      · rw [bodiesOf_cons_of_ne (by simp [hk])]
        exact hdesc
      · rw [bodiesOf_cons_of_ne (by simp [hk])]
        exact hall
      · rcases hmac with hmac | hmac
        · exact ⟨l.body, hmac ▸ hm⟩
        · exact hmac

/-- Recipient lines that are read one by one are read in a row. -/
theorem foldlM_dashes {bodies : List (List Char)} {rs : List Recipient}
    (h : List.Forall₂ (fun body r => parseRecipientLine body = .ok r) bodies rs) (s : Reading) :
    (bodies.map (MetaLine.mk .dash)).foldlM readMetaLine s =
      .ok { s with recipients := s.recipients ++ rs } := by
  induction h generalizing s with
  | nil => simp [pure, Except.pure]
  | @cons body r bodies rs hr _ ih =>
    have hstep : readMetaLine s ⟨.dash, body⟩ = .ok { s with recipients := s.recipients ++ [r] } := by
      simp only [readMetaLine, hr, ok_bind]
      rfl
    rw [List.map_cons, List.foldlM_cons, hstep, ok_bind, ih]
    simp

/-! ## Documents -/

/-- What every document that was read satisfies. -/
structure Document.AsRead (d : Document) : Prop where
  description : ∀ desc ∈ d.description, desc ≠ [] ∧ '\n' ∉ desc
  recipients : ∀ r ∈ d.recipients, r.AsRead
  mac : ∀ m ∈ d.mac, m.length = FormatId.pigpenHeaderMac.size
  valid : d.validate = .ok ()

/-- A document that survives being written and read. -/
def Document.Faithful (d : Document) : Prop :=
  (∀ desc ∈ d.description, '\r' ∉ desc) ∧ ∀ r ∈ d.recipients, r.Faithful

/-- The lines that let a document survive being written anew. -/
def FaithfulLines (raw : Bytes) : Prop :=
  ∀ h, HyphenceDoc.parse raw = .ok h →
    (∀ body ∈ bodiesOf .hash h.lines, '\r' ∉ body) ∧
      ∀ body ∈ bodiesOf .dash h.lines, FaithfulLine body

private theorem mem_bodiesOf {kind : LineKind} {lines : List MetaLine} {body : List Char}
    (h : body ∈ bodiesOf kind lines) : ∃ l ∈ lines, l.body = body := by
  obtain ⟨l, hl, rfl⟩ := List.mem_map.mp h
  exact ⟨l, (List.mem_filter.mp hl).1, rfl⟩

/-- What every document that was read satisfies, and when it survives being written. -/
theorem Document.parse_ok {raw : Bytes} {d : Document} (h : Document.parse raw = .ok d) :
    d.AsRead ∧ (d.Faithful ↔ FaithfulLines raw) := by
  simp only [Document.parse, bind_ok, guard_ok, pure_ok] at h
  obtain ⟨hd, hframe, s, hloop, -, ⟨⟩, hvalid, rfl⟩ := h
  obtain ⟨hlf, -⟩ := HyphenceDoc.parse_ok hframe
  obtain ⟨hdesc, ⟨rs, hrs, hall⟩, hmac⟩ := collects_of_foldlM hloop
  rw [List.nil_append] at hrs
  have hbodies : ∀ kind, ∀ body ∈ bodiesOf kind hd.lines, '\n' ∉ body := by
    intro kind body hb
    obtain ⟨l, hl, rfl⟩ := mem_bodiesOf hb
    exact hlf l hl
  have hempty : ∀ d ∈ (none : Option (List Char)), d ≠ [] := fun d hd => nomatch hd
  have hchars : ∀ c : Char, c ≠ ' ' →
      ((∃ d ∈ s.description, c ∈ d) ↔ ∃ body ∈ bodiesOf .hash hd.lines, c ∈ body) := by
    intro c hc
    rw [hdesc, (foldl_addDescription hempty hc).2]
    simp
  have hlines : ∀ r ∈ rs, ∃ body ∈ bodiesOf .dash hd.lines,
      r.AsRead ∧ (r.Faithful ↔ FaithfulLine body) := by
    intro r hr
    obtain ⟨body, hb, hparse⟩ := forall₂_mem_right hall hr
    exact ⟨body, hb, parseRecipientLine_ok (hbodies _ body hb) hparse⟩
  refine ⟨⟨?_, ?_, ?_, hvalid⟩, ?_⟩
  · intro desc hmem
    refine ⟨?_, ?_⟩
    · have hne : ∀ d ∈ (bodiesOf .hash hd.lines).foldl addDescription none, d ≠ [] :=
        (foldl_addDescription hempty (by decide : '\n' ≠ ' ')).1
      exact hne desc (hdesc ▸ hmem)
    · intro hn
      obtain ⟨body, hb, hmem'⟩ := (hchars '\n' (by decide)).mp ⟨desc, hmem, hn⟩
      exact hbodies _ body hb hmem'
  · intro r hr
    obtain ⟨body, -, hread, -⟩ := hlines r (hrs ▸ hr)
    exact hread
  · intro m hm
    rcases hmac with hmac | ⟨body, hbody⟩
    · change m ∈ s.mac at hm
      rw [hmac] at hm
      cases hm
    · exact parseTypeLine_ok hbody m hm
  · have hcr : (∀ desc ∈ s.description, '\r' ∉ desc) ↔
        ∀ body ∈ bodiesOf .hash hd.lines, '\r' ∉ body := by
      have hc := not_congr (hchars '\r' (by decide))
      simpa only [not_exists, not_and] using hc
    have hrec : (∀ r ∈ s.recipients, r.Faithful) ↔
        ∀ body ∈ bodiesOf .dash hd.lines, FaithfulLine body := by
      rw [hrs]
      constructor
      · intro hf body hb
        obtain ⟨r, hr, hparse⟩ := forall₂_mem_left hall hb
        exact (parseRecipientLine_ok (hbodies _ body hb) hparse).2.mp (hf r hr)
      · intro hf r hr
        obtain ⟨body, hb, -, hiff⟩ := hlines r hr
        exact hiff.mpr (hf body hb)
    rw [Document.Faithful, hcr, hrec, FaithfulLines]
    constructor
    · intro hf h' hframe'
      cases Except.ok.inj (hframe.symm.trans hframe')
      exact hf
    · intro hf
      exact hf hd hframe

/-- The lines of a document in the order they are written in. -/
def docLines (descriptions bodies : List (List Char)) (type : List Char) : List MetaLine :=
  descriptions.map (MetaLine.mk .hash) ++ (bodies.map (MetaLine.mk .dash) ++ [⟨.bang, type⟩])

private theorem filter_map_kind (kind want : LineKind) (bodies : List (List Char)) :
    (bodies.map (MetaLine.mk kind)).filter (·.kind = want) =
      if kind = want then bodies.map (MetaLine.mk kind) else [] := by
  by_cases h : kind = want
  · rw [if_pos h, List.filter_eq_self]
    intro l hl
    obtain ⟨body, -, rfl⟩ := List.mem_map.mp hl
    exact decide_eq_true h
  · rw [if_neg h, List.filter_eq_nil_iff]
    intro l hl
    obtain ⟨body, -, rfl⟩ := List.mem_map.mp hl
    simpa using h

private theorem filter_docLines (descriptions bodies : List (List Char)) (type : List Char)
    (want : LineKind) :
    (docLines descriptions bodies type).filter (·.kind = want) =
      (if LineKind.hash = want then descriptions.map (MetaLine.mk .hash) else []) ++
        ((if LineKind.dash = want then bodies.map (MetaLine.mk .dash) else []) ++
          if LineKind.bang = want then [⟨.bang, type⟩] else []) := by
  have htype := filter_map_kind .bang want [type]
  rw [List.map_singleton] at htype
  rw [docLines, List.filter_append, List.filter_append, filter_map_kind, filter_map_kind, htype]

/-- The lines of a document are in order. -/
theorem canonicalOrder_docLines (descriptions bodies : List (List Char)) (type : List Char) :
    HyphenceDoc.canonicalOrder (docLines descriptions bodies type) =
      docLines descriptions bodies type := by
  simp only [HyphenceDoc.canonicalOrder, List.flatMap_cons, List.flatMap_nil, filter_docLines]
  simp [docLines]

theorem bodiesOf_dash_docLines (descriptions bodies : List (List Char)) (type : List Char) :
    bodiesOf .dash (docLines descriptions bodies type) = bodies := by
  have hbody : MetaLine.body ∘ MetaLine.mk .dash = id := rfl
  rw [bodiesOf, filter_docLines]
  simp [hbody]

theorem bodiesOf_hash_docLines (descriptions bodies : List (List Char)) (type : List Char) :
    bodiesOf .hash (docLines descriptions bodies type) = descriptions := by
  have hbody : MetaLine.body ∘ MetaLine.mk .hash = id := rfl
  rw [bodiesOf, filter_docLines]
  simp [hbody]

/-- What a document that was read is built as. -/
theorem Document.build_ok {d : Document} (hd : d.AsRead) {h : HyphenceDoc} :
    d.build true = .ok h ↔ (∀ desc ∈ d.description, '\r' ∉ desc) ∧ ∃ bodies type,
      List.Forall₂ (fun r body => recipientLine r = .ok ⟨.dash, body⟩) d.recipients bodies ∧
      typeLine d.mac = .ok ⟨.bang, type⟩ ∧
      h = ⟨docLines d.description.toList bodies type, if d.isSealed then d.payload else []⟩ := by
  have hdesc : ∀ lines, descriptionLine d.description = .ok lines ↔
      (∀ desc ∈ d.description, '\r' ∉ desc) ∧ lines = d.description.toList.map (MetaLine.mk .hash) := by
    intro lines
    cases hopt : d.description with
    | none => simp [descriptionLine, eq_comm]
    | some desc =>
      obtain ⟨hne, hnl⟩ := hd.description desc hopt
      have hempty : desc.isEmpty = false := List.isEmpty_eq_false_iff.mpr hne
      simp only [descriptionLine, hempty, Bool.false_eq_true, if_false, bind_ok, pure_ok]
      constructor
      · rintro ⟨⟨⟩, hreject, rfl⟩
        refine ⟨?_, rfl⟩
        rintro desc' ⟨⟩
        exact (rejectControl_ok.mp hreject).2
      · rintro ⟨hcr, rfl⟩
        exact ⟨(), rejectControl_ok.mpr ⟨hnl, hcr desc rfl⟩, rfl⟩
  obtain ⟨type, htype, -, -⟩ := typeLine_spec hd.mac
  simp only [Document.build, bind_ok, pure_ok, hdesc, mapM_ok, if_true, Bool.true_and]
  constructor
  · rintro ⟨lines, ⟨hcr, rfl⟩, ls, hls, type', htype', rfl⟩
    rw [htype] at htype'
    cases htype'
    have hshape : ∃ bodies : List (List Char), ls = bodies.map (MetaLine.mk .dash) := by
      refine ⟨ls.map MetaLine.body, ?_⟩
      rw [List.map_map, List.map_congr_left (g := id), List.map_id]
      intro l hl
      obtain ⟨r, hr, hline⟩ := forall₂_mem_right hls hl
      obtain ⟨body, rfl, -⟩ := recipientLine_shape (hd.recipients r hr) hline
      rfl
    obtain ⟨bodies, rfl⟩ := hshape
    rw [List.forall₂_map_right_iff] at hls
    exact ⟨hcr, bodies, type, hls, htype, rfl⟩
  · rintro ⟨hcr, bodies, type', hbodies, htype', rfl⟩
    refine ⟨_, ⟨hcr, rfl⟩, bodies.map (MetaLine.mk .dash), ?_, _, htype', rfl⟩
    rw [List.forall₂_map_right_iff]
    exact hbodies

/-- The framing of a document that was read is read back. -/
theorem Document.parse_build {d : Document} (hd : d.AsRead) {h : HyphenceDoc}
    (hb : d.build true = .ok h) :
    ∃ raw, d.toBytes = .ok raw ∧ HyphenceDoc.parse raw = .ok h := by
  obtain ⟨-, bodies, type, hbodies, htype, rfl⟩ := (Document.build_ok hd).mp hb
  have hnoRef : ∀ body, HyphenceDoc.hasAtRef
      ⟨docLines d.description.toList bodies type, body⟩ = false := by
    intro body
    have hnone := filter_docLines d.description.toList bodies type .atSign
    simp only [reduceCtorEq, if_false, List.append_nil] at hnone
    rw [HyphenceDoc.hasAtRef, List.any_eq_false]
    intro l hl hk
    exact absurd (List.mem_filter.mpr ⟨hl, hk⟩) (by rw [hnone]; simp)
  have hfeeds : ∀ l ∈ docLines d.description.toList bodies type, '\n' ∉ l.body := by
    intro l hl
    rcases List.mem_append.mp hl with hl | hl
    · obtain ⟨desc, hdesc, rfl⟩ := List.mem_map.mp hl
      exact (hd.description desc (Option.mem_toList.mp hdesc)).2
    · rcases List.mem_append.mp hl with hl | hl
      · obtain ⟨body, hbody, rfl⟩ := List.mem_map.mp hl
        obtain ⟨r, hr, hline⟩ := forall₂_mem_right hbodies hbody
        obtain ⟨body', heq, hnl⟩ := recipientLine_shape (hd.recipients r hr) hline
        cases heq
        exact hnl
      · obtain rfl := List.mem_singleton.mp hl
        obtain ⟨type', htype', -, hnl⟩ := typeLine_spec hd.mac
        cases Except.ok.inj (htype.symm.trans htype')
        exact hnl
  obtain ⟨raw, hraw⟩ : ∃ raw, HyphenceDoc.marshal ⟨docLines d.description.toList bodies type,
      if d.isSealed then d.payload else []⟩ = .ok raw := by
    rw [HyphenceDoc.marshal, if_neg]
    · exact ⟨_, rfl⟩
    · rw [hnoRef]
      simp
  refine ⟨raw, ?_, HyphenceDoc.parse_marshal (canonicalOrder_docLines _ _ _) hfeeds hraw⟩
  rw [Document.toBytes, hb, ok_bind, hraw]

/-- A document that was read is a recipient set without payload or sealed. -/
private theorem payload_of_validate {d : Document} (h : d.validate = .ok ()) :
    (if d.isSealed then d.payload else []) = d.payload := by
  rw [Document.isSealed]
  by_cases hmac : d.mac.isSome = true
  · rw [if_pos hmac]
  · rw [if_neg hmac]
    simp only [Document.validate] at h
    split at h
    · next hopen => simp at hopen; exact hopen.1.2.symm
    · simp only [guard_ok] at h
      exact absurd (by simpa using hmac) h.2.2.1

/-- The written document is read back and written as the same bytes again. -/
def Document.Reserializes (d : Document) : Prop :=
  ∃ raw, d.toBytes = .ok raw ∧ ∃ d', Document.parse raw = .ok d' ∧ d' = d ∧ d'.toBytes = .ok raw

/-- A document that was read survives being written exactly when it is faithful. -/
theorem Document.reserializes_iff_faithful {d : Document} (hd : d.AsRead) :
    d.Reserializes ↔ d.Faithful := by
  constructor
  · rintro ⟨raw, hraw, d', hparse, rfl, -⟩
    obtain ⟨h, hb, -⟩ := bind_ok.mp hraw
    obtain ⟨raw', hraw', hframe⟩ := Document.parse_build hd hb
    cases Except.ok.inj (hraw.symm.trans hraw')
    obtain ⟨hcr, bodies, type, hbodies, -, rfl⟩ := (Document.build_ok hd).mp hb
    simp only [Document.parse, hframe, ok_bind, bind_ok, guard_ok, pure_ok] at hparse
    obtain ⟨s, hloop, -, ⟨⟩, -, hdoc⟩ := hparse
    obtain ⟨-, ⟨rs, hrs, hall⟩, -⟩ := collects_of_foldlM hloop
    rw [bodiesOf_dash_docLines] at hall
    have hrecipients : d'.recipients = rs := by
      rw [← hdoc]
      exact hrs
    rw [← hrecipients] at hall
    refine ⟨hcr, ?_⟩
    -- Each recipient is written on its line and read from it.
    intro r hr
    obtain ⟨body, hline, hread⟩ := forall₂_there_back hbodies hall r hr
    exact faithful_of_recipientLine (hd.recipients r hr) hline hread
  · rintro ⟨hcr, hrs⟩
    obtain ⟨bodies, hbodies, hall⟩ := exists_there_back fun r hr =>
      recipientLine_faithful (hd.recipients r hr) (hrs r hr)
    obtain ⟨type, htype, hread, -⟩ := typeLine_spec hd.mac
    have hb := (Document.build_ok hd).mpr ⟨hcr, bodies, type, hbodies, htype, rfl⟩
    obtain ⟨raw, hraw, hframe⟩ := Document.parse_build hd hb
    have hloop : (docLines d.description.toList bodies type).foldlM readMetaLine {} =
        .ok ⟨d.description, d.recipients, d.mac, true⟩ := by
      have hdesc : (d.description.toList.map (MetaLine.mk .hash)).foldlM readMetaLine {} =
          .ok { description := d.description } := by
        cases hopt : d.description with
        | none => rfl
        | some desc =>
          have hempty := List.isEmpty_eq_false_iff.mpr (hd.description desc hopt).1
          simp [readMetaLine, addDescription, hempty, bind, Except.bind, pure, Except.pure]
      have htype' : ∀ s : Reading, s.sawType = false →
          readMetaLine s ⟨.bang, type⟩ = .ok { s with mac := d.mac, sawType := true } := by
        intro s hs
        simp only [readMetaLine, hs, hread, ok_bind]
        rfl
      rw [docLines, List.foldlM_append, hdesc, ok_bind, List.foldlM_append, foldlM_dashes hall,
        ok_bind, List.foldlM_cons, htype' _ rfl, ok_bind]
      rfl
    refine ⟨raw, hraw, d, ?_, rfl, hraw⟩
    simp only [Document.parse, hframe, ok_bind, hloop, payload_of_validate hd.valid, hd.valid]
    rfl

/-- A document that was read survives being written anew exactly when its description lines
and comments have no carriage return in them and its purposes no mark. -/
theorem Document.reserializes_iff {raw : Bytes} {d : Document} (h : Document.parse raw = .ok d) :
    d.Reserializes ↔ FaithfulLines raw := by
  obtain ⟨hd, hfaithful⟩ := Document.parse_ok h
  rw [Document.reserializes_iff_faithful hd, hfaithful]

/-- The bytes of a recipient set with the given recipient line. -/
def sampleSet (body : List Char) : Bytes :=
  boundary ++ (HyphenceDoc.marshalLine ⟨.dash, body⟩ ++ (HyphenceDoc.marshalLine ⟨.bang, typeTag⟩ ++
    boundary))

/-- A recipient set is read when its line is. -/
private theorem parse_sampleSet {body : List Char} (hnl : '\n' ∉ body) {r : Recipient}
    (h : parseRecipientLine body = .ok r) (hwrap : r.wrap = none) :
    HyphenceDoc.parse (sampleSet body) = .ok ⟨[⟨.dash, body⟩, ⟨.bang, typeTag⟩], []⟩ ∧
      Document.parse (sampleSet body) = .ok ⟨none, [r], [], none⟩ := by
  have hframe : HyphenceDoc.parse (sampleSet body) = .ok ⟨docLines [] [body] typeTag, []⟩ := by
    refine HyphenceDoc.parse_marshal (canonicalOrder_docLines _ _ _) ?_ ?_
    · intro l hl
      rcases List.mem_cons.mp hl with rfl | hl
      · exact hnl
      · obtain rfl := List.mem_singleton.mp hl
        decide
    · rw [HyphenceDoc.marshal, if_neg (by simp), HyphenceDoc.marshalMetadata, canonicalOrder_docLines]
      simp [docLines, sampleSet]
  have htype : parseTypeLine typeTag = .ok none := by
    have hsplit : splitOnceAt (· = '@') typeTag = none := splitOnceAt_none at_notMem_typeTag
    simp only [parseTypeLine, hsplit]
    rfl
  have hvalid : Document.validate ⟨none, [r], [], none⟩ = .ok () := by
    simp [Document.validate, hwrap]
  refine ⟨hframe, ?_⟩
  simp only [Document.parse, hframe, ok_bind, docLines, List.map_nil, List.nil_append,
    List.map_cons, List.cons_append, List.foldlM_cons, readMetaLine, h, htype]
  change (Document.validate ⟨none, [r], [], none⟩ >>= fun _ => pure _) = _
  rw [hvalid, ok_bind]
  rfl

/-- A bare key with a comment that looks like a wrap. -/
def sampleBareLine : List Char :=
  ("pivy_ecdh_p256_pub-qgpqyqszqgpqyqszqgpqyqszqgpqyqszqgpqyqszqgpqyqszqgpqyll7rhc" ++
    "  # key < lock").toList

theorem reserializes_sampleBareLine :
    ∃ d, Document.parse (sampleSet sampleBareLine) = .ok d ∧ d.Reserializes := by
  obtain ⟨r, hr, hwrap⟩ : ∃ r, parseRecipientLine sampleBareLine = .ok r ∧ r.wrap = none :=
    map_ok.mp (by decide +kernel : Recipient.wrap <$> parseRecipientLine sampleBareLine = .ok none)
  obtain ⟨hframe, hparse⟩ := parse_sampleSet (by decide) hr hwrap
  refine ⟨_, hparse, (Document.reserializes_iff hparse).mpr ?_⟩
  intro h hframe'
  cases Except.ok.inj (hframe.symm.trans hframe')
  refine ⟨by simp [bodiesOf], ?_⟩
  intro body hbody
  obtain rfl : body = sampleBareLine := by simpa [bodiesOf] using hbody
  unfold FaithfulLine
  decide +kernel

/-- A purpose that spells the mark of a comment, with one of its blanks escaped. -/
def sampleMarkedLine : List Char :=
  ("\"a \\ # b\"@sha256-" ++
    "qurswpc8qurswpc8qurswpc8qurswpc8qurswpc8qurswpc8qursx8a5ly").toList

/-- The writer spells the purpose without the escape, so that the line is cut inside it. -/
theorem not_reserializes_sampleMarkedLine :
    ∃ d, Document.parse (sampleSet sampleMarkedLine) = .ok d ∧ ¬ d.Reserializes := by
  obtain ⟨r, hr, hshape⟩ : ∃ r, parseRecipientLine sampleMarkedLine = .ok r ∧
      (r.wrap, r.id.purpose) = (none, some (.other "a  # b")) :=
    map_ok.mp (by decide +kernel : (fun r : Recipient => (r.wrap, r.id.purpose)) <$>
      parseRecipientLine sampleMarkedLine = .ok (none, some (.other "a  # b")))
  obtain ⟨hwrap, hpurpose⟩ := Prod.mk.inj hshape
  obtain ⟨-, hparse⟩ := parse_sampleSet (by decide) hr hwrap
  refine ⟨_, hparse, fun hre => ?_⟩
  have hd := (Document.parse_ok hparse).1
  have hf := ((Document.reserializes_iff_faithful hd).mp hre).2 r List.mem_cons_self
  have hmark : IsMark commentMark := Or.inl rfl
  exact hf.2.1 ((hmark.infix_toWire r.id).mpr ⟨_, hpurpose, by decide⟩)

end Piggy.Pigpen
