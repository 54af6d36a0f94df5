import Piggy.Pigpen.Seal

/-!
# What the header MAC binds

The header that the MAC covers is text, and purposes and comments are free text in it. It is
still read in one way only: an id ends where its payload does, at a blank, so that what
follows is a wrap, a comment or nothing. Two documents with one header have the same lines.
-/

namespace Piggy.Pigpen

open Piggy.Core
open Piggy.Markl
open Piggy.Box (Bytes)

/-! ## An id and what follows it -/

/-- A text that may follow an id on a line. -/
def FollowsId (tail : List Char) : Prop := ∀ c ∈ tail.head?, c = ' '

/-- A body ends where a blank or nothing follows. -/
theorem body_append {id : Id} {tail : List Char} (ht : FollowsId tail) :
    (id.body ++ tail).takeWhile isBareChar = id.body ∧
      (id.body ++ tail).dropWhile isBareChar = tail := by
  have hbody : ∀ c ∈ id.body, isBareChar c = true := parseBody_chars id.parseBody_body.1
  rw [List.takeWhile_append_of_pos hbody, List.dropWhile_append_of_pos hbody]
  cases tail with
  | nil => simp
  | cons c tail =>
    obtain rfl := ht c rfl
    rw [List.takeWhile_cons, if_neg (by decide), List.append_nil, List.dropWhile_cons,
      if_neg (by decide)]
    exact ⟨rfl, rfl⟩

theorem body_ne_nil (id : Id) : id.body ≠ [] := by
  intro hn
  have hparse := id.parseBody_body.1
  rw [hn] at hparse
  cases hparse

/-- A body with what follows it starts no slot. -/
theorem body_ne_spelled {id : Id} {tail purpose rest : List Char} (ht : FollowsId tail) :
    id.body ++ tail ≠ spellPurpose purpose ++ '@' :: rest := by
  intro h
  rw [spellPurpose] at h
  by_cases hbare : purposeIsBareExpressible purpose = true
  · rw [if_pos hbare] at h
    have hall : ∀ c ∈ purpose, isBareChar c = true := by
      simp only [purposeIsBareExpressible, Bool.and_eq_true, List.all_eq_true] at hbare
      exact hbare.2
    -- Behind the longest run of bare characters stands the join.
    have hdrop := (@body_append id tail ht).2
    rw [h, List.dropWhile_append_of_pos hall, List.dropWhile_cons, if_neg (by decide)] at hdrop
    subst hdrop
    exact absurd (ht '@' rfl) (by decide)
  · rw [if_neg hbare] at h
    obtain ⟨escape, -, hquote⟩ := quotePurpose_eq purpose
    obtain ⟨c, cs, hc⟩ := List.exists_cons_of_ne_nil (body_ne_nil id)
    have hbare' := parseBody_chars id.parseBody_body.1 c (by rw [hc]; simp)
    rw [hquote, hc, List.cons_append, List.cons_append] at h
    rw [(List.cons.inj h).1] at hbare'
    cases hbare'

/-- An id is told from what follows it. -/
theorem toWire_append_inj {id id' : Id} {tail tail' : List Char}
    (hid : ∀ p ∈ id.purpose, PurposeId.parse p.asStr = p)
    (hid' : ∀ p ∈ id'.purpose, PurposeId.parse p.asStr = p) (ht : FollowsId tail)
    (ht' : FollowsId tail') (h : id.toWire ++ tail = id'.toWire ++ tail') :
    id = id' ∧ tail = tail' := by
  have hbodies : id.body ++ tail = id'.body ++ tail' →
      (id.format = id'.format ∧ id.data = id'.data) ∧ tail = tail' := by
    intro hb
    obtain ⟨htake, hdrop⟩ := @body_append id tail ht
    obtain ⟨htake', hdrop'⟩ := @body_append id' tail' ht'
    rw [hb, htake'] at htake
    rw [hb, hdrop'] at hdrop
    have hparse := id.parseBody_body.1
    rw [← htake, id'.parseBody_body.1] at hparse
    obtain ⟨hf, hd⟩ := Prod.mk.inj (Except.ok.inj hparse)
    exact ⟨⟨hf.symm, hd.symm⟩, hdrop.symm⟩
  cases hp : id.purpose with
  | none =>
    cases hp' : id'.purpose with
    | none =>
      rw [Id.toWire, hp, Id.toWire, hp'] at h
      obtain ⟨⟨hf, hd⟩, htail⟩ := hbodies h
      exact ⟨Document.id_eq_of_key (hp.trans hp'.symm) hf hd, htail⟩
    | some p' =>
      rw [Id.toWire, hp, Id.toWire, hp'] at h
      simp only [List.append_assoc, List.cons_append] at h
      exact absurd h (body_ne_spelled ht)
  | some p =>
    cases hp' : id'.purpose with
    | none =>
      rw [Id.toWire, hp, Id.toWire, hp'] at h
      simp only [List.append_assoc, List.cons_append] at h
      exact absurd h.symm (body_ne_spelled ht')
    | some p' =>
      rw [Id.toWire, hp, Id.toWire, hp'] at h
      simp only [List.append_assoc, List.cons_append] at h
      obtain ⟨hsplit, hback⟩ := splitPurposeSlot_spell p.asStr.toList (id.body ++ tail)
      obtain ⟨hsplit', hback'⟩ := splitPurposeSlot_spell p'.asStr.toList (id'.body ++ tail')
      rw [h, hsplit'] at hsplit
      obtain ⟨hslot, hb⟩ := Prod.mk.inj hsplit
      rw [← Option.some.inj hslot, hback'] at hback
      have hname : p = p' := by
        rw [← hid p hp, ← hid' p' hp', ← String.toList_injective (Except.ok.inj hback)]
      obtain ⟨⟨hf, hd⟩, htail⟩ := hbodies hb.symm
      exact ⟨Document.id_eq_of_key (by rw [hp, hp', hname]) hf hd, htail⟩

/-! ## Lines -/

/-- A recipient whose purpose is the one its name stands for and whose comment, where it has
one, is not empty. -/
structure Recipient.Plain (r : Recipient) : Prop where
  parsed : ∀ p ∈ r.id.purpose, PurposeId.parse p.asStr = p
  comment : ∀ c ∈ r.comment, c ≠ []

/-- Two recipients that the header cannot tell apart: the comment of a wrapped one is not
written. -/
structure Recipient.Same (r r' : Recipient) : Prop where
  id : r.id = r'.id
  wrap : r.wrap = r'.wrap
  comment : r.wrap = none → r.comment = r'.comment

/-- What follows the id on the line of a recipient. -/
inductive Tail (r : Recipient) : List Char → Prop
  | bare (hw : r.wrap = none) (hc : r.comment = none) : Tail r []
  | comment {c} (hw : r.wrap = none) (hc : r.comment = some c) : Tail r (commentMark ++ c)
  | wrap {w lock} (hw : r.wrap = some w) (hlock : encodeWrap r.id.format w = .ok lock) :
      Tail r (wrapMark ++ lock)

theorem recipientLine_tail {r : Recipient} (hr : r.Plain) {l : MetaLine}
    (h : recipientLine r = .ok l) :
    ∃ tail, l = ⟨.dash, r.id.toWire ++ tail⟩ ∧ Tail r tail ∧ '\n' ∉ r.id.toWire ++ tail := by
  have hnl := Id.newline_notMem_toWire r.id
  rw [recipientLine] at h
  rcases hw : r.wrap with _ | w
  · rcases hc : r.comment with _ | comment
    · simp only [hw, hc] at h
      cases h
      exact ⟨[], by rw [List.append_nil], .bare hw hc, by simpa using hnl⟩
    · have hne : comment.isEmpty = false := List.isEmpty_eq_false_iff.mpr (hr.comment comment hc)
      simp only [hw, hc, hne, Bool.false_eq_true, if_false, bind_ok, pure_ok] at h
      obtain ⟨⟨⟩, hreject, rfl⟩ := h
      have hmark : '\n' ∉ commentMark := by decide
      refine ⟨commentMark ++ comment, rfl, .comment hw hc, ?_⟩
      simp [hnl, hmark, (rejectControl_ok.mp hreject).1]
  · simp only [hw, bind_ok, pure_ok] at h
    obtain ⟨lock, hlock, rfl⟩ := h
    obtain ⟨wrapFormat, hformat, hsize⟩ := encodeWrap_size hlock
    obtain ⟨lock', hlock', -, hlnl, -⟩ := encodeWrap_spec hformat hsize
    cases Except.ok.inj (hlock.symm.trans hlock')
    have hmark : '\n' ∉ wrapMark := by decide
    exact ⟨wrapMark ++ lock, rfl, .wrap hw hlock, by simp [hnl, hmark, hlnl]⟩

theorem Tail.follows {r : Recipient} {tail : List Char} (h : Tail r tail) : FollowsId tail := by
  intro c hc
  cases h with
  | bare _ _ => cases hc
  | comment _ _ => exact (Option.some.inj hc).symm
  | wrap _ _ => exact (Option.some.inj hc).symm

/-- What follows an id says whether it is a wrap or a comment, and which. -/
theorem Tail.same {r r' : Recipient} {tail : List Char} (hid : r.id = r'.id) (h : Tail r tail)
    (h' : Tail r' tail) : r.Same r' := by
  have hmarks : ∀ c lock : List Char, commentMark ++ c ≠ wrapMark ++ lock := by
    intro c lock he
    exact absurd (List.cons.inj (List.cons.inj he).2).1 (by decide)
  generalize htail : tail = tail' at h'
  cases h with
  | bare hw hc =>
    cases h' with
    | bare hw' hc' => exact ⟨hid, hw.trans hw'.symm, fun _ => hc.trans hc'.symm⟩
    | comment _ _ => cases htail
    | wrap _ _ => cases htail
  | comment hw hc =>
    cases h' with
    | bare _ _ => cases htail
    | comment hw' hc' =>
      refine ⟨hid, hw.trans hw'.symm, fun _ => ?_⟩
      rw [hc, hc', List.append_cancel_left htail]
    | wrap _ _ => exact absurd htail (hmarks _ _)
  | wrap hw hlock =>
    cases h' with
    | bare _ _ => cases htail
    | comment _ _ => exact absurd htail.symm (hmarks _ _)
    | wrap hw' hlock' =>
      rw [← List.append_cancel_left htail, ← hid] at hlock'
      obtain ⟨wrapFormat, hformat, hsize⟩ := encodeWrap_size hlock
      obtain ⟨lock, hlk, hdec, -⟩ := encodeWrap_spec hformat hsize
      obtain ⟨wrapFormat', hformat', hsize'⟩ := encodeWrap_size hlock'
      obtain ⟨lock', hlk', hdec', -⟩ := encodeWrap_spec hformat' hsize'
      cases Except.ok.inj (hlock.symm.trans hlk)
      cases Except.ok.inj (hlock'.symm.trans hlk')
      have hsame := Except.ok.inj (hdec.symm.trans hdec')
      refine ⟨hid, by rw [hw, hw', hsame], ?_⟩
      intro hnone
      rw [hw] at hnone
      cases hnone

/-- Recipients that are written on the same line are the same. -/
theorem recipientLine_inj {r r' : Recipient} (hr : r.Plain) (hr' : r'.Plain) {l : MetaLine}
    (h : recipientLine r = .ok l) (h' : recipientLine r' = .ok l) : r.Same r' := by
  obtain ⟨tail, rfl, htail, -⟩ := recipientLine_tail hr h
  obtain ⟨tail', heq, htail', -⟩ := recipientLine_tail hr' h'
  obtain ⟨hid, rfl⟩ := toWire_append_inj hr.parsed hr'.parsed htail.follows htail'.follows
    (congrArg MetaLine.body heq)
  exact htail.same hid htail'

/-! ## Headers -/

/-- A document whose description, where it has one, is not empty and whose recipients are
plain. -/
structure Document.Plain (d : Document) : Prop where
  description : ∀ desc ∈ d.description, desc ≠ []
  recipients : ∀ r ∈ d.recipients, r.Plain

/-- Two documents with the same description and the same recipients in the same order. -/
structure Document.SameHeader (d d' : Document) : Prop where
  description : d.description = d'.description
  recipients : List.Forall₂ Recipient.Same d.recipients d'.recipients

/-- The header is read back line by line. -/
theorem Document.parse_canonicalHeader {d : Document} (hd : d.Plain) {header : Bytes}
    (h : d.canonicalHeader = .ok header) :
    ∃ bodies, List.Forall₂ (fun r body => recipientLine r = .ok ⟨.dash, body⟩) d.recipients bodies ∧
      HyphenceDoc.parse header = .ok ⟨docLines d.description.toList bodies typeTag, []⟩ := by
  simp only [canonicalHeader, build, bind_ok, pure_ok, mapM_ok, Bool.false_and, if_false,
    Bool.false_eq_true] at h
  obtain ⟨_, ⟨description, hdesc, lines, hlines, type, htype, rfl⟩, rfl⟩ := h
  cases htype
  have hdescription : description = d.description.toList.map (MetaLine.mk .hash) ∧
      ∀ desc ∈ d.description, '\n' ∉ desc := by
    cases hopt : d.description with
    | none =>
      rw [hopt] at hdesc
      exact ⟨(Except.ok.inj hdesc).symm, (fun desc hm => by cases hm)⟩
    | some desc =>
      have hne : desc.isEmpty = false := List.isEmpty_eq_false_iff.mpr (hd.description desc hopt)
      simp only [hopt, descriptionLine, hne, Bool.false_eq_true, if_false, bind_ok, pure_ok] at hdesc
      obtain ⟨⟨⟩, hreject, rfl⟩ := hdesc
      refine ⟨rfl, ?_⟩
      rintro desc' ⟨⟩
      exact (rejectControl_ok.mp hreject).1
  obtain ⟨rfl, hdescLines⟩ := hdescription
  have hshape : ∀ l ∈ lines, l = ⟨.dash, l.body⟩ ∧ '\n' ∉ l.body := by
    intro l hl
    obtain ⟨r, hr, hline⟩ := forall₂_mem_right hlines hl
    obtain ⟨tail, rfl, -, hnl⟩ := recipientLine_tail (hd.recipients r hr) hline
    exact ⟨rfl, hnl⟩
  have hmap : (lines.map MetaLine.body).map (MetaLine.mk .dash) = lines := by
    rw [List.map_map, List.map_congr_left (g := id), List.map_id]
    intro l hl
    exact (hshape l hl).1.symm
  refine ⟨lines.map MetaLine.body, ?_, ?_⟩
  · rw [← hmap, List.forall₂_map_right_iff] at hlines
    exact hlines
  · have hlines' : d.description.toList.map (MetaLine.mk .hash) ++ (lines ++ [⟨.bang, typeTag⟩]) =
        docLines d.description.toList (lines.map MetaLine.body) typeTag := by
      rw [docLines, hmap]
    rw [hlines']
    refine HyphenceDoc.parse_marshal (canonicalOrder_docLines _ _ _) ?_ ?_
    · intro l hl
      rcases List.mem_append.mp hl with hl | hl
      · obtain ⟨desc, hmem, rfl⟩ := List.mem_map.mp hl
        exact hdescLines desc (Option.mem_toList.mp hmem)
      · rcases List.mem_append.mp hl with hl | hl
        · rw [hmap] at hl
          exact (hshape l hl).2
        · obtain rfl := List.mem_singleton.mp hl
          decide
    · rw [HyphenceDoc.marshal, if_neg (by simp)]
      simp

theorem Document.sameHeader_of_canonicalHeader {d d' : Document} (hd : d.Plain) (hd' : d'.Plain)
    {header : Bytes} (h : d.canonicalHeader = .ok header) (h' : d'.canonicalHeader = .ok header) :
    d.SameHeader d' := by
  obtain ⟨bodies, hbodies, hparse⟩ := Document.parse_canonicalHeader hd h
  obtain ⟨bodies', hbodies', hparse'⟩ := Document.parse_canonicalHeader hd' h'
  rw [hparse] at hparse'
  have hlines : docLines d.description.toList bodies typeTag =
      docLines d'.description.toList bodies' typeTag :=
    congrArg HyphenceDoc.lines (Except.ok.inj hparse')
  have hdesc : d.description.toList = d'.description.toList := by
    rw [← bodiesOf_hash_docLines d.description.toList bodies typeTag, hlines, bodiesOf_hash_docLines]
  have hsame : bodies = bodies' := by
    rw [← bodiesOf_dash_docLines d.description.toList bodies typeTag, hlines, bodiesOf_dash_docLines]
  subst hsame
  refine ⟨?_, ?_⟩
  · cases h₁ : d.description with
    | none =>
      cases h₂ : d'.description with
      | none => rfl
      | some desc' => simp [h₁, h₂] at hdesc
    | some desc =>
      cases h₂ : d'.description with
      | none => simp [h₁, h₂] at hdesc
      | some desc' => simpa [h₁, h₂] using hdesc
  · have hplain := (List.forall₂_and_left _ _).mpr ⟨hd.recipients, hbodies⟩
    have hplain' := (List.forall₂_and_left _ _).mpr ⟨hd'.recipients, hbodies'⟩
    refine forall₂_comp ?_ hplain hplain'.flip
    rintro r body r' ⟨hr, hline⟩ ⟨hr', hline'⟩
    exact recipientLine_inj hr hr' hline hline'

/-! ## Documents that the code returns -/

namespace Document

variable {Scalar Point : Type} {c : Crates Scalar Point} {d d' : Document}

/-- A document that was read or sealed. -/
def Returned (c : Crates Scalar Point) (d : Document) : Prop :=
  (∃ raw, Document.parse raw = .ok d) ∨
    ∃ plaintext recipients inputs, sealWith c plaintext recipients inputs = .ok d

theorem Returned.plain (h : Returned c d) : d.Plain := by
  rcases h with ⟨raw, hparse⟩ | ⟨plaintext, recipients, inputs, hseal⟩
  · obtain ⟨hread, -⟩ := Document.parse_ok hparse
    refine ⟨fun desc hdesc => (hread.description desc hdesc).1, ?_⟩
    intro r hr
    have hr' := hread.recipients r hr
    exact ⟨hr'.parsed, fun comment hcomment => (hr'.comment comment hcomment).1⟩
  · obtain ⟨-, hdesc, hrecs, -⟩ := sealWith_ok hseal
    refine ⟨?_, ?_⟩
    · rw [hdesc]
      exact fun desc hm => nomatch hm
    · intro r hr
      obtain ⟨id, -, hid⟩ := forall₂_mem_right hrecs hr
      refine ⟨?_, ?_⟩
      · rw [(promoteRecipient_ok hid.promoted).2.1]
        rintro p ⟨⟩
        rfl
      · rw [hid.comment]
        exact fun comment hm => nomatch hm

/-- A document that opens has a header under its MAC. -/
theorem headerMac_of_openDoc {oracle : Option EcdhOracle} {x25519 : List X25519Identity}
    {out : Bytes} (h : openDoc c d oracle x25519 = .ok out) :
    ∃ key canon, d.canonicalHeader = .ok canon ∧ d.mac = some (c.headerMac key canon) := by
  have hloop : ∀ (mac : Bytes) rs tried failures,
      openLoop c d mac oracle x25519 rs tried failures = .ok out →
      ∃ key canon, d.canonicalHeader = .ok canon ∧ mac = c.headerMac key canon := by
    intro mac rs
    induction rs with
    | nil =>
      intro tried failures h
      rw [openLoop] at h
      split at h
      · cases h
      · cases h
    | cons r rs ih =>
      intro tried failures h
      rw [openLoop] at h
      rcases hwrap : r.wrap with _ | wrap
      · simp only [hwrap] at h
        exact ih _ _ h
      · simp only [hwrap] at h
        by_cases htried : (r.id.format, r.id.data) ∈ tried
        · rw [if_pos htried] at h
          exact ih _ _ h
        · rw [if_neg htried] at h
          rcases hattempt : attempt c oracle x25519 r.id wrap with _ | text | ⟨e | key⟩
          · simp only [hattempt] at h
            exact ih _ _ h
          · simp only [hattempt] at h
            exact ih _ _ h
          · simp only [hattempt] at h
            exact ih _ _ h
          · simp only [hattempt, bind_ok, guard_ok] at h
            obtain ⟨canon, hcanon, hverify, -⟩ := h
            have hmac : c.verifyMac key canon mac = true := by simpa using hverify
            exact ⟨key, canon, hcanon, (of_decide_eq_true hmac).symm⟩
  rw [openDoc] at h
  rcases hmac : d.mac with _ | mac
  · simp only [hmac] at h
    cases h
  · simp only [hmac] at h
    obtain ⟨key, canon, hcanon, rfl⟩ := hloop _ _ _ _ h
    exact ⟨key, canon, hcanon, rfl⟩

/-- The MAC is ideal for two documents: it takes the same value on their headers, under
whatever keys, only when these are the same. -/
def IdealMac (c : Crates Scalar Point) (d d' : Document) : Prop :=
  ∀ key key' header header', d.canonicalHeader = .ok header → d'.canonicalHeader = .ok header' →
    c.headerMac key header = c.headerMac key' header' → header = header'

/-- Documents with one header have the same description and recipients; so what opens under
the MAC of a sealed document has that document's header, if the MAC is ideal. -/
theorem header_binds (c : Crates Scalar Point) :
    (∀ d d' header, Returned c d → Returned c d' → d.canonicalHeader = .ok header →
      d'.canonicalHeader = .ok header → d.SameHeader d') ∧
    ∀ plaintext recipients inputs d d' oracle x25519 out,
      sealWith c plaintext recipients inputs = .ok d → Returned c d' → d'.mac = d.mac →
      IdealMac c d d' → openDoc c d' oracle x25519 = .ok out → d.SameHeader d' := by
  refine ⟨?_, ?_⟩
  · intro d d' header hd hd' h h'
    exact sameHeader_of_canonicalHeader hd.plain hd'.plain h h'
  · intro plaintext recipients inputs d d' oracle x25519 out hseal hd' hmac hideal hopen
    obtain ⟨-, -, -, -, canon, hcanon, hmac₀⟩ := sealWith_ok hseal
    obtain ⟨key, canon', hcanon', hmac'⟩ := headerMac_of_openDoc hopen
    have heq : canon = canon' := by
      refine hideal inputs.fileKey key canon canon' hcanon hcanon' ?_
      rw [hmac₀, hmac'] at hmac
      exact (Option.some.inj hmac).symm
    subst heq
    have hd : Returned c d := .inr ⟨plaintext, recipients, inputs, hseal⟩
    exact sameHeader_of_canonicalHeader hd.plain hd'.plain hcanon hcanon'

/-- Two plaintexts sealed under one set of secrets give two documents with one header. -/
theorem header_binds_sample :
    ∃ d d', sealWith Crates.sample [1, 2, 3] sampleRecipients sampleInputs = .ok d ∧
      sealWith Crates.sample [4] sampleRecipients sampleInputs = .ok d' ∧
      openDoc Crates.sample d' (some sampleOracle) sampleIdentities = .ok [4] ∧ d.SameHeader d' := by
  obtain ⟨d, hseal⟩ := exists_ok sample_sealed
  obtain ⟨d', hseal', hmac, hheader⟩ := sealWith_other hseal
    (by decide +kernel : (Crates.sample.sealPayload sampleInputs.fileKey [4] _).isOk = true)
  have hopen := openDoc_of_holds Crates.sample_lawful hseal' (sample_rejectsForeign hseal' _ _)
    (by decide) (List.getLast_mem _) sample_holds
  have hideal : IdealMac Crates.sample d d' := by
    intro key key' header header' h h' _
    rw [h, h'] at hheader
    exact (Except.ok.inj hheader).symm
  exact ⟨d, d', hseal, hseal', hopen, (header_binds Crates.sample).2 _ _ _ d d' _ _ _ hseal
    (.inr ⟨_, _, _, hseal'⟩) hmac hideal hopen⟩

end Document

end Piggy.Pigpen
