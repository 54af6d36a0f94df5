import Piggy.Box.PivBox

/-!
# Tagged parts

The parts of a template and of an ebox are read by one tag loop each: tags come
in any order and any number, a later tag of a kind overwrites an earlier one, and
an unknown tag is skipped when it carries the optional flag. Both loops read
their tags through the same table, so the table stands here once.
-/

namespace Piggy.Box

open Piggy.Core

def defaultSlot : UInt8 := 0x9D

def partEnd : UInt8 := 0

def partPubkey : UInt8 := 1

def partName : UInt8 := 2

def partCak : UInt8 := 3

def partGuid : UInt8 := 4

def partBox : UInt8 := 5

def partSlot : UInt8 := 6

def partOptionalFlag : UInt8 := 0x80

/-- What one tag of a part carries. -/
inductive PartTag where
  | pubkey (curve : EcCurve) (point : Bytes)
  | guid (guid : Guid)
  | name (name : String)
  | cak (cak : Bytes)
  | slot (slot : UInt8)
  /-- A box written field by field, as version 2 and later do. -/
  | inlineBox (box : PivBox)
  /-- A standalone box, as version 1 has it. -/
  | rawBox (box : PivBox)
  /-- An unknown tag with the optional flag. -/
  | skipped (data : Bytes)
  deriving DecidableEq

/-- The local variables of a part reader. The template reader has no box. -/
structure PartLocals where
  guid : Option Guid := none
  slot : UInt8 := defaultSlot
  name : Option String := none
  /-- The curve and the point; the source sets the two together. -/
  pubkey : Option (EcCurve × Bytes) := none
  cak : Option Bytes := none
  pivBox : Option PivBox := none
  deriving DecidableEq

/-- What a tag does to the local variables. An inline box takes the guid and the
slot read so far. -/
def PartLocals.assign (p : PartLocals) : PartTag → PartLocals
  | .pubkey curve point => { p with pubkey := some (curve, point) }
  | .guid g => { p with guid := some g }
  | .name n => { p with name := some n }
  | .cak k => { p with cak := some k }
  | .slot s => { p with slot := s }
  | .inlineBox b => { p with pivBox := some { b with guidSlot := p.guid.map fun g => (g, p.slot) } }
  | .rawBox b => { p with pivBox := some b }
  | .skipped _ => p

/-- The tag byte's text as `{:#04x}` prints it. -/
def hexTag (tag : UInt8) : String := "0x" ++ hexByte tag

/-- Skips an unknown tag, which must carry the optional flag. -/
def skipPartTag (unknown : String) (tag : UInt8) (r : WireReader) :
    Except BoxError (PartTag × WireReader) :=
  if tag &&& partOptionalFlag ≠ 0 then do
    let (data, r) ← getString8 r
    pure (.skipped data, r)
  else .error (.wire s!"{unknown} {hexTag tag}")

/-- Reads what stands behind a tag byte. `readBox` reads a box where the reader
has one; `unknown` starts the text of the error for a compulsory unknown tag. -/
def readPartTag (unknown : String)
    (readBox : Option (WireReader → Except BoxError (PartTag × WireReader)))
    (tag : UInt8) (r : WireReader) : Except BoxError (PartTag × WireReader) :=
  let kind := tag &&& ~~~partOptionalFlag
  if kind = partPubkey then do
    let (curve, r) ← getCurve r
    let (point, r) ← getEckey8 r
    pure (.pubkey curve point, r)
  else if kind = partGuid then do
    let (guid, r) ← getGuid r
    pure (.guid guid, r)
  else if kind = partName then do
    let (name, r) ← getCstring8 r
    pure (.name name, r)
  else if kind = partCak then do
    let (cak, r) ← getString r
    pure (.cak cak, r)
  else if kind = partSlot then do
    let (slot, r) ← getU8 r
    pure (.slot slot, r)
  else if kind = partBox then
    match readBox with
    | some readBox => readBox r
    | none => skipPartTag unknown tag r
  else skipPartTag unknown tag r

/-- The loop over the tags of a part. Every turn reads a tag byte, so the unread
bytes bound the number of turns; with none left the next tag byte is missing. -/
def readPartLoop (readTag : UInt8 → WireReader → Except BoxError (PartTag × WireReader)) :
    Nat → PartLocals → WireReader → Except BoxError (PartLocals × WireReader)
  | 0, _, r => .error (shortRead r 1)
  | turns + 1, p, r => do
    let (tag, r) ← getU8 r
    if tag = partEnd then pure (p, r)
    else do
      let (t, r) ← readTag tag r
      readPartLoop readTag turns (p.assign t) r

/-- Reads the tags of a part up to and including the end tag. -/
def readPart (readTag : UInt8 → WireReader → Except BoxError (PartTag × WireReader))
    (r : WireReader) : Except BoxError (PartLocals × WireReader) :=
  readPartLoop readTag r.remaining {} r

/-! ## The bytes of a tag -/

/-- The fields of a box as an ebox of version 2 or later writes them. -/
def PivBox.inlineBytes (b : PivBox) : Bytes :=
  cstring8 b.cipher ++ (cstring8 b.kdf ++ (string8 b.nonce ++ (cstring8 b.curve.wireName ++
    (string8 b.recipientPubkey ++ (string8 b.iv ++ string32 b.ciphertext)))))

namespace PartTag

/-- The bytes a reader consumes behind the tag byte. A standalone box is looked
at and not consumed. -/
def payload : PartTag → Bytes
  | pubkey curve point => cstring8 curve.wireName ++ string8 point
  | guid g => string8 g.bytes
  | name n => cstring8 n
  | cak k => string32 k
  | slot s => [s]
  | inlineBox b => b.inlineBytes
  | rawBox _ => []
  | skipped data => string8 data

/-- The tag byte the writers put; they skip nothing. -/
def byte : PartTag → UInt8
  | pubkey .. => partPubkey
  | guid _ => partGuid
  | name _ => partName
  | cak _ => partCak
  | slot _ => partSlot
  | inlineBox _ | rawBox _ => partBox
  | skipped _ => partOptionalFlag

/-- The bytes of a tag. -/
def bytes (t : PartTag) : Bytes := t.byte :: t.payload

/-- The tags both part readers know: all but boxes and skipped tags. -/
def IsField : PartTag → Prop
  | inlineBox _ | rawBox _ | skipped _ => False
  | _ => True

/-- The tags that carry no box. -/
def NotBox : PartTag → Prop
  | inlineBox _ | rawBox _ => False
  | _ => True

/-- The bounds a tag's data meets when it was read. -/
def Fits : PartTag → Prop
  | pubkey _ point => FitsString8 point
  | guid _ => True
  | name n => FitsCstring8 n
  | cak k => FitsString k
  | slot _ => True
  | inlineBox b => b.Fits
  | rawBox b => b.Fits
  | skipped data => FitsString8 data

end PartTag

private theorem skipPartTag_spans {unknown : String} {tag : UInt8} {r r' : WireReader}
    {t : PartTag} (h : skipPartTag unknown tag r = .ok (t, r')) :
    t.NotBox ∧ t.Fits ∧ Spans r r' t.payload := by
  unfold skipPartTag at h
  split at h
  · simp only [bind_ok, pure_ok, Prod.mk.injEq] at h
    obtain ⟨⟨data, r₁⟩, hd, rfl, rfl⟩ := h
    exact ⟨trivial, getString8_exact.spans hd⟩
  · cases h

/-- Reading behind a tag byte spans the tag's payload, or is left to the box reader. -/
theorem readPartTag_inv {unknown : String}
    {readBox : Option (WireReader → Except BoxError (PartTag × WireReader))}
    {tag : UInt8} {r r' : WireReader} {t : PartTag}
    (h : readPartTag unknown readBox tag r = .ok (t, r')) :
    (t.NotBox ∧ t.Fits ∧ Spans r r' t.payload) ∨ ∃ read ∈ readBox, read r = .ok (t, r') := by
  unfold readPartTag at h
  dsimp only at h
  split at h
  · simp only [bind_ok, pure_ok, Prod.mk.injEq] at h
    obtain ⟨⟨curve, r₁⟩, hc, ⟨point, r₂⟩, hp, rfl, rfl⟩ := h
    exact .inl ⟨trivial, (getString8_exact.spans hp).1,
      (getCurve_exact.spans hc).2.trans (getString8_exact.spans hp).2⟩
  split at h
  · simp only [bind_ok, pure_ok, Prod.mk.injEq] at h
    obtain ⟨⟨g, r₁⟩, hg, rfl, rfl⟩ := h
    exact .inl ⟨trivial, getGuid_exact.spans hg⟩
  split at h
  · simp only [bind_ok, pure_ok, Prod.mk.injEq] at h
    obtain ⟨⟨n, r₁⟩, hn, rfl, rfl⟩ := h
    exact .inl ⟨trivial, getCstring8_exact.spans hn⟩
  split at h
  · simp only [bind_ok, pure_ok, Prod.mk.injEq] at h
    obtain ⟨⟨k, r₁⟩, hk, rfl, rfl⟩ := h
    exact .inl ⟨trivial, getString_exact.spans hk⟩
  split at h
  · simp only [bind_ok, pure_ok, Prod.mk.injEq] at h
    obtain ⟨⟨s, r₁⟩, hs, rfl, rfl⟩ := h
    exact .inl ⟨trivial, getU8_exact.spans hs⟩
  split at h
  · cases readBox with
    | none => exact .inl (skipPartTag_spans h)
    | some read => exact .inr ⟨read, rfl, h⟩
  · exact .inl (skipPartTag_spans h)

private theorem kind_partPubkey : partPubkey &&& ~~~partOptionalFlag = partPubkey := by decide

private theorem kind_partGuid : partGuid &&& ~~~partOptionalFlag = partGuid := by decide

private theorem kind_partName : partName &&& ~~~partOptionalFlag = partName := by decide

private theorem kind_partCak : partCak &&& ~~~partOptionalFlag = partCak := by decide

private theorem kind_partSlot : partSlot &&& ~~~partOptionalFlag = partSlot := by decide

private theorem kind_partBox : partBox &&& ~~~partOptionalFlag = partBox := by decide

/-- A field tag is read back from its bytes. -/
theorem readPartTag_reads (unknown : String)
    (readBox : Option (WireReader → Except BoxError (PartTag × WireReader)))
    {t : PartTag} (hf : t.IsField) (ht : t.Fits) :
    Reads (readPartTag unknown readBox t.byte) t.payload t := by
  intro pos tail
  cases t with
  | pubkey curve point =>
    simp only [readPartTag, PartTag.byte, kind_partPubkey, if_true, PartTag.payload,
      List.append_assoc, getCurve_exact.reads trivial _ _, ok_bind, getEckey8,
      getString8_exact.reads ht _ _, List.length_append, Nat.add_assoc]
    rfl
  | guid g =>
    have hp : partGuid ≠ partPubkey := by decide
    simp only [readPartTag, PartTag.byte, kind_partGuid, if_neg hp, if_true, PartTag.payload,
      getGuid_exact.reads trivial _ _, ok_bind]
    rfl
  | name n =>
    have hp : partName ≠ partPubkey ∧ partName ≠ partGuid := by decide
    simp only [readPartTag, PartTag.byte, kind_partName, if_neg hp.1, if_neg hp.2, if_true,
      PartTag.payload, getCstring8_exact.reads ht _ _, ok_bind]
    rfl
  | cak k =>
    have hp : partCak ≠ partPubkey ∧ partCak ≠ partGuid ∧ partCak ≠ partName := by decide
    simp only [readPartTag, PartTag.byte, kind_partCak, if_neg hp.1, if_neg hp.2.1,
      if_neg hp.2.2, if_true, PartTag.payload, getString_exact.reads ht _ _, ok_bind]
    rfl
  | slot s =>
    have hp : partSlot ≠ partPubkey ∧ partSlot ≠ partGuid ∧ partSlot ≠ partName ∧
      partSlot ≠ partCak := by decide
    simp only [readPartTag, PartTag.byte, kind_partSlot, if_neg hp.1, if_neg hp.2.1,
      if_neg hp.2.2.1, if_neg hp.2.2.2, if_true, PartTag.payload, getU8_exact.reads trivial _ _,
      ok_bind]
    rfl
  | inlineBox b => exact hf.elim
  | rawBox b => exact hf.elim
  | skipped data => exact hf.elim

/-- A box tag is read by the box reader. -/
theorem readPartTag_partBox (unknown : String)
    (readBox : WireReader → Except BoxError (PartTag × WireReader)) (r : WireReader) :
    readPartTag unknown (some readBox) partBox r = readBox r := by
  have hp : partBox ≠ partPubkey ∧ partBox ≠ partGuid ∧ partBox ≠ partName ∧
    partBox ≠ partCak ∧ partBox ≠ partSlot := by decide
  simp only [readPartTag, kind_partBox, if_neg hp.1, if_neg hp.2.1, if_neg hp.2.2.1,
    if_neg hp.2.2.2.1, if_neg hp.2.2.2.2, if_true]

/-- The loop reads a sequence of tags up to the end tag and assigns them in turn. -/
theorem readPartLoop_reads
    {readTag : UInt8 → WireReader → Except BoxError (PartTag × WireReader)}
    {ts : List PartTag} {f : PartTag → PartTag}
    (h : ∀ t ∈ ts, t.byte ≠ partEnd ∧ Reads (readTag t.byte) t.payload (f t))
    (turns : Nat) (p : PartLocals) (pos : Nat) (tail : Bytes)
    (hturns : (ts.flatMap PartTag.bytes).length < turns) :
    readPartLoop readTag turns p ⟨pos, ts.flatMap PartTag.bytes ++ partEnd :: tail⟩ =
      .ok ((ts.map f).foldl PartLocals.assign p,
        ⟨pos + (ts.flatMap PartTag.bytes).length + 1, tail⟩) := by
  induction ts generalizing turns p pos with
  | nil =>
    obtain ⟨turns, rfl⟩ : ∃ k, turns = k + 1 := ⟨turns - 1, by simp at hturns; omega⟩
    rfl
  | cons t ts ih =>
    obtain ⟨turns, rfl⟩ : ∃ k, turns = k + 1 := ⟨turns - 1, by omega⟩
    obtain ⟨hb, ht⟩ := h t (by simp)
    have hlen : ((t :: ts).flatMap PartTag.bytes).length =
        1 + t.payload.length + (ts.flatMap PartTag.bytes).length := by
      simp only [List.flatMap_cons, PartTag.bytes, List.cons_append, List.length_cons,
        List.length_append]
      omega
    have hu : getU8 ⟨pos, (t :: ts).flatMap PartTag.bytes ++ partEnd :: tail⟩ =
        .ok (t.byte, ⟨pos + 1, t.payload ++ (ts.flatMap PartTag.bytes ++ partEnd :: tail)⟩) := by
      have := getU8_exact.reads (a := t.byte) trivial pos
        (t.payload ++ (ts.flatMap PartTag.bytes ++ partEnd :: tail))
      simpa [PartTag.bytes] using this
    rw [readPartLoop, hu, ok_bind]
    dsimp only
    rw [if_neg hb, ht, ok_bind]
    dsimp only
    rw [ih (fun u hu => h u (by simp [hu])) turns _ _ (by omega), hlen]
    simp only [List.map_cons, List.foldl_cons, Nat.add_assoc]

/-- A part reads a sequence of tags up to the end tag. -/
theorem readPart_reads {readTag : UInt8 → WireReader → Except BoxError (PartTag × WireReader)}
    {ts : List PartTag} {f : PartTag → PartTag}
    (h : ∀ t ∈ ts, t.byte ≠ partEnd ∧ Reads (readTag t.byte) t.payload (f t)) :
    Reads (readPart readTag) (ts.flatMap PartTag.bytes ++ [partEnd])
      ((ts.map f).foldl PartLocals.assign {}) := by
  intro pos tail
  have hl := readPartLoop_reads h
    (WireReader.remaining ⟨pos, ts.flatMap PartTag.bytes ++ partEnd :: tail⟩) {} pos tail
    (by simp [WireReader.remaining])
  simpa [readPart, Nat.add_assoc] using hl

/-! ## What the writers put -/

/-- Appends the GUID tag when there is a guid. -/
def putGuidTag (w : WireWriter) : Option Guid → Except BoxError WireWriter
  | some guid => putString8 (putU8 w partGuid) guid.bytes
  | none => .ok w

/-- Appends the NAME tag when there is a name. -/
def putNameTag (w : WireWriter) : Option String → Except BoxError WireWriter
  | some name => putCstring8 (putU8 w partName) name
  | none => .ok w

/-- Appends the CAK tag when there is a card authentication key. -/
def putCakTag (w : WireWriter) : Option Bytes → WireWriter
  | some cak => putString (putU8 w partCak) cak
  | none => w

/-- Appends the SLOT tag unless the slot is the default one. -/
def putSlotTag (w : WireWriter) (slot : UInt8) : WireWriter :=
  if slot ≠ defaultSlot then putU8 (putU8 w partSlot) slot else w

/-- The tags written for the fields both kinds of part share. -/
def fieldTags (guid : Option Guid) (name : Option String) (cak : Option Bytes) (slot : UInt8) :
    List PartTag :=
  guid.toList.map .guid ++ (name.toList.map .name ++ (cak.toList.map .cak ++
    if slot ≠ defaultSlot then [.slot slot] else []))

/-- The shared fields that can be written. -/
structure FitsFields (name : Option String) (cak : Option Bytes) : Prop where
  name : ∀ n ∈ name, FitsCstring8 n
  cak : ∀ k ∈ cak, FitsString k

theorem putGuidTag_eq (w : WireWriter) (guid : Option Guid) :
    putGuidTag w guid = .ok (w ++ (guid.toList.map PartTag.guid).flatMap PartTag.bytes) := by
  cases guid with
  | none => simp [putGuidTag]
  | some g =>
    refine putString8_ok.mpr ⟨g.fitsString8, ?_⟩
    simp [putU8, PartTag.bytes, PartTag.byte, PartTag.payload]

theorem putNameTag_eq (w : WireWriter) {name : Option String} (h : ∀ n ∈ name, FitsCstring8 n) :
    putNameTag w name = .ok (w ++ (name.toList.map PartTag.name).flatMap PartTag.bytes) := by
  cases name with
  | none => simp [putNameTag]
  | some n =>
    refine putCstring8_ok.mpr ⟨h n rfl, ?_⟩
    simp [putU8, PartTag.bytes, PartTag.byte, PartTag.payload]

theorem putCakTag_eq (w : WireWriter) {cak : Option Bytes} (h : ∀ k ∈ cak, FitsString k) :
    putCakTag w cak = w ++ (cak.toList.map PartTag.cak).flatMap PartTag.bytes := by
  cases cak with
  | none => simp [putCakTag]
  | some k =>
    simp [putCakTag, putString_eq _ (h k rfl), putU8, PartTag.bytes, PartTag.byte,
      PartTag.payload]

theorem putSlotTag_eq (w : WireWriter) (slot : UInt8) :
    putSlotTag w slot =
      w ++ (if slot ≠ defaultSlot then [PartTag.slot slot] else []).flatMap PartTag.bytes := by
  unfold putSlotTag
  split <;> simp [putU8, PartTag.bytes, PartTag.byte, PartTag.payload]

/-- Written field tags are fields and fit. -/
theorem fieldTags_fits {name : Option String} {cak : Option Bytes} (h : FitsFields name cak)
    {guid : Option Guid} {slot : UInt8} {t : PartTag} (ht : t ∈ fieldTags guid name cak slot) :
    t.IsField ∧ t.Fits ∧ t.byte ≠ partEnd := by
  simp only [fieldTags, List.mem_append, List.mem_map, Option.mem_toList] at ht
  obtain ⟨g, -, rfl⟩ | ⟨n, hn, rfl⟩ | ⟨k, hk, rfl⟩ | ht := ht
  · exact ⟨trivial, trivial, (by decide : partGuid ≠ partEnd)⟩
  · exact ⟨trivial, h.name n hn, (by decide : partName ≠ partEnd)⟩
  · exact ⟨trivial, h.cak k hk, (by decide : partCak ≠ partEnd)⟩
  · split at ht
    · obtain rfl := List.mem_singleton.mp ht
      exact ⟨trivial, trivial, (by decide : partSlot ≠ partEnd)⟩
    · cases ht

/-- Assigning the written tags restores the shared fields. -/
theorem foldl_fieldTags (guid : Option Guid) (name : Option String) (cak : Option Bytes)
    (slot : UInt8) (pubkey : Option (EcCurve × Bytes)) :
    (fieldTags guid name cak slot).foldl PartLocals.assign { pubkey } =
      { guid, name, cak, slot, pubkey } := by
  by_cases hs : slot = defaultSlot <;> cases guid <;> cases name <;> cases cak <;>
    simp [fieldTags, PartLocals.assign, hs]

/-! ## Bounds of what was read -/

/-- The bounds the local variables keep. -/
structure PartLocals.Fits (p : PartLocals) : Prop where
  fields : FitsFields p.name p.cak
  pubkey : ∀ k ∈ p.pubkey, FitsString8 k.2
  pivBox : ∀ b ∈ p.pivBox, b.Fits

theorem PartLocals.Fits.assign {p : PartLocals} {t : PartTag} (hp : p.Fits) (ht : t.Fits) :
    (p.assign t).Fits := by
  obtain ⟨⟨hn, hc⟩, hk, hb⟩ := hp
  cases t with
  | pubkey curve point => exact ⟨⟨hn, hc⟩, by rintro k ⟨⟩; exact ht, hb⟩
  | guid g => exact ⟨⟨hn, hc⟩, hk, hb⟩
  | name n => exact ⟨⟨by rintro n' ⟨⟩; exact ht, hc⟩, hk, hb⟩
  | cak k => exact ⟨⟨hn, by rintro k' ⟨⟩; exact ht⟩, hk, hb⟩
  | slot s => exact ⟨⟨hn, hc⟩, hk, hb⟩
  | inlineBox b =>
    exact ⟨⟨hn, hc⟩, hk, by rintro b' ⟨⟩; exact ⟨ht.1, ht.2, ht.3, ht.4, ht.5, ht.6, ht.7⟩⟩
  | rawBox b => exact ⟨⟨hn, hc⟩, hk, by rintro b' ⟨⟩; exact ht⟩
  | skipped data => exact ⟨⟨hn, hc⟩, hk, hb⟩

theorem PartLocals.Fits.empty : PartLocals.Fits {} := ⟨⟨by simp, by simp⟩, by simp, by simp⟩

/-- What every tag keeps of the local variables, the whole part keeps. -/
theorem readPart_invariant {readTag : UInt8 → WireReader → Except BoxError (PartTag × WireReader)}
    {inv : PartLocals → Prop} (hinit : inv {})
    (hstep : ∀ tag r t r' p, readTag tag r = .ok (t, r') → inv p → inv (p.assign t))
    {r r' : WireReader} {p : PartLocals} (hread : readPart readTag r = .ok (p, r')) : inv p := by
  have hloop : ∀ turns p p' r r', inv p →
      readPartLoop readTag turns p r = .ok (p', r') → inv p' := by
    intro turns
    induction turns with
    | zero =>
      intro p p' r r' _ hl
      cases hl
    | succ turns ih =>
      intro p p' r r' hp hl
      simp only [readPartLoop, bind_ok] at hl
      obtain ⟨⟨tag, r₁⟩, -, hl⟩ := hl
      dsimp only at hl
      split at hl
      · cases hl
        exact hp
      · simp only [bind_ok] at hl
        obtain ⟨⟨t, r₂⟩, ht, hl⟩ := hl
        exact ih _ _ _ _ (hstep _ _ _ _ _ ht hp) hl
  exact hloop _ _ _ _ _ hinit hread

/-- What a part reader reads is bounded when its tags are. -/
theorem readPart_fits {readTag : UInt8 → WireReader → Except BoxError (PartTag × WireReader)}
    (h : ∀ tag r t r', readTag tag r = .ok (t, r') → t.Fits) {r r' : WireReader} {p : PartLocals}
    (hread : readPart readTag r = .ok (p, r')) : p.Fits :=
  readPart_invariant PartLocals.Fits.empty (fun _ _ _ _ _ ht hp => hp.assign (h _ _ _ _ ht)) hread

end Piggy.Box
