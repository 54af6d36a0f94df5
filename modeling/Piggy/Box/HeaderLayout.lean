import Piggy.Box.Stream

/-!
# Where the header ends

The decryptor finds the frames behind as many bytes as the parsed header
serializes to. The layout of a header lists the tags of every part as they stand
in the input. Every byte the reader consumes is either written again by the
writer or belongs to a tag that the parsed value drops, so the two lengths differ
by the dropped bytes; before version 2 the reader also looks at a standalone box
without consuming it, and the writer writes it.
-/

namespace Piggy.Box

open Piggy.Core

/-! ## The layout of an input -/

/-- The tags of a part in the order in which the loop reads them. -/
def scanTags (version : UInt8) : Nat → WireReader → Except BoxError (List PartTag × WireReader)
  | 0, r => .error (shortRead r 1)
  | turns + 1, r => do
    let (tag, r) ← getU8 r
    if tag = partEnd then pure ([], r)
    else do
      let (t, r) ← readEboxPartTag version tag r
      let (ts, r) ← scanTags version turns r
      pure (t :: ts, r)

/-- The tags of a part. -/
def scanPart (version : UInt8) (r : WireReader) : Except BoxError (List PartTag × WireReader) :=
  scanTags version r.remaining r

/-- The tags of the parts of a config. -/
def scanConfig (version : UInt8) (r : WireReader) :
    Except BoxError (List (List PartTag) × WireReader) := do
  let (_, r) ← getU8 r
  let (_, r) ← getU8 r
  let (m, r) ← getU8 r
  let (_, r) ← getString8 r
  getMany (scanPart version) m.toNat r

/-- The version byte of a header and the tags of all its parts. -/
structure HeaderLayout where
  version : UInt8
  parts : List (List PartTag)
  deriving DecidableEq

/-- The layout of a header. -/
def scanHeader (data : Bytes) : Except BoxError HeaderLayout := do
  let ((), r) ← getMagic eboxMagic (WireReader.new data)
  let (version, r) ← getU8 r
  let (_, r) ← getU8 r
  let (_, r) ← getCstring8 r
  let (_, r) ← getString8 r
  let (_, r) ← getString8 r
  let (_, r) ← readEphemeralKeys version r
  let (nconfigs, r) ← getU8 r
  let (configs, _) ← getMany (scanConfig version) nconfigs.toNat r
  pure { version, parts := configs.flatten }

/-- The tags whose value the writer writes again: no PUBKEY tag, no skipped tag and
no SLOT tag of the default slot. -/
def PartTag.Kept : PartTag → Prop
  | .pubkey .. => False
  | .skipped _ => False
  | .slot s => s ≠ defaultSlot
  | _ => True

instance : DecidablePred PartTag.Kept
  | .pubkey .. | .skipped _ => inferInstanceAs (Decidable False)
  | .slot s => inferInstanceAs (Decidable (s ≠ defaultSlot))
  | .guid _ | .name _ | .cak _ | .inlineBox _ | .rawBox _ => inferInstanceAs (Decidable True)

/-- The tags of a part that the writer would write: each is kept, and none stands
twice. -/
def CanonicalTags (ts : List PartTag) : Prop :=
  (∀ t ∈ ts, t.Kept) ∧ (ts.map PartTag.byte).Nodup

instance : DecidablePred CanonicalTags := fun ts =>
  inferInstanceAs (Decidable ((∀ t ∈ ts, t.Kept) ∧ (ts.map PartTag.byte).Nodup))

/-- The number of bytes of a tag in the input. -/
def PartTag.size (t : PartTag) : Nat := 1 + t.payload.length

/-- The bytes a box takes behind its tag byte in the input. -/
def boxCost (version : UInt8) (b : PivBox) : Nat :=
  1 + if 2 ≤ version then b.inlineBytes.length else 0

/-- The bytes the SLOT tag of a slot takes; the default slot needs none. -/
def slotCost (slot : UInt8) : Nat := if slot = defaultSlot then 0 else 2

/-- The bytes that are lost when a tag is assigned: the tag itself when it is not
kept, and the tag of its kind that it overwrites. -/
def lostBytes (version : UInt8) (p : PartLocals) (t : PartTag) : Nat :=
  match t with
  | .pubkey .. | .skipped _ => t.size
  | .guid _ => p.guid.elim 0 fun g => (PartTag.guid g).size
  | .name _ => p.name.elim 0 fun n => (PartTag.name n).size
  | .cak _ => p.cak.elim 0 fun k => (PartTag.cak k).size
  | .slot s => slotCost p.slot + if s = defaultSlot then 2 else 0
  | .inlineBox _ | .rawBox _ => p.pivBox.elim 0 (boxCost version)

/-- The bytes lost over a list of tags. -/
def droppedFrom (version : UInt8) : PartLocals → List PartTag → Nat
  | _, [] => 0
  | p, t :: ts => lostBytes version p t + droppedFrom version (p.assign t) ts

/-- The bytes of the tags of a part that the parsed part drops. -/
def droppedBytes (version : UInt8) (ts : List PartTag) : Nat := droppedFrom version {} ts

/-- The bytes of the standalone box that a part keeps. -/
def standaloneBytes (ts : List PartTag) : Nat :=
  (ts.foldl PartLocals.assign {}).pivBox.elim 0 fun b => b.encoding.length

/-- The layouts whose header serializes to as many bytes as were read. From version
2 on every part is spelled as the writer spells it; before, the dropped tags make
up exactly for the standalone boxes. -/
def HeaderLayout.Faithful (h : HeaderLayout) : Prop :=
  if 2 ≤ h.version then ∀ ts ∈ h.parts, CanonicalTags ts
  else (h.parts.map (droppedBytes h.version)).sum = (h.parts.map standaloneBytes).sum

instance : DecidablePred HeaderLayout.Faithful := fun h =>
  inferInstanceAs (Decidable (if 2 ≤ h.version then ∀ ts ∈ h.parts, CanonicalTags ts
    else (h.parts.map (droppedBytes h.version)).sum = (h.parts.map standaloneBytes).sum))

/-! ## Dropped bytes -/

/-- A tag whose kind the local variables do not hold yet. -/
def PartLocals.Free (p : PartLocals) : PartTag → Prop
  | .guid _ => p.guid = none
  | .name _ => p.name = none
  | .cak _ => p.cak = none
  | .slot _ => p.slot = defaultSlot
  | .inlineBox _ | .rawBox _ => p.pivBox = none
  | .pubkey .. | .skipped _ => True

private theorem lostBytes_eq_zero {version : UInt8} {p : PartLocals} {t : PartTag} :
    lostBytes version p t = 0 ↔ t.Kept ∧ p.Free t := by
  cases t with
  | pubkey curve point => simp [lostBytes, PartTag.size, PartTag.Kept]
  | guid g => cases hg : p.guid <;> simp [lostBytes, PartTag.size, PartTag.Kept, PartLocals.Free, hg]
  | name n => cases hn : p.name <;> simp [lostBytes, PartTag.size, PartTag.Kept, PartLocals.Free, hn]
  | cak k => cases hk : p.cak <;> simp [lostBytes, PartTag.size, PartTag.Kept, PartLocals.Free, hk]
  | slot s =>
    by_cases hp : p.slot = defaultSlot <;> by_cases hs : s = defaultSlot <;>
      simp [lostBytes, slotCost, PartTag.Kept, PartLocals.Free, hp, hs]
  | inlineBox b =>
    cases hb : p.pivBox <;> simp [lostBytes, boxCost, PartTag.Kept, PartLocals.Free, hb]
  | rawBox b =>
    cases hb : p.pivBox <;> simp [lostBytes, boxCost, PartTag.Kept, PartLocals.Free, hb]
  | skipped data => simp [lostBytes, PartTag.size, PartTag.Kept]

private theorem free_assign {p : PartLocals} {t u : PartTag} (ht : t.Kept) (hu : u.Kept) :
    (p.assign t).Free u ↔ u.byte ≠ t.byte ∧ p.Free u := by
  cases t <;> cases u <;>
    simp_all [PartLocals.Free, PartLocals.assign, PartTag.Kept, PartTag.byte, partGuid, partName,
      partCak, partSlot, partBox]

private theorem droppedFrom_eq_zero {version : UInt8} {p : PartLocals} {ts : List PartTag} :
    droppedFrom version p ts = 0 ↔
      (∀ t ∈ ts, t.Kept ∧ p.Free t) ∧ (ts.map PartTag.byte).Nodup := by
  induction ts generalizing p with
  | nil => simp [droppedFrom]
  | cons t ts ih =>
    rw [droppedFrom, Nat.add_eq_zero_iff, lostBytes_eq_zero, ih, List.map_cons, List.nodup_cons]
    constructor
    · rintro ⟨⟨hk, hf⟩, hall, hnd⟩
      have hfree : ∀ u ∈ ts, u.Kept ∧ u.byte ≠ t.byte ∧ p.Free u := fun u hu =>
        ⟨(hall u hu).1, (free_assign hk (hall u hu).1).mp (hall u hu).2⟩
      refine ⟨?_, ?_, hnd⟩
      · intro u hu
        rcases List.mem_cons.mp hu with rfl | hu
        · exact ⟨hk, hf⟩
        · exact ⟨(hfree u hu).1, (hfree u hu).2.2⟩
      · intro hmem
        obtain ⟨u, hu, he⟩ := List.mem_map.mp hmem
        exact (hfree u hu).2.1 he
    · rintro ⟨hall, hnot, hnd⟩
      obtain ⟨hk, hf⟩ := hall t (by simp)
      refine ⟨⟨hk, hf⟩, ?_, hnd⟩
      intro u hu
      obtain ⟨huk, huf⟩ := hall u (by simp [hu])
      refine ⟨huk, (free_assign hk huk).mpr ⟨?_, huf⟩⟩
      intro he
      exact hnot (he ▸ List.mem_map_of_mem hu)

/-- Nothing is dropped exactly from canonical tags. -/
theorem droppedBytes_eq_zero {version : UInt8} {ts : List PartTag} :
    droppedBytes version ts = 0 ↔ CanonicalTags ts := by
  have hfree : ∀ t, PartLocals.Free {} t := by
    intro t
    cases t <;> simp [PartLocals.Free]
  rw [droppedBytes, droppedFrom_eq_zero, CanonicalTags]
  simp [hfree]

/-! ## Accounting for one part -/

/-- The bytes the kept values of a part take in the input. -/
def keptBytes (version : UInt8) (p : PartLocals) : Nat :=
  ((fieldTags p.guid p.name p.cak p.slot).flatMap PartTag.bytes).length +
    p.pivBox.elim 0 (boxCost version)

/-- Tags as a reader of the version gives them. -/
def PartTag.OfVersion (version : UInt8) : PartTag → Prop
  | .inlineBox _ => 2 ≤ version
  | .rawBox _ => ¬ 2 ≤ version
  | _ => True

private theorem keptBytes_eq (version : UInt8) (p : PartLocals) :
    keptBytes version p = (p.guid.elim 0 fun g => (PartTag.guid g).size) +
      (p.name.elim 0 fun n => (PartTag.name n).size) +
      (p.cak.elim 0 fun k => (PartTag.cak k).size) +
      slotCost p.slot + p.pivBox.elim 0 (boxCost version) := by
  have hs : ((if p.slot ≠ defaultSlot then [PartTag.slot p.slot] else []).flatMap
      PartTag.bytes).length = slotCost p.slot := by
    by_cases h : p.slot = defaultSlot <;> simp [h, slotCost, PartTag.bytes, PartTag.payload]
  simp only [keptBytes, fieldTags, List.flatMap_append, List.length_append, hs]
  cases p.guid <;> cases p.name <;> cases p.cak <;>
    simp [PartTag.bytes, PartTag.size, Nat.add_comm, Nat.add_left_comm, Nat.add_assoc]

/-- Assigning a tag keeps or loses every byte of it and of what was there. -/
private theorem size_add_keptBytes {version : UInt8} {p : PartLocals} {t : PartTag}
    (ht : t.OfVersion version) :
    t.size + keptBytes version p =
      keptBytes version (p.assign t) + lostBytes version p t := by
  simp only [keptBytes_eq]
  cases t with
  | pubkey curve point =>
    simp only [PartLocals.assign, lostBytes]
    omega
  | guid g =>
    simp only [PartLocals.assign, lostBytes, Option.elim_some]
    omega
  | name n =>
    simp only [PartLocals.assign, lostBytes, Option.elim_some]
    omega
  | cak k =>
    simp only [PartLocals.assign, lostBytes, Option.elim_some]
    omega
  | slot s =>
    have hsize : (PartTag.slot s).size = 2 := rfl
    have hs : 2 = slotCost s + if s = defaultSlot then 2 else 0 := by
      unfold slotCost
      split <;> rfl
    simp only [PartLocals.assign, lostBytes, hsize]
    omega
  | inlineBox b =>
    have hsize : (PartTag.inlineBox b).size = boxCost version b := by
      rw [boxCost, if_pos (show 2 ≤ version from ht)]
      rfl
    have hcost : boxCost version { b with guidSlot := p.guid.map fun g => (g, p.slot) } =
        boxCost version b := rfl
    simp only [PartLocals.assign, lostBytes, Option.elim_some, hsize, hcost]
    omega
  | rawBox b =>
    have hsize : (PartTag.rawBox b).size = boxCost version b := by
      rw [boxCost, if_neg (show ¬ 2 ≤ version from ht)]
      rfl
    simp only [PartLocals.assign, lostBytes, Option.elim_some, hsize]
    omega
  | skipped data =>
    simp only [PartLocals.assign, lostBytes]
    omega

/-- The tags of a part take the bytes that are kept and the bytes that are dropped. -/
private theorem sizes_add_keptBytes {version : UInt8} {ts : List PartTag} (p : PartLocals)
    (h : ∀ t ∈ ts, t.OfVersion version) :
    (ts.map PartTag.size).sum + keptBytes version p =
      keptBytes version (ts.foldl PartLocals.assign p) + droppedFrom version p ts := by
  induction ts generalizing p with
  | nil => simp [droppedFrom]
  | cons t ts ih =>
    have ht := size_add_keptBytes (p := p) (h t (by simp))
    have hts := ih (p.assign t) fun u hu => h u (by simp [hu])
    simp only [List.map_cons, List.sum_cons, List.foldl_cons, droppedFrom]
    omega

private theorem fits_foldl {ts : List PartTag} {p : PartLocals} (hp : p.Fits)
    (h : ∀ t ∈ ts, t.Fits) : (ts.foldl PartLocals.assign p).Fits := by
  induction ts generalizing p with
  | nil => exact hp
  | cons t ts ih => exact ih (hp.assign (h t (by simp))) fun u hu => h u (by simp [hu])

/-! ## Reading and scanning side by side -/

private theorem readInlineBox_spans {r r' : WireReader} {t : PartTag}
    (h : readInlineBox r = .ok (t, r')) :
    (∃ b, t = .inlineBox b) ∧ t.Fits ∧ Spans r r' t.payload := by
  simp only [readInlineBox, bind_ok, pure_ok, Prod.mk.injEq] at h
  obtain ⟨⟨cipher, r₁⟩, h₁, ⟨kdf, r₂⟩, h₂, ⟨nonce, r₃⟩, h₃, ⟨curve, r₄⟩, h₄, ⟨rp, r₅⟩, h₅,
    ⟨iv, r₆⟩, h₆, ⟨ct, r₇⟩, h₇, rfl, rfl⟩ := h
  have hc := getCstring8_exact.spans h₁
  have hk := getCstring8_exact.spans h₂
  have hn := getString8_exact.spans h₃
  have hcv := getCurve_exact.spans h₄
  have hr := getString8_exact.spans h₅
  have hi := getString8_exact.spans h₆
  have ht := getString_exact.spans h₇
  refine ⟨⟨_, rfl⟩, ⟨hc.1, hk.1, hn.1, hr.1, Nat.zero_le _, hi.1, ht.1⟩, ?_⟩
  exact hc.2.trans (hk.2.trans (hn.2.trans (hcv.2.trans (hr.2.trans (hi.2.trans ht.2)))))

private theorem readBox_spans {version : UInt8} {r r' : WireReader} {t : PartTag}
    (h : readBox version r = .ok (t, r')) :
    t.OfVersion version ∧ t.Fits ∧ Spans r r' t.payload := by
  unfold readBox at h
  split at h
  · next hv =>
    obtain ⟨⟨b, rfl⟩, hs⟩ := readInlineBox_spans h
    exact ⟨hv, hs⟩
  · next hv =>
    simp only [readRawBox, bind_ok, pure_ok, Prod.mk.injEq] at h
    obtain ⟨b, hb, rfl, rfl⟩ := h
    exact ⟨hv, PivBox.fromBytes_fits hb, Spans.refl r⟩

private theorem readEboxPartTag_spans {version tag : UInt8} {r r' : WireReader} {t : PartTag}
    (h : readEboxPartTag version tag r = .ok (t, r')) :
    t.OfVersion version ∧ t.Fits ∧ Spans r r' t.payload := by
  obtain ⟨hn, hs⟩ | ⟨read, ⟨⟩, h⟩ := readPartTag_inv h
  · refine ⟨?_, hs⟩
    cases t <;> trivial
  · exact readBox_spans h

/-- What a stretch of input comes to when it is read and written again: the bytes
written, the bytes dropped on the way, and the bytes written without having been
consumed. -/
def Accounts (written dropped unread : Nat) (r r' : WireReader) : Prop :=
  ∃ used, Spans r r' used ∧ written + dropped = used.length + unread

private theorem Accounts.of_spans {r r' : WireReader} {used : Bytes} (h : Spans r r' used) :
    Accounts used.length 0 0 r r' := ⟨used, h, rfl⟩

private theorem Accounts.trans {w d u w' d' u' : Nat} {r r' r'' : WireReader}
    (h : Accounts w d u r r') (h' : Accounts w' d' u' r' r'') :
    Accounts (w + w') (d + d') (u + u') r r'' := by
  obtain ⟨used, hs, hu⟩ := h
  obtain ⟨used', hs', hu'⟩ := h'
  refine ⟨used ++ used', hs.trans hs', ?_⟩
  rw [List.length_append]
  omega

/-- The bytes a standalone box adds to a part of the version. -/
def unreadBytes (version : UInt8) (ts : List PartTag) : Nat :=
  if 2 ≤ version then 0 else standaloneBytes ts

/-- The loop over the tags assigns what a scan of the same bytes lists. -/
private theorem readPartLoop_scan {version : UInt8} {turns : Nat} {p p' : PartLocals}
    {r r' : WireReader} (h : readPartLoop (readEboxPartTag version) turns p r = .ok (p', r')) :
    ∃ ts, scanTags version turns r = .ok (ts, r') ∧ p' = ts.foldl PartLocals.assign p ∧
      (∀ t ∈ ts, t.OfVersion version ∧ t.Fits) ∧
      ∃ used, Spans r r' used ∧ used.length = (ts.map PartTag.size).sum + 1 := by
  induction turns generalizing p r with
  | zero => cases h
  | succ turns ih =>
    simp only [readPartLoop, bind_ok] at h
    obtain ⟨⟨tag, r₁⟩, htag, h⟩ := h
    have hs₁ := (getU8_exact.spans htag).2
    dsimp only at h
    split at h
    · next he =>
      cases h
      refine ⟨[], ?_, rfl, by simp, [tag], hs₁, rfl⟩
      simp [scanTags, htag, ok_bind, he, pure, Except.pure]
    · next he =>
      simp only [bind_ok] at h
      obtain ⟨⟨t, r₂⟩, ht, h⟩ := h
      obtain ⟨hv, hf, hs₂⟩ := readEboxPartTag_spans ht
      obtain ⟨ts, hscan, rfl, hall, used, hs, hl⟩ := ih h
      refine ⟨t :: ts, ?_, rfl, ?_, [tag] ++ (t.payload ++ used), hs₁.trans (hs₂.trans hs), ?_⟩
      · simp [scanTags, htag, ok_bind, he, ht, hscan, pure, Except.pure]
      · simpa using ⟨⟨hv, hf⟩, hall⟩
      · simp only [List.length_append, List.length_singleton, hl, List.map_cons, List.sum_cons,
          PartTag.size]
        omega

/-- A part that is read is accounted for by its tags. -/
private theorem readEboxPart_scan {version : UInt8} {r r' : WireReader} {part : EboxPart}
    (h : readEboxPart version r = .ok (part, r')) :
    part.Fits ∧ ∃ ts, scanPart version r = .ok (ts, r') ∧
      Accounts (part.encoding version).length (droppedBytes version ts) (unreadBytes version ts)
        r r' := by
  simp only [readEboxPart, bind_ok] at h
  obtain ⟨⟨p, r₁⟩, hp, h⟩ := h
  dsimp only at h
  split at h
  · next b hb =>
    cases h
    obtain ⟨ts, hscan, rfl, hall, used, hs, hl⟩ := readPartLoop_scan hp
    have hfit := fits_foldl PartLocals.Fits.empty fun t ht => (hall t ht).2
    have hacc := sizes_add_keptBytes {} fun t ht => (hall t ht).1
    refine ⟨⟨hfit.fields, hfit.pivBox b hb⟩, ts, hscan, used, hs, ?_⟩
    have hempty : keptBytes version {} = 0 := rfl
    have hbox : boxCost version b + unreadBytes version ts = 1 + (boxBytes version b).length := by
      unfold boxCost unreadBytes boxBytes standaloneBytes
      split <;> simp [hb]
    rw [hempty] at hacc
    simp only [keptBytes, hb, Option.elim_some] at hacc
    simp only [EboxPart.encoding, List.length_append, List.length_cons, List.length_nil,
      droppedBytes]
    omega
  · cases h

/-- A loop of reads is accounted for when every read is. -/
private theorem getMany_scan {α β : Type} {get : WireReader → Except BoxError (α × WireReader)}
    {scan : WireReader → Except BoxError (β × WireReader)} {fits : α → Prop} {len : α → Nat}
    {dropped unread : β → Nat}
    (h : ∀ r a r', get r = .ok (a, r') → fits a ∧ ∃ b, scan r = .ok (b, r') ∧
      Accounts (len a) (dropped b) (unread b) r r')
    {n : Nat} {r r' : WireReader} {as : List α} (hget : getMany get n r = .ok (as, r')) :
    as.length = n ∧ (∀ a ∈ as, fits a) ∧ ∃ bs, getMany scan n r = .ok (bs, r') ∧
      Accounts (as.map len).sum (bs.map dropped).sum (bs.map unread).sum r r' := by
  induction n generalizing r as with
  | zero =>
    cases hget
    exact ⟨rfl, by simp, [], rfl, [], Spans.refl _, rfl⟩
  | succ n ih =>
    simp only [getMany, bind_ok, pure_ok, Prod.mk.injEq] at hget
    obtain ⟨⟨a, r₁⟩, ha, ⟨as, r₂⟩, has, rfl, rfl⟩ := hget
    obtain ⟨hfa, b, hb, hab⟩ := h _ _ _ ha
    obtain ⟨hlen, hfits, bs, hbs, habs⟩ := ih has
    refine ⟨by simp [hlen], by simpa using ⟨hfa, hfits⟩, b :: bs, ?_, ?_⟩
    · simp [getMany, hb, hbs, ok_bind, pure, Except.pure]
    · simpa using hab.trans habs

/-- A config that is read is accounted for by the tags of its parts. -/
private theorem readEboxConfig_scan {version : UInt8} {r r' : WireReader} {c : EboxConfig}
    (h : readEboxConfig version r = .ok (c, r')) :
    c.Fits ∧ ∃ tss, scanConfig version r = .ok (tss, r') ∧
      Accounts (c.encoding version).length (tss.map (droppedBytes version)).sum
        (tss.map (unreadBytes version)).sum r r' := by
  simp only [readEboxConfig, bind_ok, pure_ok, Prod.mk.injEq] at h
  obtain ⟨⟨raw, r₁⟩, h₁, ty, hty, ⟨n, r₂⟩, h₂, ⟨m, r₃⟩, h₃, ⟨nonce, r₄⟩, h₄, ⟨parts, r₅⟩, h₅,
    rfl, rfl⟩ := h
  obtain ⟨-, hs₁⟩ := getU8_exact.spans h₁
  obtain ⟨-, hs₂⟩ := getU8_exact.spans h₂
  obtain ⟨-, hs₃⟩ := getU8_exact.spans h₃
  obtain ⟨hf₄, hs₄⟩ := getString8_exact.spans h₄
  obtain ⟨-, hf₅, tss, hscan, hacc⟩ := getMany_scan (fun _ _ _ => readEboxPart_scan) h₅
  refine ⟨⟨hf₄, hf₅⟩, tss, ?_, ?_⟩
  · simpa [scanConfig, h₁, h₂, h₃, h₄, ok_bind] using hscan
  · have hall := (Accounts.of_spans (hs₁.trans (hs₂.trans (hs₃.trans hs₄)))).trans hacc
    have hlen : (EboxConfig.encoding version ⟨ty, n, nonce, parts⟩).length =
        ([raw] ++ ([n] ++ ([m] ++ string8 nonce))).length +
          (parts.map fun p => (p.encoding version).length).sum := by
      simp only [EboxConfig.encoding, List.length_append, List.length_flatMap]
      simp only [List.length_cons, List.length_nil]
      omega
    rw [hlen]
    simpa only [Nat.zero_add] using hall

private theorem readEphemeralKeys_spans {version : UInt8} {r r' : WireReader}
    {eks : List EphemeralKey} (h : readEphemeralKeys version r = .ok (eks, r')) :
    (∀ ek ∈ eks, FitsString8 ek.pubkey) ∧ Spans r r' (ephemeralBytes version eks) := by
  have hkey : Exact readEphemeralKey EphemeralKey.encoding fun ek => FitsString8 ek.pubkey := by
    intro r ek r'
    simp only [readEphemeralKey, bind_ok, pure_ok, Prod.mk.injEq]
    constructor
    · rintro ⟨⟨curve, r₁⟩, h₁, ⟨pubkey, r₂⟩, h₂, rfl, rfl⟩
      exact ⟨(getString8_exact.spans h₂).1,
        (getCurve_exact.spans h₁).2.trans (getString8_exact.spans h₂).2⟩
    · rintro ⟨hf, hr, hp⟩
      refine ⟨(ek.curve, ⟨r.pos + (cstring8 ek.curve.wireName).length,
        string8 ek.pubkey ++ r'.rest⟩), ?_, (ek.pubkey, r'), ?_, rfl, rfl⟩
      · refine (getCurve_exact _ _ _).mpr ⟨trivial, ?_, rfl⟩
        rw [hr, EphemeralKey.encoding, List.append_assoc]
      · refine (getString8_exact _ _ _).mpr ⟨hf, rfl, ?_⟩
        rw [hp, EphemeralKey.encoding, List.length_append, Nat.add_assoc]
  unfold readEphemeralKeys at h
  unfold ephemeralBytes
  split at h
  · next hv =>
    simp only [bind_ok] at h
    obtain ⟨⟨n, r₁⟩, h₁, h₂⟩ := h
    obtain ⟨⟨hl, hall⟩, hs⟩ := (getMany_exact hkey _).spans h₂
    have hn : UInt8.ofNat eks.length = n := by
      rw [hl]
      exact UInt8.ofNat_toNat
    rw [if_pos hv, hn]
    exact ⟨hall, (getU8_exact.spans h₁).2.trans hs⟩
  · next hv =>
    cases h
    rw [if_neg hv]
    exact ⟨by simp, Spans.refl r⟩

private theorem readEboxType_spans {r r' : WireReader} {ty : EboxType}
    (h : readEboxType r = .ok (ty, r')) : ∃ raw, getU8 r = .ok (raw, r') := by
  simp only [readEboxType, bind_ok] at h
  obtain ⟨⟨raw, r₁⟩, h₁, ty', -, h⟩ := h
  obtain ⟨-, h⟩ := guard_ok.mp h
  cases h
  exact ⟨raw, h₁⟩

/-- An ebox that is read is accounted for by the layout of its header. -/
private theorem readFrom_scan {data : Bytes} {r' : WireReader} {e : Ebox}
    (h : Ebox.readFrom (WireReader.new data) = .ok (e, r')) :
    e.Fits ∧ ∃ tss, scanHeader data = .ok ⟨e.version, tss⟩ ∧
      Accounts e.encoding.length (tss.map (droppedBytes e.version)).sum
        (tss.map (unreadBytes e.version)).sum (WireReader.new data) r' := by
  simp only [Ebox.readFrom, bind_ok, pure_ok, Prod.mk.injEq] at h
  obtain ⟨⟨⟨⟩, r₁⟩, h₁, ⟨version, r₂⟩, h₂, ⟨ty, r₃⟩, h₃, ⟨cipher, r₄⟩, h₄, ⟨iv, r₅⟩, h₅,
    ⟨enc, r₆⟩, h₆, ⟨eks, r₇⟩, h₇, ⟨n, r₈⟩, h₈, ⟨configs, r₉⟩, h₉, rfl, rfl⟩ := h
  obtain ⟨raw, h₃⟩ := readEboxType_spans h₃
  obtain ⟨-, hs₁⟩ := (getMagic_exact eboxMagic).spans h₁
  obtain ⟨-, hs₂⟩ := getU8_exact.spans h₂
  obtain ⟨-, hs₃⟩ := getU8_exact.spans h₃
  obtain ⟨hf₄, hs₄⟩ := getCstring8_exact.spans h₄
  obtain ⟨hf₅, hs₅⟩ := getString8_exact.spans h₅
  obtain ⟨hf₆, hs₆⟩ := getString8_exact.spans h₆
  obtain ⟨hf₇, hs₇⟩ := readEphemeralKeys_spans h₇
  obtain ⟨-, hs₈⟩ := getU8_exact.spans h₈
  obtain ⟨-, hf₉, bss, hscan, hacc⟩ := getMany_scan (fun _ _ _ => readEboxConfig_scan) h₉
  refine ⟨⟨hf₄, hf₅, hf₆, hf₇, hf₉⟩, bss.flatten, ?_, ?_⟩
  · simp only [scanHeader, h₁, h₂, h₃, h₄, h₅, h₆, h₇, h₈, hscan, ok_bind]
    rfl
  · have hhead := hs₁.trans (hs₂.trans (hs₃.trans (hs₄.trans (hs₅.trans (hs₆.trans
      (hs₇.trans hs₈))))))
    have hall := (Accounts.of_spans hhead).trans hacc
    have hlen : (Ebox.encoding ⟨version, ty, cipher, iv, enc, eks, configs, none⟩).length =
        (magicBytes eboxMagic ++ ([version] ++ ([raw] ++ (cstring8 cipher ++ (string8 iv ++
          (string8 enc ++ (ephemeralBytes version eks ++ [n]))))))).length +
          (configs.map fun c => (c.encoding version).length).sum := by
      simp only [Ebox.encoding, Ebox.headBytes, List.length_append, List.length_flatMap,
        List.length_cons, List.length_nil]
      omega
    have hsum : ∀ f : List PartTag → Nat,
        (bss.flatten.map f).sum = (bss.map fun tss => (tss.map f).sum).sum := by
      intro f
      rw [List.map_flatten, List.sum_flatten, List.map_map]
      rfl
    rw [hlen, hsum, hsum]
    simpa only [Nat.zero_add] using hall

/-! ## The boundary -/

/-- A stream header that is read serializes, and is accounted for by its layout. -/
private theorem streamReadFrom_scan {data : Bytes} {r : WireReader} {s : EboxStream}
    (h : EboxStream.readFrom (WireReader.new data) = .ok (s, r)) :
    s.toBytes = .ok s.encoding ∧ ∃ layout, scanHeader data = .ok layout ∧
      layout.version = s.ebox.version ∧
      Accounts s.encoding.length (layout.parts.map (droppedBytes layout.version)).sum
        (layout.parts.map (unreadBytes layout.version)).sum (WireReader.new data) r := by
  simp only [EboxStream.readFrom, bind_ok, pure_ok, Prod.mk.injEq] at h
  obtain ⟨⟨e, r₁⟩, h₁, ⟨size, r₂⟩, h₂, ⟨cipher, r₃⟩, h₃, ⟨mac, r₄⟩, h₄, rfl, rfl⟩ := h
  obtain ⟨hfit, tss, hscan, hacc⟩ := readFrom_scan h₁
  obtain ⟨-, hs₂⟩ := getU64_exact.spans h₂
  obtain ⟨hf₃, hs₃⟩ := getCstring8_exact.spans h₃
  obtain ⟨hf₄, hs₄⟩ := getCstring8_exact.spans h₄
  refine ⟨EboxStream.toBytes_of_fits hfit hf₃ hf₄, _, hscan, rfl, ?_⟩
  have hall := hacc.trans (Accounts.of_spans (hs₂.trans (hs₃.trans hs₄)))
  simpa only [EboxStream.encoding, List.length_append, Nat.add_zero] using hall

private theorem faithful_iff (layout : HeaderLayout) :
    layout.Faithful ↔ (layout.parts.map (droppedBytes layout.version)).sum =
      (layout.parts.map (unreadBytes layout.version)).sum := by
  unfold HeaderLayout.Faithful unreadBytes
  split
  · have hzero : (layout.parts.map fun _ => 0).sum = 0 := by simp
    rw [hzero, List.sum_eq_zero_iff_forall_eq_nat]
    simp [droppedBytes_eq_zero]
  · rfl

/-- The decryptor takes the frames of an input from where the header parser stopped:
the parsed header serializes to as many bytes as were read, and behind these bytes,
whatever unlocking did to the ebox, the slice of the input is what is left. -/
def FramesBehindHeader (input : Bytes) (s : EboxStream) (r : WireReader) : Prop :=
  ∃ header, s.toBytes = .ok header ∧ header.length = r.pos ∧
    ∀ (Scalar Point Rng σ τ : Type) (ssl : OpenSsl Scalar Point Rng)
      (agent : Option (EcdhOracle σ)) (card : Option (EcdhOracle τ)) (a : σ) (c : τ),
      { s with ebox := (unlockEbox ssl agent card s.ebox a c).2.1 }.toBytes = .ok header ∧
      sliceFrom input header.length = .ok r.rest

/-- The frames of an accepted input start where its header parser stopped exactly
when the header is laid out as the writer lays it out. -/
theorem framesBehindHeader_iff_faithful {input : Bytes} {s : EboxStream} {r : WireReader}
    (h : EboxStream.readFrom (WireReader.new input) = .ok (s, r)) :
    FramesBehindHeader input s r ↔
      ∃ layout, scanHeader input = .ok layout ∧ layout.Faithful := by
  obtain ⟨hbytes, layout, hscan, -, used, ⟨hrest, hpos⟩, hacc⟩ := streamReadFrom_scan h
  have hinput : input = used ++ r.rest := hrest
  have hk : r.pos = used.length := by simpa [WireReader.new] using hpos
  have hiff : s.encoding.length = r.pos ↔ layout.Faithful := by
    rw [faithful_iff, hk]
    omega
  constructor
  · rintro ⟨header, hheader, hlen, -⟩
    obtain rfl : s.encoding = header := by simpa [hbytes] using hheader
    exact ⟨layout, hscan, hiff.mp hlen⟩
  · rintro ⟨layout', hscan', hf⟩
    obtain rfl : layout = layout' := by simpa [hscan] using hscan'
    have hlen := hiff.mpr hf
    refine ⟨s.encoding, hbytes, hlen, ?_⟩
    intro Scalar Point Rng σ τ ssl agent card a c
    refine ⟨?_, ?_⟩
    · have hsame := unlockEbox_toBytes ssl agent card s.ebox a c
      rw [← hbytes]
      simp only [EboxStream.toBytes, hsame]
    · rw [sliceFrom, hinput, hlen, hk, if_neg (by simp), List.drop_left]

/-- A version 3 header with one part: the given tag bytes, an empty box and the end
tag. -/
def headerWithTags (tags : Bytes) : Bytes :=
  [0xEB, 0x0C, 3, 3, 0, 0, 0, 0, 1] ++ [1, 1, 1, 0] ++ tags ++
    [5, 0, 0, 0, 8] ++ strBytes "nistp256" ++ [0, 0, 0, 0, 0, 0] ++ [0] ++
    [0, 0, 0, 0, 0, 2, 0, 0] ++ [0] ++ [0]

/-- A header with a GUID tag, as the writer writes it, keeps the boundary. -/
theorem framesBehindHeader_guid :
    ∃ s r, EboxStream.readFrom (WireReader.new (headerWithTags (4 :: 16 :: List.replicate 16 7))) =
      .ok (s, r) ∧ FramesBehindHeader (headerWithTags (4 :: 16 :: List.replicate 16 7)) s r := by
  obtain ⟨⟨s, r⟩, h⟩ := exists_ok (x := EboxStream.readFrom
    (WireReader.new (headerWithTags (4 :: 16 :: List.replicate 16 7)))) (by decide)
  obtain ⟨layout, hl⟩ := exists_ok
    (x := scanHeader (headerWithTags (4 :: 16 :: List.replicate 16 7))) (by decide)
  refine ⟨s, r, h, (framesBehindHeader_iff_faithful h).mpr ⟨layout, hl, ?_⟩⟩
  have hf : ∀ l ∈ (scanHeader (headerWithTags (4 :: 16 :: List.replicate 16 7))).toOption,
      l.Faithful := by decide
  exact hf layout (by rw [hl]; rfl)

/-- A header that spells out the default slot is accepted, and its serialization is
two bytes shorter than what was read. -/
theorem not_framesBehindHeader_defaultSlot :
    ∃ s r, EboxStream.readFrom (WireReader.new (headerWithTags [6, 0x9D])) = .ok (s, r) ∧
      ¬ FramesBehindHeader (headerWithTags [6, 0x9D]) s r := by
  obtain ⟨⟨s, r⟩, h⟩ := exists_ok
    (x := EboxStream.readFrom (WireReader.new (headerWithTags [6, 0x9D]))) (by decide)
  refine ⟨s, r, h, ?_⟩
  rintro ⟨header, hheader, hlen, -⟩
  have hne : ∀ x ∈ (EboxStream.readFrom (WireReader.new (headerWithTags [6, 0x9D]))).toOption,
      x.1.toBytes.map List.length ≠ .ok x.2.pos := by decide
  apply hne (s, r) (by rw [h]; rfl)
  rw [hheader]
  exact congrArg Except.ok hlen

end Piggy.Box
