import Piggy.Go.Lock
import Piggy.Go.Recipients

/-!
# Canonical recipient sets

Two lists of ids have one canonical form exactly when they hold the same keys, and the canonical
form is read back as these keys. An id without data has no text, so neither holds of it.
-/

namespace Piggy.Go.Pigpen

open Piggy.Core
open Piggy.Go.Markl (Id Format production)
open Piggy.Go.Blech32 (isLowerHrpByte charsetByte)
open Piggy.Pigpen (boundary)

variable {t : CaseTables}

/-- The ids that `Set` leads to, on a receiver of any past, and those that `ParseRecipients`
returns. -/
inductive Obtained (t : CaseTables) : Id → Prop where
  | fresh : Obtained t .zero
  | set (value : Bytes) {id : Id} (h : Obtained t id) : Obtained t (Markl.Id.set production t value id).2
  | parsed {raw : Bytes} {ids : List Id} (h : parseRecipients t raw = .ok ids) {id : Id} (hid : id ∈ ids) :
      Obtained t id

/-- Format and data of an encryption recipient. -/
def keyOf (id : Id) : Option (Bytes × Bytes) :=
  if isEncryptionRecipient id then some ((id.format.map Format.id).getD [], id.data) else none

/-- The keys of ids that have one. -/
def keys (ids : List Id) : List (Bytes × Bytes) := ids.filterMap keyOf

/-- As much data as the format says. -/
def HoldsKey (id : Id) : Prop := id.format.map Format.size = some id.data.length

instance (id : Id) : Decidable (HoldsKey id) := inferInstanceAs (Decidable (_ = _))

/-! ## Canonical recipients -/

theorem isEncryptionRecipient_iff {id : Id} : isEncryptionRecipient id = true ↔
    ∃ f, id.format = some f ∧ (f.id = formatPivyP256 ∨ f.id = formatAgeX25519) ∧
      (id.purposeId = [] ∨ id.purposeId = purposeRecipient) := by
  rw [isEncryptionRecipient]
  rcases id.format with _ | f
  · simp
  · simp

/-- A registered format of a recipient: the purpose admits it, and it has a size. -/
theorem recipientFormat_spec {f : Format} (hf : production.getFormatOrError f.id = .ok f)
    (hid : f.id = formatPivyP256 ∨ f.id = formatAgeX25519) :
    production.validatePurposeAndFormatId purposeRecipient f.id = .ok () ∧ f.size ≠ 0 := by
  rcases hid with hid | hid
  · rw [hid] at hf ⊢
    have hsize : production.getFormatOrError formatPivyP256 = .ok ⟨formatPivyP256, 33⟩ := by
      decide +kernel
    obtain rfl := Except.ok.inj (hf.symm.trans hsize)
    exact ⟨by decide +kernel, by decide⟩
  · rw [hid] at hf ⊢
    have hsize : production.getFormatOrError formatAgeX25519 = .ok ⟨formatAgeX25519, 32⟩ := by
      decide +kernel
    obtain rfl := Except.ok.inj (hf.symm.trans hsize)
    exact ⟨by decide +kernel, by decide⟩

theorem canonicalRecipient_iff {id out : Id} (htyped : id.Typed production)
    (henc : isEncryptionRecipient id = true) :
    canonicalRecipient id = .ok out ↔ ∃ f, id.format = some f ∧ (id.data ≠ [] → id.data.length = f.size) ∧
      out = ⟨purposeRecipient, some f, id.data⟩ := by
  obtain ⟨f, hformat, hid, -⟩ := isEncryptionRecipient_iff.mp henc
  have hreg := htyped.registered f hformat
  have hadmits := (recipientFormat_spec hreg hid).1
  have hset : ∀ {back : Id},
      (Id.zero.setPurposeId purposeRecipient).setMarklId production f.id id.data = (.ok (), back) ↔ _ :=
    Id.setMarklId_eq_ok hreg
  simp only [canonicalRecipient, formatOf, hformat, Result.ok_bind]
  generalize Markl.Id.setMarklId production f.id id.data (Id.zero.setPurposeId purposeRecipient) = outcome at hset
  have hzero : (if id.data = [] then (Id.zero.setPurposeId purposeRecipient).data else id.data) = id.data := by
    split
    · next hdata => exact hdata.symm
    · rfl
  rw [hzero] at hset
  rcases outcome with ⟨⟨⟩ | e | _, back⟩
  · obtain ⟨-, hsize, hback⟩ := hset.mp rfl
    dsimp only
    rw [Result.ok.injEq, hback]
    constructor
    · rintro rfl
      exact ⟨f, rfl, hsize, rfl⟩
    · rintro ⟨_, ⟨⟩, -, rfl⟩
      rfl
  · refine iff_of_false nofun ?_
    rintro ⟨_, ⟨⟩, hsize, -⟩
    cases hset.mpr ⟨hadmits, hsize, rfl⟩
  · refine iff_of_false nofun ?_
    rintro ⟨_, ⟨⟩, hsize, -⟩
    cases hset.mpr ⟨hadmits, hsize, rfl⟩

/-! ## Lines -/

/-- A text that stands on a line of its own as it is: it starts like the purpose and has none of
the bytes that lines and comments are cut at. -/
structure Clean (text : Bytes) : Prop where
  head : text.head? = some 0x70
  bytes : ∀ b ∈ text, b ∉ ([0x0A, 0x0D, 0x20, 0x09, 0x23] : Bytes)

/-- A canonical recipient and the line that spells it. -/
structure Names (t : CaseTables) (line : Bytes) (id : Id) : Prop where
  purpose : id.purposeId = purposeRecipient
  format : ∃ f, id.format = some f ∧ production.getFormatOrError f.id = .ok f ∧
    (f.id = formatPivyP256 ∨ f.id = formatAgeX25519) ∧ id.data.length = f.size
  text : textOf t id = .ok line
  read : Markl.Id.set production t line .zero = (.ok (), id)
  clean : Clean line

theorem clean_of_lowerHrp {b : UInt8} (h : isLowerHrpByte b = true) :
    b ∉ ([0x0A, 0x0D, 0x20, 0x09, 0x23] : Bytes) := by
  intro hmem
  simp only [List.mem_cons, List.not_mem_nil, or_false] at hmem
  rcases hmem with rfl | rfl | rfl | rfl | rfl <;> exact absurd h (by decide)

/-- Every key has its line. -/
theorem exists_names {f : Format} (hf : production.getFormatOrError f.id = .ok f)
    (hid : f.id = formatPivyP256 ∨ f.id = formatAgeX25519) {data : Bytes} (hsize : data.length = f.size) :
    ∃ line, Names t line ⟨purposeRecipient, some f, data⟩ := by
  obtain ⟨hadmits, hpos⟩ := recipientFormat_spec hf hid
  have hdata : data ≠ [] := by
    rintro rfl
    exact hpos hsize.symm
  have hsound : Id.Sound production ⟨purposeRecipient, some f, data⟩ := by
    refine ⟨.inr ⟨f, rfl, hsize⟩, ?_, ⟨_, rfl⟩, ?_⟩
    · rintro g ⟨⟩
      exact hf
    · rintro g ⟨⟩
      exact hadmits
  obtain ⟨line, hline, hread⟩ := hsound.readBack (t := t) rfl
  obtain ⟨-, -, hchars, -⟩ := production.getFormatOrError_spec hf
  simp only [Markl.Id.marshalText] at hline
  rcases hbody : Blech32.encode t f.id data with e | body
  · rw [hbody] at hline
    cases hline
  · rw [hbody] at hline
    have hwith : line = purposeRecipient ++ 0x40 :: body := by
      rw [← Result.ok.inj hline]
      rfl
    obtain ⟨-, -, groups, hspelled, hcarries⟩ := (Blech32.encode_eq_ok t).mp hbody
    have hgroups := Blech32.lowerHrp_map_charsetByte hcarries.range
    refine ⟨line, rfl, ⟨f, rfl, hf, hid, hsize⟩, ?_, hread, by rw [hwith]; rfl, ?_⟩
    · rw [textOf, Markl.Id.stringWithFormat, if_neg hdata]
      simp only [Markl.Id.mustEncode, hbody, Result.ok_bind]
      rw [← Result.ok.inj hline]
      rfl
    · rw [hwith, hspelled]
      intro b hb
      simp only [List.mem_append, List.mem_cons] at hb
      rcases hb with hb | rfl | hb | rfl | hb
      · have hpurpose : ∀ b ∈ purposeRecipient, b ∉ ([0x0A, 0x0D, 0x20, 0x09, 0x23] : Bytes) := by
          decide +kernel
        exact hpurpose b hb
      · decide
      · exact clean_of_lowerHrp (hchars b hb)
      · decide
      · exact clean_of_lowerHrp (hgroups b hb)

namespace Names

variable {line : Bytes} {id : Id}

theorem data_ne_nil (h : Names t line id) : id.data ≠ [] := by
  obtain ⟨f, -, hf, hid, hsize⟩ := h.format
  intro hdata
  rw [hdata] at hsize
  exact (recipientFormat_spec hf hid).2 hsize.symm

theorem encryption (h : Names t line id) : isEncryptionRecipient id = true := by
  obtain ⟨f, hformat, -, hid, -⟩ := h.format
  exact isEncryptionRecipient_iff.mpr ⟨f, hformat, hid, .inr h.purpose⟩

theorem typed (h : Names t line id) : id.Typed production := by
  obtain ⟨f, hformat, hf, -⟩ := h.format
  refine ⟨?_, fun hnone => absurd (hformat.symm.trans hnone) nofun⟩
  intro g hg
  obtain rfl := Option.some.inj (hformat.symm.trans hg)
  exact hf

theorem canonical (h : Names t line id) : canonicalRecipient id = .ok id := by
  obtain ⟨f, hformat, -, -, hsize⟩ := h.format
  refine (canonicalRecipient_iff h.typed h.encryption).mpr ⟨f, hformat, fun _ => hsize, ?_⟩
  rw [← h.purpose, ← hformat]

/-- The lines of one key are the same. -/
theorem unique {line' : Bytes} {id' : Id} (h : Names t line id) (h' : Names t line' id')
    (hkey : keyOf id = keyOf id') : line = line' := by
  obtain ⟨f, hformat, hf, -⟩ := h.format
  obtain ⟨f', hformat', hf', -⟩ := h'.format
  rw [keyOf, keyOf, if_pos h.encryption, if_pos h'.encryption, hformat, hformat'] at hkey
  obtain ⟨hid, hdata⟩ := Prod.mk.inj (Option.some.inj hkey)
  simp only [Option.map_some, Option.getD_some] at hid
  rw [hid] at hf
  have hff : f = f' := Except.ok.inj (hf.symm.trans hf')
  have hsame : id = id' := by
    obtain ⟨purpose, format, data⟩ := id
    obtain ⟨purpose', format', data'⟩ := id'
    have hpurpose : purpose = purpose' := h.purpose.trans h'.purpose.symm
    have hformats : format = format' := by
      rw [show format = some f from hformat, show format' = some f' from hformat', hff]
    have hdatas : data = data' := hdata
    rw [hpurpose, hformats, hdatas]
  have htext := h.text
  rw [hsame, h'.text] at htext
  exact (Result.ok.inj htext).symm

/-- A line is read as the id it spells. -/
theorem recipientOfLine (h : Names t line id) (n : Nat) : recipientOfLine t n line = .ok (some id) := by
  have hno : ∀ b ∈ line, isWsp b = false := by
    intro b hb
    have hbyte := h.clean.bytes b hb
    simp only [List.mem_cons, not_or] at hbyte
    simp [isWsp, hbyte]
  have hcr : trimCr line = line := by
    rw [trimCr, if_neg]
    intro hlast
    exact h.clean.bytes _ (List.mem_of_getLast? hlast) (by decide)
  have hdrop : line.dropWhile isWsp = line := by
    have hhead := h.clean.head
    rcases line with _ | ⟨b, bs⟩
    · rfl
    · exact List.dropWhile_cons_of_neg (by simp [hno b List.mem_cons_self])
  have htrim : trimWsp line = line := by
    rw [trimWsp, hdrop, List.rdropWhile_eq_self_iff]
    intro hne
    simp [hno _ (List.getLast_mem hne)]
  have htake : line.takeWhile (fun b => !isWsp b) = line := by
    rw [List.takeWhile_eq_self_iff]
    intro b hb
    simp [hno b hb]
  have hrest : line.dropWhile (fun b => !isWsp b) = [] := by
    rw [List.dropWhile_eq_nil_iff]
    intro b hb
    simp [hno b hb]
  have hne : ¬ (line = [] ∨ line.head? = some 0x23) := by
    rw [h.clean.head]
    rintro (rfl | hhash)
    · exact nomatch h.clean.head
    · exact absurd hhash (by decide)
  have hset : setId t (.badId (n + 1) line) line = .ok id := by
    rw [setId, h.read]
  rw [Pigpen.recipientOfLine, hcr, htrim, if_neg hne, htake, hrest]
  rw [if_neg (by simp), hset, Result.ok_bind, if_pos h.encryption, h.canonical]
  rfl

end Names

/-! ## The lines of a list -/

/-- What a recipient adds to the lines. -/
def LineOf (t : CaseTables) (id : Id) (line : Bytes) : Prop :=
  isEncryptionRecipient id = true ∧ ∃ canonical, canonicalRecipient id = .ok canonical ∧
    textOf t canonical = .ok line

theorem mustCanonical_eq_ok {id canonical : Id} :
    mustCanonical id = .ok canonical ↔ canonicalRecipient id = .ok canonical := by
  rw [mustCanonical]
  rcases canonicalRecipient id with c | e | _
  · rfl
  · exact ⟨nofun, nofun⟩
  · exact ⟨nofun, nofun⟩

theorem addLine_eq_ok {lines lines' : List Bytes} {id : Id} (henc : isEncryptionRecipient id = true) :
    addLine t lines id = .ok lines' ↔
      ∃ line, LineOf t id line ∧ lines' = if line ∈ lines then lines else lines ++ [line] := by
  rw [addLine, if_neg (by simp [henc])]
  simp only [Result.bind_eq_ok, mustCanonical_eq_ok, LineOf, henc, true_and]
  have hif : ∀ line, (if line ∈ lines then Result.ok lines else .ok (lines ++ [line])) =
      (Result.ok lines' : Result Error (List Bytes)) ↔
        lines' = if line ∈ lines then lines else lines ++ [line] := by
    intro line
    split
    · rw [Result.ok.injEq, eq_comm]
    · rw [Result.ok.injEq, eq_comm]
  simp only [hif]
  constructor
  · rintro ⟨canonical, hcanonical, line, htext, hlines⟩
    exact ⟨line, ⟨canonical, hcanonical, htext⟩, hlines⟩
  · rintro ⟨line, ⟨canonical, hcanonical, htext⟩, hlines⟩
    exact ⟨canonical, hcanonical, line, htext, hlines⟩

theorem LineOf.unique {id : Id} {line line' : Bytes} (h : LineOf t id line) (h' : LineOf t id line') :
    line = line' := by
  obtain ⟨-, canonical, hcanonical, htext⟩ := h
  obtain ⟨-, canonical', hcanonical', htext'⟩ := h'
  obtain rfl := Result.ok.inj (hcanonical.symm.trans hcanonical')
  exact Result.ok.inj (htext.symm.trans htext')

/-- The loop collects the line of each recipient once. -/
theorem lines_of_foldlM {ids : List Id} {start lines : List Bytes}
    (h : ids.foldlM (addLine t) start = .ok lines) (hstart : start.Nodup) :
    lines.Nodup ∧ (∀ line, line ∈ lines ↔ line ∈ start ∨ ∃ id ∈ ids, LineOf t id line) ∧
      ∀ id ∈ ids, isEncryptionRecipient id = true → ∃ line, LineOf t id line := by
  induction ids generalizing start with
  | nil =>
    cases h
    exact ⟨hstart, by simp, nofun⟩
  | cons id ids ih =>
    rw [List.foldlM_cons, Result.bind_eq_ok] at h
    obtain ⟨mid, hmid, hrest⟩ := h
    by_cases henc : isEncryptionRecipient id = true
    · obtain ⟨line, hline, rfl⟩ := (addLine_eq_ok henc).mp hmid
      have hnodup : (if line ∈ start then start else start ++ [line]).Nodup := by
        split
        · exact hstart
        · next hno => exact List.nodup_append.mpr ⟨hstart, by simp, by rintro x hx y hy rfl; simp_all⟩
      have hmem : ∀ x, x ∈ (if line ∈ start then start else start ++ [line]) ↔ x ∈ start ∨ x = line := by
        intro x
        split
        · next hin =>
          refine ⟨.inl, ?_⟩
          rintro (hx | rfl)
          · exact hx
          · exact hin
        · simp
      obtain ⟨hlines, hall, hhas⟩ := ih hrest hnodup
      refine ⟨hlines, ?_, ?_⟩
      · intro x
        rw [hall, hmem, or_assoc, List.exists_mem_cons_iff]
        have hx : x = line ↔ LineOf t id x := ⟨fun hx => hx ▸ hline, fun hx => hx.unique hline⟩
        rw [hx]
      · rw [List.forall_mem_cons]
        exact ⟨fun _ => ⟨line, hline⟩, hhas⟩
    · rw [addLine, if_pos (by simpa using henc)] at hmid
      cases hmid
      obtain ⟨hlines, hall, hhas⟩ := ih hrest hstart
      refine ⟨hlines, ?_, ?_⟩
      · intro x
        rw [hall, List.exists_mem_cons_iff]
        have hno : ¬ LineOf t id x := fun hx => henc hx.1
        simp only [hno, false_or]
      · rw [List.forall_mem_cons]
        exact ⟨fun h => absurd h henc, hhas⟩

/-- The loop ends when every recipient has a line. -/
theorem exists_foldlM {ids : List Id}
    (h : ∀ id ∈ ids, isEncryptionRecipient id = true → ∃ line, LineOf t id line) (start : List Bytes) :
    ∃ lines, ids.foldlM (addLine t) start = .ok lines := by
  induction ids generalizing start with
  | nil => exact ⟨start, rfl⟩
  | cons id ids ih =>
    obtain ⟨hid, hids⟩ := List.forall_mem_cons.mp h
    simp only [List.foldlM_cons, Result.bind_eq_ok]
    by_cases henc : isEncryptionRecipient id = true
    · obtain ⟨line, hline⟩ := hid henc
      obtain ⟨lines, hlines⟩ := ih hids (if line ∈ start then start else start ++ [line])
      exact ⟨lines, _, (addLine_eq_ok henc).mpr ⟨line, hline, rfl⟩, hlines⟩
    · obtain ⟨lines, hlines⟩ := ih hids start
      exact ⟨lines, start, by rw [addLine, if_pos (by simpa using henc)], hlines⟩

/-- The line of an id with typed data: the empty one, or the one that names its key. -/
theorem LineOf.cases {id : Id} {line : Bytes} (h : LineOf t id line) (htyped : id.Typed production) :
    (id.data = [] ∧ line = []) ∨ (HoldsKey id ∧ ∃ c, Names t line c ∧ keyOf c = keyOf id) := by
  obtain ⟨henc, canonical, hcanonical, htext⟩ := h
  obtain ⟨f, hformat, hsize, rfl⟩ := (canonicalRecipient_iff htyped henc).mp hcanonical
  by_cases hdata : id.data = []
  · left
    rw [textOf, Markl.Id.stringWithFormat, if_pos hdata] at htext
    exact ⟨hdata, (Result.ok.inj htext).symm⟩
  · right
    obtain ⟨g, hg, hid, -⟩ := isEncryptionRecipient_iff.mp henc
    obtain rfl := Option.some.inj (hformat.symm.trans hg)
    obtain ⟨line', hnames⟩ := exists_names (t := t) (htyped.registered f hformat) hid (hsize hdata)
    obtain rfl : line' = line := Result.ok.inj (hnames.text.symm.trans htext)
    refine ⟨?_, _, hnames, ?_⟩
    · rw [HoldsKey, hformat, Option.map_some, hsize hdata]
    · rw [keyOf, keyOf, if_pos henc, if_pos hnames.encryption, hformat]

theorem exists_lineOf {id : Id} (htyped : id.Typed production) (henc : isEncryptionRecipient id = true)
    (hkey : HoldsKey id) : ∃ line, LineOf t id line ∧ ∃ c, Names t line c ∧ keyOf c = keyOf id := by
  obtain ⟨f, hformat, hid, -⟩ := isEncryptionRecipient_iff.mp henc
  have hsize : id.data.length = f.size := by
    rw [HoldsKey, hformat] at hkey
    exact (Option.some.inj hkey).symm
  obtain ⟨line, hnames⟩ := exists_names (t := t) (htyped.registered f hformat) hid hsize
  refine ⟨line, ⟨henc, _, (canonicalRecipient_iff htyped henc).mpr ⟨f, hformat, fun _ => hsize, rfl⟩,
    hnames.text⟩, _, hnames, ?_⟩
  rw [keyOf, keyOf, if_pos henc, if_pos hnames.encryption, hformat]

/-! ## Reading the canonical form -/

/-- An empty line, or one that spells a key. -/
def Canonical (t : CaseTables) (line : Bytes) : Prop := line = [] ∨ ∃ id, Names t line id

theorem Canonical.lineFeed_notMem {line : Bytes} (h : Canonical t line) : 0x0A ∉ line := by
  rcases h with rfl | ⟨id, hnames⟩
  · exact nofun
  · exact fun hmem => hnames.clean.bytes _ hmem (by decide)

theorem splitOn_lines {lines : List Bytes} (h : ∀ line ∈ lines, Canonical t line) :
    (lines.flatMap (· ++ [0x0A])).splitOn 0x0A = lines ++ [[]] := by
  induction lines with
  | nil => rfl
  | cons line lines ih =>
    obtain ⟨hline, hlines⟩ := List.forall_mem_cons.mp h
    rw [List.flatMap_cons, List.append_assoc, List.singleton_append,
      List.splitOn_append_cons_self_of_not_mem hline.lineFeed_notMem, ih hlines]
    rfl

/-- The lines are read one by one; empty ones are passed over. -/
theorem readRecipient_lines {lines : List Bytes} (h : ∀ line ∈ lines, Canonical t line) (n : Nat)
    (out : List Id) : ∃ back, ((lines ++ [[]]).zipIdx n).foldlM (readRecipient t) out = .ok (out ++ back) ∧
      List.Forall₂ (Names t) (lines.filter (· ≠ [])) back := by
  induction lines generalizing n out with
  | nil => exact ⟨[], by rw [List.append_nil]; rfl, .nil⟩
  | cons line lines ih =>
    obtain ⟨hline, hlines⟩ := List.forall_mem_cons.mp h
    rw [List.cons_append, List.zipIdx_cons, List.foldlM_cons]
    rcases hline with rfl | ⟨id, hnames⟩
    · obtain ⟨back, hback, hnames⟩ := ih hlines (n + 1) out
      exact ⟨back, hback, hnames⟩
    · obtain ⟨back, hback, hrest⟩ := ih hlines (n + 1) (out ++ [id])
      have hturn : readRecipient t out (line, n) = .ok (out ++ [id]) := by
        rw [readRecipient, hnames.recipientOfLine]
        rfl
      have hne : line ≠ [] := by
        rintro rfl
        exact nomatch hnames.clean.head
      refine ⟨id :: back, ?_, ?_⟩
      · rw [hturn, Result.ok_bind, hback, List.append_assoc]
        rfl
      · rw [List.filter_cons_of_pos (by simpa using hne)]
        exact .cons hnames hrest

/-- No line starts like a document. -/
theorem not_boundary {lines : List Bytes} (h : ∀ line ∈ lines, Canonical t line) :
    ¬ boundary <+: lines.flatMap (· ++ [0x0A]) := by
  rintro ⟨rest, hrest⟩
  rcases lines with _ | ⟨line, lines⟩
  · cases hrest
  · rw [List.flatMap_cons] at hrest
    rcases h line List.mem_cons_self with rfl | ⟨id, hnames⟩
    · exact absurd (List.cons.inj hrest).1 (by decide)
    · have hhead := hnames.clean.head
      rcases line with _ | ⟨b, bs⟩
      · cases hhead
      · obtain rfl := Option.some.inj hhead
        exact absurd (List.cons.inj hrest).1 (by decide)

theorem parseRecipients_lines {lines : List Bytes} (h : ∀ line ∈ lines, Canonical t line) :
    ∃ back, parseRecipients t (lines.flatMap (· ++ [0x0A])) = .ok back ∧
      List.Forall₂ (Names t) (lines.filter (· ≠ [])) back := by
  obtain ⟨back, hback, hnames⟩ := readRecipient_lines h 0 []
  refine ⟨back, ?_, hnames⟩
  rw [parseRecipients, if_pos (not_boundary h), parseRFC0003Recipients, splitOn_lines h]
  exact hback

/-! ## What is obtained -/

theorem typed_of_canonicalRecipient {src id : Id} (h : canonicalRecipient src = .ok id) :
    id.Typed production := by
  simp only [canonicalRecipient, Result.bind_eq_ok] at h
  obtain ⟨format, -, h⟩ := h
  have htyped : ((Id.zero.setPurposeId purposeRecipient).setMarklId production format src.data).2.Typed
      production := Id.typed_setMarklId format src.data (Id.zero.setPurposeId purposeRecipient)
  generalize Markl.Id.setMarklId production format src.data (Id.zero.setPurposeId purposeRecipient) = outcome at h htyped
  rcases outcome with ⟨⟨⟩ | e | _, back⟩
  · cases h
    exact htyped
  · cases h
  · cases h

/-- What a file of recipients is read as is typed. -/
theorem typed_of_parseRecipients {raw : Bytes} {ids : List Id} (h : parseRecipients t raw = .ok ids) :
    ∀ id ∈ ids, id.Typed production := by
  have hsnoc : ∀ {out : List Id} {id : Id}, (∀ x ∈ out, x.Typed production) → id.Typed production →
      ∀ x ∈ out ++ [id], x.Typed production := by
    intro out id hout hid
    exact List.forall_mem_append.mpr ⟨hout, by simpa using hid⟩
  rw [parseRecipients] at h
  split at h
  · refine Result.foldlM_keeps (P := fun out => ∀ id ∈ out, id.Typed production) ?_ nofun h
    rintro out ⟨line, n⟩ - out' hout hturn
    rw [readRecipient, Result.bind_eq_ok] at hturn
    obtain ⟨_ | id, hline, hturn⟩ := hturn
    · cases hturn
      exact hout
    · cases hturn
      refine hsnoc hout ?_
      rw [Pigpen.recipientOfLine] at hline
      dsimp only at hline
      split at hline
      · cases hline
      split at hline
      · cases hline
      rw [Result.bind_eq_ok] at hline
      obtain ⟨src, -, hline⟩ := hline
      split at hline
      · rw [Result.bind_eq_ok] at hline
        obtain ⟨canonical, hcanonical, hline⟩ := hline
        cases hline
        exact typed_of_canonicalRecipient hcanonical
      split at hline
      · cases hline
      · cases hline
  · split at h
    · cases h
    rw [Result.bind_eq_ok] at h
    obtain ⟨doc, -, h⟩ := h
    refine Result.foldlM_keeps (P := fun out => ∀ id ∈ out, id.Typed production) ?_ nofun h
    intro out r _ out' hout hturn
    rw [addEncryptionRecipient] at hturn
    split at hturn
    · cases hturn
      exact hout
    · rw [Result.bind_eq_ok] at hturn
      obtain ⟨id, hid, hturn⟩ := hturn
      cases hturn
      exact hsnoc hout (typed_of_canonicalRecipient (mustCanonical_eq_ok.mp hid))

theorem Obtained.typed {id : Id} (h : Obtained t id) : id.Typed production := by
  induction h with
  | fresh => exact .zero
  | set value _ ih => exact (Id.readsText_set production t).typed value ih
  | parsed h hid => exact typed_of_parseRecipients h _ hid

/-! ## Equal sets -/

/-- The lines of a list of recipients that all have a key: each key once, in the order of the
bytes. -/
structure Spells (t : CaseTables) (ids : List Id) (lines : List Bytes) : Prop where
  nodup : lines.Nodup
  sorted : lines.Pairwise (· ≤ ·)
  named : ∀ line ∈ lines, ∃ c, Names t line c ∧ ∃ id ∈ ids, keyOf c = keyOf id
  covers : ∀ id ∈ ids, isEncryptionRecipient id = true →
    ∃ line ∈ lines, ∃ c, Names t line c ∧ keyOf c = keyOf id

theorem mem_keys {ids : List Id} {key : Bytes × Bytes} :
    key ∈ keys ids ↔ ∃ id ∈ ids, keyOf id = some key := by
  rw [keys, List.mem_filterMap]

theorem encryption_of_keyOf {id : Id} {key : Bytes × Bytes} (h : keyOf id = some key) :
    isEncryptionRecipient id = true := by
  by_contra hno
  rw [keyOf, if_neg hno] at h
  cases h

namespace Spells

variable {ids ids' : List Id} {lines lines' : List Bytes}

theorem mem_keys_iff (h : Spells t ids lines) {key : Bytes × Bytes} :
    key ∈ keys ids ↔ ∃ line ∈ lines, ∃ c, Names t line c ∧ keyOf c = some key := by
  rw [mem_keys]
  constructor
  · rintro ⟨id, hid, hkey⟩
    obtain ⟨line, hline, c, hnames, hc⟩ := h.covers id hid (encryption_of_keyOf hkey)
    exact ⟨line, hline, c, hnames, hc.trans hkey⟩
  · rintro ⟨line, hline, c, hnames, hkey⟩
    obtain ⟨c', hnames', id, hid, hc⟩ := h.named line hline
    obtain rfl : c = c' := (Prod.mk.inj (hnames.read.symm.trans hnames'.read)).2
    exact ⟨id, hid, hc.symm.trans hkey⟩

theorem canonical (h : Spells t ids lines) : ∀ line ∈ lines, Canonical t line := by
  intro line hline
  obtain ⟨c, hnames, -⟩ := h.named line hline
  exact .inr ⟨c, hnames⟩

theorem subset (h : Spells t ids lines) (h' : Spells t ids' lines')
    (hkeys : ∀ key, key ∈ keys ids → key ∈ keys ids') : lines ⊆ lines' := by
  intro line hline
  obtain ⟨c, hnames, -⟩ := h.named line hline
  have hkey : keyOf c = some _ := if_pos hnames.encryption
  obtain ⟨line', hline', c', hnames', hc'⟩ :=
    h'.mem_keys_iff.mp (hkeys _ (h.mem_keys_iff.mpr ⟨line, hline, c, hnames, hkey⟩))
  rw [hnames.unique hnames' (hkey.trans hc'.symm)]
  exact hline'

/-- The same keys have the same lines, and these the same bytes. -/
theorem eq_iff (h : Spells t ids lines) (h' : Spells t ids' lines') :
    lines.flatMap (· ++ [0x0A]) = lines'.flatMap (· ++ [0x0A]) ↔
      ∀ key, key ∈ keys ids ↔ key ∈ keys ids' := by
  constructor
  · intro heq key
    have hsplit := splitOn_lines h.canonical
    rw [heq, splitOn_lines h'.canonical] at hsplit
    rw [h.mem_keys_iff, h'.mem_keys_iff, List.append_cancel_right hsplit]
  · intro hkeys
    have hmem : ∀ line, line ∈ lines ↔ line ∈ lines' := fun line =>
      ⟨fun hline => h.subset h' (fun key => (hkeys key).mp) hline,
        fun hline => h'.subset h (fun key => (hkeys key).mpr) hline⟩
    have hperm := (List.perm_ext_iff_of_nodup h.nodup h'.nodup).mpr hmem
    rw [hperm.eq_of_pairwise' h.sorted h'.sorted]

end Spells

/-- The canonical form is read as the same keys in canonical order, each once. -/
def ReadsBack (t : CaseTables) (ids : List Id) (bytes : Bytes) : Prop :=
  ∃ back lines, parseRecipients t bytes = .ok back ∧ bytes = lines.flatMap (· ++ [0x0A]) ∧
    List.Forall₂ (fun line id => Markl.Id.stringWithFormat t id = .ok line) lines back ∧
    lines.Pairwise (· ≤ ·) ∧ lines.Nodup ∧ (keys back).Nodup ∧
    (∀ id ∈ back, isEncryptionRecipient id = true ∧ id.purposeId = purposeRecipient) ∧
    ∀ key, key ∈ keys back ↔ key ∈ keys ids

theorem stringWithFormat_of_textOf {id : Id} {line : Bytes} (h : textOf t id = .ok line) :
    Markl.Id.stringWithFormat t id = .ok line := by
  rw [textOf] at h
  rcases htext : Markl.Id.stringWithFormat t id with text | e | _
  · rw [htext] at h
    rw [Result.ok.inj h]
  · rw [htext] at h
    cases h
  · rw [htext] at h
    cases h

/-- Different lines name different keys. -/
theorem nodup_keys {lines : List Bytes} {back : List Id} (h : List.Forall₂ (Names t) lines back)
    (hnodup : lines.Nodup) : (keys back).Nodup := by
  induction h with
  | nil => exact .nil
  | @cons line id lines back hnames hrest ih =>
    obtain ⟨hno, hnodup⟩ := List.nodup_cons.mp hnodup
    have hkey : keyOf id = some _ := if_pos hnames.encryption
    rw [keys, List.filterMap_cons_some hkey]
    refine List.nodup_cons.mpr ⟨?_, ih hnodup⟩
    intro hmem
    obtain ⟨id', hid', hkey'⟩ := mem_keys.mp hmem
    obtain ⟨line', hline', hnames'⟩ := forall₂_mem_right hrest hid'
    rw [hnames.unique hnames' (hkey.trans hkey'.symm)] at hno
    exact hno hline'

theorem Spells.readsBack {ids : List Id} {lines : List Bytes} (h : Spells t ids lines) :
    ReadsBack t ids (lines.flatMap (· ++ [0x0A])) := by
  obtain ⟨back, hback, hnames⟩ := parseRecipients_lines h.canonical
  have hall : lines.filter (· ≠ []) = lines := by
    refine List.filter_eq_self.mpr fun line hline => decide_eq_true ?_
    obtain ⟨c, hnames, -⟩ := h.named line hline
    rintro rfl
    exact nomatch hnames.clean.head
  rw [hall] at hnames
  refine ⟨back, lines, hback, rfl, hnames.imp fun line id hn => stringWithFormat_of_textOf hn.text,
    h.sorted, h.nodup, nodup_keys hnames h.nodup, ?_, ?_⟩
  · intro id hid
    obtain ⟨line, -, hn⟩ := forall₂_mem_right hnames hid
    exact ⟨hn.encryption, hn.purpose⟩
  · intro key
    rw [h.mem_keys_iff, mem_keys]
    constructor
    · rintro ⟨id, hid, hkey⟩
      obtain ⟨line, hline, hn⟩ := forall₂_mem_right hnames hid
      exact ⟨line, hline, id, hn, hkey⟩
    · rintro ⟨line, hline, c, hn, hkey⟩
      obtain ⟨id, hid, hn'⟩ := forall₂_mem_left hnames hline
      obtain rfl : c = id := (Prod.mk.inj (hn.read.symm.trans hn'.read)).2
      exact ⟨c, hid, hkey⟩

/-- The canonical forms of two lists tell their sets of keys apart, and each is read back. -/
def DecideEquality (t : CaseTables) (a b : List Id) : Prop :=
  ∃ x y, canonicalRecipientSet t a = .ok x ∧ canonicalRecipientSet t b = .ok y ∧
    (x = y ↔ ∀ key, key ∈ keys a ↔ key ∈ keys b) ∧ sameRecipientSet t a b = .ok (x == y) ∧
    ReadsBack t a x ∧ ReadsBack t b y

/-- Every recipient of a list has a key. -/
def FullKeys (ids : List Id) : Prop := ∀ id ∈ ids, isEncryptionRecipient id = true → HoldsKey id

theorem exists_spells {ids : List Id} (htyped : ∀ id ∈ ids, id.Typed production) (hfull : FullKeys ids) :
    ∃ lines, canonicalRecipientSet t ids = .ok (lines.flatMap (· ++ [0x0A])) ∧ Spells t ids lines := by
  have hline : ∀ id ∈ ids, isEncryptionRecipient id = true →
      ∃ line, LineOf t id line ∧ ∃ c, Names t line c ∧ keyOf c = keyOf id :=
    fun id hid henc => exists_lineOf (htyped id hid) henc (hfull id hid henc)
  obtain ⟨lines, hfold⟩ : ∃ lines, ids.foldlM (addLine t) [] = .ok lines :=
    exists_foldlM (fun id hid henc => (hline id hid henc).imp fun _ h => h.1) []
  obtain ⟨hnodup, hmem, -⟩ := lines_of_foldlM hfold .nil
  have hperm := List.perm_insertionSort (· ≤ ·) lines
  refine ⟨lines.insertionSort (· ≤ ·), by rw [canonicalRecipientSet, hfold]; rfl,
    hperm.nodup_iff.mpr hnodup, List.pairwise_insertionSort _ _, ?_, ?_⟩
  · intro line hin
    rw [hperm.mem_iff, hmem] at hin
    obtain hin | ⟨id, hid, hof⟩ := hin
    · cases hin
    · obtain ⟨line', hof', c, hnames, hkey⟩ := hline id hid hof.1
      obtain rfl := hof.unique hof'
      exact ⟨c, hnames, id, hid, hkey⟩
  · intro id hid henc
    obtain ⟨line, hof, c, hnames, hkey⟩ := hline id hid henc
    exact ⟨line, hperm.mem_iff.mpr ((hmem line).mpr (.inr ⟨id, hid, hof⟩)), c, hnames, hkey⟩

/-- A list whose canonical form is read back has a key for each recipient. -/
theorem fullKeys_of_readsBack {ids : List Id} (htyped : ∀ id ∈ ids, id.Typed production) {bytes : Bytes}
    (h : canonicalRecipientSet t ids = .ok bytes) (hback : ReadsBack t ids bytes) : FullKeys ids := by
  rw [canonicalRecipientSet, Result.bind_eq_ok] at h
  obtain ⟨lines, hfold, hbytes⟩ := h
  obtain ⟨-, hmem, hhas⟩ := lines_of_foldlM hfold .nil
  have hperm := List.perm_insertionSort (· ≤ ·) lines
  have hcanonical : ∀ line ∈ lines.insertionSort (· ≤ ·), Canonical t line := by
    intro line hin
    rw [hperm.mem_iff, hmem] at hin
    obtain hin | ⟨id, hid, hof⟩ := hin
    · cases hin
    · rcases hof.cases (htyped id hid) with ⟨-, rfl⟩ | ⟨-, c, hnames, -⟩
      · exact .inl rfl
      · exact .inr ⟨c, hnames⟩
  obtain ⟨back, hparse, hnames⟩ := parseRecipients_lines hcanonical
  rw [← Result.ok.inj hbytes] at hback
  obtain ⟨back', -, hparse', -, -, -, -, -, -, hkeys⟩ := hback
  obtain rfl : back = back' := Result.ok.inj (hparse.symm.trans hparse')
  intro id hid henc
  obtain ⟨line, hof⟩ := hhas id hid henc
  rcases hof.cases (htyped id hid) with ⟨hdata, -⟩ | ⟨hholds, -⟩
  · -- the key of this id has no data, and nothing that is read back is like that
    have hkey : keyOf id = some _ := if_pos henc
    obtain ⟨id', hid', hkey'⟩ := mem_keys.mp ((hkeys _).mpr (mem_keys.mpr ⟨id, hid, hkey⟩))
    obtain ⟨line', -, hn⟩ := forall₂_mem_right hnames hid'
    rw [keyOf, if_pos hn.encryption] at hkey'
    exact absurd ((Prod.mk.inj (Option.some.inj hkey')).2.trans hdata) hn.data_ne_nil
  · exact hholds

theorem decideEquality_iff {a b : List Id} (ha : ∀ id ∈ a, id.Typed production)
    (hb : ∀ id ∈ b, id.Typed production) : DecideEquality t a b ↔ FullKeys a ∧ FullKeys b := by
  constructor
  · rintro ⟨x, y, hx, hy, -, -, hbackx, hbacky⟩
    exact ⟨fullKeys_of_readsBack ha hx hbackx, fullKeys_of_readsBack hb hy hbacky⟩
  · rintro ⟨hfa, hfb⟩
    obtain ⟨linesA, hA, hspellsA⟩ := exists_spells (t := t) ha hfa
    obtain ⟨linesB, hB, hspellsB⟩ := exists_spells (t := t) hb hfb
    refine ⟨_, _, hA, hB, hspellsA.eq_iff hspellsB, ?_, hspellsA.readsBack, hspellsB.readsBack⟩
    rw [sameRecipientSet, hA, hB]
    rfl

/-- The canonical forms of ids that were obtained decide equality of their sets exactly when no
recipient among them lacks its key. -/
theorem recipientSets_iff (t : CaseTables) {a b : List Id} (ha : ∀ id ∈ a, Obtained t id)
    (hb : ∀ id ∈ b, Obtained t id) : DecideEquality t a b ↔ FullKeys a ∧ FullKeys b :=
  decideEquality_iff (fun id hid => (ha id hid).typed) fun id hid => (hb id hid).typed

/-- The id that a text is read as. -/
def readId (text : String) : Id := (Markl.Id.set production asciiTables (utf8 text.toList) .zero).2

theorem obtained_readId (text : String) : Obtained asciiTables (readId text) := .set _ .fresh

theorem of_readId {p : Id → Prop} {text : List Char}
    (h : p (Markl.Id.set production asciiTables (utf8 text) .zero).2) :
    p (readId (String.ofList text)) := by
  rw [readId, String.toList_ofList]
  exact h

/-- One key, bare and under its purpose. -/
def sampleBare : Id := readId "age_x25519_pub-qqqqqqqqqqqqqqqqqqqqqqqqqqqqqqqqqqqqqqqqqqqqqqqqqqqq3cjae3"

def sampleTagged : Id :=
  readId "piggy-recipient-v1@age_x25519_pub-qqqqqqqqqqqqqqqqqqqqqqqqqqqqqqqqqqqqqqqqqqqqqqqqqqqq3cjae3"

theorem sampleBare_holdsKey : HoldsKey sampleBare := of_readId (p := HoldsKey) (by decide +kernel)

theorem sampleTagged_holdsKey : HoldsKey sampleTagged :=
  of_readId (p := HoldsKey) (by decide +kernel)

theorem recipientSets_iff_sample :
    DecideEquality asciiTables [sampleBare] [sampleTagged, sampleBare] := by
  refine (recipientSets_iff asciiTables ?_ ?_).mpr ⟨?_, ?_⟩
  · simp only [List.forall_mem_cons]
    exact ⟨obtained_readId _, nofun⟩
  · simp only [List.forall_mem_cons]
    exact ⟨obtained_readId _, obtained_readId _, nofun⟩
  · simp only [FullKeys, List.forall_mem_cons]
    exact ⟨fun _ => sampleBare_holdsKey, nofun⟩
  · simp only [FullKeys, List.forall_mem_cons]
    exact ⟨fun _ => sampleTagged_holdsKey, fun _ => sampleBare_holdsKey, nofun⟩

set_option maxRecDepth 20000 in
theorem canonical_samples :
    canonicalRecipientSet asciiTables [readId "age_x25519_pub-naxu4c"] =
      canonicalRecipientSet asciiTables [readId "pivy_ecdh_p256_pub-wsqq8l"] :=
  of_readId (p := fun a => canonicalRecipientSet asciiTables [a] =
      canonicalRecipientSet asciiTables [readId "pivy_ecdh_p256_pub-wsqq8l"])
    (of_readId (p := fun b => canonicalRecipientSet asciiTables [_] =
      canonicalRecipientSet asciiTables [b]) (by decide +kernel))

theorem sample_no_key :
    isEncryptionRecipient (readId "age_x25519_pub-naxu4c") = true ∧
      ¬ HoldsKey (readId "age_x25519_pub-naxu4c") :=
  of_readId (p := fun id => isEncryptionRecipient id = true ∧ ¬ HoldsKey id) (by decide +kernel)

/-- Two checksums without data, of different families: their canonical forms are one, and not read
back. -/
theorem not_decideEquality_samples :
    ¬ DecideEquality asciiTables [readId "age_x25519_pub-naxu4c"] [readId "pivy_ecdh_p256_pub-wsqq8l"] ∧
      canonicalRecipientSet asciiTables [readId "age_x25519_pub-naxu4c"] =
        canonicalRecipientSet asciiTables [readId "pivy_ecdh_p256_pub-wsqq8l"] := by
  refine ⟨?_, canonical_samples⟩
  intro h
  have htyped : ∀ text, ∀ id ∈ [readId text], id.Typed production := by
    intro text
    simp only [List.forall_mem_cons]
    exact ⟨(obtained_readId text).typed, nofun⟩
  obtain ⟨hfull, -⟩ := (decideEquality_iff (htyped _) (htyped _)).mp h
  exact sample_no_key.2 (hfull _ List.mem_cons_self sample_no_key.1)

end Piggy.Go.Pigpen
