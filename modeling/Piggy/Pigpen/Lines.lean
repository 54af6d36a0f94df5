import Piggy.Pigpen.Marks

/-!
# The lines of a document

What the recipients and the type line of a document that was read satisfy, and when the
line that is written for a recipient is read as the recipient again: its comment must have
no carriage return in it, which the writer refuses, and its purpose no mark that the line
is cut at.
-/

namespace Piggy.Pigpen

open Piggy.Core
open Piggy.Markl
open Piggy.Box (Bytes)

theorem rejectControl_ok {field : String} {s : List Char} :
    rejectControl field s = .ok () ↔ '\n' ∉ s ∧ '\r' ∉ s := by
  rw [rejectControl, guard_ok, not_or]
  simp

/-! ## Locks -/

/-- A wrap that was read has the size of its format. -/
private theorem decodeWrap_ok {recipient : FormatId} {lock : List Char} {wrap : Bytes}
    (h : decodeWrap recipient lock = .ok wrap) :
    ∃ wrapFormat, wrapFormatFor recipient = .ok wrapFormat ∧ wrap.length = wrapFormat.size := by
  simp only [decodeWrap, bind_ok, guard_ok, not_not, mapError_ok] at h
  obtain ⟨wrapFormat, hformat, id, -, -, rfl, hdata⟩ := h
  cases hdata
  exact ⟨_, hformat, id.size⟩

private theorem accepts_wrapFormatFor {recipient wrapFormat : FormatId}
    (h : wrapFormatFor recipient = .ok wrapFormat) :
    PurposeId.pigpenWrapV1.accepts wrapFormat = true := by
  unfold wrapFormatFor at h
  split at h
  · cases h
    rfl
  · cases h
    rfl
  · cases h

/-- Only a wrap of the right size is written. -/
theorem encodeWrap_size {recipient : FormatId} {wrap : Bytes} {lock : List Char}
    (h : encodeWrap recipient wrap = .ok lock) :
    ∃ wrapFormat, wrapFormatFor recipient = .ok wrapFormat ∧ wrap.length = wrapFormat.size := by
  simp only [encodeWrap, bind_ok, mapError_ok] at h
  obtain ⟨wrapFormat, hformat, id, hnew, -⟩ := h
  obtain ⟨-, hid, hdata⟩ := Id.new_eq_ok hnew
  refine ⟨wrapFormat, hformat, ?_⟩
  rw [← hdata, ← hid, id.size]

/-- A wrap of the right size is written as a lock on one line, without blanks, that is read
back as the wrap. -/
theorem encodeWrap_spec {recipient wrapFormat : FormatId}
    (hformat : wrapFormatFor recipient = .ok wrapFormat) {wrap : Bytes}
    (hsize : wrap.length = wrapFormat.size) :
    ∃ lock, encodeWrap recipient wrap = .ok lock ∧ decodeWrap recipient lock = .ok wrap ∧
      '\n' ∉ lock ∧ '#' ∉ lock ∧ Trimmed lock := by
  have hcompat : ∀ p ∈ some PurposeId.pigpenWrapV1, p.isOther = false → p.accepts wrapFormat = true := by
    rintro p ⟨⟩ -
    exact accepts_wrapFormatFor hformat
  let id : Id := ⟨some .pigpenWrapV1, wrapFormat, wrap, hsize, hcompat⟩
  have henum : ∀ p ∈ id.purpose, p.isOther = false := by
    rintro p ⟨⟩
    rfl
  have hnew : Id.new (some .pigpenWrapV1) wrapFormat wrap = .ok id := id.new_ok
  have hparse := Id.parse_toWire henum
  have hword := Id.parse_isWord hparse henum
  refine ⟨_, by simp only [encodeWrap, hformat, hnew, ok_bind, Except.mapError]; rfl, ?_,
    Id.newline_notMem_toWire _, fun h => (hword.1 _ h).2 rfl, ?_, ?_⟩
  · simp only [decodeWrap, hformat, hparse, ok_bind, Except.mapError]
    rw [if_neg (by simp [id]), if_neg (by simp [id])]
  · intro c hc
    exact (hword.1 c (List.mem_of_mem_head? hc)).1
  · intro c hc
    exact (hword.1 c (List.mem_of_getLast? hc)).1

/-- A header MAC that was read has the size of its format. -/
private theorem decodeMac_ok {lock : List Char} {mac : Bytes} (h : decodeMac lock = .ok mac) :
    mac.length = FormatId.pigpenHeaderMac.size := by
  simp only [decodeMac, bind_ok, mapError_ok] at h
  obtain ⟨id, -, h⟩ := h
  rcases hp : id.purpose with _ | p
  · simp only [hp, guard_ok, not_not, Except.ok.injEq] at h
    obtain ⟨hformat, rfl⟩ := h
    rw [id.size, hformat]
  · simp only [hp] at h
    cases h

/-- A header MAC of the right size is read back from its lock. -/
private theorem encodeMac_spec {mac : Bytes} (hsize : mac.length = FormatId.pigpenHeaderMac.size) :
    ∃ lock, encodeMac mac = .ok lock ∧ decodeMac lock = .ok mac ∧ '\n' ∉ lock := by
  have hcompat : ∀ p ∈ (none : Option PurposeId), p.isOther = false →
      p.accepts .pigpenHeaderMac = true := fun p hp => nomatch hp
  let id : Id := ⟨none, .pigpenHeaderMac, mac, hsize, hcompat⟩
  have henum : ∀ p ∈ id.purpose, p.isOther = false := fun p hp => nomatch hp
  have hnew : Id.new none .pigpenHeaderMac mac = .ok id := id.new_ok
  have hparse := Id.parse_toWire henum
  refine ⟨_, by simp only [encodeMac, hnew, ok_bind, Except.mapError]; rfl, ?_,
    Id.newline_notMem_toWire _⟩
  simp only [decodeMac, hparse, ok_bind, Except.mapError]
  rw [if_neg (by simp [id])]

/-! ## The type line -/

theorem at_notMem_typeTag : ∀ c ∈ typeTag, decide (c = '@') = false := by
  have hall : typeTag.all (fun c => !decide (c = '@')) = true := rfl
  simpa using List.all_eq_true.mp hall

/-- A header MAC that a type line carried has the size of its format. -/
theorem parseTypeLine_ok {body : List Char} {mac : Option Bytes}
    (h : parseTypeLine body = .ok mac) : ∀ m ∈ mac, m.length = FormatId.pigpenHeaderMac.size := by
  intro m hm
  rcases hsplit : splitOnceAt (· = '@') body with _ | ⟨before, lock⟩
  · simp only [parseTypeLine, hsplit, bind_ok, pure_ok, guard_ok, Except.ok.injEq] at h
    obtain ⟨x, rfl, -, rfl⟩ := h
    cases hm
  · simp only [parseTypeLine, hsplit, bind_ok, pure_ok, guard_ok, Except.ok.injEq] at h
    obtain ⟨m', hdec, x, rfl, -, rfl⟩ := h
    obtain rfl := Option.mem_some_iff.mp hm
    exact decodeMac_ok hdec

/-- The type line is read back. -/
theorem typeLine_spec {mac : Option Bytes}
    (h : ∀ m ∈ mac, m.length = FormatId.pigpenHeaderMac.size) :
    ∃ body, typeLine mac = .ok ⟨.bang, body⟩ ∧ parseTypeLine body = .ok mac ∧ '\n' ∉ body := by
  cases mac with
  | none =>
    have hsplit : splitOnceAt (· = '@') typeTag = none := splitOnceAt_none at_notMem_typeTag
    refine ⟨typeTag, rfl, ?_, by decide⟩
    simp only [parseTypeLine, hsplit]
    rfl
  | some m =>
    obtain ⟨lock, henc, hdec, hnl⟩ := encodeMac_spec (h m rfl)
    have hsplit := splitOnceAt_append at_notMem_typeTag (decide_eq_true (rfl : '@' = '@')) lock
    refine ⟨typeTag ++ '@' :: lock, ?_, ?_, ?_⟩
    · simp only [typeLine, henc, ok_bind]
      rfl
    · simp only [parseTypeLine, hsplit, hdec, ok_bind]
      rfl
    · intro hmem
      rcases List.mem_append.mp hmem with hm | hm
      · exact absurd hm (by decide)
      · rcases List.mem_cons.mp hm with hm | hm
        · exact absurd hm (by decide)
        · exact hnl hm

/-! ## Recipient lines -/

/-- The purpose that the slot of an id's text spells; empty when there is none. -/
def purposeText (idText : List Char) : List Char :=
  match (splitPurposeSlot idText).1 with
  | some slot => (unquotePurpose slot).toOption.getD []
  | none => []

/-- A recipient line that survives being written anew: its comment has no carriage return,
its purpose does not hold the mark of a comment, and where no comment stands behind it, not
the mark of a wrap either. -/
def FaithfulLine (body : List Char) : Prop :=
  (∀ c ∈ (cutRecipientLine body).2.1, '\r' ∉ c) ∧
    ¬ commentMark <:+: purposeText (cutRecipientLine body).1 ∧
    ((cutRecipientLine body).2.1 = none → ¬ wrapMark <:+: purposeText (cutRecipientLine body).1)

/-- What every recipient that was read satisfies. -/
structure Recipient.AsRead (r : Recipient) : Prop where
  parsed : ∀ p ∈ r.id.purpose, PurposeId.parse p.asStr = p
  named : ∀ p ∈ r.id.purpose, p.asStr.isEmpty = false
  promoted : isEncryptionRecipient r.id = true → r.id.purpose = some .piggyRecipientV1
  comment : ∀ c ∈ r.comment, c ≠ [] ∧ '\n' ∉ c
  wrap : ∀ w ∈ r.wrap, r.comment = none ∧
    ∃ wrapFormat, wrapFormatFor r.id.format = .ok wrapFormat ∧ w.length = wrapFormat.size

/-- A recipient that survives being written and read. -/
def Recipient.Faithful (r : Recipient) : Prop :=
  (∀ c ∈ r.comment, '\r' ∉ c) ∧ ¬ commentMark <:+: r.id.toWire ∧
    (r.comment = none → ¬ wrapMark <:+: r.id.toWire)

/-- The name of the recipient purpose holds no mark. -/
theorem not_infix_recipient {m : List Char} (h : IsMark m) :
    ¬ m <:+: PurposeId.piggyRecipientV1.asStr.toList := by
  obtain ⟨tail, rfl⟩ := h.head
  intro hi
  exact absurd (hi.subset List.mem_cons_self) (by decide)

/-- The id of a recipient line holds a mark exactly when the purpose on the line does. -/
private theorem parseRecipientId_ok {text : List Char} {id : Id}
    (h : parseRecipientId text = .ok id) :
    (∀ p ∈ id.purpose, PurposeId.parse p.asStr = p) ∧
      (∀ p ∈ id.purpose, p.asStr.isEmpty = false) ∧
      (isEncryptionRecipient id = true → id.purpose = some .piggyRecipientV1) ∧
      ∀ m, IsMark m → (m <:+: id.toWire ↔ m <:+: purposeText text) := by
  simp only [parseRecipientId, bind_ok, mapError_ok, guard_ok] at h
  obtain ⟨id₀, hparse, hnamed, h⟩ := h
  have hnamed' : ∀ p ∈ id₀.purpose, p.asStr.isEmpty = false := by
    intro p hp
    rw [Option.mem_def.mp hp] at hnamed
    simpa using hnamed
  have htext : ∀ m, m ≠ [] → ((∃ p ∈ id₀.purpose, m <:+: p.asStr.toList) ↔ m <:+: purposeText text) := by
    intro m hm
    simp only [Id.parse, bind_ok] at hparse
    obtain ⟨purpose, hpurpose, _, -, hnew⟩ := hparse
    rw [(Id.new_eq_ok hnew).1, purposeText]
    rcases hslot : (splitPurposeSlot text).1 with _ | slot
    · rw [hslot, Id.parsePurpose] at hpurpose
      cases hpurpose
      simp [hm]
    · rw [hslot, Id.parsePurpose] at hpurpose
      rcases hun : unquotePurpose slot with e | value
      · simp only [hun] at hpurpose
        cases hpurpose
      · simp only [hun, Except.ok.injEq] at hpurpose
        rw [← hpurpose]
        simp [PurposeId.asStr_parse, hun, Except.toOption]
  by_cases henc : isEncryptionRecipient id₀ = true
  · -- a bare id and one under the recipient purpose have no blank in their purpose
    rw [if_pos henc, promoteRecipient, if_neg (by simp [henc]), recipientId, mapError_ok] at h
    have hp := (Id.new_eq_ok h).1
    refine ⟨?_, ?_, fun _ => hp, ?_⟩
    · rw [hp]
      rintro p ⟨⟩
      rfl
    · rw [hp]
      rintro p ⟨⟩
      rfl
    · intro m hm
      rw [hm.infix_toWire, ← htext m hm.ne_nil, hp]
      have hpurpose : id₀.purpose = none ∨ id₀.purpose = some .piggyRecipientV1 := by
        simp only [isEncryptionRecipient, Bool.and_eq_true] at henc
        have hmatch := henc.2
        split at hmatch
        · exact Or.inl ‹_›
        · exact Or.inr ‹_›
        · cases hmatch
      rcases hpurpose with hp₀ | hp₀
      · simp [hp₀, not_infix_recipient hm]
      · rw [hp₀]
  · rw [if_neg henc] at h
    cases h
    refine ⟨Id.parsed_of_parse hparse, hnamed', fun he => absurd he henc, ?_⟩
    intro m hm
    rw [hm.infix_toWire, htext m hm.ne_nil]

/-- What a recipient line is cut into. -/
private theorem cutRecipientLine_spec (body : List Char) :
    (∀ c ∈ (cutRecipientLine body).2.1, c ≠ [] ∧ c ⊆ body) ∧
      ((cutRecipientLine body).2.2 ≠ none → (cutRecipientLine body).2.1 = none) := by
  rw [cutRecipientLine]
  rcases hc : splitOnce commentMark body with _ | ⟨left, right⟩
  · rcases hw : splitOnce wrapMark body with _ | ⟨left, right⟩
    · exact ⟨(fun c h => nomatch h), fun _ => rfl⟩
    · exact ⟨(fun c h => nomatch h), fun _ => rfl⟩
  · refine ⟨?_, fun h => absurd rfl h⟩
    intro c h
    dsimp only at h
    by_cases hr : right.isEmpty = true
    · rw [if_pos hr] at h
      cases h
    · rw [if_neg hr] at h
      obtain rfl := Option.mem_some_iff.mp h
      refine ⟨by simpa using hr, ?_⟩
      rw [splitOnce_eq_some hc]
      intro x hx
      simp [hx]

/-- What every recipient that was read satisfies, and when it survives being written. -/
theorem parseRecipientLine_ok {body : List Char} {r : Recipient} (hnl : '\n' ∉ body)
    (h : parseRecipientLine body = .ok r) : r.AsRead ∧ (r.Faithful ↔ FaithfulLine body) := by
  simp only [parseRecipientLine, bind_ok, pure_ok] at h
  obtain ⟨id, hid, wrap, hwrap, rfl⟩ := h
  obtain ⟨hparsed, hnamed, hpromoted, hmarks⟩ := parseRecipientId_ok hid
  obtain ⟨hcomment, hlock⟩ := cutRecipientLine_spec body
  refine ⟨⟨hparsed, hnamed, hpromoted, ?_, ?_⟩, ?_⟩
  · intro c hc
    exact ⟨(hcomment c hc).1, fun hn => hnl ((hcomment c hc).2 hn)⟩
  · rintro w rfl
    rcases hl : (cutRecipientLine body).2.2 with _ | lock
    · rw [hl, parseWrap] at hwrap
      cases hwrap
    · simp only [hl, parseWrap, bind_ok, pure_ok, Option.some.injEq] at hwrap
      obtain ⟨w', hdec, rfl⟩ := hwrap
      exact ⟨hlock (by simp [hl]), decodeWrap_ok hdec⟩
  · rw [Recipient.Faithful, FaithfulLine, hmarks _ (Or.inl rfl), hmarks _ (Or.inr rfl)]

/-! ## Writing a recipient and reading it again -/

section

variable {r : Recipient}

/-- The wire form of an id has nothing to trim. -/
private theorem trim_toWire (id : Id) : trim id.toWire = id.toWire := by
  refine trim_of_trimmed ⟨?_, ?_⟩
  · intro c hc
    cases hp : id.purpose with
    | none =>
      have hwire : id.toWire = id.body := by rw [Id.toWire, hp]
      rw [hwire] at hc
      exact (isBareChar_word (parseBody_chars id.parseBody_body.1 c (List.mem_of_mem_head? hc))).1
    | some p =>
      simp only [Id.toWire, hp, spellPurpose] at hc
      by_cases hbare : purposeIsBareExpressible p.asStr.toList = true
      · rw [if_pos hbare] at hc
        simp only [purposeIsBareExpressible, Bool.and_eq_true, List.all_eq_true] at hbare
        have hmem : c ∈ p.asStr.toList := by
          cases hname : p.asStr.toList with
          | nil => simp [hname] at hbare
          | cons d ds =>
            rw [hname] at hc
            cases hc
            exact List.mem_cons_self
        exact (isBareChar_word (hbare.2 c hmem)).1
      · rw [if_neg hbare] at hc
        obtain ⟨escape, -, hquote⟩ := quotePurpose_eq p.asStr.toList
        rw [hquote] at hc
        cases hc
        decide
  · intro c hc
    have hwire := getLast?_toWire id c hc
    by_contra hw
    have hnot : ∀ c : Char, Blech32.isWireChar c = true → isWhitespace c = false := by
      intro c hc
      refine (isBareChar_word ?_).1
      rcases (Bool.or_eq_true _ _).mp hc with hc | hc
      · simp only [Blech32.isLowerHrpChar, Bool.and_eq_true] at hc
        exact isBareChar_of_hrp hc.1
      · rw [eq_of_beq hc]
        rfl
    exact hw (hnot c hwire)

/-- The last character of a wire form is in no mark. -/
private theorem last_unmarked {m : List Char} (hm : IsMark m) (id : Id) :
    ∀ c ∈ id.toWire.getLast?, c ∉ m := by
  intro c hc hmem
  have hdis : m.Disjoint [c] :=
    hm.disjoint (by simpa using isWireChar_unmarked (getLast?_toWire id c hc))
  exact hdis hmem List.mem_cons_self

/-- An id that was read is read again from its wire form. -/
private theorem parseRecipientId_toWire (h : r.AsRead) :
    parseRecipientId r.id.toWire = .ok r.id := by
  have hparse := Id.parse_toWire_of_parsed h.parsed
  have hnamed : r.id.purpose.any (·.asStr.isEmpty) = false := by
    cases hp : r.id.purpose with
    | none => rfl
    | some p => exact h.named p hp
  simp only [parseRecipientId, hparse, Except.mapError, ok_bind, hnamed]
  by_cases henc : isEncryptionRecipient r.id = true
  · have hnew := r.id.new_ok
    rw [h.promoted henc] at hnew
    simp [henc, promoteRecipient, recipientId, hnew, Except.mapError]
  · simp [henc]

/-- The line of a recipient that was read is one line. -/
theorem recipientLine_shape (h : r.AsRead) {l : MetaLine} (hl : recipientLine r = .ok l) :
    ∃ body, l = ⟨.dash, body⟩ ∧ '\n' ∉ body := by
  have hnl := Id.newline_notMem_toWire r.id
  rw [recipientLine] at hl
  rcases hw : r.wrap with _ | w
  · rcases hc : r.comment with _ | c
    · simp only [hw, hc] at hl
      cases hl
      exact ⟨_, rfl, hnl⟩
    · simp only [hw, hc] at hl
      split at hl
      · cases hl
        exact ⟨_, rfl, hnl⟩
      · simp only [bind_ok, pure_ok] at hl
        obtain ⟨-, -, rfl⟩ := hl
        have hmark : '\n' ∉ commentMark := by decide
        exact ⟨_, rfl, by simp [hnl, hmark, (h.comment c hc).2]⟩
  · obtain ⟨-, wrapFormat, hformat, hsize⟩ := h.wrap w hw
    obtain ⟨lock, henc, -, hlnl, -⟩ := encodeWrap_spec hformat hsize
    simp only [hw, henc, ok_bind, pure_ok] at hl
    subst hl
    have hmark : '\n' ∉ wrapMark := by decide
    exact ⟨_, rfl, by simp [hnl, hmark, hlnl]⟩

/-- The line a faithful recipient is written on is read as the recipient. -/
theorem recipientLine_faithful (h : r.AsRead) (hf : r.Faithful) :
    ∃ body, recipientLine r = .ok ⟨.dash, body⟩ ∧ parseRecipientLine body = .ok r := by
  obtain ⟨hcr, hcm, hwm⟩ := hf
  have hid := parseRecipientId_toWire h
  have hlastC := last_unmarked (Or.inl rfl : IsMark commentMark) r.id
  have hlastW := last_unmarked (Or.inr rfl : IsMark wrapMark) r.id
  obtain ⟨id, comment, wrap⟩ := r
  dsimp only at hcr hcm hwm hid hlastC hlastW
  cases wrap with
  | some w =>
    obtain ⟨rfl, wrapFormat, hformat, hsize⟩ := h.wrap w rfl
    obtain ⟨lock, henc, hdec, -, hhash, htrim⟩ := encodeWrap_spec hformat hsize
    have hnone : splitOnce commentMark (id.toWire ++ (wrapMark ++ lock)) = none := by
      refine splitOnce_eq_none_iff.mpr fun hi => hcm (infix_of_append hlastC ?_ hi)
      intro hi
      have hmem : '#' ∈ wrapMark ++ lock := hi.subset (by decide)
      rcases List.mem_append.mp hmem with hmem | hmem
      · exact absurd hmem (by decide)
      · exact hhash hmem
    have hcut : cutRecipientLine (id.toWire ++ (wrapMark ++ lock)) = (id.toWire, none, some lock) := by
      rw [cutRecipientLine, hnone, splitOnce_append (hwm rfl) hlastW]
      simp only [trim_toWire, trim_of_trimmed htrim]
    refine ⟨id.toWire ++ (wrapMark ++ lock), ?_, ?_⟩
    · simp only [recipientLine, henc, ok_bind]
      rfl
    · simp only [parseRecipientLine, hcut, hid, ok_bind, parseWrap, hdec]
      rfl
  | none =>
    cases comment with
    | some c =>
      obtain ⟨hne, hcnl⟩ := h.comment c rfl
      have hempty : c.isEmpty = false := List.isEmpty_eq_false_iff.mpr hne
      have hcut : cutRecipientLine (id.toWire ++ (commentMark ++ c)) = (id.toWire, some c, none) := by
        rw [cutRecipientLine, splitOnce_append hcm hlastC]
        simp only [trim_toWire, hempty]
        rfl
      have hreject : rejectControl "comment" c = .ok () := rejectControl_ok.mpr ⟨hcnl, hcr c rfl⟩
      refine ⟨id.toWire ++ (commentMark ++ c), ?_, ?_⟩
      · simp only [recipientLine, hempty, hreject, ok_bind]
        rfl
      · simp only [parseRecipientLine, hcut, hid, ok_bind, parseWrap]
        rfl
    | none =>
      have hcut : cutRecipientLine id.toWire = (id.toWire, none, none) := by
        rw [cutRecipientLine, splitOnce_eq_none_iff.mpr hcm, splitOnce_eq_none_iff.mpr (hwm rfl)]
        simp only [trim_toWire]
      refine ⟨id.toWire, rfl, ?_⟩
      simp only [parseRecipientLine, hcut, hid, ok_bind, parseWrap]
      rfl

/-- A line that is cut at a mark inside the wire form of its id is not read. -/
private theorem parseRecipientLine_cut {m : List Char} (hm : IsMark m) {id : Id} {tail : List Char}
    (hmark : m <:+: id.toWire)
    (hcut : ∀ before rest, splitOnce m (id.toWire ++ tail) = some (before, rest) →
      (cutRecipientLine (id.toWire ++ tail)).1 = trim before) (r : Recipient) :
    parseRecipientLine (id.toWire ++ tail) ≠ .ok r := by
  intro h
  obtain ⟨before, rest, hsplit, hwire⟩ := splitOnce_of_infix hmark tail
  simp only [parseRecipientLine, bind_ok, hcut _ _ hsplit, parseRecipientId, mapError_ok] at h
  obtain ⟨_, ⟨id', hid', -⟩, -⟩ := h
  exact hm.parse_before hwire id' hid'

/-- The mark of a comment inside the wire form breaks the line. -/
private theorem not_parse_commentMark {id : Id} (hmark : commentMark <:+: id.toWire)
    (tail : List Char) (r : Recipient) : parseRecipientLine (id.toWire ++ tail) ≠ .ok r := by
  refine parseRecipientLine_cut (Or.inl rfl) hmark ?_ r
  intro before rest hsplit
  rw [cutRecipientLine, hsplit]

/-- The mark of a wrap inside the wire form breaks the line when no comment follows. -/
private theorem not_parse_wrapMark {id : Id} (hmark : wrapMark <:+: id.toWire)
    (hno : ¬ commentMark <:+: id.toWire) {tail : List Char} (htail : ¬ commentMark <:+: tail)
    (r : Recipient) : parseRecipientLine (id.toWire ++ tail) ≠ .ok r := by
  refine parseRecipientLine_cut (Or.inr rfl) hmark ?_ r
  intro before rest hsplit
  have hnone : splitOnce commentMark (id.toWire ++ tail) = none :=
    splitOnce_eq_none_iff.mpr fun hi =>
      hno (infix_of_append (last_unmarked (Or.inl rfl) id) htail hi)
  rw [cutRecipientLine, hnone, hsplit]

/-- A recipient whose line is read as the recipient is faithful. -/
theorem faithful_of_recipientLine (h : r.AsRead) {l : MetaLine} (hl : recipientLine r = .ok l)
    (hread : parseRecipientLine l.body = .ok r) : r.Faithful := by
  obtain ⟨id, comment, wrap⟩ := r
  cases wrap with
  | some w =>
    obtain ⟨rfl, wrapFormat, hformat, hsize⟩ := h.wrap w rfl
    obtain ⟨lock, henc, -, -, hhash, -⟩ := encodeWrap_spec hformat hsize
    simp only [recipientLine, henc, ok_bind, pure_ok] at hl
    subst hl
    have hcm : ¬ commentMark <:+: id.toWire := fun hi => not_parse_commentMark hi _ _ hread
    refine ⟨(fun c hc => nomatch hc), hcm, fun _ hi => ?_⟩
    refine not_parse_wrapMark hi hcm ?_ _ hread
    intro hi'
    have hmem : '#' ∈ wrapMark ++ lock := hi'.subset (by decide)
    rcases List.mem_append.mp hmem with hmem | hmem
    · exact absurd hmem (by decide)
    · exact hhash hmem
  | none =>
    cases comment with
    | some c =>
      obtain ⟨hne, -⟩ := h.comment c rfl
      have hempty : c.isEmpty = false := List.isEmpty_eq_false_iff.mpr hne
      simp only [recipientLine, hempty, Bool.false_eq_true, if_false, bind_ok, pure_ok] at hl
      obtain ⟨⟨⟩, hreject, rfl⟩ := hl
      refine ⟨?_, fun hi => not_parse_commentMark hi _ _ hread, fun hn => nomatch hn⟩
      rintro c' ⟨⟩
      exact (rejectControl_ok.mp hreject).2
    | none =>
      cases hl
      have hread' : parseRecipientLine (id.toWire ++ []) = .ok ⟨id, none, none⟩ := by
        rw [List.append_nil]
        exact hread
      have hcm : ¬ commentMark <:+: id.toWire := fun hi => not_parse_commentMark hi _ _ hread'
      refine ⟨(fun c hc => nomatch hc), hcm, fun _ hi => ?_⟩
      exact not_parse_wrapMark hi hcm (by decide) _ hread'

end

end Piggy.Pigpen
