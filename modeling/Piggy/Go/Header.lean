import Piggy.Go.Pointer
import Piggy.Go.SameDocument

/-!
# One header in both languages

The Go package writes a document as the Rust crate does, byte for byte: the header that the MAC
covers and the file. What one of them refuses to write, the other refuses too.
-/

namespace Piggy.Go.Pigpen

open Piggy.Core
open Piggy.Markl (PurposeId FormatId)
open Piggy.Go.Markl (Id production)
open Piggy.Go.Markl.Id (Same utf8_format_iff)
open Piggy.Go.Blech32 (charsetByte)

/-! ## Writing -/

section

variable (t : CaseTables)

/-- The text of data under a purpose and a format. -/
def lockText (context : String) (purposeId format blob : Bytes) : Result Error Bytes :=
  match Markl.Id.setMarklId production format blob (Id.zero.setPurposeId purposeId) with
  | (.ok _, id) => textOf t id
  | (.error e, _) => .error (.markl context blob e)
  | (.panic, _) => .panic

/-- The lock of a wrap. Empty data would be the null id, whose text is empty. -/
def encodeWrap (recipientFormat blob : Bytes) : Result Error Bytes := do
  let wrapFormat ← .lift (wrapFormatFor recipientFormat)
  if blob = [] then .error (.emptyWrap recipientFormat)
  else lockText t "bad wrap" purposePigpenWrap wrapFormat blob

/-- The lock of a MAC. -/
def encodeMac (mac : Bytes) : Result Error Bytes :=
  if mac = [] then .error .emptyMac
  else lockText t "bad header MAC" [] formatIdPigpenHeaderMac mac

/-- The line of a description, when there is one. -/
def descriptionLine (description : Bytes) : Result Error (List MetaLine) :=
  if description = [] then .ok []
  else do
    Result.lift (rejectControl "description" description)
    pure [⟨0x23, description⟩]

/-- The line of a recipient: its wrap when it has one, otherwise its comment. -/
def recipientLine (r : Recipient) : Result Error MetaLine := do
  let body ← textOf t r.id
  match r.wrap with
  | some wrap => do
    let format ← formatOf r.id
    let lock ← encodeWrap t format wrap
    pure ⟨0x2D, body ++ (utf8 " < ".toList ++ lock)⟩
  | none =>
    if r.comment = [] then .ok ⟨0x2D, body⟩
    else do
      Result.lift (rejectControl "comment" r.comment)
      pure ⟨0x2D, body ++ (utf8 "  # ".toList ++ r.comment)⟩

/-- One turn of the loop over the recipients. -/
def addRecipientLine (lines : List MetaLine) (r : Recipient) : Result Error (List MetaLine) := do
  let line ← recipientLine t r
  pure (lines ++ [line])

/-- The type line, sealed or not. -/
def typeLine (mac : Option Bytes) : Result Error MetaLine :=
  match mac with
  | some mac => do
    let lock ← encodeMac t mac
    pure ⟨0x21, typeTag ++ 0x40 :: lock⟩
  | none => .ok ⟨0x21, typeTag⟩

namespace Document

/-- The framing of a document; without the MAC it is the header that the MAC covers. -/
def buildHyphence (d : Document) (includeMac : Bool) : Result Error HyphenceDoc := do
  let description ← descriptionLine d.description
  let lines ← d.recipients.foldlM (addRecipientLine t) description
  let type ← typeLine t (if includeMac then d.mac else none)
  pure { lines := lines ++ [type], body := if includeMac && d.isSealed then d.payload else [] }

/-- The bytes that the header MAC covers. -/
def canonicalHeader (d : Document) : Result Error Bytes := do
  let h ← d.buildHyphence t false
  pure h.marshalMetadata

/-- Writes a document. -/
def marshalText (d : Document) : Result Error Bytes := do
  let h ← d.buildHyphence t true
  Result.lift h.marshal

end Document

end

/-! ## Texts -/

variable {t : CaseTables} {rust : Piggy.Markl.Id} {go : Id}

/-- Both packages spell a name and data alike. -/
theorem encode_utf8 {name text : List Char} {data : Bytes}
    (h : Piggy.Markl.Blech32.encode name data = .ok text) :
    Blech32.encode t (utf8 name) data = .ok (utf8 text) := by
  obtain ⟨hne, hchars, groups, rfl, hcarries⟩ := Piggy.Markl.Blech32.encode_eq_ok.mp h
  obtain ⟨hlower, hback⟩ := Blech32.lowerHrp_of_chars hchars
  have hspelled := Blech32.utf8_spelled hlower hcarries.range
  rw [hback] at hspelled
  rw [hspelled, Blech32.encode_eq_ok]
  refine ⟨Markl.Id.utf8_ne_nil hne, ?_, groups, rfl, ?_⟩
  · intro b hb
    obtain ⟨hlow, hhigh⟩ := Blech32.printable_of_lowerHrp (hlower b hb)
    exact ⟨hlow, hhigh, (Blech32.isLowerHrpByte_spec (hlower b hb)).2.1⟩
  · rw [Blech32.hrpExpand_lower t hlower, hback]
    exact hcarries

/-- Both packages spell an id alike. -/
theorem textOf_same (h : Same rust go) : textOf t go = .ok (utf8 rust.toWire) := by
  have hbody : Blech32.encode t (utf8 rust.format.asStr.toList) go.data = .ok (utf8 rust.body) := by
    obtain ⟨hname, hchars⟩ := Piggy.Markl.Id.asStr_chars rust.format
    obtain ⟨text, henc, -⟩ := Piggy.Markl.Blech32.decode_encode (List.isEmpty_eq_false_iff.mp hname)
      (List.all_eq_true.mp hchars) rust.data_ne_nil
    have htext : rust.body = text := by rw [Piggy.Markl.Id.body, henc]
    rw [h.data, htext]
    exact encode_utf8 henc
  have hstring : go.stringWithFormat t = .ok (go.withPurpose (utf8 rust.body)) := by
    rw [Markl.Id.stringWithFormat, if_neg h.data_ne_nil, h.format]
    simp only [Markl.Id.mustEncode, hbody, Result.ok_bind]
    rfl
  have hpurpose := h.purpose
  rw [textOf, hstring, Markl.Id.withPurpose, Piggy.Markl.Id.toWire]
  generalize rust.purpose = purpose at hpurpose
  cases purpose with
  | none => rw [if_neg (not_not.mpr (show go.purposeId = [] from hpurpose))]
  | some p =>
    rw [if_pos hpurpose.2, hpurpose.1, Purpose.spellPurpose_utf8]
    simp only [utf8_append, utf8_cons]
    rfl

/-! ## Lines -/

theorem utf8_nil_iff {s : List Char} : utf8 s = [] ↔ s = [] :=
  ⟨fun h => utf8_inj h, fun h => by rw [h]; rfl⟩

theorem rejectControl_same {field : String} {s : List Char} {u : Unit} :
    rejectControl field (utf8 s) = .ok u ↔ Piggy.Pigpen.rejectControl field s = .ok u := by
  have hlf : (0x0A : UInt8) ∈ utf8 s ↔ '\n' ∈ s := mem_utf8_ascii (by decide)
  have hcr : (0x0D : UInt8) ∈ utf8 s ↔ '\r' ∈ s := mem_utf8_ascii (by decide)
  simp only [rejectControl, Piggy.Pigpen.rejectControl, guard_ok, hlf, hcr]

/-- What both write without a check. -/
theorem ok_iff {α β : Type} {f : β → α} {b : β} {a : α} :
    (Result.ok (f b) : Result Error α) = .ok a ↔
      ∃ b', (Except.ok b : Except Piggy.Pigpen.Error β) = .ok b' ∧ a = f b' := by
  rw [Result.ok.injEq]
  constructor
  · rintro rfl
    exact ⟨b, rfl, rfl⟩
  · rintro ⟨b', hb, rfl⟩
    rw [Except.ok.inj hb]

/-- A lock is written of data that fit its format and purpose. -/
theorem lockText_same {f : FormatId} (hf : Registered f) (purpose : Option PurposeId) {purposeId : Bytes}
    (hpurpose : Markl.Id.SamePurpose purpose purposeId)
    (hcheck : Piggy.Markl.checkPurpose f purpose = none)
    (hvalid : production.validatePurposeAndFormatId purposeId (utf8 f.asStr.toList) = .ok ())
    {context : String} {data text : Bytes} (hdata : data ≠ []) :
    lockText t context purposeId (utf8 f.asStr.toList) data = .ok text ↔
      ∃ id, Piggy.Markl.Id.new purpose f data = .ok id ∧ text = utf8 id.toWire := by
  have hset : ∀ {back : Id}, Markl.Id.setMarklId production (utf8 f.asStr.toList) data
      (Id.zero.setPurposeId purposeId) = (.ok (), back) ↔
        data.length = f.size ∧ back = ⟨purposeId, some ⟨utf8 f.asStr.toList, f.size⟩, data⟩ := by
    intro back
    rw [Id.setMarklId_eq_ok (f := ⟨utf8 f.asStr.toList, f.size⟩) hf, if_neg hdata]
    constructor
    · rintro ⟨-, hsize, rfl⟩
      exact ⟨hsize hdata, rfl⟩
    · rintro ⟨hsize, rfl⟩
      exact ⟨hvalid, fun _ => hsize, rfl⟩
  have hsame : ∀ {id : Piggy.Markl.Id}, Piggy.Markl.Id.new purpose f data = .ok id →
      Same id ⟨purposeId, some ⟨utf8 f.asStr.toList, f.size⟩, data⟩ := by
    intro id hid
    obtain ⟨hp, rfl, rfl⟩ := Piggy.Markl.Id.new_eq_ok hid
    exact ⟨by rw [hp]; exact hpurpose, rfl, rfl⟩
  rw [lockText]
  generalize Markl.Id.setMarklId production (utf8 f.asStr.toList) data (Id.zero.setPurposeId purposeId) =
    outcome at hset
  by_cases hsize : data.length = f.size
  · obtain rfl := hset.mpr ⟨hsize, rfl⟩
    obtain ⟨id, hid⟩ : ∃ id, Piggy.Markl.Id.new purpose f data = .ok id :=
      ⟨⟨purpose, f, data, hsize, Piggy.Markl.checkPurpose_none hcheck⟩,
        Piggy.Markl.Grammar.new_eq_ok_iff.mpr ⟨hsize, hcheck, rfl, rfl, rfl⟩⟩
    dsimp only
    rw [textOf_same (hsame hid), Result.ok.injEq]
    constructor
    · rintro rfl
      exact ⟨id, hid, rfl⟩
    · rintro ⟨id', hid', rfl⟩
      rw [Except.ok.inj (hid.symm.trans hid')]
  · refine iff_of_false ?_ ?_
    · intro hok
      rcases outcome with ⟨⟨⟩ | e | _, back⟩
      · exact hsize (hset.mp rfl).1
      · cases hok
      · cases hok
    · rintro ⟨id, hid, -⟩
      exact hsize (Piggy.Markl.Grammar.new_eq_ok_iff.mp hid).1

theorem new_nil {purpose : Option PurposeId} {f : FormatId} {id : Piggy.Markl.Id} :
    Piggy.Markl.Id.new purpose f [] ≠ .ok id := by
  intro hid
  exact id.data_ne_nil (Piggy.Markl.Id.new_eq_ok hid).2.2

theorem encodeWrap_same (recipient : FormatId) {wrap text : Bytes} :
    encodeWrap t (utf8 recipient.asStr.toList) wrap = .ok text ↔
      ∃ lock, Piggy.Pigpen.encodeWrap recipient wrap = .ok lock ∧ text = utf8 lock := by
  simp only [encodeWrap, Result.bind_eq_ok, Result.lift_eq_ok, wrapFormatFor_same, Result.guard_eq_ok,
    Piggy.Pigpen.encodeWrap, bind_ok, mapError_ok, pure_ok]
  constructor
  · rintro ⟨-, ⟨f, hf, rfl⟩, hwrap, hlock⟩
    obtain ⟨hreg, hcheck, hvalid⟩ := registered_wrap hf
    obtain ⟨id, hid, rfl⟩ :=
      (lockText_same hreg (some .pigpenWrapV1) ⟨rfl, by decide⟩ hcheck hvalid hwrap).mp hlock
    exact ⟨_, ⟨f, hf, id, hid, rfl⟩, rfl⟩
  · rintro ⟨-, ⟨f, hf, id, hid, rfl⟩, rfl⟩
    obtain ⟨hreg, hcheck, hvalid⟩ := registered_wrap hf
    have hwrap : wrap ≠ [] := by
      rintro rfl
      exact new_nil hid
    exact ⟨_, ⟨f, hf, rfl⟩, hwrap,
      (lockText_same hreg (some .pigpenWrapV1) ⟨rfl, by decide⟩ hcheck hvalid hwrap).mpr
        ⟨id, hid, rfl⟩⟩

theorem encodeMac_same {mac text : Bytes} :
    encodeMac t mac = .ok text ↔
      ∃ lock, Piggy.Pigpen.encodeMac mac = .ok lock ∧ text = utf8 lock := by
  obtain ⟨hreg, hvalid⟩ := registered_mac
  have hlock : ∀ {context : String}, mac ≠ [] →
      (lockText t context [] formatIdPigpenHeaderMac mac = .ok text ↔ _) :=
    fun hmac => lockText_same hreg none rfl rfl hvalid hmac
  simp only [encodeMac, Result.guard_eq_ok, Piggy.Pigpen.encodeMac, bind_ok, mapError_ok, pure_ok]
  constructor
  · rintro ⟨hmac, hok⟩
    obtain ⟨id, hid, rfl⟩ := (hlock hmac).mp hok
    exact ⟨_, ⟨id, hid, rfl⟩, rfl⟩
  · rintro ⟨-, ⟨id, hid, rfl⟩, rfl⟩
    have hmac : mac ≠ [] := by
      rintro rfl
      exact new_nil hid
    exact ⟨hmac, (hlock hmac).mpr ⟨id, hid, rfl⟩⟩

theorem descriptionLine_same (description : Option (List Char)) {lines : List MetaLine} :
    descriptionLine (describe description) = .ok lines ↔
      ∃ ls, Piggy.Pigpen.descriptionLine description = .ok ls ∧ lines = ls.map .ofRust := by
  rw [descriptionLine]
  rcases description with _ | desc
  · exact ok_iff (f := List.map MetaLine.ofRust) (b := [])
  · rw [show describe (some desc) = utf8 desc from rfl, Piggy.Pigpen.descriptionLine]
    by_cases hnil : desc = []
    · rw [if_pos (utf8_nil_iff.mpr hnil), if_pos (List.isEmpty_iff.mpr hnil)]
      exact ok_iff (f := List.map MetaLine.ofRust) (b := [])
    · rw [if_neg (mt utf8_nil_iff.mp hnil), if_neg (mt List.isEmpty_iff.mp hnil)]
      simp only [Result.bind_eq_ok, Result.lift_eq_ok, rejectControl_same, Result.pure_eq_ok, bind_ok,
        pure_ok]
      constructor
      · rintro ⟨_, hreject, rfl⟩
        exact ⟨_, ⟨_, hreject, rfl⟩, rfl⟩
      · rintro ⟨_, ⟨_, hreject, rfl⟩, rfl⟩
        exact ⟨_, hreject, rfl⟩

theorem recipientLine_same {rust : Piggy.Pigpen.Recipient} {go : Recipient} (h : SameRecipient rust go)
    {line : MetaLine} :
    recipientLine t go = .ok line ↔
      ∃ l, Piggy.Pigpen.recipientLine rust = .ok l ∧ line = .ofRust l := by
  have hplain : (Result.ok ⟨0x2D, utf8 rust.id.toWire⟩ : Result Error MetaLine) = .ok line ↔ _ :=
    ok_iff (f := MetaLine.ofRust) (b := ⟨.dash, rust.id.toWire⟩)
  rw [recipientLine, textOf_same h.id, Result.ok_bind, h.wrap, h.comment, Piggy.Pigpen.recipientLine]
  rcases rust.wrap with _ | wrap
  · rcases rust.comment with _ | comment
    · exact hplain
    · by_cases hnil : comment = []
      · simp only [hnil, List.isEmpty_nil, if_true]
        exact hplain
      · have hcomment : ((some comment).map utf8).getD [] = utf8 comment := rfl
        simp only [hcomment, utf8_nil_iff, hnil, List.isEmpty_iff, if_false, Result.bind_eq_ok,
          Result.lift_eq_ok, rejectControl_same, Result.pure_eq_ok, bind_ok, pure_ok]
        constructor
        · rintro ⟨_, hreject, rfl⟩
          exact ⟨_, ⟨_, hreject, rfl⟩, by simp only [MetaLine.ofRust, utf8_append]; rfl⟩
        · rintro ⟨_, ⟨_, hreject, rfl⟩, rfl⟩
          exact ⟨_, hreject, by simp only [MetaLine.ofRust, utf8_append]; rfl⟩
  · simp only [Result.bind_eq_ok, formatOf_same h.id, Result.ok.injEq, exists_eq_left', encodeWrap_same,
      Result.pure_eq_ok, bind_ok, pure_ok]
    constructor
    · rintro ⟨_, ⟨lock, hlock, rfl⟩, rfl⟩
      exact ⟨_, ⟨lock, hlock, rfl⟩, by simp only [MetaLine.ofRust, utf8_append]; rfl⟩
    · rintro ⟨_, ⟨lock, hlock, rfl⟩, rfl⟩
      exact ⟨_, ⟨lock, hlock, rfl⟩, by simp only [MetaLine.ofRust, utf8_append]; rfl⟩

theorem typeLine_same {mac : Option Bytes} {line : MetaLine} :
    typeLine t mac = .ok line ↔ ∃ l, Piggy.Pigpen.typeLine mac = .ok l ∧ line = .ofRust l := by
  rcases mac with _ | mac
  · exact ok_iff (f := MetaLine.ofRust) (b := ⟨.bang, Piggy.Pigpen.typeTag⟩)
  · simp only [typeLine, Piggy.Pigpen.typeLine, Result.bind_eq_ok, encodeMac_same, Result.pure_eq_ok,
      bind_ok, pure_ok]
    constructor
    · rintro ⟨_, ⟨lock, hlock, rfl⟩, rfl⟩
      exact ⟨_, ⟨lock, hlock, rfl⟩, by simp only [MetaLine.ofRust, utf8_append, utf8_cons]; rfl⟩
    · rintro ⟨_, ⟨lock, hlock, rfl⟩, rfl⟩
      exact ⟨_, ⟨lock, hlock, rfl⟩, by simp only [MetaLine.ofRust, utf8_append, utf8_cons]; rfl⟩

/-! ## Documents -/

theorem recipientLines_same {rs : List Piggy.Pigpen.Recipient} {gs : List Recipient}
    (h : List.Forall₂ SameRecipient rs gs) {start lines : List MetaLine} :
    gs.foldlM (addRecipientLine t) start = .ok lines ↔
      ∃ ls, rs.mapM Piggy.Pigpen.recipientLine = .ok ls ∧ lines = start ++ ls.map .ofRust := by
  induction h generalizing start with
  | nil =>
    constructor
    · intro hok
      cases hok
      exact ⟨[], rfl, (List.append_nil _).symm⟩
    · rintro ⟨ls, hls, rfl⟩
      obtain rfl : [] = ls := Except.ok.inj hls
      rw [List.map_nil, List.append_nil]
      rfl
  | cons hr _ ih =>
    simp only [List.foldlM_cons, addRecipientLine, Result.bind_eq_ok, recipientLine_same hr,
      Result.pure_eq_ok, List.mapM_cons, bind_ok, pure_ok, ih]
    constructor
    · rintro ⟨_, ⟨_, ⟨l, hl, rfl⟩, rfl⟩, ls, hls, rfl⟩
      exact ⟨_, ⟨l, hl, ls, hls, rfl⟩, by rw [List.map_cons, List.append_assoc, List.singleton_append]⟩
    · rintro ⟨_, ⟨l, hl, ls, hls, rfl⟩, rfl⟩
      exact ⟨_, ⟨_, ⟨l, hl, rfl⟩, rfl⟩, ls, hls,
        by rw [List.map_cons, List.append_assoc, List.singleton_append]⟩

variable {rust : Piggy.Pigpen.Document} {go : Document}

theorem buildHyphence_same (h : SameDocument rust go) (includeMac : Bool) {frame : HyphenceDoc} :
    go.buildHyphence t includeMac = .ok frame ↔
      ∃ d, rust.build includeMac = .ok d ∧ frame = .ofRust d := by
  have hbody : (if includeMac && go.isSealed then go.payload else []) =
      if includeMac && rust.isSealed then rust.payload else [] := by
    rw [Document.isSealed, Piggy.Pigpen.Document.isSealed, h.mac, h.payload]
  simp only [Document.buildHyphence, h.description, h.mac, hbody, Result.bind_eq_ok, descriptionLine_same,
    recipientLines_same h.recipients, typeLine_same, Result.pure_eq_ok, Piggy.Pigpen.Document.build, bind_ok,
    pure_ok]
  constructor
  · rintro ⟨_, ⟨ds, hds, rfl⟩, _, ⟨ls, hls, rfl⟩, _, ⟨l, hl, rfl⟩, rfl⟩
    refine ⟨_, ⟨ds, hds, ls, hls, l, hl, rfl⟩, ?_⟩
    rw [HyphenceDoc.ofRust, List.map_append, List.map_append, List.append_assoc]
    rfl
  · rintro ⟨_, ⟨ds, hds, ls, hls, l, hl, rfl⟩, rfl⟩
    refine ⟨_, ⟨ds, hds, rfl⟩, _, ⟨ls, hls, rfl⟩, _, ⟨l, hl, rfl⟩, ?_⟩
    rw [HyphenceDoc.ofRust, List.map_append, List.map_append, List.append_assoc]
    rfl

/-- The bytes of a frame without a body. -/
theorem marshalMetadata_ofRust (d : Piggy.Pigpen.HyphenceDoc) (hbody : d.body = []) :
    (HyphenceDoc.ofRust d).marshalMetadata = d.marshalMetadata := by
  have hrust : d.marshal = .ok d.marshalMetadata := by
    rw [Piggy.Pigpen.HyphenceDoc.marshal, hbody]
    simp
  have hgo : (HyphenceDoc.ofRust d).marshal = .ok (HyphenceDoc.ofRust d).marshalMetadata := by
    rw [HyphenceDoc.marshal, hasInlineBody_ofRust, hbody]
    simp
  rw [marshal_ofRust, hrust] at hgo
  exact (Except.ok.inj hgo).symm

/-- The header that the MAC covers is one in both languages. -/
theorem canonicalHeader_same (h : SameDocument rust go) {header : Bytes} :
    go.canonicalHeader t = .ok header ↔ rust.canonicalHeader = .ok header := by
  have hbody : ∀ {d}, rust.build false = .ok d → d.body = [] := by
    intro d hd
    simp only [Piggy.Pigpen.Document.build, bind_ok, pure_ok] at hd
    obtain ⟨-, -, -, -, -, -, rfl⟩ := hd
    rfl
  simp only [Document.canonicalHeader, Result.bind_eq_ok, buildHyphence_same h, Result.pure_eq_ok,
    Piggy.Pigpen.Document.canonicalHeader, bind_ok, pure_ok]
  constructor
  · rintro ⟨_, ⟨d, hd, rfl⟩, rfl⟩
    exact ⟨d, hd, (marshalMetadata_ofRust d (hbody hd)).symm⟩
  · rintro ⟨d, hd, rfl⟩
    exact ⟨_, ⟨d, hd, rfl⟩, marshalMetadata_ofRust d (hbody hd)⟩

/-- A document is written as the same bytes in both languages. -/
theorem marshalText_same (h : SameDocument rust go) {bytes : Bytes} :
    go.marshalText t = .ok bytes ↔ rust.toBytes = .ok bytes := by
  simp only [Document.marshalText, Result.bind_eq_ok, buildHyphence_same h, Result.lift_eq_ok,
    Piggy.Pigpen.Document.toBytes, bind_ok]
  constructor
  · rintro ⟨_, ⟨d, hd, rfl⟩, hout⟩
    exact ⟨d, hd, (marshal_ofRust d).mp hout⟩
  · rintro ⟨d, hd, hout⟩
    exact ⟨_, ⟨d, hd, rfl⟩, (marshal_ofRust d).mpr hout⟩

/-- Both packages authenticate one header of a file that they read, and write it again as one file. -/
theorem rewritten_same {raw : Bytes} (halike : ReadAlike raw) :
    (∀ header, (∃ d, parseDocument t raw = .ok d ∧ d.canonicalHeader t = .ok header) ↔
        ∃ d, Piggy.Pigpen.Document.parse raw = .ok d ∧ d.canonicalHeader = .ok header) ∧
      ∀ file, (∃ d, parseDocument t raw = .ok d ∧ d.marshalText t = .ok file) ↔
        ∃ d, Piggy.Pigpen.Document.parse raw = .ok d ∧ d.toBytes = .ok file := by
  have hlock := parseDocument_same (t := t) halike
  refine ⟨?_, ?_⟩
  · intro header
    constructor
    · rintro ⟨d, hd, hheader⟩
      obtain ⟨rust, hrust, hsame⟩ := hlock.leads d hd
      exact ⟨rust, hrust, (canonicalHeader_same hsame).mp hheader⟩
    · rintro ⟨d, hd, hheader⟩
      obtain ⟨go, hgo, hsame⟩ := hlock.follows d hd
      exact ⟨go, hgo, (canonicalHeader_same hsame).mpr hheader⟩
  · intro file
    constructor
    · rintro ⟨d, hd, hfile⟩
      obtain ⟨rust, hrust, hsame⟩ := hlock.leads d hd
      exact ⟨rust, hrust, (marshalText_same hsame).mp hfile⟩
    · rintro ⟨d, hd, hfile⟩
      obtain ⟨go, hgo, hsame⟩ := hlock.follows d hd
      exact ⟨go, hgo, (marshalText_same hsame).mpr hfile⟩

/-- A set is written again in Go. -/
theorem rewritten_same_sample : ∃ d file,
    parseDocument asciiTables (Piggy.Pigpen.sampleSet Piggy.Pigpen.sampleBareLine) = .ok d ∧
      d.marshalText asciiTables = .ok file := by
  obtain ⟨r, hr, hparse⟩ := parse_sampleSet
  obtain ⟨file, hfile⟩ := exists_ok (by decide +kernel :
    (Piggy.Pigpen.parseRecipientLine Piggy.Pigpen.sampleBareLine >>= fun r =>
      Piggy.Pigpen.Document.toBytes ⟨none, [r], [], none⟩).isOk = true)
  rw [hr, ok_bind] at hfile
  obtain ⟨d, hd, hout⟩ := ((rewritten_same readAlike_sampleBareLine).2 file).mpr ⟨_, hparse, hfile⟩
  exact ⟨d, file, hd, hout⟩

end Piggy.Go.Pigpen
