import Piggy.Markl.Blech32

/-!
# Markl ids

An id is a payload of a format, with a purpose where it has one. On the wire the
purpose stands in front of the join and the checksum covers format and payload only.
-/

namespace Piggy.Markl

open Piggy.Core

/-- A markl id: the payload has the size of its format, and a purpose that is enumerated
accepts the format. -/
structure Id where
  purpose : Option PurposeId
  format : FormatId
  data : List UInt8
  size : data.length = format.size
  compatible : ∀ p ∈ purpose, p.isOther = false → p.accepts format = true
  deriving DecidableEq

/-- How an id can be malformed. -/
inductive ParseError where
  | blech32 (e : Blech32.Error)
  | unknownFormat (name : String)
  | wrongSize (format : FormatId) (expected actual : Nat)
  | incompatible (purpose : PurposeId) (format : FormatId)
  | purpose (e : PurposeError)
  deriving DecidableEq

/-- Checks a purpose against a format; a purpose that is not enumerated passes. -/
def checkPurpose (format : FormatId) (purpose : Option PurposeId) : Option PurposeId :=
  purpose.filter fun p => !p.isOther && !p.accepts format

theorem checkPurpose_none {format : FormatId} {purpose : Option PurposeId}
    (h : checkPurpose format purpose = none) :
    ∀ p ∈ purpose, p.isOther = false → p.accepts format = true := by
  rintro p rfl hp
  simpa [checkPurpose, Option.filter, hp] using h

namespace Id

/-- An id from its parts, checked. -/
def new (purpose : Option PurposeId) (format : FormatId) (data : List UInt8) :
    Except ParseError Id :=
  if hsize : data.length = format.size then
    match hcompat : checkPurpose format purpose with
    | some p => .error (.incompatible p format)
    | none => .ok ⟨purpose, format, data, hsize, checkPurpose_none hcompat⟩
  else .error (.wrongSize format format.size data.length)

/-- The text of format and payload. Encoding a checked payload never fails, so the other
branch, where the program would stop, is not reached. -/
def body (id : Id) : List Char :=
  match Blech32.encode id.format.asStr.toList id.data with
  | .ok text => text
  | .error _ => []

/-- The wire form of an id. -/
def toWire (id : Id) : List Char :=
  match id.purpose with
  | some p => spellPurpose p.asStr.toList ++ '@' :: id.body
  | none => id.body

/-- The purpose that a slot names. -/
def parsePurpose : Option (List Char) → Except ParseError (Option PurposeId)
  | none => .ok none
  | some slot =>
    match unquotePurpose slot with
    | .ok value => .ok (some (PurposeId.parse (String.ofList value)))
    | .error e => .error (.purpose e)

/-- Format and payload that a body spells. -/
def parseBody (body : List Char) : Except ParseError (FormatId × List UInt8) :=
  match Blech32.decode body with
  | .error e => .error (.blech32 e)
  | .ok (name, data) =>
    match FormatId.parse (String.ofList name) with
    | .error name => .error (.unknownFormat name)
    | .ok format => .ok (format, data)

/-- The id that a text spells. -/
def parse (s : List Char) : Except ParseError Id := do
  let (slot, body) := splitPurposeSlot s
  let purpose ← parsePurpose slot
  let (format, data) ← parseBody body
  Id.new purpose format data

/-! ## Round trip -/

theorem new_ok (id : Id) : Id.new id.purpose id.format id.data = .ok id := by
  rw [Id.new, dif_pos id.size]
  split
  · next p h =>
    have hmem : p ∈ id.purpose ∧ (!p.isOther && !p.accepts id.format) = true := by
      simpa [checkPurpose, Option.filter_eq_some_iff] using h
    have hacc := id.compatible p hmem.1
    revert hacc
    simpa using hmem.2
  · rfl

/-- A checked id has the parts it was made from. -/
theorem new_eq_ok {purpose : Option PurposeId} {format : FormatId} {data : List UInt8} {id : Id}
    (h : Id.new purpose format data = .ok id) :
    id.purpose = purpose ∧ id.format = format ∧ id.data = data := by
  rw [Id.new] at h
  by_cases hsize : data.length = format.size
  · rw [dif_pos hsize] at h
    split at h
    · cases h
    · cases h
      exact ⟨rfl, rfl, rfl⟩
  · rw [dif_neg hsize] at h
    cases h

/-- No format has an empty payload. -/
theorem data_ne_nil (id : Id) : id.data ≠ [] := by
  rw [← List.length_pos_iff, id.size]
  cases id.format <;> decide

/-- The name of a format is a human-readable part in lower case. -/
theorem asStr_chars (f : FormatId) :
    f.asStr.toList.isEmpty = false ∧ f.asStr.toList.all Blech32.isLowerHrpChar = true := by
  cases f <;> exact ⟨rfl, rfl⟩

/-- The body is made of wire characters and decodes to format and payload. -/
theorem parseBody_body (id : Id) :
    parseBody id.body = .ok (id.format, id.data) ∧ ∀ c ∈ id.body, Blech32.isWireChar c = true := by
  obtain ⟨hne, hname⟩ := asStr_chars id.format
  obtain ⟨text, henc, hdec, hwire⟩ := Blech32.decode_encode (List.isEmpty_eq_false_iff.mp hne)
    (List.all_eq_true.mp hname) id.data_ne_nil
  have hbody : id.body = text := by rw [body, henc]
  refine ⟨?_, hbody ▸ hwire⟩
  have hformat : FormatId.parse id.format.asStr = .ok id.format := FormatId.parse_eq_ok.mpr rfl
  rw [parseBody, hbody, hdec]
  simp only [String.ofList_toList, hformat]

/-- The wire name of an enumerated purpose is spelled bare and stands for the purpose. -/
theorem enumerated_spec {p : PurposeId} (h : p.isOther = false) :
    purposeIsBareExpressible p.asStr.toList = true ∧ PurposeId.parse p.asStr = p := by
  cases p with
  | other name => cases h
  | _ => exact ⟨rfl, rfl⟩

/-- A wire character is no quote and no join. -/
theorem isWireChar_spec {c : Char} (h : Blech32.isWireChar c = true) :
    c ≠ '"' ∧ c ≠ '\'' ∧ c ≠ '@' := by
  refine ⟨?_, ?_, ?_⟩
  all_goals
    rintro rfl
    revert h
    decide

/-- A text of wire characters has no slot. -/
theorem splitPurposeSlot_wire {text : List Char} (h : ∀ c ∈ text, Blech32.isWireChar c = true) :
    splitPurposeSlot text = (none, text) := by
  refine splitPurposeSlot_none ?_ ?_ ?_
  · intro hhead
    exact (isWireChar_spec (h _ (List.mem_of_mem_head? hhead))).1 rfl
  · intro hhead
    exact (isWireChar_spec (h _ (List.mem_of_mem_head? hhead))).2.1 rfl
  · intro hmem
    exact (isWireChar_spec (h _ hmem)).2.2 rfl

/-- The wire form is split at the join that was written. -/
theorem splitPurposeSlot_toWire (id : Id) :
    splitPurposeSlot id.toWire =
      (id.purpose.map fun p => spellPurpose p.asStr.toList, id.body) := by
  obtain ⟨-, hwire⟩ := id.parseBody_body
  cases hp : id.purpose with
  | none =>
    have hwireEq : id.toWire = id.body := by rw [toWire, hp]
    rw [hwireEq]
    exact splitPurposeSlot_wire hwire
  | some p =>
    have hwireEq : id.toWire = spellPurpose p.asStr.toList ++ '@' :: id.body := by rw [toWire, hp]
    rw [hwireEq, (splitPurposeSlot_spell _ _).1]
    rfl

/-- An id whose purpose is the one its name stands for is read back from its wire form. -/
theorem parse_toWire_of_parsed {id : Id} (h : ∀ p ∈ id.purpose, PurposeId.parse p.asStr = p) :
    parse id.toWire = .ok id := by
  have hpurpose : parsePurpose (id.purpose.map fun p => spellPurpose p.asStr.toList) =
      .ok id.purpose := by
    cases hp : id.purpose with
    | none => rfl
    | some p =>
      simp only [Option.map_some, parsePurpose, (splitPurposeSlot_spell p.asStr.toList []).2,
        String.ofList_toList, h p hp]
  rw [parse, splitPurposeSlot_toWire]
  simp only [hpurpose, id.parseBody_body.1, ok_bind, new_ok]

/-- An id without purpose, or with one that is enumerated, is read back from its wire
form. -/
theorem parse_toWire {id : Id} (h : ∀ p ∈ id.purpose, p.isOther = false) :
    parse id.toWire = .ok id :=
  parse_toWire_of_parsed fun p hp => (enumerated_spec (h p hp)).2

end Id

end Piggy.Markl
