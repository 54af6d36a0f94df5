import Piggy.Go.RecipientSet
import Piggy.Pigpen.Seal

/-!
# One document in both languages

The Go package reads a document as the Rust crate does, line by line, wherever the two
registries admit the same recipients. What the Go reader lets through besides is a wrap without
a body: it drops the wrap and keeps the recipient.
-/

namespace Piggy.Go.Markl.Id

open Piggy.Core
open Piggy.Markl (PurposeId FormatId)

variable {rust : Piggy.Markl.Id} {go : Id}

/-! ## Ids -/

/-- The purpose of an id is the one its name stands for. -/
def Parsed (id : Piggy.Markl.Id) : Prop := ∀ p ∈ id.purpose, PurposeId.parse p.asStr = p

/-- A format is told by its name. -/
theorem utf8_format_iff {f g : FormatId} : utf8 f.asStr.toList = utf8 g.asStr.toList ↔ f = g := by
  constructor
  · intro h
    have hstr : f.asStr = g.asStr := String.toList_inj.mp (utf8_inj h)
    have hf : FormatId.parse f.asStr = .ok f := FormatId.parse_eq_ok.mpr rfl
    rw [hstr, FormatId.parse_eq_ok.mpr rfl] at hf
    exact (Except.ok.inj hf).symm
  · rintro rfl
    rfl

/-- A purpose that stands for its name is told by it. -/
theorem utf8_purpose_iff {p q : PurposeId} (hp : PurposeId.parse p.asStr = p)
    (hq : PurposeId.parse q.asStr = q) : utf8 p.asStr.toList = utf8 q.asStr.toList ↔ p = q := by
  constructor
  · intro h
    rw [← hp, ← hq, String.toList_inj.mp (utf8_inj h)]
  · rintro rfl
    rfl

/-- Whether an id has a given purpose. -/
theorem Same.purpose_iff (h : Same rust go) (hparsed : Parsed rust) {q : PurposeId}
    (hq : PurposeId.parse q.asStr = q) (hne : utf8 q.asStr.toList ≠ []) :
    go.purposeId = utf8 q.asStr.toList ↔ rust.purpose = some q := by
  have hpurpose := h.purpose
  cases hp : rust.purpose with
  | none =>
    rw [hp] at hpurpose
    rw [show go.purposeId = [] from hpurpose]
    exact iff_of_false hne.symm (fun h => by cases h)
  | some p =>
    rw [hp] at hpurpose
    rw [hpurpose.1, utf8_purpose_iff (hparsed p hp) hq, Option.some.injEq]

theorem Same.no_purpose_iff (h : Same rust go) : go.purposeId = [] ↔ rust.purpose = none := by
  have hpurpose := h.purpose
  cases hp : rust.purpose with
  | none =>
    rw [hp] at hpurpose
    exact iff_of_true hpurpose rfl
  | some p =>
    rw [hp] at hpurpose
    exact iff_of_false hpurpose.2 (fun h => by cases h)

theorem Same.data_ne_nil (h : Same rust go) : go.data ≠ [] := by
  rw [h.data]
  exact rust.data_ne_nil

/-- An id is one id in Go. -/
theorem Same.unique (h : Same rust go) {go' : Id} (h' : Same rust go') : go = go' := by
  have hpurpose : go.purposeId = go'.purposeId := by
    have hp := h.purpose
    have hp' := h'.purpose
    generalize rust.purpose = purpose at hp hp'
    cases purpose with
    | none => exact Eq.trans hp (Eq.symm hp')
    | some p => exact hp.1.trans hp'.1.symm
  have hformat := h.format.trans h'.format.symm
  have hdata := h.data.trans h'.data.symm
  cases go
  cases go'
  exact (Id.mk.injEq ..).mpr ⟨hpurpose, hformat, hdata⟩

/-- An id whose purpose has a name is an id in Go. -/
theorem exists_same (h : ∀ p ∈ rust.purpose, p.asStr.isEmpty = false) : ∃ go, Same rust go := by
  refine ⟨⟨((rust.purpose.map fun p => utf8 p.asStr.toList)).getD [], some ⟨_, _⟩, rust.data⟩, ?_, rfl, rfl⟩
  cases hp : rust.purpose with
  | none => rfl
  | some p =>
    refine ⟨rfl, utf8_ne_nil fun hnil => ?_⟩
    have hname := h p hp
    rw [String.toList_eq_nil_iff.mp hnil] at hname
    cases hname

/-- What a setter leaves of a zero id is typed. -/
theorem typed_of_set {reg : Registry} {t : CaseTables} {text : Bytes}
    (h : set reg t text zero = (.ok (), go)) : go.Typed reg := by
  have hzero : zero.Typed reg := .zero
  have htyped := (readsText_set reg t).typed text hzero
  rw [h] at htyped
  exact htyped

end Piggy.Go.Markl.Id

namespace Piggy.Go.Pigpen

open Piggy.Core
open Piggy.Markl (PurposeId FormatId)
open Piggy.Markl.Grammar (Accepted)
open Piggy.Go.Markl (Id production)
open Piggy.Go.Markl.Id (Same Parsed set_eq_ok go_accepts same_iff utf8_format_iff typed_of_set)

variable {t : CaseTables} {rust : Piggy.Markl.Id} {go : Id}

theorem setId_eq_ok {fail : Markl.Error → Error} {text : Bytes} :
    setId t fail text = .ok go ↔ Markl.Id.set production t text .zero = (.ok (), go) := by
  rw [setId]
  rcases Markl.Id.set production t text .zero with ⟨⟨⟩ | e | _, id⟩
  · simp
  · simp
  · simp

theorem formatOf_same (h : Same rust go) : formatOf go = .ok (utf8 rust.format.asStr.toList) := by
  rw [formatOf, h.format]

/-- Both packages encrypt to the same ids. -/
theorem isEncryptionRecipient_same (h : Same rust go) (hparsed : Parsed rust) :
    isEncryptionRecipient go = Piggy.Pigpen.isEncryptionRecipient rust := by
  have hv1 := h.purpose_iff hparsed (q := .piggyRecipientV1) rfl (by decide)
  have hpivy : formatPivyP256 = utf8 FormatId.pivyEcdhP256Pub.asStr.toList := rfl
  have hage : formatAgeX25519 = utf8 FormatId.ageX25519Pub.asStr.toList := rfl
  have hformat := h.format
  rw [Bool.eq_iff_iff, isEncryptionRecipient_iff, Piggy.Pigpen.isEncryptionRecipient, Bool.and_eq_true]
  simp only [hformat, Option.some.injEq, exists_eq_left', hpivy, hage, utf8_format_iff]
  refine and_congr ?_ ?_
  · cases rust.format <;> simp
  · rw [show purposeRecipient = utf8 PurposeId.piggyRecipientV1.asStr.toList from rfl, hv1,
      h.no_purpose_iff]
    rcases rust.purpose with _ | p
    · simp
    · cases p <;> simp

/-- The promoted forms of one recipient are one recipient. -/
theorem promoted_same (h : Same rust go) (hparsed : Parsed rust) (htyped : go.Typed production)
    (henc : Piggy.Pigpen.isEncryptionRecipient rust = true) {out : Id} :
    canonicalRecipient go = .ok out ↔
      ∃ id, Piggy.Pigpen.promoteRecipient rust = .ok id ∧ Parsed id ∧ Same id out := by
  have hgo := isEncryptionRecipient_same h hparsed
  rw [henc] at hgo
  have haccepts : PurposeId.piggyRecipientV1.accepts rust.format = true := by
    rw [Piggy.Pigpen.isEncryptionRecipient, Bool.and_eq_true] at henc
    exact henc.1
  have hcheck : Piggy.Markl.checkPurpose rust.format (some .piggyRecipientV1) = none := by
    rw [Piggy.Markl.checkPurpose, Option.filter_eq_none_iff]
    rintro _ ⟨⟩
    simp [haccepts]
  rw [canonicalRecipient_iff htyped hgo]
  constructor
  · rintro ⟨f, hf, -, rfl⟩
    have hnew : ∃ id, Piggy.Markl.Id.new (some .piggyRecipientV1) rust.format rust.data = .ok id := by
      refine ⟨⟨some .piggyRecipientV1, rust.format, rust.data, rust.size, ?_⟩, ?_⟩
      · exact Piggy.Markl.checkPurpose_none hcheck
      · exact Piggy.Markl.Grammar.new_eq_ok_iff.mpr ⟨rust.size, hcheck, rfl, rfl, rfl⟩
    obtain ⟨id, hid⟩ := hnew
    obtain ⟨hpurpose, hformat, hdata⟩ := Piggy.Markl.Id.new_eq_ok hid
    refine ⟨id, ?_, ?_, ⟨?_, ?_, ?_⟩⟩
    · rw [Piggy.Pigpen.promoteRecipient, henc, Piggy.Pigpen.recipientId, hid]
      rfl
    · intro p hp
      rw [hpurpose] at hp
      cases hp
      rfl
    · rw [hpurpose]
      exact ⟨rfl, (by decide : purposeRecipient ≠ [])⟩
    · rw [← hf, h.format, hformat]
    · rw [hdata, h.data]
  · rintro ⟨id, hid, -, hsame⟩
    obtain ⟨-, hpurpose, hformat, hdata⟩ := Piggy.Pigpen.Document.promoteRecipient_ok hid
    refine ⟨_, h.format, fun _ => ?_, ?_⟩
    · rw [h.data, rust.size]
    · have hp := hsame.purpose
      rw [hpurpose] at hp
      have ho := hsame.format
      have hd := hsame.data
      obtain ⟨purposeId, format, data⟩ := out
      dsimp only at hp ho hd
      rw [hp.1, ho, hd, hformat, hdata, h.data]
      rfl

/-! ## Recipient ids -/

/-- Both registries admit what a text spells, or neither does. -/
def KnownAlike (text : List Char) : Prop :=
  Accepted Piggy.Markl.Grammar.admits text ↔ Accepted (Markl.Id.admits production) text

theorem set_nil : Markl.Id.set production t [] .zero = (.ok (), .zero) := rfl

theorem quotes_iff {text : List Char} :
    (utf8 "\"\"@".toList <+: utf8 text ∨ utf8 "''@".toList <+: utf8 text) ↔
      ∃ body, text = '"' :: '"' :: '@' :: body ∨ text = '\'' :: '\'' :: '@' :: body := by
  rw [utf8_prefix_iff, utf8_prefix_iff]
  constructor
  · rintro (⟨body, h⟩ | ⟨body, h⟩)
    · exact ⟨body, .inl h.symm⟩
    · exact ⟨body, .inr h.symm⟩
  · rintro ⟨body, rfl | rfl⟩
    · exact .inl ⟨body, rfl⟩
    · exact .inr ⟨body, rfl⟩

/-- An empty purpose in quotes is the one purpose that the crate refuses on a line. -/
theorem emptyPurpose_iff {text : List Char} (hrust : Piggy.Markl.Id.parse text = .ok rust)
    (hgo : Markl.Id.set production t (utf8 text) .zero = (.ok (), go)) (hne : text ≠ []) :
    rust.purpose.any (·.asStr.isEmpty) = true ↔
      ∃ body, text = '"' :: '"' :: '@' :: body ∨ text = '\'' :: '\'' :: '@' :: body := by
  constructor
  · intro hempty
    by_contra hquotes
    have hpurpose := ((same_iff production t hne hrust hgo).mpr hquotes).purpose
    cases hp : rust.purpose with
    | none =>
      rw [hp] at hempty
      cases hempty
    | some p =>
      rw [hp] at hempty hpurpose
      rw [Option.any_some, String.isEmpty_iff] at hempty
      exact hpurpose.2 (by rw [hpurpose.1, hempty]; rfl)
  · intro hquotes
    obtain ⟨value, groups, hreads, -, hpurpose⟩ := Piggy.Markl.Grammar.parse_eq_ok.mp hrust
    rw [hpurpose, Markl.Id.value_of_quotes hreads hquotes, Option.map_some, Option.any_some,
      PurposeId.asStr_parse]
    rfl

/-- A recipient's text is one recipient to both packages, when both registries know it. -/
theorem parseRecipientId_same {text : List Char} (hknown : KnownAlike text) {out : Id} :
    parseRecipientId t (utf8 text) = .ok out ↔
      ∃ id, Piggy.Pigpen.parseRecipientId text = .ok id ∧ Parsed id ∧ Same id out := by
  by_cases hne : text = []
  · subst hne
    refine iff_of_false ?_ ?_
    · rw [show utf8 ([] : List Char) = [] from rfl, parseRecipientId, setId, set_nil]
      simp [Result.ok_bind, Id.zero]
    · rintro ⟨id, hid, -⟩
      cases hid
  -- What is left of the line once both parsers took its id.
  have hrest : ∀ {rust : Piggy.Markl.Id} {go : Id}, Piggy.Markl.Id.parse text = .ok rust →
      Markl.Id.set production t (utf8 text) .zero = (.ok (), go) →
      ((¬ (utf8 "\"\"@".toList <+: utf8 text ∨ utf8 "''@".toList <+: utf8 text) ∧
        (if isEncryptionRecipient go then canonicalRecipient go else .ok go) = .ok out) ↔
      ∃ id, rust.purpose.any (·.asStr.isEmpty) = false ∧
        (if Piggy.Pigpen.isEncryptionRecipient rust then Piggy.Pigpen.promoteRecipient rust else .ok rust) =
          .ok id ∧ Parsed id ∧ Same id out) := by
    intro rust go hparse hset
    have hempty := emptyPurpose_iff hparse hset hne
    have hsame := same_iff production t hne hparse hset
    have hparsed : Parsed rust := Piggy.Markl.Id.parsed_of_parse hparse
    rw [quotes_iff, ← hempty, Bool.not_eq_true]
    by_cases hp : rust.purpose.any (·.asStr.isEmpty) = true
    · simp [hp]
    · rw [Bool.not_eq_true] at hp
      have hs : Same rust go := hsame.mpr (fun hq => by rw [hempty.mpr hq] at hp; cases hp)
      simp only [hp, true_and, isEncryptionRecipient_same hs hparsed]
      by_cases henc : Piggy.Pigpen.isEncryptionRecipient rust = true
      · rw [if_pos henc, if_pos henc]
        exact promoted_same hs hparsed (typed_of_set hset) henc
      · rw [if_neg henc, if_neg henc, Result.ok.injEq]
        constructor
        · rintro rfl
          exact ⟨rust, rfl, hparsed, hs⟩
        · rintro ⟨id, hid, -, hid'⟩
          cases hid
          exact hs.unique hid'
  have hleft : parseRecipientId t (utf8 text) = .ok out ↔
      ∃ go, Markl.Id.set production t (utf8 text) .zero = (.ok (), go) ∧ go.data ≠ [] ∧
        ¬ (utf8 "\"\"@".toList <+: utf8 text ∨ utf8 "''@".toList <+: utf8 text) ∧
        (if isEncryptionRecipient go then canonicalRecipient go else .ok go) = .ok out := by
    simp only [parseRecipientId, Result.bind_eq_ok, Result.guard_eq_ok, setId_eq_ok, ne_eq]
  have hright : ∀ {id}, Piggy.Pigpen.parseRecipientId text = .ok id ↔
      ∃ rust, Piggy.Markl.Id.parse text = .ok rust ∧ rust.purpose.any (·.asStr.isEmpty) = false ∧
        (if Piggy.Pigpen.isEncryptionRecipient rust then Piggy.Pigpen.promoteRecipient rust else .ok rust) =
          .ok id := by
    intro id
    simp only [Piggy.Pigpen.parseRecipientId, bind_ok, mapError_ok, guard_ok, Bool.not_eq_true]
  rw [hleft]
  simp only [hright]
  constructor
  · rintro ⟨go, hset, hdata, hout⟩
    obtain ⟨rust, hparse⟩ := (Piggy.Markl.Grammar.parse_accepts hne).mpr
      (hknown.mpr ((go_accepts production t hne).mpr ⟨go, hset, hdata⟩))
    obtain ⟨id, hnamed, hid, hsame⟩ := (hrest hparse hset).mp hout
    exact ⟨id, ⟨rust, hparse, hnamed, hid⟩, hsame⟩
  · rintro ⟨id, ⟨rust, hparse, hnamed, hid⟩, hsame⟩
    obtain ⟨go, hset, hdata⟩ := (go_accepts production t hne).mp
      (hknown.mp ((Piggy.Markl.Grammar.parse_accepts hne).mp ⟨rust, hparse⟩))
    exact ⟨go, hset, hdata, (hrest hparse hset).mpr ⟨id, hnamed, hid, hsame⟩⟩

/-- A recipient that the crate read has the purpose its name stands for, and a name. -/
theorem named_of_parseRecipientId {text : List Char} {id : Piggy.Markl.Id}
    (h : Piggy.Pigpen.parseRecipientId text = .ok id) :
    Parsed id ∧ ∀ p ∈ id.purpose, p.asStr.isEmpty = false := by
  simp only [Piggy.Pigpen.parseRecipientId, bind_ok, mapError_ok, guard_ok, Bool.not_eq_true] at h
  obtain ⟨rust, hparse, hnamed, h⟩ := h
  split at h
  · obtain ⟨-, hpurpose, -⟩ := Piggy.Pigpen.Document.promoteRecipient_ok h
    rw [Parsed, hpurpose]
    refine ⟨?_, ?_⟩
    · rintro p ⟨⟩
      rfl
    · rintro p ⟨⟩
      rfl
  · cases h
    refine ⟨Piggy.Markl.Id.parsed_of_parse hparse, ?_⟩
    intro p hp
    rw [Option.mem_def.mp hp] at hnamed
    exact hnamed

/-! ## Locks -/

theorem wrapFormatFor_same (recipient : FormatId) {out : Bytes} :
    wrapFormatFor (utf8 recipient.asStr.toList) = .ok out ↔
      ∃ f, Piggy.Pigpen.wrapFormatFor recipient = .ok f ∧ out = utf8 f.asStr.toList := by
  have hpivy : formatPivyP256 = utf8 FormatId.pivyEcdhP256Pub.asStr.toList := rfl
  have hage : formatAgeX25519 = utf8 FormatId.ageX25519Pub.asStr.toList := rfl
  simp only [wrapFormatFor, hpivy, hage, utf8_format_iff]
  cases recipient <;>
    simp [Piggy.Pigpen.wrapFormatFor, formatIdPigpenWrapP256, formatIdPigpenWrapX25519, FormatId.asStr,
      eq_comm]

/-- A format with its size in the registry of the Go package. -/
def Registered (f : FormatId) : Prop :=
  production.getFormatOrError (utf8 f.asStr.toList) = .ok ⟨utf8 f.asStr.toList, f.size⟩

/-- A text that gives the purpose of a value reads with this value only. -/
def OneValue (text : List Char) (value : Option (List Char)) : Prop :=
  ∀ value' body, body ≠ [] → Piggy.Markl.Grammar.Reads text value' body →
    Markl.Id.purposeOf value' = Markl.Id.purposeOf value → value' = value

/-- A purpose that is not empty is spelled by one value. -/
theorem oneValue_some {text value : List Char} (hne : value ≠ []) : OneValue text (some value) := by
  intro value' _ _ _ h
  cases value' with
  | none => exact absurd h.symm (Markl.Id.utf8_ne_nil hne)
  | some v => rw [utf8_inj (s := v) h]

/-- Without an at sign a text has no purpose at all. -/
theorem oneValue_none {text : List Char} (hat : '@' ∉ text) : OneValue text none := by
  rintro value' body hbody (⟨rfl, -⟩ | ⟨p, v, rfl, hsplit, hv⟩) -
  · rfl
  · rw [(Piggy.Markl.Grammar.run_of_split hbody hsplit hv).1] at hat
    exact absurd (by simp) hat

/-- Both parsers take a text whose format and purpose are known to both. -/
theorem parse_iff_set {text : List Char} (hne : text ≠ []) {f : FormatId} (hf : Registered f)
    {value : Option (List Char)} (hvalue : OneValue text value)
    (hrust : Piggy.Markl.checkPurpose f (value.map fun v => PurposeId.parse (String.ofList v)) = none)
    (hgo : production.validatePurposeAndFormatId (Markl.Id.purposeOf value) (utf8 f.asStr.toList) = .ok ())
    {data : Bytes} (hdata : data ≠ []) :
    (∃ rust, Piggy.Markl.Id.parse text = .ok rust ∧ rust.format = f ∧ rust.data = data ∧
        rust.purpose = value.map fun v => PurposeId.parse (String.ofList v)) ↔
      Markl.Id.set production t (utf8 text) .zero =
        (.ok (), ⟨Markl.Id.purposeOf value, some ⟨utf8 f.asStr.toList, f.size⟩, data⟩) := by
  obtain ⟨hname, hlower⟩ := Piggy.Markl.Id.asStr_chars f
  rw [set_eq_ok production t hne]
  constructor
  · rintro ⟨rust, hparse, rfl, rfl, hpurpose⟩
    obtain ⟨value', groups, hreads, hcarries, hpurpose'⟩ := Piggy.Markl.Grammar.parse_eq_ok.mp hparse
    have hsame : value' = value := by
      rw [hpurpose] at hpurpose'
      refine (Option.map_injective ?_ hpurpose').symm
      intro v w h
      have hstr := congrArg PurposeId.asStr h
      simp only [PurposeId.asStr_parse] at hstr
      exact String.ofList_injective hstr
    subst hsame
    exact ⟨value', _, groups, rust.data, _, hreads, List.isEmpty_eq_false_iff.mp hname,
      List.all_eq_true.mp hlower, hcarries, ⟨hf, hgo, fun _ => rust.size⟩, rfl⟩
  · rintro ⟨value', name, groups, payload, f', hreads, -, hlower', hcarries, hfits, heq⟩
    obtain ⟨hpurpose, hformat, rfl⟩ := (Markl.Id.mk.injEq ..).mp heq
    obtain rfl := hvalue _ _ (Piggy.Markl.Grammar.digest_ne_nil _ _) hreads hpurpose.symm
    obtain rfl := Option.some.inj hformat
    have hchars : ∀ c ∈ name, Piggy.Markl.Blech32.isHrpChar c = true := fun c hc =>
      (Bool.and_eq_true _ _ |>.mp (hlower' c hc)).1
    obtain rfl : f.asStr.toList = name :=
      utf8_inj (Markl.Id.lower_of_registered production hfits.format hchars).1
    let rust : Piggy.Markl.Id := ⟨_, f, data, hfits.size hdata, Piggy.Markl.checkPurpose_none hrust⟩
    exact ⟨rust, Piggy.Markl.Grammar.parse_eq_ok.mpr ⟨value', groups, hreads, hcarries, rfl⟩, rfl, rfl, rfl⟩

theorem registered_wrap {recipient f : FormatId} (h : Piggy.Pigpen.wrapFormatFor recipient = .ok f) :
    Registered f ∧ Piggy.Markl.checkPurpose f (some .pigpenWrapV1) = none ∧
      production.validatePurposeAndFormatId purposePigpenWrap (utf8 f.asStr.toList) = .ok () := by
  unfold Piggy.Pigpen.wrapFormatFor at h
  split at h
  · cases h
    exact ⟨by unfold Registered; decide +kernel, rfl, by decide +kernel⟩
  · cases h
    exact ⟨by unfold Registered; decide +kernel, rfl, by decide +kernel⟩
  · cases h

theorem registered_mac : Registered .pigpenHeaderMac ∧
    production.validatePurposeAndFormatId [] (utf8 FormatId.pigpenHeaderMac.asStr.toList) = .ok () := by
  exact ⟨by unfold Registered; decide +kernel, by decide +kernel⟩

/-- An id that was read has the format that its name is registered with. -/
theorem format_of_name {text : Bytes} (h : Markl.Id.set production t text .zero = (.ok (), go)) {f : FormatId}
    (hf : Registered f) :
    formatOf go = .ok (utf8 f.asStr.toList) ↔ go.format = some ⟨utf8 f.asStr.toList, f.size⟩ := by
  have hreg := (typed_of_set h).registered
  rw [formatOf]
  rcases hformat : go.format with _ | g
  · simp
  · have hg := hreg g hformat
    simp only [Result.ok.injEq, Option.some.injEq]
    constructor
    · intro hid
      rw [hid, hf] at hg
      exact (Except.ok.inj hg).symm
    · rintro rfl
      rfl

theorem clone_eq_some {bites w : Bytes} : clone bites = some w ↔ bites = w ∧ bites ≠ [] := by
  rw [clone]
  by_cases h : bites = []
  · simp [h]
  · simp [h]

theorem clone_eq_none {bites : Bytes} : clone bites = none ↔ bites = [] := by
  rw [clone]
  by_cases h : bites = []
  · simp [h]
  · simp [h]

theorem decodeWrap_iff {recipient lock : Bytes} {wrap : Option Bytes} :
    decodeWrap t recipient lock = .ok wrap ↔ ∃ format, wrapFormatFor recipient = .ok format ∧
      ∃ id, Markl.Id.set production t lock .zero = (.ok (), id) ∧ id.purposeId = purposePigpenWrap ∧
        formatOf id = .ok format ∧ clone id.data = wrap := by
  simp only [decodeWrap, Result.bind_eq_ok, Result.lift_eq_ok, Result.guard_eq_ok, setId_eq_ok, ne_eq,
    not_not, Result.ok.injEq]
  constructor
  · rintro ⟨format, hformat, id, hset, hpurpose, got, hgot, rfl, hwrap⟩
    exact ⟨got, hformat, id, hset, hpurpose, hgot, hwrap⟩
  · rintro ⟨format, hformat, id, hset, hpurpose, hgot, hwrap⟩
    exact ⟨format, hformat, id, hset, hpurpose, format, hgot, rfl, hwrap⟩

theorem rust_decodeWrap_iff {recipient : FormatId} {lock : List Char} {wrap : Bytes} :
    Piggy.Pigpen.decodeWrap recipient lock = .ok wrap ↔
      ∃ f, Piggy.Pigpen.wrapFormatFor recipient = .ok f ∧ ∃ id, Piggy.Markl.Id.parse lock = .ok id ∧
        id.purpose = some .pigpenWrapV1 ∧ id.format = f ∧ id.data = wrap := by
  simp only [Piggy.Pigpen.decodeWrap, bind_ok, mapError_ok, guard_ok, ne_eq, not_not, Except.ok.injEq]

/-- A wrap that is read is one wrap to both packages. -/
theorem decodeWrap_same (recipient : FormatId) {lock : List Char} {wrap : Bytes} :
    decodeWrap t (utf8 recipient.asStr.toList) (utf8 lock) = .ok (some wrap) ↔
      Piggy.Pigpen.decodeWrap recipient lock = .ok wrap := by
  have hwrap : purposePigpenWrap = Markl.Id.purposeOf (some "pigpen-wrap-v1".toList) := rfl
  have hparse : (some "pigpen-wrap-v1".toList).map (fun v => PurposeId.parse (String.ofList v)) =
      some .pigpenWrapV1 := by
    rw [Option.map_some, String.ofList_toList]
    rfl
  have hvalue : OneValue lock (some "pigpen-wrap-v1".toList) := oneValue_some (by decide)
  rw [decodeWrap_iff, rust_decodeWrap_iff]
  by_cases hne : lock = []
  · subst hne
    refine iff_of_false ?_ ?_
    · rintro ⟨-, -, id, hset, hpurpose, -⟩
      rw [show utf8 ([] : List Char) = [] from rfl, set_nil] at hset
      cases hset
      exact absurd hpurpose (by decide)
    · rintro ⟨-, -, id, hid, -⟩
      cases hid
  simp only [wrapFormatFor_same, clone_eq_some]
  constructor
  · rintro ⟨-, ⟨f, hf, rfl⟩, id, hset, hpurpose, hformat, rfl, hdata⟩
    obtain ⟨hreg, hcheck, hvalid⟩ := registered_wrap hf
    rw [format_of_name hset hreg] at hformat
    have hid : id = ⟨purposePigpenWrap, some ⟨utf8 f.asStr.toList, f.size⟩, id.data⟩ := by
      rw [← hpurpose, ← hformat]
    rw [hid] at hset
    obtain ⟨rust, hrust, hrf, hrd, hrp⟩ :=
      (parse_iff_set hne hreg hvalue (by rw [hparse]; exact hcheck) hvalid hdata).mpr hset
    exact ⟨f, hf, rust, hrust, hrp.trans hparse, hrf, hrd⟩
  · rintro ⟨f, hf, rust, hrust, hrp, hrf, rfl⟩
    obtain ⟨hreg, hcheck, hvalid⟩ := registered_wrap hf
    have hset := (parse_iff_set (t := t) hne hreg hvalue (by rw [hparse]; exact hcheck) hvalid
      rust.data_ne_nil).mp ⟨rust, hrust, hrf, rfl, hrp.trans hparse.symm⟩
    exact ⟨_, ⟨f, hf, rfl⟩, _, hset, rfl, (format_of_name hset hreg).mpr rfl, rfl, rust.data_ne_nil⟩

/-- Only the wrap of a checksum with nothing in front of it is dropped. -/
theorem isBareChecksum_of_decodeWrap {recipient : Bytes} {lock : List Char}
    (h : decodeWrap t recipient (utf8 lock) = .ok none) : Markl.Id.IsBareChecksum production lock := by
  obtain ⟨format, hformat, id, hset, hpurpose, -, hdata⟩ := decodeWrap_iff.mp h
  have hne : lock ≠ [] := by
    rintro rfl
    rw [show utf8 ([] : List Char) = [] from rfl, set_nil] at hset
    cases hset
    exact absurd hpurpose (by decide)
  exact (Markl.Id.isBareChecksum_iff production t hne).mpr ⟨id, hset, clone_eq_none.mp hdata⟩

theorem rust_decodeMac_iff {lock : List Char} {mac : Bytes} :
    Piggy.Pigpen.decodeMac lock = .ok mac ↔ ∃ id, Piggy.Markl.Id.parse lock = .ok id ∧
      id.purpose = none ∧ id.format = .pigpenHeaderMac ∧ id.data = mac := by
  simp only [Piggy.Pigpen.decodeMac, bind_ok, mapError_ok]
  refine exists_congr fun id => and_congr_right fun _ => ?_
  cases id.purpose with
  | none => simp only [guard_ok, ne_eq, not_not, Except.ok.injEq, true_and]
  | some p => simp

theorem decodeMac_iff {lock : Bytes} {mac : Option Bytes} :
    decodeMac t lock = .ok mac ↔ 0x40 ∉ lock ∧ ∃ id, Markl.Id.set production t lock .zero = (.ok (), id) ∧
      id.data ≠ [] ∧ id.purposeId = [] ∧ formatOf id = .ok formatIdPigpenHeaderMac ∧ clone id.data = mac := by
  rw [decodeMac, Result.guard_eq_ok]
  simp only [Result.bind_eq_ok, Result.guard_eq_ok, setId_eq_ok, ne_eq, not_not, Result.ok.injEq]
  refine and_congr_right fun _ => exists_congr fun id => and_congr_right fun _ => and_congr_right fun _ =>
    and_congr_right fun _ => ?_
  constructor
  · rintro ⟨got, hgot, rfl, hmac⟩
    exact ⟨hgot, hmac⟩
  · rintro ⟨hgot, hmac⟩
    exact ⟨_, hgot, rfl, hmac⟩

/-- An id without a purpose is spelled without a join. -/
theorem at_notMem_of_parse {text : List Char} (h : Piggy.Markl.Id.parse text = .ok rust)
    (hnone : rust.purpose = none) : '@' ∉ text := by
  obtain ⟨value, groups, hreads, hcarries, hpurpose⟩ := Piggy.Markl.Grammar.parse_eq_ok.mp h
  obtain ⟨hname, hlower⟩ := Piggy.Markl.Id.asStr_chars rust.format
  have hlower := List.all_eq_true.mp hlower
  have hnovalue : value = none := by
    cases value with
    | none => rfl
    | some v =>
      rw [hnone] at hpurpose
      cases hpurpose
  obtain ⟨p, hparts, hp⟩ := (Piggy.Markl.Grammar.reads_parts (List.isEmpty_eq_false_iff.mp hname) hlower
    hcarries.range).mp hreads
  rw [hnovalue, Option.map_eq_none_iff] at hp
  subst hp
  have hslot := hparts.slot
  generalize hbody : Piggy.Markl.Grammar.digest rust.format.asStr.toList groups = body at hslot
  cases hslot with
  | without =>
    rw [← hbody]
    intro hmem
    exact absurd (Piggy.Markl.Blech32.isWireChar_of_spelled hlower hcarries.range _ hmem) (by decide)

/-- A header MAC that is read is one MAC to both packages. -/
theorem decodeMac_same {lock : List Char} {mac : Option Bytes} :
    decodeMac t (utf8 lock) = .ok mac ↔ ∃ m, Piggy.Pigpen.decodeMac lock = .ok m ∧ mac = some m := by
  have hat : (0x40 : UInt8) ∈ utf8 lock ↔ '@' ∈ lock := mem_utf8_ascii (by decide)
  rw [decodeMac_iff, hat]
  simp only [rust_decodeMac_iff]
  by_cases hne : lock = []
  · subst hne
    refine iff_of_false ?_ ?_
    · rintro ⟨-, id, hset, hdata, -⟩
      rw [show utf8 ([] : List Char) = [] from rfl, set_nil] at hset
      cases hset
      exact hdata rfl
    · rintro ⟨-, ⟨id, hid, -⟩, -⟩
      cases hid
  obtain ⟨hreg, hvalid⟩ := registered_mac
  constructor
  · rintro ⟨hno, id, hset, hdata, hpurpose, hformat, rfl⟩
    have hformat := (format_of_name hset hreg).mp hformat
    have hid : id = ⟨[], some ⟨utf8 FormatId.pigpenHeaderMac.asStr.toList, FormatId.pigpenHeaderMac.size⟩,
        id.data⟩ := by
      rw [← hpurpose, ← hformat]
    rw [hid] at hset
    obtain ⟨rust, hrust, hrf, hrd, hrp⟩ :=
      (parse_iff_set hne hreg (oneValue_none hno) rfl hvalid hdata).mpr hset
    exact ⟨id.data, ⟨rust, hrust, hrp, hrf, hrd⟩, clone_eq_some.mpr ⟨rfl, hdata⟩⟩
  · rintro ⟨m, ⟨rust, hrust, hrp, hrf, rfl⟩, rfl⟩
    have hno := at_notMem_of_parse hrust hrp
    have hset := (parse_iff_set (t := t) hne hreg (oneValue_none hno) rfl hvalid rust.data_ne_nil).mp
      ⟨rust, hrust, hrf, rfl, hrp⟩
    exact ⟨hno, _, hset, rust.data_ne_nil, rfl, (format_of_name hset hreg).mpr rfl,
      clone_eq_some.mpr ⟨rfl, rust.data_ne_nil⟩⟩

/-- Both registries know the keys a file key is wrapped to. -/
theorem registered_encryption {f : FormatId} (h : f = .pivyEcdhP256Pub ∨ f = .ageX25519Pub) :
    Registered f ∧ production.validatePurposeAndFormatId [] (utf8 f.asStr.toList) = .ok () ∧
      production.validatePurposeAndFormatId purposeRecipient (utf8 f.asStr.toList) = .ok () := by
  rcases h with rfl | rfl
  · exact ⟨by unfold Registered; decide +kernel, by decide +kernel, by decide +kernel⟩
  · exact ⟨by unfold Registered; decide +kernel, by decide +kernel, by decide +kernel⟩

/-- The text of an encryption recipient is known to both registries. -/
theorem knownAlike_of_encryption {text : List Char} (h : Piggy.Markl.Id.parse text = .ok rust)
    (henc : Piggy.Pigpen.isEncryptionRecipient rust = true) : KnownAlike text := by
  have hne : text ≠ [] := by
    rintro rfl
    cases h
  rw [Piggy.Pigpen.isEncryptionRecipient, Bool.and_eq_true] at henc
  obtain ⟨hformat, hpurpose⟩ := henc
  have hformat : rust.format = .pivyEcdhP256Pub ∨ rust.format = .ageX25519Pub := by
    revert hformat
    cases rust.format <;> simp
  obtain ⟨hreg, hbare, hnamed⟩ := registered_encryption hformat
  refine iff_of_true ((Piggy.Markl.Grammar.parse_accepts hne).mp ⟨rust, h⟩) ?_
  refine (go_accepts production asciiTables hne).mpr ?_
  cases hp : rust.purpose with
  | none =>
    have hno := at_notMem_of_parse h hp
    exact ⟨_, (parse_iff_set hne hreg (oneValue_none hno) rfl hbare rust.data_ne_nil).mp
      ⟨rust, h, rfl, rfl, hp⟩, rust.data_ne_nil⟩
  | some p =>
    obtain rfl : p = .piggyRecipientV1 := by
      rw [hp] at hpurpose
      revert hpurpose
      cases p <;> simp
    have hparse : (some "piggy-recipient-v1".toList).map (fun v => PurposeId.parse (String.ofList v)) =
        some .piggyRecipientV1 := by
      rw [Option.map_some, String.ofList_toList]
      rfl
    have hcheck : Piggy.Markl.checkPurpose rust.format (some .piggyRecipientV1) = none := by
      rcases hformat with hf | hf
      · rw [hf]
        rfl
      · rw [hf]
        rfl
    have hvalue : OneValue text (some "piggy-recipient-v1".toList) := oneValue_some (by decide)
    exact ⟨_, (parse_iff_set hne hreg hvalue (by rw [hparse]; exact hcheck) hnamed rust.data_ne_nil).mp
      ⟨rust, h, rfl, rfl, hp.trans hparse.symm⟩, rust.data_ne_nil⟩

/-! ## Recipient lines -/

/-- The texts a line is cut into are the same, but for an empty comment, which the crate takes for
none. -/
theorem cutRecipientLine_same (body : List Char) :
    cutRecipientLine (utf8 body) = (utf8 (Piggy.Pigpen.cutRecipientLine body).1,
      ((Piggy.Pigpen.cutRecipientLine body).2.1.map utf8).getD [],
      (Piggy.Pigpen.cutRecipientLine body).2.2.map utf8) := by
  have hcomment : cutAt (utf8 "  # ".toList) (utf8 body) =
      (Piggy.Core.splitOnce Piggy.Pigpen.commentMark body).map fun x => (utf8 x.1, utf8 x.2) :=
    cutAt_utf8 (by decide) body
  have hwrap : cutAt (utf8 " < ".toList) (utf8 body) =
      (Piggy.Core.splitOnce Piggy.Pigpen.wrapMark body).map fun x => (utf8 x.1, utf8 x.2) :=
    cutAt_utf8 (by decide) body
  rw [cutRecipientLine, Piggy.Pigpen.cutRecipientLine, hcomment, hwrap]
  rcases Piggy.Core.splitOnce Piggy.Pigpen.commentMark body with _ | ⟨left, right⟩
  · rcases Piggy.Core.splitOnce Piggy.Pigpen.wrapMark body with _ | ⟨left, right⟩
    · simp only [Option.map_none, Markl.Id.trimSpace_utf8, Option.getD_none]
    · simp only [Option.map_none, Option.map_some, Markl.Id.trimSpace_utf8, Option.getD_none]
  · cases right with
    | nil =>
      simp only [Option.map_some, Markl.Id.trimSpace_utf8]
      rfl
    | cons c cs =>
      simp only [Option.map_some, Markl.Id.trimSpace_utf8]
      rfl

/-- One recipient in both languages. -/
structure SameRecipient (rust : Piggy.Pigpen.Recipient) (go : Recipient) : Prop where
  parsed : Parsed rust.id
  id : Same rust.id go.id
  comment : go.comment = (rust.comment.map utf8).getD []
  wrap : go.wrap = rust.wrap

/-- A recipient is one recipient in Go. -/
theorem SameRecipient.unique {rust : Piggy.Pigpen.Recipient} {go go' : Recipient} (h : SameRecipient rust go)
    (h' : SameRecipient rust go') : go = go' := by
  have hid := h.id.unique h'.id
  have hcomment := h.comment.trans h'.comment.symm
  have hwrap := h.wrap.trans h'.wrap.symm
  cases go
  cases go'
  exact (Recipient.mk.injEq ..).mpr ⟨hid, hcomment, hwrap⟩

theorem sameRecipients_unique {rs : List Piggy.Pigpen.Recipient} {gs gs' : List Recipient}
    (h : List.Forall₂ SameRecipient rs gs) (h' : List.Forall₂ SameRecipient rs gs') : gs = gs' := by
  induction h generalizing gs' with
  | nil =>
    cases h'
    rfl
  | cons hr _ ih =>
    cases h' with
    | cons hr' hrs' => rw [hr.unique hr', ih hrs']

/-- A recipient line that both packages read alike: both registries know its id or neither does,
and its lock is no bare checksum. -/
structure LineAlike (body : List Char) : Prop where
  known : KnownAlike (Piggy.Pigpen.cutRecipientLine body).1
  full : ∀ lock ∈ (Piggy.Pigpen.cutRecipientLine body).2.2, ¬ Markl.Id.IsBareChecksum production lock

theorem parseRecipientLine_same {body : List Char} (h : LineAlike body) {out : Recipient} :
    parseRecipientLine t (utf8 body) = .ok out ↔
      ∃ r, Piggy.Pigpen.parseRecipientLine body = .ok r ∧ SameRecipient r out := by
  obtain ⟨hknown, hfull⟩ := h
  rw [parseRecipientLine, cutRecipientLine_same, Piggy.Pigpen.parseRecipientLine]
  generalize Piggy.Pigpen.cutRecipientLine body = texts at hknown hfull
  obtain ⟨text, comment, lock⟩ := texts
  dsimp only at hknown hfull ⊢
  simp only [Result.bind_eq_ok, parseRecipientId_same hknown, bind_ok, pure_ok]
  cases lock with
  | none =>
    simp only [Option.map_none, Piggy.Pigpen.parseWrap, Except.ok.injEq, Result.pure_eq_ok]
    constructor
    · rintro ⟨goId, ⟨id, hid, hparsed, hsame⟩, rfl⟩
      exact ⟨_, ⟨id, hid, none, rfl, rfl⟩, hparsed, hsame, rfl, rfl⟩
    · rintro ⟨-, ⟨id, hid, -, rfl, rfl⟩, hparsed, hsame, hcomment, hwrap⟩
      obtain ⟨goId, goComment, goWrap⟩ := out
      exact ⟨goId, ⟨id, hid, hparsed, hsame⟩,
        (Recipient.mk.injEq ..).mpr ⟨rfl, hcomment.symm, hwrap.symm⟩⟩
  | some lock =>
    have hdecode : ∀ {f : FormatId} {wrap : Option Bytes},
        decodeWrap t (utf8 f.asStr.toList) (utf8 lock) = .ok wrap ↔
          ∃ w, Piggy.Pigpen.decodeWrap f lock = .ok w ∧ wrap = some w := by
      intro f wrap
      cases wrap with
      | none =>
        refine iff_of_false ?_ ?_
        · exact fun hnone => hfull lock rfl (isBareChecksum_of_decodeWrap hnone)
        · rintro ⟨w, -, hw⟩
          cases hw
      | some w => simp [decodeWrap_same]
    simp only [Option.map_some, Piggy.Pigpen.parseWrap, bind_ok, pure_ok, Result.bind_eq_ok,
      Result.pure_eq_ok]
    constructor
    · rintro ⟨goId, ⟨id, hid, hparsed, hsame⟩, format, hformat, wrap, hwrap, rfl⟩
      rw [formatOf_same hsame] at hformat
      obtain rfl := Result.ok.inj hformat
      obtain ⟨w, hw, rfl⟩ := hdecode.mp hwrap
      exact ⟨_, ⟨id, hid, _, ⟨w, hw, rfl⟩, rfl⟩, hparsed, hsame, rfl, rfl⟩
    · rintro ⟨-, ⟨id, hid, -, ⟨w, hw, rfl⟩, rfl⟩, hparsed, hsame, hcomment, hwrap⟩
      obtain ⟨goId, goComment, goWrap⟩ := out
      exact ⟨goId, ⟨id, hid, hparsed, hsame⟩, _, formatOf_same hsame, some w,
        hdecode.mpr ⟨w, hw, rfl⟩, (Recipient.mk.injEq ..).mpr ⟨rfl, hcomment.symm, hwrap.symm⟩⟩

/-- A recipient that was read is a recipient in Go. -/
theorem exists_sameRecipient {body : List Char} {r : Piggy.Pigpen.Recipient}
    (h : Piggy.Pigpen.parseRecipientLine body = .ok r) : ∃ g, SameRecipient r g := by
  simp only [Piggy.Pigpen.parseRecipientLine, bind_ok, pure_ok] at h
  obtain ⟨id, hid, wrap, -, rfl⟩ := h
  obtain ⟨hparsed, hnamed⟩ := named_of_parseRecipientId hid
  obtain ⟨go, hgo⟩ := Markl.Id.exists_same hnamed
  exact ⟨⟨go, _, wrap⟩, hparsed, hgo, rfl, rfl⟩

/-! ## The type line -/

theorem parseTypeLine_same {body : List Char} {mac : Option Bytes} :
    parseTypeLine t (utf8 body) none = .ok mac ↔ Piggy.Pigpen.parseTypeLine body = .ok mac := by
  have htag : ∀ {tag : List Char}, utf8 tag = typeTag ↔ tag = Piggy.Pigpen.typeTag := by
    intro tag
    exact ⟨fun h => utf8_inj h, fun h => by rw [h]; rfl⟩
  have hcut := Purpose.cut_utf8 (b := 0x40) (by decide) body
  rw [show asciiChar 0x40 = '@' from by decide] at hcut
  rw [parseTypeLine, hcut, Piggy.Pigpen.parseTypeLine]
  rcases Piggy.Markl.splitOnceAt (· = '@') body with _ | ⟨tag, lock⟩
  · simp only [Option.map_none, Result.bind_eq_ok, Result.pure_eq_ok, bind_ok, pure_ok,
      Result.guard_eq_ok, guard_ok, ne_eq, not_not, Result.ok.injEq, Except.ok.injEq]
    constructor
    · rintro ⟨_, rfl, hbody, rfl⟩
      exact ⟨_, rfl, htag.mp hbody, rfl⟩
    · rintro ⟨_, rfl, hbody, rfl⟩
      exact ⟨_, rfl, htag.mpr hbody, rfl⟩
  · simp only [Option.map_some, Result.bind_eq_ok, Result.pure_eq_ok, bind_ok, pure_ok, decodeMac_same,
      Result.guard_eq_ok, guard_ok, ne_eq, not_not, Result.ok.injEq, Except.ok.injEq]
    constructor
    · rintro ⟨_, ⟨m, hm, rfl⟩, _, rfl, hbody, rfl⟩
      exact ⟨m, hm, _, rfl, htag.mp hbody, rfl⟩
    · rintro ⟨m, hm, _, rfl, hbody, rfl⟩
      exact ⟨some m, ⟨m, hm, rfl⟩, _, rfl, htag.mpr hbody, rfl⟩

/-! ## Documents -/

/-- A description as the Go package holds it. -/
def describe (description : Option (List Char)) : Bytes := (description.map utf8).getD []

/-- One document in both languages. -/
structure SameDocument (rust : Piggy.Pigpen.Document) (go : Document) : Prop where
  description : go.description = describe rust.description
  recipients : List.Forall₂ SameRecipient rust.recipients go.recipients
  payload : go.payload = rust.payload
  mac : go.mac = rust.mac

/-- The two loops after the same lines. -/
structure SameReading (rust : Piggy.Pigpen.Reading) (go : Reading) : Prop where
  description : go.doc.description = describe rust.description
  recipients : List.Forall₂ SameRecipient rust.recipients go.doc.recipients
  payload : go.doc.payload = []
  mac : go.doc.mac = rust.mac
  sawType : go.sawType = rust.sawType
  noType : rust.sawType = false → rust.mac = none

theorem addDescription_same (description : Option (List Char)) (body : List Char) :
    addDescription (describe description) (utf8 body) =
      describe (Piggy.Pigpen.addDescription description body) := by
  have hnil : ∀ {s : List Char}, utf8 s = [] ↔ s = [] := by
    intro s
    exact ⟨fun h => utf8_inj h, fun h => by rw [h]; rfl⟩
  rw [addDescription, Piggy.Pigpen.addDescription]
  by_cases hbody : body = []
  · rw [if_pos (hnil.mpr hbody), if_pos (List.isEmpty_iff.mpr hbody)]
  · rw [if_neg (mt hnil.mp hbody), if_neg (mt List.isEmpty_iff.mp hbody)]
    rcases description with _ | d
    · rfl
    · simp only [describe, Option.map_some, Option.getD_some, hnil, List.isEmpty_iff]
      split
      · rfl
      · rw [utf8_append, utf8_cons]
        rfl

/-- A document is one document in Go. -/
theorem SameDocument.unique {rust : Piggy.Pigpen.Document} {go go' : Document} (h : SameDocument rust go)
    (h' : SameDocument rust go') : go = go' := by
  have hdescription := h.description.trans h'.description.symm
  have hrecipients := sameRecipients_unique h.recipients h'.recipients
  have hpayload := h.payload.trans h'.payload.symm
  have hmac := h.mac.trans h'.mac.symm
  cases go
  cases go'
  exact (Document.mk.injEq ..).mpr ⟨hdescription, hrecipients, hpayload, hmac⟩

/-- Two readers that take the same inputs, with related results. -/
structure Lockstep {ε ε' α β : Type} (R : α → β → Prop) (x : Except ε α) (y : Result ε' β) : Prop where
  follows : ∀ a, x = .ok a → ∃ b, y = .ok b ∧ R a b
  leads : ∀ b, y = .ok b → ∃ a, x = .ok a ∧ R a b

/-- One line keeps the two loops together. -/
theorem readMetaLine_same {rust : Piggy.Pigpen.Reading} {go : Reading} (h : SameReading rust go)
    {l : Piggy.Pigpen.MetaLine} (hline : l.kind = .dash → LineAlike l.body) :
    Lockstep SameReading (Piggy.Pigpen.readMetaLine rust l) (readMetaLine t go (.ofRust l)) := by
  obtain ⟨kind, body⟩ := l
  cases kind with
  | hash =>
    have hsame : SameReading
        { rust with description := Piggy.Pigpen.addDescription rust.description body }
        { go with doc := { go.doc with description := addDescription go.doc.description (utf8 body) } } := by
      refine ⟨?_, h.recipients, h.payload, h.mac, h.sawType, h.noType⟩
      rw [h.description, addDescription_same]
    refine ⟨?_, ?_⟩
    · rintro _ ⟨⟩
      exact ⟨_, rfl, hsame⟩
    · rintro _ ⟨⟩
      exact ⟨_, rfl, hsame⟩
  | dash =>
    have hgo : readMetaLine t go (.ofRust ⟨.dash, body⟩) =
        (parseRecipientLine t (utf8 body) >>= fun r =>
          .ok { go with doc := { go.doc with recipients := go.doc.recipients ++ [r] } }) := rfl
    have hrust : Piggy.Pigpen.readMetaLine rust ⟨.dash, body⟩ =
        (Piggy.Pigpen.parseRecipientLine body >>= fun r =>
          .ok { rust with recipients := rust.recipients ++ [r] }) := rfl
    have hadd : ∀ {r : Piggy.Pigpen.Recipient} {g : Recipient}, SameRecipient r g →
        SameReading { rust with recipients := rust.recipients ++ [r] }
          { go with doc := { go.doc with recipients := go.doc.recipients ++ [g] } } := by
      intro r g hr
      exact ⟨h.description, List.rel_append h.recipients (.cons hr .nil), h.payload, h.mac, h.sawType,
        h.noType⟩
    rw [hgo, hrust]
    refine ⟨?_, ?_⟩
    · intro _ hok
      simp only [bind_ok, Except.ok.injEq] at hok
      obtain ⟨r, hr, rfl⟩ := hok
      obtain ⟨g, hg⟩ := exists_sameRecipient hr
      exact ⟨_, Result.bind_eq_ok.mpr ⟨g, (parseRecipientLine_same (hline rfl)).mpr ⟨r, hr, hg⟩, rfl⟩, hadd hg⟩
    · intro _ hok
      simp only [Result.bind_eq_ok, Result.ok.injEq] at hok
      obtain ⟨g, hg, rfl⟩ := hok
      obtain ⟨r, hr, hsame⟩ := (parseRecipientLine_same (hline rfl)).mp hg
      exact ⟨_, bind_ok.mpr ⟨r, hr, rfl⟩, hadd hsame⟩
  | atSign =>
    refine ⟨?_, ?_⟩
    · rintro _ ⟨⟩
    · rintro _ ⟨⟩
  | bang =>
    have hgo : readMetaLine t go (.ofRust ⟨.bang, body⟩) =
        if go.sawType then .error .manyTypes
        else parseTypeLine t (utf8 body) go.doc.mac >>= fun mac =>
          .ok ⟨{ go.doc with mac }, true⟩ := rfl
    have hrust : Piggy.Pigpen.readMetaLine rust ⟨.bang, body⟩ =
        if rust.sawType then .error (.malformed "more than one '!' type line")
        else Piggy.Pigpen.parseTypeLine body >>= fun mac =>
          .ok { rust with mac, sawType := true } := rfl
    rw [hgo, hrust, h.sawType]
    cases hsaw : rust.sawType with
    | true =>
      refine ⟨?_, ?_⟩
      · rintro _ ⟨⟩
      · rintro _ ⟨⟩
    | false =>
      have hnone : go.doc.mac = none := by rw [h.mac, h.noType hsaw]
      have hset : ∀ {mac : Option Bytes}, SameReading { rust with mac, sawType := true }
          ⟨{ go.doc with mac }, true⟩ := by
        intro mac
        exact ⟨h.description, h.recipients, h.payload, rfl, rfl, fun h => by cases h⟩
      rw [if_neg Bool.false_ne_true, if_neg Bool.false_ne_true, hnone]
      refine ⟨?_, ?_⟩
      · intro _ hok
        simp only [bind_ok, Except.ok.injEq] at hok
        obtain ⟨mac, hmac, rfl⟩ := hok
        exact ⟨_, Result.bind_eq_ok.mpr ⟨mac, parseTypeLine_same.mpr hmac, rfl⟩, hset⟩
      · intro _ hok
        simp only [Result.bind_eq_ok, Result.ok.injEq] at hok
        obtain ⟨mac, hmac, rfl⟩ := hok
        exact ⟨_, bind_ok.mpr ⟨mac, parseTypeLine_same.mp hmac, rfl⟩, hset⟩

/-- The loops stay together over all lines. -/
theorem readMetaLines_same {lines : List Piggy.Pigpen.MetaLine}
    (hlines : ∀ l ∈ lines, l.kind = .dash → LineAlike l.body) {rust : Piggy.Pigpen.Reading}
    {go : Reading} (h : SameReading rust go) :
    Lockstep SameReading (lines.foldlM Piggy.Pigpen.readMetaLine rust)
      ((lines.map MetaLine.ofRust).foldlM (readMetaLine t) go) := by
  induction lines generalizing rust go with
  | nil =>
    refine ⟨?_, ?_⟩
    · rintro _ ⟨⟩
      exact ⟨go, rfl, h⟩
    · rintro _ ⟨⟩
      exact ⟨rust, rfl, h⟩
  | cons l lines ih =>
    obtain ⟨hline, hlines⟩ := List.forall_mem_cons.mp hlines
    have hstep := readMetaLine_same (t := t) h hline
    rw [List.map_cons, List.foldlM_cons, List.foldlM_cons]
    refine ⟨?_, ?_⟩
    · intro last hok
      obtain ⟨mid, hmid, hrest⟩ := bind_ok.mp hok
      obtain ⟨goMid, hgo, hsame⟩ := hstep.follows mid hmid
      obtain ⟨goLast, hlast, hsame'⟩ := (ih hlines hsame).follows last hrest
      exact ⟨goLast, Result.bind_eq_ok.mpr ⟨goMid, hgo, hlast⟩, hsame'⟩
    · intro goLast hok
      obtain ⟨goMid, hgo, hrest⟩ := Result.bind_eq_ok.mp hok
      obtain ⟨mid, hmid, hsame⟩ := hstep.leads goMid hgo
      obtain ⟨last, hlast, hsame'⟩ := (ih hlines hsame).leads goLast hrest
      exact ⟨last, bind_ok.mpr ⟨mid, hmid, hlast⟩, hsame'⟩

theorem countP_same {rs : List Piggy.Pigpen.Recipient} {gs : List Recipient}
    (h : List.Forall₂ SameRecipient rs gs) {p : Piggy.Pigpen.Recipient → Bool} {q : Recipient → Bool}
    (hpq : ∀ r g, SameRecipient r g → q g = p r) : gs.countP q = rs.countP p := by
  induction h with
  | nil => rfl
  | cons hr _ ih => rw [List.countP_cons, List.countP_cons, ih, hpq _ _ hr]

/-- Both packages hold the same documents for well formed. -/
theorem validate_same {rust : Piggy.Pigpen.Document} {go : Document} (h : SameDocument rust go) :
    go.validate = .ok () ↔ rust.validate = .ok () := by
  have hwrapped : go.recipients.countP (·.wrap.isSome) = rust.recipients.countP (·.wrap.isSome) :=
    countP_same h.recipients fun r g hr => by rw [hr.wrap]
  have hunwrapped : (go.recipients.countP fun g => g.wrap.isNone && isEncryptionRecipient g.id) =
      rust.recipients.countP fun r => r.wrap.isNone && Piggy.Pigpen.isEncryptionRecipient r.id := by
    refine countP_same h.recipients fun r g hr => ?_
    rw [hr.wrap, isEncryptionRecipient_same hr.id hr.parsed]
  have hpayload : decide (0 < rust.payload.length) = !rust.payload.isEmpty := by
    cases rust.payload <;> simp
  rw [Document.validate, Piggy.Pigpen.Document.validate, h.mac, h.payload, hwrapped, hunwrapped, hpayload]
  simp only [List.length_eq_zero_iff, List.isEmpty_iff]
  split
  · simp
  · simp only [guard_ok]

/-- The recipient lines of a frame, each read alike. -/
def ReadAlike (raw : Bytes) : Prop :=
  ∀ frame, Piggy.Pigpen.HyphenceDoc.parse raw = .ok frame →
    ∀ l ∈ frame.lines, l.kind = .dash → LineAlike l.body

theorem parseDocument_same {raw : Bytes} (halike : ReadAlike raw) :
    Lockstep SameDocument (Piggy.Pigpen.Document.parse raw) (parseDocument t raw) := by
  have hstart : SameReading {} {} := ⟨rfl, .nil, rfl, rfl, rfl, fun _ => rfl⟩
  have hread : ∀ {frame : Piggy.Pigpen.HyphenceDoc}, Piggy.Pigpen.HyphenceDoc.parse raw = .ok frame →
      Lockstep SameReading (frame.lines.foldlM Piggy.Pigpen.readMetaLine {})
        ((frame.lines.map MetaLine.ofRust).foldlM (readMetaLine t) {}) :=
    fun hframe => readMetaLines_same (halike _ hframe) hstart
  have hdoc : ∀ {rust : Piggy.Pigpen.Reading} {go : Reading} (body : Bytes), SameReading rust go →
      SameDocument ⟨rust.description, rust.recipients, body, rust.mac⟩ { go.doc with payload := body } :=
    fun _ h => ⟨h.description, h.recipients, rfl, h.mac⟩
  refine ⟨?_, ?_⟩
  · intro doc hok
    simp only [Piggy.Pigpen.Document.parse, bind_ok, guard_ok, pure_ok] at hok
    obtain ⟨frame, hframe, rust, hlines, hsaw, _, hvalid, rfl⟩ := hok
    obtain ⟨go, hgo, hsame⟩ := (hread hframe).follows rust hlines
    refine ⟨{ go.doc with payload := frame.body }, ?_, hdoc frame.body hsame⟩
    simp only [parseDocument, Result.bind_eq_ok, Result.lift_eq_ok, Result.guard_eq_ok, Result.pure_eq_ok]
    exact ⟨_, parseHyphence_iff.mpr ⟨frame, hframe, rfl⟩, go, hgo, by rw [hsame.sawType]; exact hsaw, (),
      (validate_same (hdoc frame.body hsame)).mpr hvalid, rfl⟩
  · intro doc hok
    simp only [parseDocument, Result.bind_eq_ok, Result.lift_eq_ok, Result.guard_eq_ok,
      Result.pure_eq_ok] at hok
    obtain ⟨_, hparse, go, hlines, hsaw, _, hvalid, rfl⟩ := hok
    obtain ⟨frame, hframe, rfl⟩ := parseHyphence_iff.mp hparse
    obtain ⟨rust, hrust, hsame⟩ := (hread hframe).leads go hlines
    refine ⟨⟨rust.description, rust.recipients, frame.body, rust.mac⟩, ?_, hdoc frame.body hsame⟩
    simp only [Piggy.Pigpen.Document.parse, bind_ok, guard_ok, pure_ok]
    exact ⟨frame, hframe, rust, hrust, by rw [← hsame.sawType]; exact hsaw, (),
      (validate_same (hdoc frame.body hsame)).mp hvalid, rfl⟩

/-- The two packages accept the same bytes, and read the same document from them. -/
theorem parseDocument_iff {raw : Bytes} (halike : ReadAlike raw) {go : Document} :
    parseDocument t raw = .ok go ↔
      ∃ rust, Piggy.Pigpen.Document.parse raw = .ok rust ∧ SameDocument rust go := by
  have hlock := parseDocument_same (t := t) halike
  constructor
  · exact hlock.leads go
  · rintro ⟨rust, hrust, hsame⟩
    obtain ⟨go', hgo, hsame'⟩ := hlock.follows rust hrust
    rw [hsame.unique hsame', hgo]

section

open Piggy.Pigpen (sampleSet sampleBareLine docLines)

/-- The frame of a set with one key and a comment that looks like a wrap. -/
theorem parse_sampleBareLine : Piggy.Pigpen.HyphenceDoc.parse (sampleSet sampleBareLine) =
    .ok ⟨docLines [] [sampleBareLine] Piggy.Pigpen.typeTag, []⟩ := by
  refine Piggy.Pigpen.HyphenceDoc.parse_marshal (Piggy.Pigpen.canonicalOrder_docLines _ _ _) ?_ ?_
  · decide
  · rw [Piggy.Pigpen.HyphenceDoc.marshal, if_neg (by simp), Piggy.Pigpen.HyphenceDoc.marshalMetadata,
      Piggy.Pigpen.canonicalOrder_docLines]
    simp [docLines, sampleSet]

theorem readAlike_sampleBareLine : ReadAlike (sampleSet sampleBareLine) := by
  intro frame hframe l hl hdash
  cases Except.ok.inj (parse_sampleBareLine.symm.trans hframe)
  simp only [docLines, List.map_nil, List.nil_append, List.map_cons, List.cons_append, List.mem_cons,
    List.not_mem_nil, or_false] at hl
  rcases hl with rfl | rfl
  · obtain ⟨rust, hrust, henc⟩ : ∃ rust,
        Piggy.Markl.Id.parse (Piggy.Pigpen.cutRecipientLine sampleBareLine).1 = .ok rust ∧
          Piggy.Pigpen.isEncryptionRecipient rust = true :=
      map_ok.mp (by decide +kernel : Piggy.Pigpen.isEncryptionRecipient <$>
        Piggy.Markl.Id.parse (Piggy.Pigpen.cutRecipientLine sampleBareLine).1 = .ok true)
    refine ⟨knownAlike_of_encryption hrust henc, ?_⟩
    intro lock hlock
    rw [show (Piggy.Pigpen.cutRecipientLine sampleBareLine).2.2 = none by decide +kernel] at hlock
    cases hlock
  · cases hdash

/-- The set read in Rust. -/
theorem parse_sampleSet : ∃ r, Piggy.Pigpen.parseRecipientLine sampleBareLine = .ok r ∧
    Piggy.Pigpen.Document.parse (sampleSet sampleBareLine) = .ok ⟨none, [r], [], none⟩ := by
  obtain ⟨r, hr, hwrap⟩ : ∃ r, Piggy.Pigpen.parseRecipientLine sampleBareLine = .ok r ∧ r.wrap = none :=
    map_ok.mp (by decide +kernel :
      Piggy.Pigpen.Recipient.wrap <$> Piggy.Pigpen.parseRecipientLine sampleBareLine = .ok none)
  have hlines : (docLines [] [sampleBareLine] Piggy.Pigpen.typeTag).foldlM Piggy.Pigpen.readMetaLine {} =
      .ok ⟨none, [r], none, true⟩ := by
    have htype : Piggy.Pigpen.parseTypeLine Piggy.Pigpen.typeTag = .ok none := by decide +kernel
    simp only [docLines, List.map_nil, List.nil_append, List.map_cons, List.cons_append,
      List.foldlM_cons, Piggy.Pigpen.readMetaLine, hr, htype]
    rfl
  refine ⟨r, hr, ?_⟩
  simp only [Piggy.Pigpen.Document.parse, parse_sampleBareLine, ok_bind, hlines]
  simp [Piggy.Pigpen.Document.validate, hwrap]

theorem parseDocument_iff_sample : ∃ rust go,
    Piggy.Pigpen.Document.parse (sampleSet sampleBareLine) = .ok rust ∧
      parseDocument asciiTables (sampleSet sampleBareLine) = .ok go ∧ SameDocument rust go := by
  obtain ⟨r, hr, hparse⟩ := parse_sampleSet
  obtain ⟨g, hg⟩ := exists_sameRecipient hr
  have hsame : SameDocument ⟨none, [r], [], none⟩ ⟨[], [g], [], none⟩ := ⟨rfl, .cons hg .nil, rfl, rfl⟩
  exact ⟨_, _, hparse, (parseDocument_iff readAlike_sampleBareLine).mpr ⟨_, hparse, hsame⟩, hsame⟩

end

end Piggy.Go.Pigpen
