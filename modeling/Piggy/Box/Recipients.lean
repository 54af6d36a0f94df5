import Piggy.Markl.Id
import Piggy.Box.Sealed

/-!
# Recipients

Recipient ids become the parts of a template with one PRIMARY config. The number of
parts is written in one byte, so what is read back has as many parts as that byte says.
-/

namespace Piggy.Box

open Piggy.Core Piggy.Markl

/-- The text `{:?}` prints for an optional purpose. -/
def debugPurpose : Option PurposeId → String
  | none => "None"
  | some p => "Some(" ++ p.debugName ++ ")"

/-- A purpose that a recipient may have: none or the recipient purpose. -/
def isRecipientPurpose (purpose : Option PurposeId) : Bool :=
  purpose = none || purpose = some .piggyRecipientV1

/-- The error for another purpose. -/
def purposeError (purpose : Option PurposeId) : BoxError :=
  .wire s!"expected piggy-recipient-v1 purpose (or none), got {debugPurpose purpose}"

/-- A template part for a P-256 recipient. -/
def pivPartFromMarkl (id : Id) : Except BoxError EboxTplPart :=
  if id.format ≠ .pivyEcdhP256Pub then
    .error (.wire s!"expected pivy_ecdh_p256_pub format, got {id.format.debugName}")
  else if !isRecipientPurpose id.purpose then .error (purposeError id.purpose)
  else
    .ok { guid := none, slot := defaultSlot, name := none, pubkey := id.data,
          pubkeyCurve := .nistP256, cak := none }

/-- Recipients of the age format are not supported. -/
def agePartFromMarkl (id : Id) : Except BoxError EboxTplPart :=
  if id.format ≠ .ageX25519Pub then
    .error (.wire s!"expected age_x25519_pub format, got {id.format.debugName}")
  else if !isRecipientPurpose id.purpose then .error (purposeError id.purpose)
  else .error (.unsupportedRecipientFormat .ageX25519Pub)

/-- A template part for a recipient. -/
def tplPartFromMarkl (id : Id) : Except BoxError EboxTplPart :=
  match id.format with
  | .pivyEcdhP256Pub => pivPartFromMarkl id
  | .ageX25519Pub => agePartFromMarkl id
  | other => .error (.wire (s!"unsupported recipient format: {other.debugName} " ++
      "(piggy-recipient-v1 accepts pivy_ecdh_p256_pub or age_x25519_pub)"))

/-- The template parts of recipients, up to the first that has none. -/
def tplPartsFromMarkl : List Id → Except BoxError (List EboxTplPart)
  | [] => .ok []
  | id :: ids => do
    let part ← tplPartFromMarkl id
    let parts ← tplPartsFromMarkl ids
    pure (part :: parts)

/-- A template that any one of the recipients can open. -/
def templateFromRecipients (ids : List Id) : Except BoxError EboxTemplate :=
  if ids.isEmpty then .error (.wire "at least one recipient is required")
  else do
    let parts ← tplPartsFromMarkl ids
    pure { version := 1, configs := [{ configType := .primary, n := 1, parts }] }

/-! ## The parts of a template -/

/-- The part of a recipient holds the recipient's key. -/
structure PartOf (id : Id) (part : EboxTplPart) : Prop where
  format : id.format = .pivyEcdhP256Pub
  pubkey : part.pubkey = id.data
  curve : part.pubkeyCurve = .nistP256
  fields : part.name = none ∧ part.cak = none

theorem tplPartFromMarkl_ok {id : Id} {part : EboxTplPart} (h : tplPartFromMarkl id = .ok part) :
    PartOf id part := by
  unfold tplPartFromMarkl at h
  split at h
  · next hf =>
    obtain ⟨-, h⟩ := guard_ok.mp h
    obtain ⟨-, h⟩ := guard_ok.mp h
    cases h
    exact ⟨hf, rfl, rfl, rfl, rfl⟩
  · obtain ⟨-, h⟩ := guard_ok.mp h
    obtain ⟨-, h⟩ := guard_ok.mp h
    cases h
  · cases h

/-- A template for recipients has one config with the part of each, in order. -/
theorem templateFromRecipients_parts {ids : List Id} {tpl : EboxTemplate}
    (h : templateFromRecipients ids = .ok tpl) :
    ids ≠ [] ∧
      ∃ parts, tpl = { version := 1, configs := [{ configType := .primary, n := 1, parts }] } ∧
        List.Forall₂ (fun id part => tplPartFromMarkl id = .ok part) ids parts := by
  obtain ⟨hne, h⟩ := guard_ok.mp h
  simp only [bind_ok, pure_ok] at h
  obtain ⟨parts, hparts, rfl⟩ := h
  refine ⟨by rwa [List.isEmpty_iff] at hne, parts, rfl, ?_⟩
  clear * - hparts
  induction ids generalizing parts with
  | nil =>
    cases hparts
    exact .nil
  | cons id ids ih =>
    simp only [tplPartsFromMarkl, bind_ok, pure_ok] at hparts
    obtain ⟨part, hpart, parts, hrest, rfl⟩ := hparts
    exact .cons hpart (ih parts hrest)

/-- The parts hold the keys of the recipients. -/
theorem templateFromRecipients_ok {ids : List Id} {tpl : EboxTemplate}
    (h : templateFromRecipients ids = .ok tpl) :
    ∃ parts, tpl = { version := 1, configs := [{ configType := .primary, n := 1, parts }] } ∧
      List.Forall₂ PartOf ids parts := by
  obtain ⟨-, parts, htpl, hparts⟩ := templateFromRecipients_parts h
  exact ⟨parts, htpl, hparts.imp fun _ _ => tplPartFromMarkl_ok⟩

theorem PartOf.fits {id : Id} {part : EboxTplPart} (h : PartOf id part) : part.Fits := by
  obtain ⟨hname, hcak⟩ := h.fields
  refine ⟨⟨by simp [hname], by simp [hcak]⟩, ?_⟩
  rw [FitsString8, h.pubkey, id.size, h.format]
  decide

/-- A template for recipients has no recovery config, so nothing is dealt. -/
theorem not_recovery_of_templateFromRecipients {ids : List Id} {tpl : EboxTemplate}
    (h : templateFromRecipients ids = .ok tpl) : ∀ c ∈ tpl.configs, c.configType ≠ .recovery := by
  obtain ⟨-, parts, rfl, -⟩ := templateFromRecipients_parts h
  intro c hc
  rw [List.mem_singleton.mp hc]
  nofun

/-- A template for no more recipients than a count byte holds fits its format. -/
theorem fits_of_templateFromRecipients {ids : List Id} {tpl : EboxTemplate}
    (h : templateFromRecipients ids = .ok tpl) (hcount : ids.length ≤ 255) : tpl.Fits := by
  obtain ⟨parts, rfl, hparts⟩ := templateFromRecipients_ok h
  have hlen : parts.length ≤ 255 := hparts.length_eq ▸ hcount
  have hfits : ∀ p ∈ parts, p.Fits := by
    intro p hp
    obtain ⟨id, -, hpart⟩ := forall₂_mem_right hparts hp
    exact hpart.fits
  exact ⟨by simp, by simpa using hlen, by simpa using fun p hp => (hfits p hp).fields,
    by simpa using fun p hp => (hfits p hp).pubkey⟩

/-! ## What is read back -/

/-- The template that is written is read back with one part for each recipient, which
holds the recipient's key. -/
def TemplateKeepsRecipients (ids : List Id) (tpl : EboxTemplate) : Prop :=
  ∀ bytes, tpl.toBytes = .ok bytes → ∃ tpl' c, EboxTemplate.fromBytes bytes = .ok tpl' ∧
    tpl'.configs = [c] ∧ List.Forall₂ (fun id part => part.pubkey = id.data) ids c.parts

/-- The ebox that is written is read back with one part for each recipient, whose box
names the recipient's key. -/
def EboxKeepsRecipients (ids : List Id) (e : Ebox) : Prop :=
  ∀ bytes, e.toBytes = .ok bytes → ∃ e' c, Ebox.fromBytes bytes = .ok e' ∧ e'.configs = [c] ∧
    List.Forall₂ (fun id part => part.pivBox.recipientPubkey = id.data) ids c.parts

/-- The number that a count byte keeps of a length. -/
private theorem toNat_count (n : Nat) : (UInt8.ofNat n).toNat ≤ n ∧
    ((UInt8.ofNat n).toNat = n ↔ n ≤ 255) := by
  rw [UInt8.toNat_ofNat']
  omega

/-- A pointwise relation with the parts that a count byte keeps covers all of them or
leaves some out. -/
private theorem forall₂_counted_iff {α β : Type} {R : α → β → Prop} {as : List α} {bs : List β}
    (h : List.Forall₂ R as bs) :
    List.Forall₂ R as (bs.take (UInt8.ofNat bs.length).toNat) ↔ as.length ≤ 255 := by
  obtain ⟨hle, hiff⟩ := toNat_count bs.length
  rw [h.length_eq, ← hiff]
  constructor
  · intro hcount
    have hlen := hcount.length_eq.symm.trans h.length_eq
    rwa [List.length_take, Nat.min_eq_left hle] at hlen
  · intro heq
    rw [heq, List.take_length]
    exact h

/-- A template for recipients is read back with all of them just when they fit the count
byte. -/
theorem templateKeepsRecipients_iff {ids : List Id} {tpl : EboxTemplate}
    (h : templateFromRecipients ids = .ok tpl) :
    TemplateKeepsRecipients ids tpl ↔ ids.length ≤ 255 := by
  obtain ⟨parts, rfl, hparts⟩ := templateFromRecipients_ok h
  have hfits : ∀ p ∈ parts, p.Fits := by
    intro p hp
    obtain ⟨id, -, hpart⟩ := forall₂_mem_right hparts hp
    exact hpart.fits
  have hkeys : List.Forall₂ (fun (id : Id) (part : EboxTplPart) => part.pubkey = id.data) ids parts :=
    hparts.imp fun _ _ hp => hp.pubkey
  have hwrite := @EboxTemplate.toBytes_of_fits
    { version := 1, configs := [{ configType := .primary, n := 1, parts }] } (by simpa using hfits)
  have hread := @EboxTemplate.fromBytes_single 1 { configType := .primary, n := 1, parts } hfits
    (fun hn => absurd hn.2 (by decide : ¬ (1 : UInt8) < 1))
  rw [← forall₂_counted_iff hkeys]
  constructor
  · intro hkeep
    obtain ⟨tpl', c, hback, hconfigs, hall⟩ := hkeep _ hwrite
    rw [hread] at hback
    cases hback
    cases hconfigs
    exact hall
  · intro hall bytes hbytes
    rw [hwrite] at hbytes
    cases hbytes
    exact ⟨_, _, hread, rfl, hall⟩

section

variable {Scalar Point Rng : Type} {ssl : OpenSsl Scalar Point Rng}

/-- The box sealed for a recipient names the recipient's key. -/
theorem PartOf.recipientPubkey (hssl : ssl.Lawful) {key : Bytes} {eph : Ephemerals Scalar}
    {id : Id} {tplPart : EboxTplPart} {part : EboxPart} (h : PartOf id tplPart)
    (hs : SealedFor ssl key eph .primary tplPart part) :
    part.pivBox.recipientPubkey = id.data := by
  obtain ⟨d, -, hsealed⟩ := hs.primary rfl
  obtain ⟨p, -, -, -, hp, hkey, -⟩ := hsealed.contents
  rw [h.curve, h.pubkey] at hp
  have hlen : id.data.length = 33 := by
    rw [id.size, h.format]
    rfl
  rw [hkey, h.curve]
  exact hssl.compressed_unique hp hlen

/-- An ebox whose recovery box is too long is not written. -/
theorem recoveryEnc_of_toBytes {e : Ebox} {bytes : Bytes} (h : e.toBytes = .ok bytes) :
    e.recoveryEnc.length ≤ 255 := by
  simp only [Ebox.toBytes, bind_ok, putString8_ok] at h
  obtain ⟨-, -, -, -, -, ⟨hfits, -⟩, -⟩ := h
  exact hfits

/-- An ebox sealed to recipients is read back with all of them just when they fit the
count byte; a key that is too long is not written, and an ebox with the type of a
template is not read. -/
theorem eboxKeepsRecipients_iff (hssl : ssl.Lawful) {dealer : Dealer Rng} {ids : List Id}
    {tpl : EboxTemplate} (htpl : templateFromRecipients ids = .ok tpl) {key : Bytes}
    {ty : EboxType} {rng rng' : Rng} {e : Ebox}
    (he : Ebox.create ssl dealer tpl key ty rng = .ok (e, rng')) :
    EboxKeepsRecipients ids e ↔ 237 < key.length ∨ (ty ≠ .template ∧ ids.length ≤ 255) := by
  obtain ⟨hsealed, hty, -⟩ := create_spec hssl (fun c hc hrec =>
    absurd hrec (not_recovery_of_templateFromRecipients htpl c hc)) he
  obtain ⟨parts, rfl, hparts⟩ := templateFromRecipients_ok htpl
  by_cases hlong : 237 < key.length
  · refine ⟨fun _ => .inl hlong, ?_⟩
    intro _ bytes hbytes
    have hshort := recoveryEnc_of_toBytes hbytes
    rw [hsealed.recoveryEnc] at hshort
    omega
  obtain ⟨eph, hpub, hkeys, hconfigs⟩ := hsealed.configs
  obtain ⟨c, rest, hc, hrest, hcs⟩ := List.forall₂_cons_left_iff.mp hconfigs
  obtain rfl := List.forall₂_nil_left_iff.mp hrest
  have hfits := hsealed.fits hssl (by omega) (by
    intro tc htc p hp
    rw [List.mem_singleton.mp htc] at hp
    obtain ⟨id, -, hpart⟩ := forall₂_mem_right hparts hp
    exact hpart.fits.fields)
  have hwrite := Ebox.toBytes_of_fits hfits
  by_cases htemplate : ty = .template
  · have hread := Ebox.fromBytes_template (hty.trans htemplate)
    constructor
    · intro hkeep
      obtain ⟨e', c', hback, -⟩ := hkeep _ hwrite
      rw [hread] at hback
      cases hback
    · rintro (h | h)
      · exact absurd h hlong
      · exact absurd htemplate h.1
  have hver : 2 ≤ e.version := by
    rw [hsealed.version]
    decide
  have hread := Ebox.fromBytes_single hcs hver (by rw [hty]; exact htemplate) hfits
    (hkeys ▸ hpub.length_keys)
  have hall : List.Forall₂ (fun (id : Id) (part : EboxPart) =>
      part.asRead.pivBox.recipientPubkey = id.data) ids c.parts :=
    forall₂_comp (fun _ _ part hp hs => (hp.recipientPubkey hssl hs : part.pivBox.recipientPubkey = _))
      hparts hc.parts
  have hiff : List.Forall₂ (fun (id : Id) (part : EboxPart) =>
      part.pivBox.recipientPubkey = id.data) ids c.counted.asRead.parts ↔ ids.length ≤ 255 := by
    rw [← forall₂_counted_iff hall]
    exact List.forall₂_map_right_iff
  have hcond : 237 < key.length ∨ (ty ≠ .template ∧ ids.length ≤ 255) ↔ ids.length ≤ 255 := by
    simp [hlong, htemplate]
  rw [hcond, ← hiff]
  constructor
  · intro hkeep
    obtain ⟨e', c', hback, hconfigs', hall'⟩ := hkeep _ hwrite
    rw [hread] at hback
    cases hback
    cases hconfigs'
    exact hall'
  · intro hall' bytes hbytes
    rw [hwrite] at hbytes
    cases hbytes
    exact ⟨_, _, hread, rfl, hall'⟩

/-- No recipient is lost in what is written for a list of recipients just when there are
at most 255 of them and the ebox that is written has a type that is read. -/
theorem keepsRecipients_iff (hssl : ssl.Lawful) {dealer : Dealer Rng} {ids : List Id}
    {tpl : EboxTemplate} (htpl : templateFromRecipients ids = .ok tpl) {key : Bytes}
    {ty : EboxType} {rng rng' : Rng} {e : Ebox}
    (he : Ebox.create ssl dealer tpl key ty rng = .ok (e, rng')) :
    (EboxKeepsRecipients ids e ∧ TemplateKeepsRecipients ids tpl) ↔
      ids.length ≤ 255 ∧ (ty ≠ .template ∨ 237 < key.length) := by
  rw [eboxKeepsRecipients_iff hssl htpl he, templateKeepsRecipients_iff htpl]
  constructor
  · rintro ⟨h | h, hcount⟩
    · exact ⟨hcount, .inr h⟩
    · exact ⟨hcount, .inl h.1⟩
  · rintro ⟨hcount, h | h⟩
    · exact ⟨.inr ⟨h, hcount⟩, hcount⟩
    · exact ⟨.inl h, hcount⟩

end

/-! ## Too many recipients -/

/-- A recipient of the sample library. -/
def sampleRecipient (p : UInt8) : Id where
  purpose := some .piggyRecipientV1
  format := .pivyEcdhP256Pub
  data := OpenSsl.samplePoint .compressed p
  size := by simp [OpenSsl.samplePoint, FormatId.size]
  compatible := by
    rintro p ⟨⟩ _
    rfl

/-- The template of as many equal recipients. -/
def sampleRecipientsTemplate (n : Nat) : EboxTemplate where
  version := 1
  configs := [{
    configType := .primary
    n := 1
    parts := List.replicate n {
      guid := none, slot := defaultSlot, name := none, pubkey := OpenSsl.samplePoint .compressed 5,
      pubkeyCurve := .nistP256, cak := none } }]

theorem template_sampleRecipients {n : Nat} (hn : 0 < n) :
    templateFromRecipients (List.replicate n (sampleRecipient 5)) =
      .ok (sampleRecipientsTemplate n) := by
  have hparts : ∀ n, tplPartsFromMarkl (List.replicate n (sampleRecipient 5)) =
      .ok (List.replicate n {
        guid := none, slot := defaultSlot, name := none,
        pubkey := OpenSsl.samplePoint .compressed 5, pubkeyCurve := .nistP256, cak := none }) := by
    intro n
    induction n with
    | zero => rfl
    | succ n ih =>
      rw [List.replicate_succ, tplPartsFromMarkl, ih]
      rfl
  have hne : (List.replicate n (sampleRecipient 5)).isEmpty = false := by
    rw [List.isEmpty_eq_false_iff, ← List.length_pos_iff, List.length_replicate]
    exact hn
  rw [templateFromRecipients, if_neg (by simp [hne]), hparts]
  rfl

/-- Sealing to 256 recipients gives an ebox and a template that are read back without
them. -/
theorem not_keepsRecipients_256 :
    ∃ e rng', Ebox.create OpenSsl.sample (fun _ _ _ rng => ([], rng))
        (sampleRecipientsTemplate 256) [7] .key 0 = .ok (e, rng') ∧
      templateFromRecipients (List.replicate 256 (sampleRecipient 5)) =
        .ok (sampleRecipientsTemplate 256) ∧
      ¬ EboxKeepsRecipients (List.replicate 256 (sampleRecipient 5)) e ∧
      ¬ TemplateKeepsRecipients (List.replicate 256 (sampleRecipient 5))
        (sampleRecipientsTemplate 256) := by
  obtain ⟨⟨e, rng'⟩, he⟩ := exists_ok (by decide +kernel : (Ebox.create OpenSsl.sample
    (fun _ _ _ rng => ([], rng)) (sampleRecipientsTemplate 256) [7] .key 0).isOk = true)
  have htpl := template_sampleRecipients (by decide : 0 < 256)
  refine ⟨e, rng', he, htpl, ?_, ?_⟩
  · rw [eboxKeepsRecipients_iff OpenSsl.sample_lawful htpl he, List.length_replicate]
    decide
  · rw [templateKeepsRecipients_iff htpl, List.length_replicate]
    decide

/-- Sealing to two recipients keeps both. -/
theorem keepsRecipients_two :
    ∃ e rng', Ebox.create OpenSsl.sample (fun _ _ _ rng => ([], rng))
        (sampleRecipientsTemplate 2) [7] .key 0 = .ok (e, rng') ∧
      EboxKeepsRecipients (List.replicate 2 (sampleRecipient 5)) e ∧
      TemplateKeepsRecipients (List.replicate 2 (sampleRecipient 5))
        (sampleRecipientsTemplate 2) := by
  obtain ⟨⟨e, rng'⟩, he⟩ := exists_ok (by decide +kernel : (Ebox.create OpenSsl.sample
    (fun _ _ _ rng => ([], rng)) (sampleRecipientsTemplate 2) [7] .key 0).isOk = true)
  have htpl := template_sampleRecipients (by decide : 0 < 2)
  refine ⟨e, rng', he, (keepsRecipients_iff OpenSsl.sample_lawful htpl he).mpr ?_⟩
  exact ⟨by decide, .inl (by decide)⟩

end Piggy.Box
