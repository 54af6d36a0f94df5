import Piggy.Ids.RecipientFile

/-!
# Comparing recipient files

Two files are compared by the ids on their lines, purpose and all. The key of a recipient may
be spelled bare or with its purpose, and rendering always spells the purpose. So files that
list the same keys are the same for the comparison when they also spell them the same way.
-/

namespace Piggy.Ids

open Piggy.Core Piggy.Markl

/-- What changes from one recipient file to another. -/
structure Diff where
  added : List Recipient
  removed : List Recipient
  retained : List Recipient

/-- Nothing is added or removed. -/
def Diff.isEmpty (d : Diff) : Bool := d.added.isEmpty && d.removed.isEmpty

/-- Compares by id alone. -/
def diff (current desired : List Recipient) : Diff where
  added := desired.filter fun r => r.id ∉ current.map Recipient.id
  removed := current.filter fun r => r.id ∉ desired.map Recipient.id
  retained := current.filter fun r => r.id ∈ desired.map Recipient.id

/-! ## Keys and their spelling -/

/-- The key that a recipient lists. -/
def Recipient.key (r : Recipient) : FormatId × List UInt8 := (r.id.format, r.id.data)

/-- A recipient without a purpose. -/
def Recipient.isBare (r : Recipient) : Bool := r.id.purpose.isNone

/-- Two files list the same keys. -/
def SameKeys (a b : List Recipient) : Prop := ∀ key, key ∈ a.map Recipient.key ↔ key ∈ b.map Recipient.key

/-- Two files list the same keys bare, and the same keys with their purpose. -/
def SameSpelling (a b : List Recipient) : Prop :=
  ∀ bare key, (∃ r ∈ a, r.isBare = bare ∧ r.key = key) ↔ ∃ r ∈ b, r.isBare = bare ∧ r.key = key

/-- The purpose that entries of a format have. -/
def entryPurpose (format : FormatId) : PurposeId :=
  if PurposeId.accepts .piggyRecipientV1 format then .piggyRecipientV1 else .piggyPivAuthV1

/-- The format of an entry decides its purpose. -/
theorem purpose_of_shape {id : Id} {p : PurposeId} (h : shapeOk id = true) (hp : id.purpose = some p) :
    p = entryPurpose id.format := by
  rw [shapeOk, hp] at h
  simp only [purposeTaggedEntryOk, hp] at h
  cases p with
  | piggyRecipientV1 => rw [entryPurpose, if_pos h]
  | piggyPivAuthV1 =>
    have hother : PurposeId.accepts .piggyRecipientV1 id.format ≠ true := by
      generalize id.format = format at h ⊢
      cases format with
      | sshEcdsaNistp256Pub => exact fun h => by cases h
      | sshEd25519Pub => exact fun h => by cases h
      | sshEcdsaNistp384Pub => exact fun h => by cases h
      | _ => cases h
    rw [entryPurpose, if_neg hother]
  | _ => cases h

/-- Recipients have the same id when they list the same key in the same spelling. -/
theorem Recipient.id_eq_iff {r r' : Recipient} : r.id = r'.id ↔ r.isBare = r'.isBare ∧ r.key = r'.key := by
  constructor
  · intro h
    rw [isBare, isBare, key, key, h]
    exact ⟨rfl, rfl⟩
  · rintro ⟨hbare, hkey⟩
    obtain ⟨hformat, hdata⟩ := Prod.mk.inj hkey
    have hpurpose : r.id.purpose = r'.id.purpose := by
      rw [isBare, isBare] at hbare
      rcases hp : r.id.purpose with _ | p
      · rw [hp] at hbare
        exact (Option.isNone_iff_eq_none.mp hbare.symm).symm
      · rw [hp] at hbare
        rcases hp' : r'.id.purpose with _ | p'
        · rw [hp'] at hbare
          cases hbare
        · rw [purpose_of_shape r.shape hp, purpose_of_shape r'.shape hp', hformat]
    obtain ⟨⟨purpose, format, data, hsize, hcompat⟩, comment, hshape⟩ := r
    obtain ⟨⟨purpose', format', data', hsize', hcompat'⟩, comment', hshape'⟩ := r'
    dsimp only at hformat hdata hpurpose
    subst hformat hdata hpurpose
    rfl

/-! ## The comparison -/

/-- Nothing is added or removed between files with the same ids. -/
theorem diff_isEmpty {a b : List Recipient} :
    (diff a b).isEmpty = true ↔ ∀ id, id ∈ a.map Recipient.id ↔ id ∈ b.map Recipient.id := by
  have hnone : ∀ x y : List Recipient,
      (x.filter fun r => decide (r.id ∉ y.map Recipient.id)).isEmpty = true ↔
        ∀ id ∈ x.map Recipient.id, id ∈ y.map Recipient.id := by
    intro x y
    rw [List.isEmpty_iff, List.filter_eq_nil_iff, List.forall_mem_map]
    simp only [decide_eq_true_eq, not_not]
  rw [Diff.isEmpty, diff, Bool.and_eq_true]
  dsimp only
  rw [hnone, hnone]
  constructor
  · rintro ⟨hadded, hremoved⟩ id
    exact ⟨hremoved id, hadded id⟩
  · intro h
    exact ⟨fun id => (h id).mpr, fun id => (h id).mp⟩

theorem diff_isEmpty_comm {a b : List Recipient} :
    (diff a b).isEmpty = true ↔ (diff b a).isEmpty = true := by
  rw [diff_isEmpty, diff_isEmpty]
  exact forall_congr' fun _ => Iff.comm

/-- The same ids are the same keys in the same spelling. -/
theorem diff_isEmpty_iff_sameSpelling {a b : List Recipient} :
    (diff a b).isEmpty = true ↔ SameSpelling a b := by
  rw [diff_isEmpty]
  constructor
  · intro h bare key
    have hone : ∀ x y : List Recipient, (∀ id, id ∈ x.map Recipient.id → id ∈ y.map Recipient.id) →
        (∃ r ∈ x, r.isBare = bare ∧ r.key = key) → ∃ r ∈ y, r.isBare = bare ∧ r.key = key := by
      rintro x y hsub ⟨r, hr, rfl, rfl⟩
      obtain ⟨r', hr', hid⟩ := List.mem_map.mp (hsub r.id (List.mem_map_of_mem hr))
      exact ⟨r', hr', Recipient.id_eq_iff.mp hid⟩
    exact ⟨hone a b fun id => (h id).mp, hone b a fun id => (h id).mpr⟩
  · intro h id
    have hone : ∀ x y : List Recipient, (∀ bare key, (∃ r ∈ x, r.isBare = bare ∧ r.key = key) →
        ∃ r ∈ y, r.isBare = bare ∧ r.key = key) → id ∈ x.map Recipient.id →
        id ∈ y.map Recipient.id := by
      intro x y hsub hid
      obtain ⟨r, hr, rfl⟩ := List.mem_map.mp hid
      obtain ⟨r', hr', hsame⟩ := hsub r.isBare r.key ⟨r, hr, rfl, rfl⟩
      rw [← Recipient.id_eq_iff] at hsame
      exact List.mem_map.mpr ⟨r', hr', hsame⟩
    exact ⟨hone a b fun bare key => (h bare key).mp, hone b a fun bare key => (h bare key).mpr⟩

theorem SameSpelling.sameKeys {a b : List Recipient} (h : SameSpelling a b) : SameKeys a b := by
  have hone : ∀ x y : List Recipient, SameSpelling x y → ∀ key, key ∈ x.map Recipient.key →
      key ∈ y.map Recipient.key := by
    intro x y hxy key hkey
    obtain ⟨r, hr, rfl⟩ := List.mem_map.mp hkey
    obtain ⟨r', hr', -, hsame⟩ := (hxy r.isBare r.key).mp ⟨r, hr, rfl, rfl⟩
    exact List.mem_map.mpr ⟨r', hr', hsame⟩
  exact fun key => ⟨hone a b h key, hone b a (fun bare key => (h bare key).symm) key⟩

/-- The comparison tells whether the keys are the same, unless only their spelling differs. -/
theorem diff_isEmpty_sameKeys {a b : List Recipient} :
    ((diff a b).isEmpty = true ↔ SameKeys a b) ↔ (SameKeys a b → SameSpelling a b) := by
  rw [diff_isEmpty_iff_sameSpelling]
  exact ⟨fun h => h.mpr, fun h => ⟨SameSpelling.sameKeys, h⟩⟩

/-! ## Rendering -/

theorem Recipient.canonical_isBare (r : Recipient) : r.canonical.isBare = false := by
  have htagged := (canonicalizeForRender_spec r.shape).1
  rw [isBare]
  change (canonicalizeForRender r.id).purpose.isNone = false
  rcases hp : (canonicalizeForRender r.id).purpose with _ | p
  · simp only [purposeTaggedEntryOk, hp] at htagged
    cases htagged
  · rfl

theorem Recipient.canonical_id {r : Recipient} (h : r.isBare = false) : r.canonical.id = r.id := by
  change canonicalizeForRender r.id = r.id
  rw [isBare] at h
  rcases hp : r.id.purpose with _ | p
  · rw [hp] at h
    cases h
  · simp only [canonicalizeForRender, hp]

/-- A file compares equal to its rendered form when no recipient in it is bare. -/
theorem diff_canonical {rs : List Recipient} :
    (diff rs (rs.map Recipient.canonical)).isEmpty = true ↔ ∀ r ∈ rs, r.isBare = false := by
  rw [diff_isEmpty]
  constructor
  · intro h r hr
    obtain ⟨r', hr', hid⟩ := List.mem_map.mp ((h r.id).mp (List.mem_map_of_mem hr))
    obtain ⟨r₀, -, rfl⟩ := List.mem_map.mp hr'
    rw [← (Recipient.id_eq_iff.mp hid).1, Recipient.canonical_isBare]
  · intro h id
    have hids : (rs.map Recipient.canonical).map Recipient.id = rs.map Recipient.id := by
      rw [List.map_map]
      exact List.map_congr_left fun r hr => Recipient.canonical_id (h r hr)
    rw [hids]

/-- Rendering a rendered file again changes nothing. -/
theorem render_canonical (rs : List Recipient) : render (rs.map Recipient.canonical) = render rs := by
  have hline : ∀ r : Recipient, renderLine r.canonical = renderLine r := by
    intro r
    rw [renderLine, renderLine, Recipient.canonical_comment]
    change (canonicalizeForRender (canonicalizeForRender r.id)).toWire ++ _ = _
    rw [canonicalizeForRender_idem r.shape]
  rw [render, render, List.flatMap_map]
  simp only [hline]

end Piggy.Ids
