import Mathlib.Data.Finset.Basic
import Piggy.Box.Opening
import Piggy.Box.Recipients
import Piggy.Ids.RecipientFile

/-!
# The skip test of the re-encryption walk

An ebox is left alone when the keys its parts are sealed to are the keys of the encryption
recipients of its file. The comparison flattens the configs, so it does not see which of
them unlocking looks at.
-/

namespace Piggy.Pass

open Piggy.Core Piggy.Markl Piggy.Ids Piggy.Box

section

variable {Scalar Point Rng : Type} (ssl : OpenSsl Scalar Point Rng)

/-- A set of recipient keys, each by the number of its curve and its compressed point. -/
abbrev RecipientSet : Type := Finset (UInt8 × Bytes)

/-- The tag of a curve in a recipient set. -/
def curveTag : EcCurve → UInt8
  | .nistP256 => 0
  | .nistP384 => 1

/-- The compressed form of a point; none when the bytes are no point of the curve. -/
def canonicalPoint (curve : EcCurve) (bytes : Bytes) : Option Bytes :=
  match ssl.pointFromBytes curve bytes with
  | .ok p => some (ssl.pointToBytes curve .compressed p)
  | .error _ => none

/-- The key of a listed recipient, when it is one of a card. -/
def recipientKey (r : Recipient) : Option (UInt8 × Bytes) :=
  match pivPartFromMarkl r.id with
  | .error _ => none
  | .ok part =>
    (canonicalPoint ssl part.pubkeyCurve part.pubkey).map fun pubkey =>
      (curveTag part.pubkeyCurve, pubkey)

/-- The key that a part is sealed to. -/
def partKey (part : EboxPart) : Option (UInt8 × Bytes) :=
  (canonicalPoint ssl part.pivBox.curve part.pivBox.recipientPubkey).map fun pubkey =>
    (curveTag part.pivBox.curve, pubkey)

/-- The loop that inserts keys into a set; it stops at the first key that is missing. -/
def insertKeys {α : Type} (key : α → Option (UInt8 × Bytes)) (set : RecipientSet) :
    List α → Option RecipientSet
  | [] => some set
  | a :: as =>
    match key a with
    | none => none
    | some k => insertKeys key (insert k set) as

/-- The keys that a recipient file declares. -/
def recipientsFromPiggyIds (text : List Char) : Option RecipientSet :=
  match Ids.parse text with
  | .error _ => none
  | .ok rs => insertKeys (recipientKey ssl) ∅ (encryptionRecipients rs)

/-- The keys that an ebox carries in its parts. -/
def recipientsFromEbox (bytes : Bytes) : Option RecipientSet :=
  match Ebox.fromBytes bytes with
  | .error _ => none
  | .ok ebox => insertKeys (partKey ssl) ∅ (ebox.configs.flatMap EboxConfig.parts)

/-- Whether the walk leaves an ebox alone. -/
def reencryptUnnecessary (bytes : Bytes) (text : List Char) : Bool :=
  match recipientsFromPiggyIds ssl text, recipientsFromEbox ssl bytes with
  | some want, some got => want ≠ ∅ && want = got
  | _, _ => false

/-! ## What the comparison says -/

/-- The loop ends with the set it started from and the keys, all of which are there. -/
theorem insertKeys_eq_some {α : Type} {key : α → Option (UInt8 × Bytes)} {as : List α}
    {set out : RecipientSet} (h : insertKeys key set as = some out) :
    (∀ a ∈ as, (key a).isSome) ∧ ∀ k, k ∈ out ↔ k ∈ set ∨ ∃ a ∈ as, key a = some k := by
  induction as generalizing set with
  | nil =>
    cases h
    simp
  | cons a as ih =>
    rw [insertKeys] at h
    rcases ha : key a with _ | k₀
    · simp only [ha] at h
      cases h
    · simp only [ha] at h
      obtain ⟨hsome, hmem⟩ := ih h
      refine ⟨?_, ?_⟩
      · intro b hb
        rcases List.mem_cons.mp hb with rfl | hb
        · rw [ha, Option.isSome_some]
        · exact hsome b hb
      · intro k
        rw [hmem k, Finset.mem_insert]
        constructor
        · rintro ((rfl | hk) | ⟨b, hb, hk⟩)
          · exact Or.inr ⟨a, List.mem_cons_self, ha⟩
          · exact Or.inl hk
          · exact Or.inr ⟨b, List.mem_cons_of_mem _ hb, hk⟩
        · rintro (hk | ⟨b, hb, hk⟩)
          · exact Or.inl (Or.inr hk)
          · rcases List.mem_cons.mp hb with rfl | hb
            · rw [ha, Option.some.injEq] at hk
              exact Or.inl (Or.inl hk.symm)
            · exact Or.inr ⟨b, hb, hk⟩

/-- When the walk leaves an ebox alone, listed keys and the keys of parts are the same. -/
theorem reencryptUnnecessary_spec {bytes : Bytes} {text : List Char} {e : Ebox}
    {rs : List Recipient} (he : Ebox.fromBytes bytes = .ok e) (hrs : Ids.parse text = .ok rs)
    (h : reencryptUnnecessary ssl bytes text = true) :
    (∀ r ∈ encryptionRecipients rs, ∃ key, recipientKey ssl r = some key ∧
      ∃ c ∈ e.configs, ∃ part ∈ c.parts, partKey ssl part = some key) ∧
    ∀ c ∈ e.configs, ∀ part ∈ c.parts, ∃ key, partKey ssl part = some key ∧
      ∃ r ∈ encryptionRecipients rs, recipientKey ssl r = some key := by
  rw [reencryptUnnecessary, recipientsFromPiggyIds, recipientsFromEbox, he, hrs] at h
  simp only at h
  rcases hwant : insertKeys (recipientKey ssl) ∅ (encryptionRecipients rs) with _ | want
  · simp only [hwant] at h
    cases h
  rcases hgot : insertKeys (partKey ssl) ∅ (e.configs.flatMap EboxConfig.parts) with _ | got
  · simp only [hwant, hgot] at h
    cases h
  simp only [hwant, hgot, Bool.and_eq_true, decide_eq_true_eq] at h
  obtain ⟨-, rfl⟩ := h
  obtain ⟨hwsome, hwmem⟩ := insertKeys_eq_some hwant
  obtain ⟨hgsome, hgmem⟩ := insertKeys_eq_some hgot
  refine ⟨?_, ?_⟩
  · intro r hr
    obtain ⟨key, hkey⟩ := Option.isSome_iff_exists.mp (hwsome r hr)
    have hin : key ∈ want := (hwmem key).mpr (Or.inr ⟨r, hr, hkey⟩)
    obtain hno | ⟨part, hpart, hpk⟩ := (hgmem key).mp hin
    · simp at hno
    · obtain ⟨c, hc, hcp⟩ := List.mem_flatMap.mp hpart
      exact ⟨key, hkey, c, hc, part, hcp, hpk⟩
  · intro c hc part hcp
    have hpart : part ∈ e.configs.flatMap EboxConfig.parts := List.mem_flatMap.mpr ⟨c, hc, hcp⟩
    obtain ⟨key, hkey⟩ := Option.isSome_iff_exists.mp (hgsome part hpart)
    have hin : key ∈ want := (hgmem key).mpr (Or.inr ⟨part, hpart, hkey⟩)
    obtain hno | ⟨r, hr, hrk⟩ := (hwmem key).mp hin
    · simp at hno
    · exact ⟨key, hkey, r, hr, hrk⟩

/-! ## What skipping must not lose -/

/-- A key opens an ebox on its own: a part of a PRIMARY config is sealed to it, and whoever
answers for that part unlocks the ebox, over the agent or over the card. -/
def OpensAlone (e : Ebox) (key : UInt8 × Bytes) : Prop :=
  ∃ c ∈ e.configs, c.configType = .primary ∧ ∃ part ∈ c.parts, partKey ssl part = some key ∧
    ∀ (σ τ : Type) (agent : Option (EcdhOracle σ)) (card : Option (EcdhOracle τ)) (s : σ) (t : τ),
      ((∃ o ∈ agent, Openable ssl o e.ephemeralKeys part) ∨
        ∃ o ∈ card, Openable ssl o e.ephemeralKeys part) →
      (unlockEbox ssl agent card e s t).1 = .ok ()

/-- Leaving an ebox alone is right: every listed key opens it, and it is sealed to no other
key. -/
structure SkipSound (e : Ebox) (rs : List Recipient) : Prop where
  listed : ∀ r ∈ encryptionRecipients rs, ∃ key, recipientKey ssl r = some key ∧
    OpensAlone ssl e key
  unlisted : ∀ c ∈ e.configs, ∀ part ∈ c.parts, ∃ r ∈ encryptionRecipients rs, ∃ key,
    recipientKey ssl r = some key ∧ partKey ssl part = some key

/-- Every key that a part of a RECOVERY config is sealed to has a part of a PRIMARY config
too. -/
def RecoveryCovered (e : Ebox) : Prop :=
  ∀ c ∈ e.configs, c.configType = .recovery → ∀ part ∈ c.parts,
    ∃ c' ∈ e.configs, c'.configType = .primary ∧ ∃ part' ∈ c'.parts,
      partKey ssl part' = partKey ssl part

variable {ssl}

/-- The recipient of a part of a PRIMARY config opens an ebox that was read. -/
theorem opensAlone_of_primary {bytes : Bytes} {e : Ebox} (he : Ebox.fromBytes bytes = .ok e)
    {c : EboxConfig} (hc : c ∈ e.configs) (hty : c.configType = .primary) {part : EboxPart}
    (hpart : part ∈ c.parts) {key : UInt8 × Bytes} (hkey : partKey ssl part = some key) :
    OpensAlone ssl e key := by
  obtain ⟨hlocked, hclosed⟩ := Ebox.fromBytes_locked he
  refine ⟨c, hc, hty, part, hpart, hkey, ?_⟩
  intro σ τ agent card s t hopen
  have hyields : ∀ c ∈ e.configs, c.configType = .primary →
      ConfigYields ssl agent card (fun _ => True) c := by
    intro c hc _ part hpart
    have hnone := hclosed c hc part hpart
    exact ⟨fun o _ => ⟨hnone, fun _ _ _ _ => trivial⟩, fun o _ => ⟨hnone, fun _ _ _ _ => trivial⟩⟩
  rcases unlockEbox_yields hlocked hyields s t with ⟨-, hno⟩ | ⟨e', s', t', key, hdone, -, -⟩
  · exact absurd ⟨part, hpart, hopen⟩ (hno c hc hty)
  · rw [hdone]

/-- Leaving an ebox alone is right exactly when no key is only in a RECOVERY config. -/
theorem skipSound_iff {bytes : Bytes} {text : List Char} {e : Ebox} {rs : List Recipient}
    (he : Ebox.fromBytes bytes = .ok e) (hrs : Ids.parse text = .ok rs)
    (h : reencryptUnnecessary ssl bytes text = true) :
    SkipSound ssl e rs ↔ RecoveryCovered ssl e := by
  obtain ⟨hlisted, hparts⟩ := reencryptUnnecessary_spec ssl he hrs h
  constructor
  · intro hsound c hc _ part hpart
    obtain ⟨r, hr, key, hrk, hpk⟩ := hsound.unlisted c hc part hpart
    obtain ⟨key', hrk', c', hc', hty, part', hpart', hpk', -⟩ := hsound.listed r hr
    obtain rfl : key = key' := by simpa [hrk] using hrk'
    exact ⟨c', hc', hty, part', hpart', hpk'.trans hpk.symm⟩
  · intro hcover
    refine ⟨?_, ?_⟩
    · intro r hr
      obtain ⟨key, hrk, c, hc, part, hpart, hpk⟩ := hlisted r hr
      refine ⟨key, hrk, ?_⟩
      cases hty : c.configType with
      | primary => exact opensAlone_of_primary he hc hty hpart hpk
      | recovery =>
        obtain ⟨c', hc', hty', part', hpart', hpk'⟩ := hcover c hc hty part hpart
        exact opensAlone_of_primary he hc' hty' hpart' (hpk'.trans hpk)
    · intro c hc part hpart
      obtain ⟨key, hpk, r, hr, hrk⟩ := hparts c hc part hpart
      exact ⟨r, hr, key, hrk, hpk⟩

end

/-! ## A key that is only in a RECOVERY config -/

/-- A part sealed to the key 5 of the sample library. -/
def samplePart : EboxPart where
  guid := none
  slot := defaultSlot
  name := none
  pubkey := none
  pubkeyCurve := none
  cak := none
  pivBox := { PivBox.new .nistP256 with recipientPubkey := OpenSsl.samplePoint .compressed 5 }

/-- An ebox with a config of each of the types, all sealed to the same key. -/
def sampleEbox (types : List EboxConfigType) : Ebox where
  version := 2
  eboxType := .stream
  recoveryCipher := ""
  recoveryIv := []
  recoveryEnc := []
  ephemeralKeys := []
  configs := types.map fun configType => { configType, n := 1, nonce := [], parts := [samplePart] }
  key := none

/-- A file that lists the key 5 of the sample library. -/
def sampleIds : List Char :=
  ("piggy-recipient-v1@pivy_ecdh_p256_pub-" ++
    "qgzsqqqqqqqqqqqqqqqqqqqqqqqqqqqqqqqqqqqqqqqqqqqqqqqqqczgz8p\n").toList

/-- The recipient of the sample file. -/
def sampleListed : Recipient := ⟨sampleRecipient 5, none, by decide⟩

theorem parse_sampleIds : Ids.parse sampleIds = .ok [sampleListed] :=
  of_toList_append (p := fun text => Ids.parse text = .ok [sampleListed]) (by decide +kernel)

/-- The walk skips the sample eboxes, whose parts all have the key 5. -/
theorem sampleEbox_skipped :
    reencryptUnnecessary OpenSsl.sample (sampleEbox [.recovery]).encoding sampleIds = true ∧
      reencryptUnnecessary OpenSsl.sample (sampleEbox [.primary, .recovery]).encoding sampleIds =
        true :=
  of_toList_append (p := fun text =>
    reencryptUnnecessary OpenSsl.sample (sampleEbox [.recovery]).encoding text = true ∧
      reencryptUnnecessary OpenSsl.sample (sampleEbox [.primary, .recovery]).encoding text = true)
    (by decide +kernel)

/-- The walk skips an ebox that has a RECOVERY config only, and no listed key opens it. -/
theorem not_skipSound_recoveryOnly :
    Ebox.fromBytes (sampleEbox [.recovery]).encoding = .ok (sampleEbox [.recovery]) ∧
      Ids.parse sampleIds = .ok [sampleListed] ∧
      reencryptUnnecessary OpenSsl.sample (sampleEbox [.recovery]).encoding sampleIds = true ∧
      ¬ SkipSound OpenSsl.sample (sampleEbox [.recovery]) [sampleListed] ∧
      ∀ (σ τ : Type) (agent : Option (EcdhOracle σ)) (card : Option (EcdhOracle τ)) (s : σ) (t : τ),
        (unlockEbox OpenSsl.sample agent card (sampleEbox [.recovery]) s t).1 =
          .error (.unlockFailed
            (some "ebox has only RECOVERY config(s), which piggy cannot unlock")) := by
  refine ⟨by decide +kernel, parse_sampleIds, sampleEbox_skipped.1, ?_, ?_⟩
  · intro hsound
    obtain ⟨key, -, c, hc, hty, -⟩ := hsound.listed sampleListed List.mem_cons_self
    obtain rfl := List.mem_singleton.mp hc
    cases hty
  · intro σ τ agent card s t
    rfl

/-- With a PRIMARY config for the key of the RECOVERY config the skip is right. -/
theorem skipSound_covered :
    reencryptUnnecessary OpenSsl.sample (sampleEbox [.primary, .recovery]).encoding sampleIds =
        true ∧
      SkipSound OpenSsl.sample (sampleEbox [.primary, .recovery]) [sampleListed] := by
  have hskip := sampleEbox_skipped.2
  refine ⟨hskip, (skipSound_iff (by decide +kernel) parse_sampleIds hskip).mpr ?_⟩
  intro c hc _ part hpart
  refine ⟨_, List.mem_cons_self, rfl, samplePart, List.mem_cons_self, ?_⟩
  obtain rfl : part = samplePart := by
    rcases List.mem_cons.mp hc with rfl | hc
    · exact List.mem_singleton.mp hpart
    · obtain rfl := List.mem_singleton.mp hc
      exact List.mem_singleton.mp hpart
  rfl

end Piggy.Pass
