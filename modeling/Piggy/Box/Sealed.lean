import Piggy.Core.Lists
import Mathlib.Data.List.Perm.Subperm
import Piggy.Box.Stream

/-!
# What sealing produces

Every part of a created ebox is sealed under the scalar that the ebox publishes
for the part's curve. Later parts only add curves, so what holds of a part when it
is sealed holds of the finished ebox.
-/

namespace Piggy.Box

open Piggy.Core

section

variable {Scalar Point Rng : Type} (ssl : OpenSsl Scalar Point Rng)

/-! ## Ephemeral keys -/

namespace Ephemerals

/-- The scalar made for a curve. -/
def scalar (eph : Ephemerals Scalar) (curve : EcCurve) : Option Scalar :=
  (eph.privkeys.find? fun x => x.1 == curve).map Prod.snd

/-- Every scalar that was there is still there. -/
def Extends (eph eph' : Ephemerals Scalar) : Prop :=
  ∀ curve d, eph.scalar curve = some d → eph'.scalar curve = some d

theorem Extends.refl (eph : Ephemerals Scalar) : eph.Extends eph := fun _ _ h => h

theorem Extends.trans {a b c : Ephemerals Scalar} (h : a.Extends b) (h' : b.Extends c) :
    a.Extends c := fun curve d hd => h' curve d (h curve d hd)

/-- The published keys are those of the scalars, one for each curve. -/
structure Published (eph : Ephemerals Scalar) : Prop where
  keys : eph.keys = eph.privkeys.map fun x =>
    { curve := x.1, pubkey := ssl.pointToBytes x.1 .compressed (ssl.publicPoint x.1 x.2) }
  nodup : (eph.privkeys.map Prod.fst).Nodup

variable {ssl}

/-- There are at most as many ephemeral keys as curves. -/
theorem Published.length_keys {eph : Ephemerals Scalar} (h : eph.Published ssl) :
    eph.keys.length ≤ 255 := by
  have hsub : eph.privkeys.map Prod.fst ⊆ [EcCurve.nistP256, EcCurve.nistP384] := by
    intro c _
    cases c <;> simp
  have hle : (eph.privkeys.map Prod.fst).length ≤ 2 := (List.Nodup.subperm h.nodup hsub).length_le
  rw [h.keys]
  simp only [List.length_map] at hle ⊢
  omega

/-- The key published for a curve is the public point of the curve's scalar. -/
theorem Published.find_key {eph : Ephemerals Scalar} (h : eph.Published ssl) {curve : EcCurve}
    {d : Scalar} (hd : eph.scalar curve = some d) :
    eph.keys.find? (fun ek => ek.curve == curve) = some
      { curve, pubkey := ssl.pointToBytes curve .compressed (ssl.publicPoint curve d) } := by
  simp only [scalar, Option.map_eq_some_iff] at hd
  obtain ⟨⟨c, d'⟩, hfind, rfl⟩ := hd
  have hc : c = curve := by simpa using List.find?_some hfind
  subst hc
  rw [h.keys, List.find?_map]
  have hcomp : ((fun ek : EphemeralKey => ek.curve == c) ∘ fun x : EcCurve × Scalar =>
      ({ curve := x.1, pubkey := ssl.pointToBytes x.1 .compressed (ssl.publicPoint x.1 x.2) } :
        EphemeralKey)) = fun x => x.1 == c := rfl
  rw [hcomp, hfind]
  rfl

end Ephemerals

variable {ssl}

/-- The scalar of a curve is there afterwards, and nothing before it is lost. -/
theorem getOrCreateEphemeral_spec {curve : EcCurve} {eph eph' : Ephemerals Scalar} {rng rng' : Rng}
    {d : Scalar} (h : getOrCreateEphemeral ssl curve eph rng = .ok (d, eph', rng')) :
    eph'.scalar curve = some d ∧ eph.Extends eph' ∧
      (eph.Published ssl → eph'.Published ssl) := by
  unfold getOrCreateEphemeral at h
  split at h
  · next c d' hfind =>
    cases h
    refine ⟨?_, Ephemerals.Extends.refl _, id⟩
    rw [Ephemerals.scalar, hfind]
    rfl
  · next hfind =>
    simp only [bind_ok, pure_ok, Prod.mk.injEq] at h
    obtain ⟨⟨d', rng₁⟩, -, rfl, rfl, rfl⟩ := h
    have hnone : ∀ x ∈ eph.privkeys, x.1 ≠ curve := by simpa using hfind
    refine ⟨?_, ?_, ?_⟩
    · simp [Ephemerals.scalar, List.find?_append, hfind]
    · intro c e hc
      simp only [Ephemerals.scalar, Option.map_eq_some_iff] at hc ⊢
      obtain ⟨x, hx, rfl⟩ := hc
      exact ⟨x, by simp [List.find?_append, hx], rfl⟩
    · rintro ⟨hkeys, hnodup⟩
      refine ⟨?_, ?_⟩
      · simp [hkeys]
      · rw [List.map_append, List.nodup_append]
        refine ⟨hnodup, by simp, ?_⟩
        intro c hc c' hc'
        obtain ⟨x, hx, rfl⟩ := List.mem_map.mp hc
        obtain rfl : c' = curve := by simpa using hc'
        exact hnone x hx

/-! ## Parts -/

variable (ssl)

/-- A part sealed for a template part: its box holds the contents under the secret
between the scalar and the recipient's point. -/
structure SealedPart (plain : Bytes) (d : Scalar) (tplPart : EboxTplPart) (part : EboxPart) :
    Prop where
  /-- The fields taken over from the template. -/
  fields : part.guid = tplPart.guid ∧ part.slot = tplPart.slot ∧ part.name = tplPart.name ∧
    part.cak = tplPart.cak
  header : part.pivBox.cipher = defaultCipher ∧ part.pivBox.kdf = defaultKdf ∧
    part.pivBox.curve = tplPart.pubkeyCurve
  nonce : part.pivBox.nonce.length = nonceLen
  iv : part.pivBox.iv.length = cipherIvLen
  /-- The recipient's point, its encoding in the box and the sealed contents. -/
  contents : ∃ p secret ct tag,
    ssl.pointFromBytes tplPart.pubkeyCurve tplPart.pubkey = .ok p ∧
    part.pivBox.recipientPubkey = ssl.pointToBytes tplPart.pubkeyCurve .compressed p ∧
    part.pivBox.ephemeralPubkey = ssl.pointToBytes tplPart.pubkeyCurve .compressed
      (ssl.publicPoint tplPart.pubkeyCurve d) ∧
    ssl.derive tplPart.pubkeyCurve d p = .ok secret ∧
    ssl.encryptAead .chacha20Poly1305 (kdfSha512 ssl secret part.pivBox.nonce) part.pivBox.iv
      (pkcs7Pad plain 16) = .ok (ct, tag) ∧
    part.pivBox.ciphertext = ct ++ tag

variable {ssl}

theorem chacha20Poly1305Encrypt_ok {key iv plain out : Bytes}
    (h : chacha20Poly1305Encrypt ssl key iv plain = .ok out) :
    iv.length = cipherIvLen ∧ ∃ ct tag,
      ssl.encryptAead .chacha20Poly1305 key iv plain = .ok (ct, tag) ∧ out = ct ++ tag := by
  obtain ⟨hiv, h⟩ := guard_ok.mp h
  simp only [bind_ok, pure_ok, liftSsl_ok] at h
  obtain ⟨⟨ct, tag⟩, henc, rfl⟩ := h
  exact ⟨not_not.mp hiv, ct, tag, henc, rfl⟩

/-- A sealed part together with the scalar the ebox has for its curve. -/
def SealedIn (ssl : OpenSsl Scalar Point Rng) (plain : Bytes) (eph : Ephemerals Scalar)
    (tplPart : EboxTplPart) (part : EboxPart) : Prop :=
  ∃ d, eph.scalar tplPart.pubkeyCurve = some d ∧ SealedPart ssl plain d tplPart part

theorem SealedIn.extend {plain : Bytes} {eph eph' : Ephemerals Scalar} {tplPart : EboxTplPart}
    {part : EboxPart} (h : SealedIn ssl plain eph tplPart part) (hext : eph.Extends eph') :
    SealedIn ssl plain eph' tplPart part := by
  obtain ⟨d, hd, hs⟩ := h
  exact ⟨d, hext _ _ hd, hs⟩

/-- A part is sealed under the scalar of its curve. -/
theorem createPart_spec (hssl : ssl.Lawful) {shares : Option (List Bytes)} {key : Bytes} {i : Nat}
    {tplPart : EboxTplPart} {eph eph' : Ephemerals Scalar} {rng rng' : Rng} {part : EboxPart}
    (h : createPart ssl shares key i tplPart eph rng = .ok (part, eph', rng')) :
    (∃ plain, partPlaintext shares key i = .ok plain ∧ SealedIn ssl plain eph' tplPart part) ∧
      eph.Extends eph' ∧ (eph.Published ssl → eph'.Published ssl) := by
  simp only [createPart, bind_ok, pure_ok, liftBox_ok, liftSsl_ok,
    sealOfflineWithEphemeral, Prod.mk.injEq] at h
  obtain ⟨⟨d, eph₁, rng₁⟩, heph, p, hp, plain, hplain, ⟨b, rng₂⟩,
    ⟨⟨nonce, rng₃⟩, hnonce, ⟨iv, rng₄⟩, hiv, b', hseal, hb⟩, rfl, rfl, rfl⟩ := h
  obtain ⟨hscalar, hext, hpub⟩ := getOrCreateEphemeral_spec heph
  refine ⟨⟨plain, hplain, d, hscalar, ?_⟩, hext, hpub⟩
  simp only [Prod.mk.injEq] at hb
  obtain ⟨rfl, rfl⟩ := hb
  simp only [sealOfflineWithEphemeralAndPinnedRandom, PivBox.setData, bind_ok, pure_ok,
    liftSsl_ok] at hseal
  obtain ⟨secret, hsecret, out, hout, rfl⟩ := hseal
  obtain ⟨hivlen, ct, tag, henc, rfl⟩ := chacha20Poly1305Encrypt_ok hout
  exact {
    fields := ⟨rfl, rfl, rfl, rfl⟩
    header := ⟨rfl, rfl, rfl⟩
    nonce := hssl.length_randBytes hnonce
    iv := hivlen
    contents := ⟨p, secret, ct, tag, hp, rfl, rfl, hsecret, henc, rfl⟩ }

/-- The parts of a config are sealed one for one. -/
theorem createParts_spec (hssl : ssl.Lawful) {shares : Option (List Bytes)} {key : Bytes} {i : Nat}
    {tplParts : List EboxTplPart} {eph eph' : Ephemerals Scalar} {rng rng' : Rng}
    {parts : List EboxPart}
    (h : createParts ssl shares key i tplParts eph rng = .ok (parts, eph', rng')) :
    List.Forall₂ (fun tplPart part => ∃ j plain, partPlaintext shares key j = .ok plain ∧
      SealedIn ssl plain eph' tplPart part) tplParts parts ∧
      eph.Extends eph' ∧ (eph.Published ssl → eph'.Published ssl) := by
  induction tplParts generalizing i eph rng parts with
  | nil =>
    cases h
    exact ⟨.nil, Ephemerals.Extends.refl _, id⟩
  | cons tplPart tplParts ih =>
    simp only [createParts, bind_ok, pure_ok, Prod.mk.injEq] at h
    obtain ⟨⟨part, eph₁, rng₁⟩, hpart, ⟨parts, eph₂, rng₂⟩, hparts, rfl, rfl, rfl⟩ := h
    obtain ⟨⟨plain, hplain, hsealed⟩, hext, hpub⟩ := createPart_spec hssl hpart
    obtain ⟨hall, hext', hpub'⟩ := ih hparts
    exact ⟨.cons ⟨i, plain, hplain, hsealed.extend hext'⟩ hall, hext.trans hext', hpub' ∘ hpub⟩

/-! ## Configs -/

/-- A dealer whose shares are one byte longer than the secret. -/
def Dealer.Lawful (dealer : Dealer Rng) : Prop :=
  ∀ n secret m rng, ∀ share ∈ (dealer n secret m rng).1, share.length = secret.length + 1

/-- What a part of a config holds: the key in a PRIMARY config, a share of the config's
key in a RECOVERY config. -/
def HeldBy (key : Bytes) : EboxConfigType → Bytes → Prop
  | .primary, plain => plain = key
  | .recovery, plain => plain.length = 33

/-- A part sealed for a part of a template config. -/
def SealedFor (ssl : OpenSsl Scalar Point Rng) (key : Bytes) (eph : Ephemerals Scalar)
    (ty : EboxConfigType) (tplPart : EboxTplPart) (part : EboxPart) : Prop :=
  ∃ plain, HeldBy key ty plain ∧ SealedIn ssl plain eph tplPart part

/-- The parts of a PRIMARY config hold the key. -/
theorem SealedFor.primary {key : Bytes} {eph : Ephemerals Scalar} {ty : EboxConfigType}
    {tplPart : EboxTplPart} {part : EboxPart} (h : SealedFor ssl key eph ty tplPart part)
    (hty : ty = .primary) : SealedIn ssl key eph tplPart part := by
  obtain ⟨plain, hheld, hin⟩ := h
  subst hty
  obtain rfl : plain = key := hheld
  exact hin

/-- A config sealed for a template config. -/
structure SealedConfig (ssl : OpenSsl Scalar Point Rng) (key : Bytes) (eph : Ephemerals Scalar)
    (tplConfig : EboxTplConfig) (config : EboxConfig) : Prop where
  configType : config.configType = tplConfig.configType
  n : config.n = tplConfig.n
  nonce : config.nonce.length ≤ 32
  parts : List.Forall₂ (SealedFor ssl key eph tplConfig.configType) tplConfig.parts config.parts

/-- The nonce of a config and what its parts can hold. -/
private theorem createShares_spec (hssl : ssl.Lawful) {dealer : Dealer Rng}
    {key recoveryKey : Bytes} (hrk : recoveryKey.length = 32) {tplConfig : EboxTplConfig}
    (hdealer : tplConfig.configType = .recovery → dealer.Lawful) {rng rng' : Rng} {nonce : Bytes}
    {shares : Option (List Bytes)}
    (h : createShares ssl dealer tplConfig recoveryKey rng = .ok ((nonce, shares), rng')) :
    nonce.length ≤ 32 ∧ ∀ i plain, partPlaintext shares key i = .ok plain →
      HeldBy key tplConfig.configType plain := by
  unfold createShares at h
  cases hty : tplConfig.configType with
  | primary =>
    rw [hty] at h
    cases h
    refine ⟨Nat.zero_le _, ?_⟩
    intro i plain hplain
    exact (Except.ok.inj hplain).symm
  | recovery =>
    rw [hty] at h
    simp only [bind_ok, pure_ok, liftSsl_ok, Prod.mk.injEq] at h
    obtain ⟨⟨nonce', rng₁⟩, hnonce, ⟨rfl, rfl⟩, -⟩ := h
    have hlen := hssl.length_randBytes hnonce
    refine ⟨Nat.le_of_eq hlen, ?_⟩
    intro i plain hplain
    simp only [partPlaintext] at hplain
    split at hplain
    · next share hshare =>
      cases hplain
      have hshort := hdealer hty _ _ _ _ _ (List.mem_of_getElem? hshare)
      rw [List.length_zipWith, hlen, hrk] at hshort
      exact hshort
    · cases hplain

/-- The configs are sealed one for one. -/
theorem createConfigs_spec (hssl : ssl.Lawful) {dealer : Dealer Rng} {key recoveryKey : Bytes}
    (hrk : recoveryKey.length = 32) {tplConfigs : List EboxTplConfig}
    (hdealer : ∀ c ∈ tplConfigs, c.configType = .recovery → dealer.Lawful)
    {eph eph' : Ephemerals Scalar} {rng rng' : Rng} {configs : List EboxConfig}
    (h : createConfigs ssl dealer key recoveryKey tplConfigs eph rng =
      .ok (configs, eph', rng')) :
    List.Forall₂ (SealedConfig ssl key eph') tplConfigs configs ∧
      eph.Extends eph' ∧ (eph.Published ssl → eph'.Published ssl) := by
  induction tplConfigs generalizing eph rng configs with
  | nil =>
    cases h
    exact ⟨.nil, Ephemerals.Extends.refl _, id⟩
  | cons tplConfig tplConfigs ih =>
    simp only [createConfigs, createConfig, bind_ok, pure_ok, liftBox_ok, Prod.mk.injEq] at h
    obtain ⟨⟨config, eph₁, rng₁⟩, ⟨⟨⟨nonce, shares⟩, rng₂⟩, hshares, ⟨parts, eph₂, rng₃⟩, hparts,
      rfl, rfl, rfl⟩, ⟨configs, eph₃, rng₄⟩, hconfigs, rfl, rfl, rfl⟩ := h
    obtain ⟨hnonce, hheld⟩ := createShares_spec hssl hrk (hdealer tplConfig (by simp)) hshares
    obtain ⟨hall, hext, hpub⟩ := createParts_spec hssl hparts
    obtain ⟨hrest, hext', hpub'⟩ := ih (fun c hc => hdealer c (by simp [hc])) hconfigs
    refine ⟨.cons ⟨rfl, rfl, hnonce, ?_⟩ hrest, hext.trans hext', hpub' ∘ hpub⟩
    refine hall.imp ?_
    rintro tplPart part ⟨j, plain, hplain, hin⟩
    exact ⟨plain, hheld j plain hplain, hin.extend hext'⟩

/-! ## The ebox -/

/-- An ebox sealed for the configs of a template. -/
structure SealedEbox (ssl : OpenSsl Scalar Point Rng) (key : Bytes) (tpl : EboxTemplate)
    (e : Ebox) : Prop where
  version : e.version = eboxVersion
  recoveryCipher : e.recoveryCipher = recoveryCipherName
  recoveryIv : e.recoveryIv.length = 12
  recoveryEnc : e.recoveryEnc.length = key.length + 18
  configs : ∃ eph : Ephemerals Scalar, eph.Published ssl ∧ e.ephemeralKeys = eph.keys ∧
    List.Forall₂ (SealedConfig ssl key eph) tpl.configs e.configs

/-- Creating an ebox from a template seals every part of it. -/
theorem create_spec (hssl : ssl.Lawful) {dealer : Dealer Rng} {tpl : EboxTemplate} {key : Bytes}
    {ty : EboxType} {rng rng' : Rng} {e : Ebox}
    (hdealer : ∀ c ∈ tpl.configs, c.configType = .recovery → dealer.Lawful)
    (h : Ebox.create ssl dealer tpl key ty rng = .ok (e, rng')) :
    SealedEbox ssl key tpl e ∧ e.eboxType = ty ∧ e.key = none := by
  simp only [Ebox.create, aes256GcmEncrypt, bind_ok, pure_ok, liftBox_ok, liftSsl_ok,
    putString8_ok, Prod.mk.injEq] at h
  obtain ⟨⟨recoveryKey, rng₁⟩, hrk, plain, ⟨-, rfl⟩, ⟨⟨enc, iv⟩, rng₂⟩,
    ⟨⟨iv', rng₃⟩, hiv, ⟨ct, tag⟩, henc, ⟨rfl, rfl⟩, rfl⟩, ⟨configs, eph, rng₄⟩, hconfigs, rfl,
    rfl⟩ := h
  obtain ⟨hct, htag⟩ := hssl.encryptAead_length henc
  have hstart : Ephemerals.Published ssl (⟨[], []⟩ : Ephemerals Scalar) := ⟨rfl, by simp⟩
  obtain ⟨hall, -, hpub⟩ := createConfigs_spec hssl (hssl.length_randBytes hrk) hdealer hconfigs
  refine ⟨⟨rfl, rfl, hssl.length_randBytes hiv, ?_, eph, hpub hstart, rfl, hall⟩, rfl, rfl⟩
  simp only [List.length_append, hct, htag, putU8, length_string8, List.length_singleton,
    List.length_nil]
  omega

/-! ## Sealed values can be written -/

theorem onCurve_of_ok {curve : EcCurve} {bytes : Bytes} {p : Point}
    (h : ssl.pointFromBytes curve bytes = .ok p) : ssl.OnCurve curve p := ⟨bytes, h⟩

/-- A sealed part can be written. -/
theorem SealedPart.fits (hssl : ssl.Lawful) {key : Bytes} (hkey : key.length ≤ 255) {d : Scalar}
    {tplPart : EboxTplPart} {part : EboxPart} (h : SealedPart ssl key d tplPart part)
    (hf : FitsFields tplPart.name tplPart.cak) : part.Fits := by
  obtain ⟨-, -, hname, hcak⟩ := h.fields
  obtain ⟨hcipher, hkdf, -⟩ := h.header
  obtain ⟨p, secret, ct, tag, hp, hrp, hep, -, henc, hct⟩ := h.contents
  obtain ⟨hctl, htagl⟩ := hssl.encryptAead_length henc
  refine ⟨by rw [hname, hcak]; exact hf, ?_⟩
  exact {
    cipher := by rw [hcipher]; decide
    kdf := by rw [hkdf]; decide
    nonce := by rw [FitsString8, h.nonce]; decide
    recipientPubkey := by
      rw [hrp]
      exact (hssl.compressed_bounds (onCurve_of_ok hp)).1
    ephemeralPubkey := by
      rw [hep]
      exact (hssl.compressed_bounds (hssl.publicPoint_onCurve _ _)).1
    iv := by rw [FitsString8, h.iv]; decide
    ciphertext := by
      rw [FitsString, hct, List.length_append, hctl, htagl, length_pkcs7Pad]
      omega }

/-- A sealed ebox can be written. -/
theorem SealedEbox.fits (hssl : ssl.Lawful) {key : Bytes} (hkey : key.length ≤ 237)
    {tpl : EboxTemplate} {e : Ebox} (h : SealedEbox ssl key tpl e)
    (hf : ∀ c ∈ tpl.configs, ∀ p ∈ c.parts, FitsFields p.name p.cak) : e.Fits := by
  obtain ⟨eph, hpub, hkeys, hconfigs⟩ := h.configs
  refine ⟨?_, ?_, ?_, ?_, ?_⟩
  · rw [h.recoveryCipher]
    decide
  · rw [FitsString8, h.recoveryIv]
    decide
  · rw [FitsString8, h.recoveryEnc]
    omega
  · intro ek hek
    rw [hkeys, hpub.keys] at hek
    obtain ⟨x, -, rfl⟩ := List.mem_map.mp hek
    exact (hssl.compressed_bounds (hssl.publicPoint_onCurve _ _)).1
  · intro c hc
    obtain ⟨tc, htc, hsealed⟩ := forall₂_mem_right hconfigs hc
    refine ⟨Nat.le_trans hsealed.nonce (by decide), ?_⟩
    intro part hpart
    obtain ⟨tp, htp, plain, hheld, d, -, hsp⟩ := forall₂_mem_right hsealed.parts hpart
    refine hsp.fits hssl ?_ (hf tc htc tp htp)
    cases hty : tc.configType with
    | primary =>
      rw [hty] at hheld
      obtain rfl : plain = key := hheld
      omega
    | recovery =>
      rw [hty] at hheld
      have hshare : plain.length = 33 := hheld
      omega

end

end Piggy.Box
