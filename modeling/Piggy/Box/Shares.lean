import Piggy.Box.Recover

/-!
# The shares of a created ebox

Creating an ebox deals the shares of one key to the parts of each RECOVERY config, one share to
a part. So whatever parts are opened hold shares that are all different, and enough of them give
the sealed key back.
-/

namespace Piggy.Box

open Piggy.Core

section

variable {Scalar Point Rng Share : Type} {ssl : OpenSsl Scalar Point Rng} {dealer : Dealer Rng}
  {sharks : Sharks Share}

/-- What the shares of a dealer are good for: they are all different, and as many of them as
the threshold give the secret back. Nothing is recovered from no share at all. -/
structure Sharks.Lawful (sharks : Sharks Share) (dealer : Dealer Rng) : Prop where
  nodup : ∀ n secret m rng, secret ≠ [] → m ≤ 255 → (dealer n secret m rng).1.Nodup
  recover_dealt : ∀ n secret m rng, secret ≠ [] → m ≤ 255 → ∀ given : List Bytes, given ≠ [] →
    n.toNat ≤ given.length → given.Nodup → given ⊆ (dealer n secret m rng).1 →
    ∃ shares, List.Forall₂ (fun data share => sharks.tryFrom data = .ok share) given shares ∧
      sharks.recover n shares = .ok secret
  recover_nil : ∀ n, ∃ e, sharks.recover n [] = .error e

/-! ## What a created ebox holds -/

/-- The contents of a list of parts are some plaintexts, in order, each sealed to its part. -/
def SealedParts (ssl : OpenSsl Scalar Point Rng) (plains : List Bytes) (parts : List EboxPart) :
    Prop :=
  List.Forall₂ (fun plain part => part.pivBox.plaintext = some plain ∧
    ∃ d tplPart, SealedPart ssl plain d tplPart part) plains parts

/-- The parts of a config hold shares of the config's key, in order. -/
def Dealt (ssl : OpenSsl Scalar Point Rng) (dealer : Dealer Rng) (recoveryKey : Bytes)
    (config : EboxConfig) : Prop :=
  ∃ m rng shares, m ≤ 255 ∧ config.nonce.length = 32 ∧
    shares <+: (dealer config.n (List.zipWith (· ^^^ ·) config.nonce recoveryKey) m rng).1 ∧
    SealedParts ssl shares config.parts

/-- An ebox that seals a key to the parts of its configs: each RECOVERY config holds shares of
the key of the recovery box, and that box holds the key. -/
structure SharesKey (ssl : OpenSsl Scalar Point Rng) (dealer : Dealer Rng) (key : Bytes)
    (e : Ebox) : Prop where
  contents : ∀ config ∈ e.configs, ∃ plains, SealedParts ssl plains config.parts
  box : ∃ recoveryKey, recoveryKey.length = 32 ∧
    (∃ plain, aes256GcmDecrypt ssl recoveryKey e.recoveryIv e.recoveryEnc = .ok plain ∧
      HoldsKey key plain) ∧
    ∀ config ∈ e.configs, config.configType = .recovery → Dealt ssl dealer recoveryKey config

theorem createPart_contents {shares : Option (List Bytes)} {key : Bytes} {i : Nat}
    {tplPart : EboxTplPart} {eph eph' : Ephemerals Scalar} {rng rng' : Rng} {part : EboxPart}
    (h : createPart ssl shares key i tplPart eph rng = .ok (part, eph', rng')) :
    ∃ plain, partPlaintext shares key i = .ok plain ∧ part.pivBox.plaintext = some plain := by
  simp only [createPart, bind_ok, pure_ok, liftBox_ok, liftSsl_ok, sealOfflineWithEphemeral,
    sealOfflineWithEphemeralAndPinnedRandom, PivBox.setData, Prod.mk.injEq] at h
  obtain ⟨-, -, -, -, plain, hplain, -, ⟨-, -, -, -, -, ⟨-, -, -, -, rfl⟩, rfl, -⟩, rfl, -, -⟩ := h
  exact ⟨plain, hplain, rfl⟩

/-- The contents of the parts from an index on. -/
def plainsFrom (shares : Option (List Bytes)) (i : Nat) (plains : List Bytes) : Prop :=
  ∀ ss, shares = some ss → plains <+: ss.drop i

theorem createParts_contents (hssl : ssl.Lawful) {shares : Option (List Bytes)} {key : Bytes}
    {i : Nat} {tplParts : List EboxTplPart} {eph eph' : Ephemerals Scalar} {rng rng' : Rng}
    {parts : List EboxPart}
    (h : createParts ssl shares key i tplParts eph rng = .ok (parts, eph', rng')) :
    ∃ plains, SealedParts ssl plains parts ∧ plainsFrom shares i plains := by
  induction tplParts generalizing i eph rng parts with
  | nil =>
    cases h
    exact ⟨[], .nil, fun _ _ => List.nil_prefix⟩
  | cons tplPart tplParts ih =>
    simp only [createParts, bind_ok, pure_ok, Prod.mk.injEq] at h
    obtain ⟨⟨part, eph₁, rng₁⟩, hpart, ⟨parts, eph₂, rng₂⟩, hparts, rfl, rfl, rfl⟩ := h
    obtain ⟨⟨plain, hplain, d, -, hsealed⟩, -, -⟩ := createPart_spec hssl hpart
    obtain ⟨plain', hplain', hcontents⟩ := createPart_contents hpart
    obtain rfl : plain = plain' := Except.ok.inj (hplain.symm.trans hplain')
    obtain ⟨plains, hall, hfrom⟩ := ih hparts
    refine ⟨plain :: plains, .cons ⟨hcontents, d, tplPart, hsealed⟩ hall, ?_⟩
    intro ss hss
    subst hss
    have hget : ss[i]? = some plain := by
      simp only [partPlaintext] at hplain
      split at hplain
      · next share hshare =>
        rw [hshare, Except.ok.inj hplain]
      · cases hplain
    have hdrop : ss.drop i = plain :: ss.drop (i + 1) := by
      obtain ⟨hi, rfl⟩ := List.getElem?_eq_some_iff.mp hget
      exact List.drop_eq_getElem_cons hi
    rw [hdrop]
    exact List.cons_prefix_cons.mpr ⟨rfl, hfrom ss rfl⟩

theorem createConfig_contents (hssl : ssl.Lawful) {key recoveryKey : Bytes}
    {tplConfig : EboxTplConfig} {eph eph' : Ephemerals Scalar} {rng rng' : Rng}
    {config : EboxConfig}
    (h : createConfig ssl dealer key recoveryKey tplConfig eph rng = .ok (config, eph', rng')) :
    (∃ plains, SealedParts ssl plains config.parts) ∧
      (config.configType = .recovery → Dealt ssl dealer recoveryKey config) := by
  simp only [createConfig, bind_ok, pure_ok, liftBox_ok, Prod.mk.injEq] at h
  obtain ⟨⟨⟨nonce, shares⟩, rng₁⟩, hshares, ⟨parts, eph₂, rng₂⟩, hparts, rfl, rfl, rfl⟩ := h
  obtain ⟨plains, hall, hfrom⟩ := createParts_contents hssl hparts
  refine ⟨⟨plains, hall⟩, ?_⟩
  intro hty
  rw [createShares] at hshares
  dsimp only at hty
  rw [hty] at hshares
  simp only [bind_ok, pure_ok, liftSsl_ok, Prod.mk.injEq] at hshares
  obtain ⟨⟨nonce', rng₃⟩, hnonce, ⟨rfl, rfl⟩, -⟩ := hshares
  have hm : tplConfig.m.toNat ≤ 255 := Nat.le_of_lt_succ tplConfig.m.toNat_lt
  exact ⟨_, rng₃, plains, hm, hssl.length_randBytes hnonce, hfrom _ rfl, hall⟩

theorem createConfigs_contents (hssl : ssl.Lawful) {key recoveryKey : Bytes}
    {tplConfigs : List EboxTplConfig} {eph eph' : Ephemerals Scalar} {rng rng' : Rng}
    {configs : List EboxConfig}
    (h : createConfigs ssl dealer key recoveryKey tplConfigs eph rng =
      .ok (configs, eph', rng')) :
    ∀ config ∈ configs, (∃ plains, SealedParts ssl plains config.parts) ∧
      (config.configType = .recovery → Dealt ssl dealer recoveryKey config) := by
  induction tplConfigs generalizing eph rng configs with
  | nil =>
    cases h
    simp
  | cons tplConfig tplConfigs ih =>
    simp only [createConfigs, bind_ok, pure_ok, Prod.mk.injEq] at h
    obtain ⟨⟨config, eph₁, rng₁⟩, hconfig, ⟨configs, eph₂, rng₂⟩, hconfigs, rfl, rfl, rfl⟩ := h
    intro c hc
    rcases List.mem_cons.mp hc with rfl | hc
    · exact createConfig_contents hssl hconfig
    · exact ih hconfigs c hc

/-- What was sealed under AES-256-GCM is opened under the same key. -/
theorem aes256GcmDecrypt_sealed (hssl : ssl.Lawful) {key iv plain ct tag : Bytes}
    (henc : ssl.encryptAead .aes256Gcm key iv plain = .ok (ct, tag)) :
    aes256GcmDecrypt ssl key iv (ct ++ tag) = .ok plain := by
  obtain ⟨-, htag⟩ := hssl.encryptAead_length henc
  have hoff : (ct ++ tag).length - 16 = ct.length := by
    rw [List.length_append, htag]
    omega
  rw [aes256GcmDecrypt, if_neg (by rw [List.length_append, htag]; omega)]
  simp only [hoff, List.take_left, List.drop_left, hssl.decryptAead_encryptAead henc]

/-- A created ebox shares its key. -/
theorem sharesKey_of_create (hssl : ssl.Lawful) {tpl : EboxTemplate} {key : Bytes} {ty : EboxType}
    {rng rng' : Rng} {e : Ebox} (h : Ebox.create ssl dealer tpl key ty rng = .ok (e, rng')) :
    SharesKey ssl dealer key e := by
  simp only [Ebox.create, aes256GcmEncrypt, bind_ok, pure_ok, liftBox_ok, liftSsl_ok,
    putString8_ok, Prod.mk.injEq] at h
  obtain ⟨⟨recoveryKey, rng₁⟩, hrk, plain, ⟨hfits, rfl⟩, ⟨⟨enc, iv⟩, rng₂⟩,
    ⟨⟨iv', rng₃⟩, hiv, ⟨ct, tag⟩, henc, ⟨rfl, rfl⟩, rfl⟩, ⟨configs, eph, rng₄⟩, hconfigs, rfl,
    rfl⟩ := h
  have hcontents := createConfigs_contents hssl hconfigs
  refine ⟨fun c hc => (hcontents c hc).1, recoveryKey, hssl.length_randBytes hrk,
    ⟨_, aes256GcmDecrypt_sealed hssl henc, ?_⟩, fun c hc => (hcontents c hc).2⟩
  have hfound : HoldsKey key (record recovKey key ++ []) := .found [] hfits
  rwa [List.append_nil] at hfound

end

end Piggy.Box
