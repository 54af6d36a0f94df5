import Piggy.Box.Opening

/-!
# Recovering from shares

The parts of a RECOVERY config hold the shares of a key that, under the nonce of the config,
opens the recovery box of the ebox. Recovering takes the contents out of every opened part
before it is known whether they are enough, and puts nothing back.
-/

namespace Piggy.Box

open Piggy.Core

/-- The calls into the sharks crate. -/
structure Sharks (Share : Type) where
  /-- `Share::try_from`. -/
  tryFrom : Bytes → Except String Share
  /-- `Sharks::recover`, with the threshold first. -/
  recover : UInt8 → List Share → Except String Bytes

section

variable {Scalar Point Rng Share : Type} (ssl : OpenSsl Scalar Point Rng) (sharks : Sharks Share)

/-- Opens a ciphertext with its tag behind it. -/
def aes256GcmDecrypt (key iv ciphertext : Bytes) : Except BoxError Bytes :=
  if ciphertext.length < 16 then .error (.crypto "AES-256-GCM ciphertext too short for tag")
  else
    let tagOffset := ciphertext.length - 16
    match ssl.decryptAead .aes256Gcm key iv (ciphertext.take tagOffset)
        (ciphertext.drop tagOffset) with
    | .ok pt => .ok pt
    | .error e => .error (.crypto s!"AES-256-GCM decrypt: {e}")

/-- The key in the contents of a recovery box; records with other tags are skipped. The first
argument bounds the turns. -/
def recoveredKey : Nat → WireReader → Except BoxError Bytes
  | 0, _ => .error (.crypto "recovery box did not contain key")
  | turns + 1, r => do
    let (tag, r) ← getU8 r
    let (data, r) ← getString8 r
    if tag = recovKey then .ok data
    else if r.remaining = 0 then .error (.crypto "recovery box did not contain key")
    else recoveredKey turns r

/-- Takes the contents out of the opened parts; those that are no shares are dropped. -/
def takeShares : List EboxPart → List Share × List EboxPart
  | [] => ([], [])
  | part :: parts =>
    let (shares, parts) := takeShares parts
    match part.pivBox.plaintext with
    | none => (shares, part :: parts)
    | some data =>
      let part := { part with pivBox := { part.pivBox with plaintext := none } }
      match sharks.tryFrom data with
      | .ok share => (share :: shares, part :: parts)
      | .error _ => (shares, part :: parts)

/-- Combines shares and opens the recovery box. -/
def openRecoveryBox (n : UInt8) (nonce recoveryIv recoveryEnc : Bytes) (shares : List Share) :
    Except BoxError Bytes :=
  if shares.length < n.toNat then .error (.thresholdNotMet shares.length n.toNat)
  else do
    let configKey ← (sharks.recover n shares).mapError fun e => .crypto s!"Shamir recover: {e}"
    if nonce.length ≠ configKey.length then .error (.crypto "recovery nonce length mismatch")
    else do
      let recoveryKey := List.zipWith (· ^^^ ·) configKey nonce
      let recovPlain ← aes256GcmDecrypt ssl recoveryKey recoveryIv recoveryEnc
      recoveredKey (recovPlain.length + 1) (WireReader.new recovPlain)

/-- Recovers the key with the opened parts of a config; the ebox is returned as it is left. -/
def Ebox.recover (ebox : Ebox) (configIdx : Nat) : Except Fault Unit × Ebox :=
  if ebox.key.isSome then (.error (.error .alreadyUnlocked), ebox)
  else match ebox.configs[configIdx]? with
    | none => (.error .panic, ebox)
    | some config =>
      let (shares, parts) := takeShares sharks config.parts
      let ebox := { ebox with configs := ebox.configs.set configIdx { config with parts } }
      match openRecoveryBox ssl sharks config.n config.nonce ebox.recoveryIv ebox.recoveryEnc
          shares with
      | .ok key => (.ok (), { ebox with key := some key })
      | .error e => (.error (.error e), ebox)

end

/-! ## What is in a recovery box -/

/-- A record of a recovery box. -/
def record (tag : UInt8) (data : Bytes) : Bytes := tag :: string8 data

/-- A key stands behind records with other tags. -/
inductive HoldsKey (key : Bytes) : Bytes → Prop where
  | found (rest : Bytes) (hkey : FitsString8 key) : HoldsKey key (record recovKey key ++ rest)
  | skipped {tag : UInt8} {data plain : Bytes} (htag : tag ≠ recovKey) (hdata : FitsString8 data)
      (h : HoldsKey key plain) : HoldsKey key (record tag data ++ plain)

theorem HoldsKey.ne_nil {key plain : Bytes} (h : HoldsKey key plain) : plain ≠ [] := by
  cases h <;> simp [record]

/-- One turn of the loop reads one record. -/
theorem getRecord_ok {r r' : WireReader} {tag : UInt8} {data : Bytes} :
    (∃ r₁, getU8 r = .ok (tag, r₁) ∧ getString8 r₁ = .ok (data, r')) ↔
      FitsString8 data ∧ Spans r r' (record tag data) := by
  constructor
  · rintro ⟨r₁, htag, hdata⟩
    obtain ⟨-, hspan⟩ := getU8_exact.spans htag
    obtain ⟨hfits, hspan'⟩ := getString8_exact.spans hdata
    exact ⟨hfits, hspan.trans hspan'⟩
  · rintro ⟨hfits, hrest, hpos⟩
    refine ⟨⟨r.pos + 1, string8 data ++ r'.rest⟩, (getU8_exact _ _ _).mpr ⟨trivial, hrest, rfl⟩,
      (getString8_exact _ _ _).mpr ⟨hfits, rfl, ?_⟩⟩
    rw [hpos, record, List.length_cons]
    dsimp only
    omega

/-- The loop finds the key of a recovery box, and nothing else. -/
theorem recoveredKey_ok {turns : Nat} {r : WireReader} {key : Bytes}
    (hturns : r.rest.length < turns) :
    recoveredKey turns r = .ok key ↔ HoldsKey key r.rest := by
  induction turns generalizing r with
  | zero => exact absurd hturns (Nat.not_lt_zero _)
  | succ turns ih =>
    have hshort : ∀ {tag data} {r' : WireReader}, Spans r r' (record tag data) →
        r'.rest.length < turns := by
      intro tag data r' hspan
      rw [hspan.1, List.length_append, record, List.length_cons] at hturns
      omega
    simp only [recoveredKey, bind_ok]
    constructor
    · rintro ⟨⟨tag, r₁⟩, htag, ⟨data, r'⟩, hdata, h⟩
      obtain ⟨hfits, hspan⟩ := getRecord_ok.mp ⟨r₁, htag, hdata⟩
      rw [hspan.1]
      dsimp only at h
      split at h
      · next htag =>
        obtain rfl : data = key := Except.ok.inj h
        subst htag
        exact .found _ hfits
      · next htag =>
        rw [guard_ok] at h
        exact .skipped htag hfits ((ih (hshort hspan)).mp h.2)
    · intro h
      generalize hrest : r.rest = plain at h
      cases h with
      | found rest hkey =>
        obtain ⟨r₁, htag, hdata⟩ := getRecord_ok.mpr
          (⟨hkey, hrest, rfl⟩ : _ ∧ Spans r ⟨r.pos + _, rest⟩ (record recovKey key))
        exact ⟨_, htag, _, hdata, if_pos rfl⟩
      | @skipped tag data plain htag hdata h =>
        have hspan : Spans r ⟨r.pos + (record tag data).length, plain⟩ (record tag data) :=
          ⟨hrest, rfl⟩
        obtain ⟨r₁, hread, hread'⟩ := getRecord_ok.mpr ⟨hdata, hspan⟩
        refine ⟨_, hread, _, hread', ?_⟩
        dsimp only
        rw [if_neg htag, if_neg]
        · exact (ih (hshort hspan)).mpr h
        · exact fun hempty => h.ne_nil (List.length_eq_zero_iff.mp hempty)

/-! ## One call -/

section

variable {Scalar Point Rng Share : Type} (ssl : OpenSsl Scalar Point Rng) (sharks : Sharks Share)

/-- The shares among the contents of the opened parts. -/
def sharesOf (parts : List EboxPart) : List Share :=
  parts.filterMap fun part => part.pivBox.plaintext.bind fun data => (sharks.tryFrom data).toOption

theorem takeShares_eq (parts : List EboxPart) :
    takeShares sharks parts = (sharesOf sharks parts, parts.map EboxPart.locked) := by
  induction parts with
  | nil => rfl
  | cons part parts ih =>
    rw [takeShares, ih, List.map_cons, sharesOf, sharesOf, List.filterMap_cons]
    cases hplain : part.pivBox.plaintext with
    | none =>
      have hlocked : part.locked = part := by rw [EboxPart.locked, ← hplain]
      simp [hlocked]
    | some data =>
      cases hshare : sharks.tryFrom data with
      | error e => simp [hshare, Except.toOption, EboxPart.locked]
      | ok share => simp [hshare, Except.toOption, EboxPart.locked]

/-- The opened parts of a config are enough: their shares combine to a key that, under the
nonce of the config, opens the recovery box, and there is a key in it. -/
def RecoversTo (ebox : Ebox) (config : EboxConfig) (key : Bytes) : Prop :=
  config.n.toNat ≤ (sharesOf sharks config.parts).length ∧
    ∃ configKey plain, sharks.recover config.n (sharesOf sharks config.parts) = .ok configKey ∧
      config.nonce.length = configKey.length ∧
      aes256GcmDecrypt ssl (List.zipWith (· ^^^ ·) configKey config.nonce) ebox.recoveryIv
        ebox.recoveryEnc = .ok plain ∧
      HoldsKey key plain

/-- Recovering would take nothing, or would succeed. -/
def Spares (ebox : Ebox) (config : EboxConfig) : Prop :=
  ebox.key.isSome = true ∨ (∀ part ∈ config.parts, part.pivBox.plaintext = none) ∨
    ∃ key, RecoversTo ssl sharks ebox config key

/-- A call that fails leaves the ebox as it was. -/
def RecoverAtomic (ebox : Ebox) (configIdx : Nat) : Prop :=
  ∀ fault after, ebox.recover ssl sharks configIdx = (.error fault, after) → after = ebox

/-- The ebox without the contents of the parts of a config. -/
def Ebox.emptied (ebox : Ebox) (configIdx : Nat) (config : EboxConfig) : Ebox :=
  { ebox with configs := ebox.configs.set configIdx config.locked }

variable {ssl sharks}

theorem openRecoveryBox_ok {ebox : Ebox} {config : EboxConfig} {key : Bytes} :
    openRecoveryBox ssl sharks config.n config.nonce ebox.recoveryIv ebox.recoveryEnc
      (sharesOf sharks config.parts) = .ok key ↔ RecoversTo ssl sharks ebox config key := by
  rw [openRecoveryBox, guard_ok, Nat.not_lt, RecoversTo]
  simp only [bind_ok, mapError_ok, guard_ok, not_not]
  refine and_congr_right fun _ => ?_
  constructor
  · rintro ⟨configKey, hcombine, hlen, plain, hdec, hkey⟩
    exact ⟨configKey, plain, hcombine, hlen, hdec, (recoveredKey_ok (Nat.lt_succ_self _)).mp hkey⟩
  · rintro ⟨configKey, plain, hcombine, hlen, hdec, hkey⟩
    exact ⟨configKey, hcombine, hlen, plain, hdec, (recoveredKey_ok (Nat.lt_succ_self _)).mpr hkey⟩

variable {ebox : Ebox} {i : Nat} {config : EboxConfig}

/-- With enough shares the key is set. -/
theorem recover_of_recoversTo (hkey : ebox.key = none) (hconfig : ebox.configs[i]? = some config)
    {key : Bytes} (h : RecoversTo ssl sharks ebox config key) :
    ebox.recover ssl sharks i = (.ok (), { ebox.emptied i config with key := some key }) := by
  rw [Ebox.recover, hkey, if_neg (by simp), hconfig]
  dsimp only
  rw [takeShares_eq]
  dsimp only
  rw [openRecoveryBox_ok.mpr h]
  rfl

/-- Without enough shares the opened parts are emptied all the same. -/
theorem recover_of_not_recoversTo (hkey : ebox.key = none)
    (hconfig : ebox.configs[i]? = some config)
    (h : ¬ ∃ key, RecoversTo ssl sharks ebox config key) :
    ∃ e, ebox.recover ssl sharks i = (.error (.error e), ebox.emptied i config) := by
  have hfail : ∀ key, openRecoveryBox ssl sharks config.n config.nonce ebox.recoveryIv
      ebox.recoveryEnc (sharesOf sharks config.parts) ≠ .ok key := by
    intro key hok
    exact h ⟨key, openRecoveryBox_ok.mp hok⟩
  rw [Ebox.recover, hkey, if_neg (by simp), hconfig]
  dsimp only
  rw [takeShares_eq]
  dsimp only
  cases hopen : openRecoveryBox ssl sharks config.n config.nonce ebox.recoveryIv ebox.recoveryEnc
      (sharesOf sharks config.parts) with
  | ok key => exact absurd hopen (hfail key)
  | error e =>
    refine ⟨e, ?_⟩
    rw [Ebox.emptied, hkey]
    rfl

theorem locked_eq_self {part : EboxPart} : part.locked = part ↔ part.pivBox.plaintext = none := by
  constructor
  · intro h
    rw [← h]
    rfl
  · intro h
    rw [EboxPart.locked, ← h]

theorem map_locked_eq_self {parts : List EboxPart} :
    parts.map EboxPart.locked = parts ↔ ∀ part ∈ parts, part.pivBox.plaintext = none := by
  have hself := List.map_inj_left (l := parts) (f := EboxPart.locked) (g := id)
  rw [List.map_id] at hself
  simp only [hself, id_eq, locked_eq_self]

/-- Nothing is emptied exactly when no part is opened. -/
theorem emptied_eq_self (hconfig : ebox.configs[i]? = some config) :
    ebox.emptied i config = ebox ↔ ∀ part ∈ config.parts, part.pivBox.plaintext = none := by
  rw [← map_locked_eq_self]
  constructor
  · intro h
    have hget : (ebox.emptied i config).configs[i]? = some config.locked :=
      List.getElem?_set_self (List.getElem?_eq_some_iff.mp hconfig).1
    rw [h, hconfig, Option.some.injEq] at hget
    exact (congrArg EboxConfig.parts hget).symm
  · intro h
    have hlocked : config.locked = config := by rw [EboxConfig.locked, h]
    rw [Ebox.emptied, hlocked, set_of_getElem? hconfig]

/-- A failing call leaves the ebox as it was exactly when there was nothing to take, or it could
not fail. -/
theorem recoverAtomic_iff (hconfig : ebox.configs[i]? = some config) :
    RecoverAtomic ssl sharks ebox i ↔ Spares ssl sharks ebox config := by
  constructor
  · intro hatomic
    by_cases hkey : ebox.key.isSome = true
    · exact .inl hkey
    · by_cases hrecovers : ∃ key, RecoversTo ssl sharks ebox config key
      · exact .inr (.inr hrecovers)
      · obtain ⟨e, hfails⟩ :=
          recover_of_not_recoversTo (Option.not_isSome_iff_eq_none.mp hkey) hconfig hrecovers
        exact .inr (.inl ((emptied_eq_self hconfig).mp (hatomic _ _ hfails)))
  · intro hspares fault after hfails
    by_cases hkey : ebox.key.isSome = true
    · rw [Ebox.recover, if_pos hkey] at hfails
      cases hfails
      rfl
    · have hnone := Option.not_isSome_iff_eq_none.mp hkey
      by_cases hrecovers : ∃ key, RecoversTo ssl sharks ebox config key
      · obtain ⟨key, hrecovers⟩ := hrecovers
        rw [recover_of_recoversTo hnone hconfig hrecovers] at hfails
        cases hfails
      · obtain ⟨e, hfails'⟩ := recover_of_not_recoversTo hnone hconfig hrecovers
        rw [hfails'] at hfails
        cases hfails
        rcases hspares with h | h | h
        · exact absurd h hkey
        · exact (emptied_eq_self hconfig).mpr h
        · exact absurd h hrecovers

end

end Piggy.Box
