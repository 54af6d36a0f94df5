import Piggy.Box.Seal

/-!
# Unlocking

An oracle holds private scalars and answers ECDH queries. Unlocking walks the
PRIMARY configs in order and asks the agent, then the card, about every part; the
first part that opens gives the key. A part that fails does not end the walk.
-/

namespace Piggy.Box

open Piggy.Core

/-- The errors an oracle can answer with. -/
inductive OracleError where
  | noKey
  | invalidPubkey (msg : String)
  | transport (msg : String)
  | protocol (msg : String)
  | other (msg : String)
  deriving DecidableEq

/-- The text of an oracle error. -/
def OracleError.text : OracleError → String
  | .noKey => "oracle does not hold a matching key"
  | .invalidPubkey msg => s!"invalid pubkey: {msg}"
  | .transport msg => s!"transport: {msg}"
  | .protocol msg => s!"protocol: {msg}"
  | .other msg => msg

/-- An oracle with a state of its own: it answers the query for the secret between
its own key and a partner key, both as OpenSSH blobs. -/
structure EcdhOracle (σ : Type) where
  ecdh : σ → Bytes → Bytes → Except OracleError Bytes × σ

/-- An EC point as an OpenSSH public key blob. -/
def ecPointToSshPubkeyBlob (curve : EcCurve) (point : Bytes) : Bytes :=
  putString (putString (putString [] (strBytes curve.sshKeytype)) (strBytes curve.wireName)) point

section

variable {Scalar Point Rng : Type} (ssl : OpenSsl Scalar Point Rng)

/-- The uncompressed form of a point; what starts with `0x04` is left alone. -/
def decompressEcPoint (curve : EcCurve) (point : Bytes) : Except BoxError Bytes :=
  if point.head? = some 0x04 then .ok point
  else do
    let p ← liftSsl (ssl.pointFromBytes curve point)
    pure (ssl.pointToBytes curve .uncompressed p)

/-- The ephemeral key of a box: its own, or the one the ebox has for its curve. -/
def resolveEphemeral (eks : List EphemeralKey) (b : PivBox) : Bytes :=
  if b.ephemeralPubkey.isEmpty then
    match eks.find? fun ek => ek.curve == b.curve with
    | some ek => ek.pubkey
    | none => []
  else b.ephemeralPubkey

/-- The oracle query for a box: the recipient's blob and the ephemeral blob. There
is none when a key is missing or does not decode. -/
def partQuery (eks : List EphemeralKey) (b : PivBox) : Option (Bytes × Bytes) :=
  let ephemeralPubkey := resolveEphemeral eks b
  if ephemeralPubkey.isEmpty || b.recipientPubkey.isEmpty then none
  else match decompressEcPoint ssl b.curve b.recipientPubkey with
    | .error _ => none
    | .ok selfUncompressed =>
      match decompressEcPoint ssl b.curve ephemeralPubkey with
      | .error _ => none
      | .ok partnerUncompressed =>
        some (ecPointToSshPubkeyBlob b.curve selfUncompressed,
          ecPointToSshPubkeyBlob b.curve partnerUncompressed)

/-- What trying one part came to. -/
inductive PartOutcome where
  | skipped
  /-- A failure worth telling the user about. -/
  | failed (reason : String)
  | opened (part : EboxPart)
  deriving DecidableEq

variable {σ τ : Type}

/-- Asks the oracle about a part and opens the part with the answer. -/
def tryPart (oracle : EcdhOracle σ) (eks : List EphemeralKey) (part : EboxPart) (s : σ) :
    PartOutcome × σ :=
  match partQuery ssl eks part.pivBox with
  | none => (.skipped, s)
  | some (selfBlob, partnerBlob) =>
    match oracle.ecdh s selfBlob partnerBlob with
    | (.error .noKey, s) => (.skipped, s)
    | (.error e, s) => (.failed e.text, s)
    | (.ok secret, s) =>
      match openWithSecret ssl part.pivBox secret with
      | .error e => (.failed s!"open_with_secret: {e.text}", s)
      | .ok pivBox => (.opened { part with pivBox }, s)

/-- What trying the parts of a config came to: the parts with the opened one in
place when there is one, and the last failure. -/
structure PartsOutcome where
  parts : List EboxPart
  anyOpened : Bool
  reason : Option String

/-- Tries the parts in turn until one opens. -/
def tryParts (oracle : EcdhOracle σ) (eks : List EphemeralKey) :
    List EboxPart → Option String → σ → PartsOutcome × σ
  | [], reason, s => (⟨[], false, reason⟩, s)
  | part :: parts, reason, s =>
    match tryPart ssl oracle eks part s with
    | (.opened part', s) => (⟨part' :: parts, true, reason⟩, s)
    | (.failed why, s) =>
      let (out, s) := tryParts oracle eks parts (some why) s
      (⟨part :: out.parts, out.anyOpened, out.reason⟩, s)
    | (.skipped, s) =>
      let (out, s) := tryParts oracle eks parts reason s
      (⟨part :: out.parts, out.anyOpened, out.reason⟩, s)

/-- Tries to unlock one config with one oracle; the ebox is returned as it is left. -/
def tryUnlockWithOracle (oracle : EcdhOracle σ) (ebox : Ebox) (configIdx : Nat) (s : σ) :
    Except Fault Unit × Ebox × σ :=
  match ebox.configs[configIdx]? with
  | none => (.error .panic, ebox, s)
  | some config =>
    let (out, s) := tryParts ssl oracle ebox.ephemeralKeys config.parts none s
    let ebox := { ebox with configs := ebox.configs.set configIdx { config with parts := out.parts } }
    if out.anyOpened then
      match ebox.unlock configIdx with
      | .ok ebox => (.ok (), ebox, s)
      | .error e => (.error e, ebox, s)
    else (.error (.error (.unlockFailed out.reason)), ebox, s)

/-- The reason kept for the final error: the last one an attempt gave. -/
def noteReason (reason : Option String) : Fault → Option String
  | .error (.unlockFailed (some r)) => some r
  | _ => reason

/-- One oracle's attempt at a config; a missing oracle makes none. -/
def attempt (oracle : Option (EcdhOracle σ)) (ebox : Ebox) (idx : Nat) (reason : Option String)
    (s : σ) : Except Fault Unit × Ebox × Option String × σ :=
  match oracle with
  | none => (.error (.error (.unlockFailed none)), ebox, reason, s)
  | some oracle =>
    match tryUnlockWithOracle ssl oracle ebox idx s with
    | (.ok (), ebox, s) => (.ok (), ebox, reason, s)
    | (.error e, ebox, s) => (.error e, ebox, noteReason reason e, s)

/-- Walks the config indices, agent before card. -/
def unlockLoop (agent : Option (EcdhOracle σ)) (card : Option (EcdhOracle τ)) :
    List Nat → Ebox → Option String → σ → τ → Except BoxError Unit × Ebox × σ × τ
  | [], ebox, reason, s, t => (.error (.unlockFailed reason), ebox, s, t)
  | idx :: rest, ebox, reason, s, t =>
    match attempt ssl agent ebox idx reason s with
    | (.ok (), ebox, _, s) => (.ok (), ebox, s, t)
    | (.error _, ebox, reason, s) =>
      match attempt ssl card ebox idx reason t with
      | (.ok (), ebox, _, t) => (.ok (), ebox, s, t)
      | (.error _, ebox, reason, t) => unlockLoop agent card rest ebox reason s t

/-- The indices of the PRIMARY configs. -/
def primaryIndices (ebox : Ebox) : List Nat :=
  (List.range ebox.configs.length).filter fun i =>
    ebox.configs[i]?.any fun c => c.configType = .primary

/-- Unlocks an ebox with an agent and a card oracle, either of which may be missing. -/
def unlockEbox (agent : Option (EcdhOracle σ)) (card : Option (EcdhOracle τ)) (ebox : Ebox) (s : σ)
    (t : τ) : Except BoxError Unit × Ebox × σ × τ :=
  let indices := primaryIndices ebox
  let reason :=
    if indices.isEmpty && ebox.configs.any fun c => c.configType = .recovery then
      some "ebox has only RECOVERY config(s), which piggy cannot unlock"
    else none
  unlockLoop ssl agent card indices ebox reason s t

end

/-! ## What unlocking leaves alone -/

/-- A part without the contents of its box. -/
def EboxPart.locked (p : EboxPart) : EboxPart :=
  { p with pivBox := { p.pivBox with plaintext := none } }

/-- A config without the contents of its boxes. -/
def EboxConfig.locked (c : EboxConfig) : EboxConfig :=
  { c with parts := c.parts.map EboxPart.locked }

/-- An ebox without its key and without the contents of its boxes. -/
def Ebox.locked (e : Ebox) : Ebox :=
  { e with configs := e.configs.map EboxConfig.locked, key := none }

private theorem writeEboxConfig_locked (version : UInt8) (w : WireWriter) (c : EboxConfig) :
    writeEboxConfig version w c.locked = writeEboxConfig version w c := by
  have hp : ∀ w p, writeEboxPart version w (EboxPart.locked p) = writeEboxPart version w p :=
    fun _ _ => rfl
  have hm : c.locked.m = c.m := by simp [EboxConfig.m, EboxConfig.locked]
  simp only [writeEboxConfig, hm]
  simp only [EboxConfig.locked, putMany_map hp]

/-- The serialization does not show whether an ebox is unlocked. -/
theorem Ebox.toBytes_locked (e : Ebox) : e.locked.toBytes = e.toBytes := by
  have hl : e.locked.configs.length = e.configs.length := by simp [Ebox.locked]
  simp only [Ebox.toBytes, hl]
  simp only [Ebox.locked, putMany_map (writeEboxConfig_locked _)]

section

variable {Scalar Point Rng : Type} (ssl : OpenSsl Scalar Point Rng) {σ τ : Type}

/-- A secret opens a box to its contents. -/
def OpensTo (b : PivBox) (secret plain : Bytes) : Prop :=
  b.iv.length = cipherIvLen ∧ ∃ padded,
    chacha20Poly1305Decrypt ssl (kdfSha512 ssl secret b.nonce) b.iv b.ciphertext = .ok padded ∧
    pkcs7Unpad padded 16 = .ok plain

variable {ssl} in
/-- Opening sets the contents and nothing else. -/
theorem openWithSecret_ok {b b' : PivBox} {secret : Bytes} :
    openWithSecret ssl b secret = .ok b' ↔
      ∃ plain, OpensTo ssl b secret plain ∧ b' = { b with plaintext := some plain } := by
  rw [openWithSecret, guard_ok, not_not]
  simp only [bind_ok, pure_ok]
  constructor
  · rintro ⟨hiv, padded, hdec, plain, hpad, rfl⟩
    exact ⟨plain, ⟨hiv, padded, hdec, hpad⟩, rfl⟩
  · rintro ⟨plain, ⟨hiv, padded, hdec, hpad⟩, rfl⟩
    exact ⟨hiv, padded, hdec, plain, hpad, rfl⟩

variable {ssl} in
/-- A part opens when the oracle's answer to its query opens its box. -/
theorem tryPart_opened {oracle : EcdhOracle σ} {eks : List EphemeralKey} {part part' : EboxPart}
    {s s' : σ} (h : tryPart ssl oracle eks part s = (.opened part', s')) :
    ∃ query secret plain, partQuery ssl eks part.pivBox = some query ∧
      (oracle.ecdh s query.1 query.2).1 = .ok secret ∧ OpensTo ssl part.pivBox secret plain ∧
      part' = { part with pivBox := { part.pivBox with plaintext := some plain } } := by
  unfold tryPart at h
  split at h
  · cases h
  · next selfBlob partnerBlob hq =>
    split at h
    · cases h
    · cases h
    · next secret s₁ ha =>
      split at h
      · cases h
      · next b hb =>
        cases h
        obtain ⟨plain, ho, rfl⟩ := openWithSecret_ok.mp hb
        exact ⟨(selfBlob, partnerBlob), secret, plain, hq, by rw [ha], ho, rfl⟩

variable {ssl} in
private theorem tryPart_locked {oracle : EcdhOracle σ} {eks : List EphemeralKey}
    {part part' : EboxPart} {s s' : σ}
    (h : tryPart ssl oracle eks part s = (.opened part', s')) : part'.locked = part.locked := by
  obtain ⟨-, -, plain, -, -, -, rfl⟩ := tryPart_opened h
  rfl

/-- Trying the parts changes contents only. -/
theorem tryParts_locked (oracle : EcdhOracle σ) (eks : List EphemeralKey) (parts : List EboxPart)
    (reason : Option String) (s : σ) :
    (tryParts ssl oracle eks parts reason s).1.parts.map EboxPart.locked =
      parts.map EboxPart.locked := by
  induction parts generalizing reason s with
  | nil => rfl
  | cons part parts ih =>
    unfold tryParts
    split
    · next part' s' h =>
      simp only [List.map_cons, tryPart_locked h]
    · simp only [List.map_cons, ih]
    · simp only [List.map_cons, ih]

private theorem takeKey_locked {parts parts' : List EboxPart} {data : Bytes}
    (h : takeKey parts = some (data, parts')) :
    parts'.map EboxPart.locked = parts.map EboxPart.locked := by
  induction parts generalizing parts' with
  | nil => cases h
  | cons part parts ih =>
    unfold takeKey at h
    split at h
    · cases h
      rfl
    · simp only [Option.map_eq_some_iff] at h
      obtain ⟨⟨data', parts''⟩, h, he⟩ := h
      cases he
      simp only [List.map_cons, ih h]

private theorem locked_set {e : Ebox} {i : Nat} {c : EboxConfig} {parts : List EboxPart}
    (key : Option Bytes) (hc : e.configs[i]? = some c)
    (hp : parts.map EboxPart.locked = c.parts.map EboxPart.locked) :
    ({ e with configs := e.configs.set i { c with parts }, key } : Ebox).locked = e.locked := by
  have hset : (e.configs.set i { c with parts }).map EboxConfig.locked =
      e.configs.map EboxConfig.locked := by
    obtain ⟨hi, rfl⟩ := List.getElem?_eq_some_iff.mp hc
    rw [List.map_set]
    have he : EboxConfig.locked { e.configs[i] with parts } = e.configs[i].locked := by
      simp only [EboxConfig.locked, hp]
    rw [he, ← List.getElem_map EboxConfig.locked]
    exact List.set_getElem_self (by simpa using hi)
  simp only [Ebox.locked, hset]

private theorem unlock_locked {e e' : Ebox} {i : Nat} (h : e.unlock i = .ok e') :
    e'.locked = e.locked := by
  unfold Ebox.unlock at h
  obtain ⟨-, h⟩ := guard_ok.mp h
  split at h
  · cases h
  · next c hc =>
    split at h
    · next data parts ht =>
      cases h
      exact locked_set _ hc (takeKey_locked ht)
    · cases h

private theorem tryUnlock_locked (oracle : EcdhOracle σ) (e : Ebox) (i : Nat) (s : σ) :
    (tryUnlockWithOracle ssl oracle e i s).2.1.locked = e.locked := by
  unfold tryUnlockWithOracle
  split
  · rfl
  · next c hc =>
    have hset := locked_set e.key hc
      (tryParts_locked ssl oracle e.ephemeralKeys c.parts none s)
    dsimp only
    split
    · split
      · next e' hu => exact (unlock_locked hu).trans hset
      · exact hset
    · exact hset

/-- An attempt at a config changes contents only. -/
theorem attempt_locked (oracle : Option (EcdhOracle σ)) (e : Ebox) (i : Nat)
    (reason : Option String) (s : σ) :
    (attempt ssl oracle e i reason s).2.1.locked = e.locked := by
  cases oracle with
  | none => rfl
  | some oracle =>
    have h := tryUnlock_locked ssl oracle e i s
    unfold attempt
    dsimp only
    split
    · next heq => rwa [heq] at h
    · next heq => rwa [heq] at h

private theorem unlockLoop_locked (agent : Option (EcdhOracle σ)) (card : Option (EcdhOracle τ))
    (indices : List Nat) (e : Ebox) (reason : Option String) (s : σ) (t : τ) :
    (unlockLoop ssl agent card indices e reason s t).2.1.locked = e.locked := by
  induction indices generalizing e reason s t with
  | nil => rfl
  | cons i indices ih =>
    have ha := attempt_locked ssl agent e i reason s
    unfold unlockLoop
    split
    · next e₁ _ s₁ h₁ => rwa [h₁] at ha
    · next e₁ r₁ s₁ h₁ =>
      rw [h₁] at ha
      have hb := attempt_locked ssl card e₁ i r₁ t
      split
      · next h₂ =>
        rw [h₂] at hb
        exact hb.trans ha
      · next h₂ =>
        rw [h₂] at hb
        exact (ih _ _ _ _).trans (hb.trans ha)

/-- Unlocking changes the key and the contents of boxes only. -/
theorem unlockEbox_locked (agent : Option (EcdhOracle σ)) (card : Option (EcdhOracle τ))
    (e : Ebox) (s : σ) (t : τ) : (unlockEbox ssl agent card e s t).2.1.locked = e.locked :=
  unlockLoop_locked ssl _ _ _ _ _ _ _

/-- Unlocking does not change what an ebox serializes to. -/
theorem unlockEbox_toBytes (agent : Option (EcdhOracle σ)) (card : Option (EcdhOracle τ))
    (e : Ebox) (s : σ) (t : τ) :
    (unlockEbox ssl agent card e s t).2.1.toBytes = e.toBytes := by
  rw [← Ebox.toBytes_locked, unlockEbox_locked, Ebox.toBytes_locked]

end

end Piggy.Box
