import Piggy.Batch.DecryptOne
import Piggy.Box.Opening

/-!
# The two decryptors

A batch decrypts an ebox with `decryptOne`, the single commands with
`Decryptor.decrypt`. Both unlock the same way and walk the frames the same way. They
part where the batch asks the first PRIMARY config alone for the curve of its card, and
where a header is serialized to more bytes than it was read from.
-/

namespace Piggy.Batch

open Piggy.Core Piggy.Box

section

variable {Scalar Point Rng : Type} {ssl : OpenSsl Scalar Point Rng}

/-! ## The frames -/

/-- The failure of the loop over the frames, as a batch reports it. -/
def asBatchFault : DecryptFault → BatchFault
  | .message text => .error { diagnostic := { kind := .decryptFailed, message := text } }
  | .panic => .panic

private theorem sliceBetween_eq {data : Bytes} {lo hi : Nat} (h : lo ≤ hi)
    (hlen : hi ≤ data.length) : sliceBetween data lo hi = .ok ((data.take hi).drop lo) :=
  if_pos ⟨h, hlen⟩

/-- The walk of a batch is the loop of the other decryptor: no slice is out of range. -/
theorem walkFrames_eq (stream : EboxStream) (turns : Nat) (expected : UInt32) (data : Bytes) :
    walkFrames ssl stream turns expected data =
      (decryptFrames ssl stream turns expected data).mapError asBatchFault := by
  induction turns generalizing expected data with
  | zero => rfl
  | succ turns ih =>
    rw [walkFrames, decryptFrames]
    by_cases hempty : data.isEmpty
    · rw [if_pos hempty, if_pos hempty]
      rfl
    by_cases hshort : data.length < 8
    · rw [if_neg hempty, if_neg hempty, if_pos hshort, if_pos hshort]
      rfl
    rw [if_neg hempty, if_neg hempty, if_neg hshort, if_neg hshort,
      sliceBetween_eq (by decide : 4 ≤ 8) (by omega), ok_bind,
      show (data.take 8).drop 4 = (data.drop 4).take 4 from List.drop_take]
    dsimp only
    by_cases hwhole : data.length < 4 + 4 + ofBe ((data.drop 4).take 4)
    · rw [if_pos hwhole, if_pos hwhole]
      rfl
    rw [if_neg hwhole, if_neg hwhole, sliceBetween_eq (Nat.zero_le _) (by omega), ok_bind,
      sliceBetween_eq (by omega) (Nat.le_refl _), List.take_length, List.drop_zero]
    rcases stream.decryptChunk ssl (some expected)
      (data.take (4 + 4 + ofBe ((data.drop 4).take 4))) with e | ⟨seqnr, plain⟩
    · rfl
    · simp only [ok_bind, withLabel, ih]
      rcases decryptFrames ssl stream turns (expected + 1) _ with e | out <;> rfl

/-- The loop over the frames has no slice that is out of range either. -/
theorem decryptFrames_ne_panic (stream : EboxStream) (turns : Nat) (expected : UInt32)
    (data : Bytes) : decryptFrames ssl stream turns expected data ≠ .error .panic := by
  induction turns generalizing expected data with
  | zero => exact fun h => nomatch h
  | succ turns ih =>
    intro h
    rw [decryptFrames] at h
    split at h
    · cases h
    split at h
    · cases h
    dsimp only at h
    split at h
    · cases h
    rcases hc : stream.decryptChunk ssl (some expected)
      (data.take (4 + 4 + ofBe ((data.drop 4).take 4))) with e | ⟨seqnr, plain⟩
    · rw [hc] at h
      cases h
    · rw [hc] at h
      simp only [ok_bind, withLabel] at h
      rcases hd : decryptFrames ssl stream turns (expected + 1)
        (data.drop (4 + 4 + ofBe ((data.drop 4).take 4))) with e | out
      · rw [hd] at h
        cases h
        exact ih _ _ hd
      · rw [hd] at h
        cases h

/-! ## Behind the header -/

/-- What the other decryptor does once the ebox is unlocked. -/
private def decryptRest (ssl : OpenSsl Scalar Point Rng) (stream : EboxStream) (input : Bytes) :
    Except DecryptFault Bytes := do
  let headerBytes ← withLabel "" stream.toBytes
  let chunkData ← sliceFrom input headerBytes.length
  decryptFrames ssl stream chunkData.length 0 chunkData

private theorem decryptBody_ne_panic (stream : EboxStream) (bytes : Bytes) :
    decryptBody ssl stream bytes ≠ .error .panic := by
  unfold decryptBody
  rcases stream.toBytes with e | header
  · exact fun h => nomatch h
  dsimp only
  by_cases hlen : bytes.length < header.length
  · rw [if_pos hlen]
    exact fun h => nomatch h
  rw [if_neg hlen, sliceBetween_eq (by omega) (Nat.le_refl _), ok_bind, walkFrames_eq]
  have hpanic : ∀ turns expected data,
      decryptFrames ssl stream turns expected data ≠ .error .panic := decryptFrames_ne_panic stream
  rcases hd : decryptFrames ssl stream _ 0 ((bytes.take bytes.length).drop header.length) with
    (text | _) | out
  · exact fun h => nomatch h
  · exact absurd hd (hpanic _ _ _)
  · exact fun h => nomatch h

private theorem decryptRest_panic {stream : EboxStream} {bytes : Bytes} :
    decryptRest ssl stream bytes = .error .panic ↔
      ∃ header, stream.toBytes = .ok header ∧ bytes.length < header.length := by
  unfold decryptRest
  rcases stream.toBytes with e | header
  · simp [withLabel, bind, Except.bind]
  · by_cases hlen : bytes.length < header.length
    · simp [withLabel, sliceFrom, hlen, bind, Except.bind]
    · simp [withLabel, ok_bind, sliceFrom, hlen, decryptFrames_ne_panic]

/-- Both decryptors return the same plaintext, if any. -/
private theorem decryptBody_ok {stream : EboxStream} {bytes p : Bytes} :
    decryptBody ssl stream bytes = .ok p ↔ decryptRest ssl stream bytes = .ok p := by
  unfold decryptBody decryptRest
  rcases stream.toBytes with e | header
  · simp [withLabel, failWith, bind, Except.bind]
  by_cases hlen : bytes.length < header.length
  · simp [withLabel, failWith, sliceFrom, hlen, bind, Except.bind]
  · simp only [if_neg hlen, sliceBetween_eq (by omega : header.length ≤ bytes.length)
      (Nat.le_refl _), ok_bind, walkFrames_eq, withLabel, sliceFrom, List.take_length]
    rw [mapError_ok]

/-- There is a plaintext exactly when the frames verify under the key. -/
private theorem exists_decryptRest_ok (stream : EboxStream) {e : Ebox} {key bytes : Bytes}
    (hk : e.key = some key) :
    (∃ p, decryptRest ssl { stream with ebox := e } bytes = .ok p) ↔
      ∃ header, EboxStream.toBytes { stream with ebox := e } = .ok header ∧
        header.length ≤ bytes.length ∧ FramesUnder ssl key 0 (bytes.drop header.length) := by
  unfold decryptRest
  rcases EboxStream.toBytes { stream with ebox := e } with err | header
  · simp [withLabel, bind, Except.bind]
  by_cases hlen : bytes.length < header.length
  · simp [withLabel, sliceFrom, hlen, bind, Except.bind]
  · simp only [withLabel, ok_bind, sliceFrom, if_neg hlen]
    rw [exists_decryptFrames_ok hk (Nat.le_refl _)]
    simp [Nat.le_of_not_lt hlen]

/-! ## The keys an oracle can give -/

/-- A key that some secret opens a part of a PRIMARY config on a curve to; the part has
the keys its query needs. -/
def PrimaryKey (ssl : OpenSsl Scalar Point Rng) (e : Ebox) (curve : EcCurve) (key : Bytes) :
    Prop :=
  ∃ c ∈ e.configs, c.configType = .primary ∧ ∃ part ∈ c.parts, part.pivBox.curve = curve ∧
    (∃ query, partQuery ssl e.ephemeralKeys part.pivBox = some query) ∧
    ∃ secret, OpensTo ssl part.pivBox secret key

/-- An oracle that gives secrets for the key of one slot only. -/
def Serves {σ : Type} (oracle : EcdhOracle σ) (curve : EcCurve) (point : Bytes) : Prop :=
  ∀ s selfBlob partnerBlob secret, (oracle.ecdh s selfBlob partnerBlob).1 = .ok secret →
    selfBlob = ecPointToSshPubkeyBlob curve point

/-- The blob of a point starts with the key type of its curve. -/
private theorem curve_of_blob {c c' : EcCurve} {p p' : Bytes}
    (h : ecPointToSshPubkeyBlob c p = ecPointToSshPubkeyBlob c' p') : c = c' := by
  have hsplit : ∀ (c : EcCurve) (p : Bytes), ∃ rest, ecPointToSshPubkeyBlob c p =
      putString [] (strBytes c.sshKeytype) ++ rest := by
    intro c p
    simp only [ecPointToSshPubkeyBlob, putString, putRaw, putU32, List.append_assoc]
    exact ⟨_, rfl⟩
  have hlen : (putString [] (strBytes c.sshKeytype)).length =
      (putString [] (strBytes c'.sshKeytype)).length := by
    cases c <;> cases c' <;> rfl
  obtain ⟨rest, hc⟩ := hsplit c p
  obtain ⟨rest', hc'⟩ := hsplit c' p'
  rw [hc, hc'] at h
  have hkeytype := (List.append_inj h hlen).1
  revert hkeytype
  cases c <;> cases c' <;> decide

/-- The query of a part names its recipient key on the curve of the part. -/
private theorem partQuery_self {eks : List EphemeralKey} {b : PivBox} {query : Bytes × Bytes}
    (h : partQuery ssl eks b = some query) :
    ∃ point, query.1 = ecPointToSshPubkeyBlob b.curve point := by
  unfold partQuery at h
  dsimp only at h
  split at h
  · cases h
  split at h
  · cases h
  next self _ =>
  split at h
  · cases h
  cases h
  exact ⟨self, rfl⟩

section

variable {σ τ : Type}

/-- The keys an oracle may unlock an ebox to. -/
private def GivenBy (ssl : OpenSsl Scalar Point Rng) (oracle : EcdhOracle σ) (e : Ebox)
    (key : Bytes) : Prop :=
  ∃ c ∈ e.configs, c.configType = .primary ∧ ∃ part ∈ c.parts, ∃ s query secret,
    partQuery ssl e.ephemeralKeys part.pivBox = some query ∧
    (oracle.ecdh s query.1 query.2).1 = .ok secret ∧ OpensTo ssl part.pivBox secret key

private theorem GivenBy.primaryKey {oracle : EcdhOracle σ} {e : Ebox} {key : Bytes}
    (h : GivenBy ssl oracle e key) : ∃ curve, PrimaryKey ssl e curve key := by
  obtain ⟨c, hc, hty, part, hp, s, query, secret, hq, -, ho⟩ := h
  exact ⟨part.pivBox.curve, c, hc, hty, part, hp, rfl, ⟨query, hq⟩, secret, ho⟩

/-- An oracle of one slot gives keys of parts on the curve of the slot. -/
private theorem GivenBy.primaryKey_of_serves {oracle : EcdhOracle σ} {e : Ebox} {key : Bytes}
    (h : GivenBy ssl oracle e key) {curve : EcCurve} {point : Bytes}
    (hserves : Serves oracle curve point) : PrimaryKey ssl e curve key := by
  obtain ⟨c, hc, hty, part, hp, s, query, secret, hq, ha, ho⟩ := h
  obtain ⟨self, hself⟩ := partQuery_self hq
  have hblob := hserves _ _ _ _ ha
  rw [hself] at hblob
  exact ⟨c, hc, hty, part, hp, curve_of_blob hblob, ⟨query, hq⟩, secret, ho⟩

/-- The parts of an ebox, closed as they are after reading. -/
private def Closed (e : Ebox) : Prop :=
  e.key = none ∧ ∀ c ∈ e.configs, ∀ part ∈ c.parts, part.pivBox.plaintext = none

/-- Unlocking fails, or gives a key one of the oracles may give. -/
private theorem unlockEbox_given {agent : Option (EcdhOracle σ)} {card : Option (EcdhOracle τ)}
    {e e' : Ebox} (hclosed : Closed e) {s s' : σ} {t t' : τ}
    (h : unlockEbox ssl agent card e s t = (.ok (), e', s', t')) :
    ∃ key, e'.key = some key ∧
      ((∃ o ∈ agent, GivenBy ssl o e key) ∨ ∃ o ∈ card, GivenBy ssl o e key) := by
  have hwithin : ∀ c ∈ e.configs, c.configType = .primary →
      ConfigOpensWithin ssl agent card e.ephemeralKeys
        (fun key => (∃ o ∈ agent, GivenBy ssl o e key) ∨ ∃ o ∈ card, GivenBy ssl o e key) c := by
    intro c hc hty part hp
    constructor
    · intro o ho
      refine ⟨hclosed.2 c hc part hp, ?_⟩
      intro s part' s' hopened
      obtain ⟨query, secret, plain, hq, ha, hopens, rfl⟩ := tryPart_opened hopened
      exact ⟨plain, .inl ⟨o, ho, c, hc, hty, part, hp, s, query, secret, hq, ha, hopens⟩, rfl⟩
    · intro o ho
      refine ⟨hclosed.2 c hc part hp, ?_⟩
      intro s part' s' hopened
      obtain ⟨query, secret, plain, hq, ha, hopens, rfl⟩ := tryPart_opened hopened
      exact ⟨plain, .inr ⟨o, ho, c, hc, hty, part, hp, s, query, secret, hq, ha, hopens⟩, rfl⟩
  rcases unlockEbox_within hclosed.1 hwithin s t with ⟨⟨_, _, _, hfail⟩, -⟩ | hdone
  · rw [hfail] at h
    cases h
  · obtain ⟨e'', s'', t'', key, hok, hkind, hkey⟩ := hdone
    rw [hok] at h
    cases h
    exact ⟨key, hkey, hkind⟩

end

/-! ## An oracle that refuses for a while -/

/-- An oracle of one key that gives a secret after it has refused a number of times. -/
def refusing (blob secret : Bytes) : EcdhOracle Nat where
  ecdh n selfBlob _ :=
    if selfBlob = blob then
      match n with
      | 0 => (.ok secret, 0)
      | n + 1 => (.error .noKey, n)
    else (.error .noKey, n)

theorem refusing_serves (curve : EcCurve) (point secret : Bytes) :
    Serves (refusing (ecPointToSshPubkeyBlob curve point) secret) curve point := by
  intro n selfBlob partnerBlob answer h
  simp only [refusing] at h
  split at h
  · assumption
  · cases h

section

variable {blob secret : Bytes} {eks : List EphemeralKey}

variable (ssl blob secret eks) in
/-- Every part is refused from a suitable state on. -/
private theorem tryPart_refused (part : EboxPart) (m : Nat) :
    ∃ n, tryPart ssl (refusing blob secret) eks part n = (.skipped, m) := by
  unfold tryPart
  rcases partQuery ssl eks part.pivBox with _ | ⟨self, partner⟩
  · exact ⟨m, rfl⟩
  · by_cases hself : self = blob
    · exact ⟨m + 1, by simp only [refusing, if_pos hself]⟩
    · exact ⟨m, by simp only [refusing, if_neg hself]⟩

variable (ssl blob secret eks) in
private theorem tryParts_refused (parts : List EboxPart) (reason : Option String) (m : Nat) :
    ∃ n, tryParts ssl (refusing blob secret) eks parts reason n = (⟨parts, false, reason⟩, m) := by
  induction parts with
  | nil => exact ⟨m, rfl⟩
  | cons part parts ih =>
    obtain ⟨n, hrest⟩ := ih
    obtain ⟨n', hpart⟩ := tryPart_refused ssl blob secret eks part n
    exact ⟨n', by simp only [tryParts, hpart, hrest]⟩

/-- A part the secret opens is opened when the parts before it have been refused. -/
private theorem tryParts_reach {parts : List EboxPart}
    (hclosed : ∀ part ∈ parts, part.pivBox.plaintext = none) {part : EboxPart}
    (hp : part ∈ parts) {partner key : Bytes}
    (hq : partQuery ssl eks part.pivBox = some (blob, partner))
    (ho : OpensTo ssl part.pivBox secret key) (reason : Option String) :
    ∃ n out n' parts', tryParts ssl (refusing blob secret) eks parts reason n = (out, n') ∧
      out.anyOpened = true ∧ takeKey out.parts = some (key, parts') := by
  induction parts with
  | nil => simp at hp
  | cons first parts ih =>
    rcases List.mem_cons.mp hp with rfl | hp
    · have hopen := openWithSecret_ok.mpr ⟨key, ho, rfl⟩
      have htry : tryPart ssl (refusing blob secret) eks part 0 =
          (.opened { part with pivBox := { part.pivBox with plaintext := some key } }, 0) := by
        simp only [tryPart, hq, refusing, if_true, hopen]
      refine ⟨0, ?_⟩
      simp only [tryParts, htry]
      exact ⟨_, _, _, rfl, rfl, rfl⟩
    · obtain ⟨n, out, n', parts', hrest, hany, htake⟩ :=
        ih (fun q hq => hclosed q (by simp [hq])) hp
      obtain ⟨k, hfirst⟩ := tryPart_refused ssl blob secret eks first n
      refine ⟨k, ?_⟩
      simp only [tryParts, hfirst, hrest]
      refine ⟨_, _, first :: parts', rfl, hany, ?_⟩
      simp [takeKey, hclosed first (by simp), htake]

variable (ssl blob secret) in
private theorem attempt_refused {e : Ebox} {i : Nat} (hi : i < e.configs.length)
    (reason : Option String) (m : Nat) :
    ∃ n, attempt ssl (some (refusing blob secret)) e i reason n =
      (.error (.error (.unlockFailed none)), e, reason, m) := by
  obtain ⟨n, hparts⟩ := tryParts_refused ssl blob secret e.ephemeralKeys e.configs[i].parts none m
  refine ⟨n, ?_⟩
  have hsame : e.configs.set i { e.configs[i] with parts := e.configs[i].parts } = e.configs :=
    List.set_getElem_self hi
  simp only [attempt, tryUnlockWithOracle, List.getElem?_eq_getElem hi, hparts,
    Bool.false_eq_true, if_false, hsame]
  rfl

private theorem attempt_reach {e : Ebox} (hclosed : Closed e) {i : Nat} {c : EboxConfig}
    (hc : e.configs[i]? = some c) {part : EboxPart} (hp : part ∈ c.parts) {partner key : Bytes}
    (hq : partQuery ssl e.ephemeralKeys part.pivBox = some (blob, partner))
    (ho : OpensTo ssl part.pivBox secret key) (reason : Option String) :
    ∃ n e' reason' n', attempt ssl (some (refusing blob secret)) e i reason n =
      (.ok (), e', reason', n') ∧ e'.key = some key := by
  obtain ⟨hi, -⟩ := List.getElem?_eq_some_iff.mp hc
  obtain ⟨n, out, n', parts', hparts, hany, htake⟩ :=
    tryParts_reach (hclosed.2 c (List.mem_of_getElem? hc)) hp hq ho none
  refine ⟨n, ?_⟩
  simp only [attempt, tryUnlockWithOracle, hc, hparts, hany, if_true, Ebox.unlock, hclosed.1,
    Option.isSome_none, Bool.false_eq_true, if_false, List.getElem?_set_self hi, htake]
  exact ⟨_, _, _, rfl, rfl⟩

private theorem attempt_none {σ : Type} (e : Ebox) (i : Nat) (reason : Option String) (s : σ) :
    attempt ssl none e i reason s = (.error (.error (.unlockFailed none)), e, reason, s) :=
  rfl

/-- The walk over the configs reaches any of them. -/
private theorem unlockLoop_reach {e : Ebox} (hclosed : Closed e) {indices : List Nat}
    (hex : ∀ i ∈ indices, i < e.configs.length) {i : Nat} (hi : i ∈ indices) {c : EboxConfig}
    (hc : e.configs[i]? = some c) {part : EboxPart} (hp : part ∈ c.parts) {partner key : Bytes}
    (hq : partQuery ssl e.ephemeralKeys part.pivBox = some (blob, partner))
    (ho : OpensTo ssl part.pivBox secret key) (reason : Option String) :
    ∃ n e' n', unlockLoop ssl (none : Option (EcdhOracle Unit)) (some (refusing blob secret))
      indices e reason () n = (.ok (), e', (), n') ∧ e'.key = some key := by
  induction indices generalizing reason with
  | nil => simp at hi
  | cons j indices ih =>
    by_cases hij : i = j
    · subst hij
      obtain ⟨n, e', reason', n', hatt, hkey⟩ := attempt_reach hclosed hc hp hq ho reason
      refine ⟨n, e', n', ?_, hkey⟩
      simp only [unlockLoop, attempt_none, hatt]
    · have hmem : i ∈ indices := by
        rcases List.mem_cons.mp hi with h | h
        · exact absurd h hij
        · exact h
      obtain ⟨n, e', n', hrest, hkey⟩ := ih (fun k hk => hex k (by simp [hk])) hmem reason
      obtain ⟨k, hrefused⟩ := attempt_refused ssl blob secret (hex j (by simp)) reason n
      refine ⟨k, e', n', ?_, hkey⟩
      simp only [unlockLoop, attempt_none, hrefused, hrest]

/-- Every key of a PRIMARY part is given by an oracle of the slot the part is sealed to. -/
private theorem PrimaryKey.exists_unlock {e : Ebox} (hclosed : Closed e) {curve : EcCurve}
    {key : Bytes} (h : PrimaryKey ssl e curve key) :
    ∃ point secret n e' n',
      unlockEbox ssl (none : Option (EcdhOracle Unit))
        (some (refusing (ecPointToSshPubkeyBlob curve point) secret)) e () n =
          (.ok (), e', (), n') ∧ e'.key = some key := by
  obtain ⟨c, hc, hty, part, hp, rfl, ⟨⟨self, partner⟩, hq⟩, secret, ho⟩ := h
  obtain ⟨point, rfl⟩ := partQuery_self hq
  obtain ⟨i, hi, rfl⟩ := List.getElem_of_mem hc
  have hmem : ∀ j ∈ primaryIndices e, j < e.configs.length := by
    intro j hj
    simpa using (List.mem_filter.mp hj).1
  obtain ⟨n, e', n', hloop, hkey⟩ := unlockLoop_reach hclosed hmem
    (by simp [primaryIndices, hi, hty]) (List.getElem?_eq_getElem hi) hp hq ho
    (if (primaryIndices e).isEmpty && e.configs.any fun c => c.configType = .recovery then
      some "ebox has only RECOVERY config(s), which piggy cannot unlock"
    else none)
  exact ⟨point, secret, n, e', n', hloop, hkey⟩

end

/-! ## Agreement -/

section

variable {σ τ : Type}

private theorem decrypt_of_parse {bytes : Bytes} {stream : EboxStream}
    (hparse : EboxStream.fromBytes bytes = .ok stream) (agent : Option (EcdhOracle σ))
    (card : Option (EcdhOracle τ)) (s : σ) (t : τ) :
    (∃ text, (Decryptor.decrypt ssl agent card s t bytes).1 = .error (.message text)) ∧
        (∀ e' s' t', unlockEbox ssl agent card stream.ebox s t ≠ (.ok (), e', s', t')) ∨
      ∃ e' s' t', unlockEbox ssl agent card stream.ebox s t = (.ok (), e', s', t') ∧
        (Decryptor.decrypt ssl agent card s t bytes).1 =
          decryptRest ssl { stream with ebox := e' } bytes := by
  simp only [Decryptor.decrypt, hparse]
  rcases unlockEbox ssl agent card stream.ebox s t with ⟨e | ⟨⟩, e', s', t'⟩
  · exact .inl ⟨⟨_, rfl⟩, by simp⟩
  · exact .inr ⟨e', s', t', rfl, rfl⟩

private theorem decryptOne_card_ok {stream : EboxStream} {bytes p : Bytes} {card : CardOracle σ}
    {agent : Option (EcdhOracle τ)} {s : σ} {t : τ} :
    (decryptOne ssl stream bytes (some card) agent s t).1 = .ok p ↔
      checkCurveMismatch stream card.targetCurve = none ∧
        ∃ e' s', unlockEbox ssl (none : Option (EcdhOracle Unit)) (some card.toEcdhOracle)
          stream.ebox () s = (.ok (), e', (), s') ∧
            decryptBody ssl { stream with ebox := e' } bytes = .ok p := by
  rw [decryptOne]
  rcases checkCurveMismatch stream card.targetCurve with _ | mismatch
  · dsimp only
    rcases unlockEbox ssl (none : Option (EcdhOracle Unit)) (some card.toEcdhOracle) stream.ebox () s
      with ⟨e | ⟨⟩, e', ⟨⟩, s'⟩
    · dsimp only
      rcases card.takeFailure s' with ⟨_ | failure, s''⟩ <;> simp [failWith]
    · simp
  · simp [failWith]

private theorem decryptOne_agent_ok {stream : EboxStream} {bytes p : Bytes}
    {agent : EcdhOracle τ} {s : σ} {t : τ} :
    (decryptOne ssl stream bytes (none : Option (CardOracle σ)) (some agent) s t).1 = .ok p ↔
      ∃ e' t', unlockEbox ssl (some agent) (none : Option (EcdhOracle Unit)) stream.ebox t () =
        (.ok (), e', t', ()) ∧ decryptBody ssl { stream with ebox := e' } bytes = .ok p := by
  rw [decryptOne]
  rcases unlockEbox ssl (some agent) (none : Option (EcdhOracle Unit)) stream.ebox t ()
    with ⟨e | ⟨⟩, e', t', ⟨⟩⟩
  · simp [failWith]
  · simp

/-- No slice of a batch is out of range. -/
theorem decryptOne_ne_panic (stream : EboxStream) (bytes : Bytes) (card : Option (CardOracle σ))
    (agent : Option (EcdhOracle τ)) (s : σ) (t : τ) :
    (decryptOne ssl stream bytes card agent s t).1 ≠ .error .panic := by
  rcases card with _ | card
  · rcases agent with _ | agent
    · exact fun h => nomatch h
    · rw [decryptOne]
      rcases unlockEbox ssl (some agent) (none : Option (EcdhOracle Unit)) stream.ebox t ()
        with ⟨e | ⟨⟩, e', t', ⟨⟩⟩
      · exact fun h => nomatch h
      · exact decryptBody_ne_panic _ _
  · rw [decryptOne]
    rcases checkCurveMismatch stream card.targetCurve with _ | mismatch
    · dsimp only
      rcases unlockEbox ssl (none : Option (EcdhOracle Unit)) (some card.toEcdhOracle) stream.ebox ()
        s with ⟨e | ⟨⟩, e', ⟨⟩, s'⟩
      · dsimp only
        rcases card.takeFailure s' with ⟨_ | failure, s''⟩ <;> exact fun h => nomatch h
      · exact decryptBody_ne_panic _ _
    · exact fun h => nomatch h

/-- The two decryptors agree on bytes with an oracle in the same place, and neither of
them panics. -/
structure AgreesOn (ssl : OpenSsl Scalar Point Rng) (bytes : Bytes) (oracle : EcdhOracle σ)
    (s : σ) : Prop where
  /-- As the card, with the curve of the one slot it serves. -/
  asCard : ∀ stream (card : CardOracle σ) point, EboxStream.fromBytes bytes = .ok stream →
    card.toEcdhOracle = oracle → Serves oracle card.targetCurve point → ∀ p,
      ((decryptOne ssl stream bytes (some card) (none : Option (EcdhOracle Unit)) s ()).1 = .ok p ↔
        (Decryptor.decrypt ssl (none : Option (EcdhOracle Unit)) (some oracle) () s bytes).1 =
          .ok p)
  /-- As the agent. -/
  asAgent : ∀ stream, EboxStream.fromBytes bytes = .ok stream → ∀ p,
    ((decryptOne ssl stream bytes (none : Option (CardOracle Unit)) (some oracle) () s).1 = .ok p ↔
      (Decryptor.decrypt ssl (some oracle) (none : Option (EcdhOracle Unit)) s () bytes).1 = .ok p)
  /-- A batch does not panic. -/
  batchRuns : ∀ stream, EboxStream.fromBytes bytes = .ok stream →
    (∀ card : CardOracle σ,
      (decryptOne ssl stream bytes (some card) (none : Option (EcdhOracle Unit)) s ()).1 ≠
        .error .panic) ∧
    (decryptOne ssl stream bytes (none : Option (CardOracle Unit)) (some oracle) () s).1 ≠
      .error .panic
  /-- The other decryptor does not panic. -/
  decryptorRuns :
    (Decryptor.decrypt ssl (none : Option (EcdhOracle Unit)) (some oracle) () s bytes).1 ≠
      .error .panic ∧
    (Decryptor.decrypt ssl (some oracle) (none : Option (EcdhOracle Unit)) s () bytes).1 ≠
      .error .panic

end

/-- The two decryptors agree on bytes with every oracle. -/
def DecryptorsAgree (ssl : OpenSsl Scalar Point Rng) (bytes : Bytes) : Prop :=
  ∀ (σ : Type) (oracle : EcdhOracle σ) (s : σ), AgreesOn ssl bytes oracle s

private theorem closed_of_parse {bytes : Bytes} {stream : EboxStream}
    (h : EboxStream.fromBytes bytes = .ok stream) : Closed stream.ebox := by
  simp only [EboxStream.fromBytes, EboxStream.readFrom, bind_ok, pure_ok] at h
  obtain ⟨⟨_, _⟩, ⟨⟨ebox, r⟩, hebox, _, -, _, -, _, -, hpair⟩, rfl⟩ := h
  cases hpair
  have hread : Ebox.fromBytes bytes = .ok ebox := by
    simp only [Ebox.fromBytes, bind_ok, pure_ok]
    exact ⟨_, hebox, rfl⟩
  exact Ebox.fromBytes_locked hread

section

variable {σ τ : Type}

private theorem toBytes_unlocked {stream : EboxStream} {agent : Option (EcdhOracle σ)}
    {card : Option (EcdhOracle τ)} {s s' : σ} {t t' : τ} {e' : Ebox}
    (h : unlockEbox ssl agent card stream.ebox s t = (.ok (), e', s', t')) :
    EboxStream.toBytes { stream with ebox := e' } = stream.toBytes := by
  have hbytes := unlockEbox_toBytes ssl agent card stream.ebox s t
  rw [h] at hbytes
  simp only [EboxStream.toBytes, hbytes]

/-- Where no header outgrows its input, the other decryptor does not panic. -/
private theorem decrypt_ne_panic {bytes : Bytes}
    (hlong : ∀ stream header, EboxStream.fromBytes bytes = .ok stream →
      stream.toBytes = .ok header → ∀ curve key, PrimaryKey ssl stream.ebox curve key →
        header.length ≤ bytes.length) (agent : Option (EcdhOracle σ))
    (card : Option (EcdhOracle τ)) (s : σ) (t : τ) :
    (Decryptor.decrypt ssl agent card s t bytes).1 ≠ .error .panic := by
  intro hpanic
  rcases hparse : EboxStream.fromBytes bytes with e | stream
  · simp [Decryptor.decrypt, hparse] at hpanic
  rcases decrypt_of_parse hparse agent card s t with ⟨⟨text, htext⟩, -⟩ | ⟨e', s', t', hunlock, hrest⟩
  · rw [htext] at hpanic
    cases hpanic
  · rw [hrest] at hpanic
    obtain ⟨header, hheader, hshort⟩ := decryptRest_panic.mp hpanic
    rw [toBytes_unlocked hunlock] at hheader
    obtain ⟨key, -, ⟨o, -, hgiven⟩ | ⟨o, -, hgiven⟩⟩ :=
      unlockEbox_given (closed_of_parse hparse) hunlock
    · obtain ⟨curve, hkey⟩ := hgiven.primaryKey
      exact Nat.not_lt.mpr (hlong stream header hparse hheader curve key hkey) hshort
    · obtain ⟨curve, hkey⟩ := hgiven.primaryKey
      exact Nat.not_lt.mpr (hlong stream header hparse hheader curve key hkey) hshort

private theorem decrypt_ok_iff {bytes p : Bytes} {stream : EboxStream}
    (hparse : EboxStream.fromBytes bytes = .ok stream) {agent : Option (EcdhOracle σ)}
    {card : Option (EcdhOracle τ)} {s : σ} {t : τ} :
    (Decryptor.decrypt ssl agent card s t bytes).1 = .ok p ↔
      ∃ e' s' t', unlockEbox ssl agent card stream.ebox s t = (.ok (), e', s', t') ∧
        decryptBody ssl { stream with ebox := e' } bytes = .ok p := by
  rcases decrypt_of_parse hparse agent card s t with
    ⟨⟨text, htext⟩, hno⟩ | ⟨e', s', t', hunlock, hrest⟩
  · rw [htext]
    constructor
    · exact fun h => nomatch h
    · rintro ⟨e', s', t', hunlock, -⟩
      exact absurd hunlock (hno e' s' t')
  · rw [hrest, ← decryptBody_ok]
    constructor
    · exact fun h => ⟨e', s', t', hunlock, h⟩
    · rintro ⟨e'', s'', t'', hunlock', h⟩
      rw [hunlock] at hunlock'
      cases hunlock'
      exact h

end

/-- The decryptors agree on bytes exactly when every key that opens a PRIMARY part finds a
header no longer than the input and, where the frames verify under it, a part on its curve in
the first PRIMARY config, or none at all there. -/
theorem decryptorsAgree_iff (ssl : OpenSsl Scalar Point Rng) (bytes : Bytes) :
    DecryptorsAgree ssl bytes ↔
      ∀ stream header, EboxStream.fromBytes bytes = .ok stream → stream.toBytes = .ok header →
        ∀ curve key, PrimaryKey ssl stream.ebox curve key →
          header.length ≤ bytes.length ∧
            (FramesUnder ssl key 0 (bytes.drop header.length) →
              checkCurveMismatch stream curve = none) := by
  constructor
  · intro hagree stream header hparse hheader curve key hkey
    obtain ⟨point, secret, n, e', n', hunlock, hek⟩ := hkey.exists_unlock (closed_of_parse hparse)
    have hon := hagree Nat (refusing (ecPointToSshPubkeyBlob curve point) secret) n
    have hsame := toBytes_unlocked hunlock
    have hlen : header.length ≤ bytes.length := by
      by_contra hshort
      apply hon.decryptorRuns.1
      rcases decrypt_of_parse hparse (none : Option (EcdhOracle Unit)) _ () n with
        ⟨-, hno⟩ | ⟨e'', _, n'', hunlock', hrest⟩
      · exact absurd hunlock (hno _ _ _)
      · rw [hrest, decryptRest_panic, toBytes_unlocked hunlock']
        exact ⟨header, hheader, by omega⟩
    refine ⟨hlen, ?_⟩
    intro hframes
    obtain ⟨p, hp⟩ := (exists_decryptRest_ok stream hek).mpr
      ⟨header, by rw [hsame, hheader], hlen, hframes⟩
    have hother := (decrypt_ok_iff hparse).mpr ⟨e', (), n', hunlock, decryptBody_ok.mpr hp⟩
    have hbatch := (hon.asCard stream
      { refusing (ecPointToSshPubkeyBlob curve point) secret with
        targetCurve := curve, takeFailure := fun n => (none, n) } point hparse rfl
      (refusing_serves curve point secret) p).mpr hother
    exact (decryptOne_card_ok.mp hbatch).1
  · intro hcond σ oracle s
    have hruns : ∀ stream header, EboxStream.fromBytes bytes = .ok stream →
        stream.toBytes = .ok header → ∀ curve key, PrimaryKey ssl stream.ebox curve key →
          header.length ≤ bytes.length := fun stream header hparse hheader curve key hkey =>
      (hcond stream header hparse hheader curve key hkey).1
    refine ⟨?_, ?_, ?_, ?_⟩
    · rintro stream card point hparse rfl hserves p
      rw [decryptOne_card_ok, decrypt_ok_iff hparse]
      constructor
      · rintro ⟨-, e', s', hunlock, hbody⟩
        exact ⟨e', (), s', hunlock, hbody⟩
      · rintro ⟨e', ⟨⟩, s', hunlock, hbody⟩
        refine ⟨?_, e', s', hunlock, hbody⟩
        obtain ⟨key, hek, ⟨o, ⟨⟩, -⟩ | ⟨o, ⟨⟩, hgiven⟩⟩ :=
          unlockEbox_given (closed_of_parse hparse) hunlock
        obtain ⟨header, hheader, -, hframes⟩ :=
          (exists_decryptRest_ok stream hek).mp ⟨p, decryptBody_ok.mp hbody⟩
        rw [toBytes_unlocked hunlock] at hheader
        exact (hcond stream header hparse hheader _ key
          (hgiven.primaryKey_of_serves hserves)).2 hframes
    · intro stream hparse p
      rw [decryptOne_agent_ok, decrypt_ok_iff hparse]
      constructor
      · rintro ⟨e', t', hunlock, hbody⟩
        exact ⟨e', t', (), hunlock, hbody⟩
      · rintro ⟨e', t', ⟨⟩, hunlock, hbody⟩
        exact ⟨e', t', hunlock, hbody⟩
    · intro stream _
      exact ⟨fun card => decryptOne_ne_panic _ _ _ _ _ _, decryptOne_ne_panic _ _ _ _ _ _⟩
    · exact ⟨decrypt_ne_panic hruns _ _ _ _, decrypt_ne_panic hruns _ _ _ _⟩

end

/-! ## An ebox of two PRIMARY configs -/

/-- The sample stream with a PRIMARY config on another curve before its own. -/
def sampleMixedStream : EboxStream :=
  { sampleStream with
    ebox :=
      { sampleStream.ebox with
        configs :=
          { configType := .primary, n := 1, nonce := []
            parts := [{ guid := none, slot := defaultSlot, name := none, pubkey := none,
                        pubkeyCurve := none, cak := none,
                        pivBox := { sampleBox with curve := .nistP384 } }] } ::
            sampleStream.ebox.configs } }

/-- The card of the batch tests: the sample card with the curve of its slot. -/
def sampleBatchCard : CardOracle Unit :=
  { sampleCard with targetCurve := .nistP256, takeFailure := fun _ => (none, ()) }

private theorem sampleCard_serves :
    Serves sampleCard .nistP256 (OpenSsl.samplePoint .uncompressed 5) := by
  intro s selfBlob partnerBlob secret h
  simp only [sampleCard] at h
  split at h
  · next hmine => exact hmine.1
  · cases h

set_option maxRecDepth 20000 in
/-- The batch refuses an ebox whose second PRIMARY config is for its card. -/
theorem not_decryptorsAgree_mixed :
    ¬ DecryptorsAgree OpenSsl.sample
      (sampleMixedStream.encoding ++ sampleFrame (strBytes "hi")) := by
  intro h
  have hmismatch : (fun stream => (checkCurveMismatch stream .nistP256).isSome) <$>
      EboxStream.fromBytes (sampleMixedStream.encoding ++ sampleFrame (strBytes "hi")) =
        .ok true := rfl
  obtain ⟨stream, hparse, hsome⟩ := map_ok.mp hmismatch
  have hother : (Decryptor.decrypt OpenSsl.sample (none : Option (EcdhOracle Unit))
      (some sampleCard) () () (sampleMixedStream.encoding ++ sampleFrame (strBytes "hi"))).1 =
        .ok (strBytes "hi") := rfl
  have hbatch := ((h Unit sampleCard ()).asCard stream sampleBatchCard _ hparse rfl
    sampleCard_serves _).mpr hother
  have hnone : checkCurveMismatch stream .nistP256 = none := (decryptOne_card_ok.mp hbatch).1
  rw [hnone] at hsome
  cases hsome

end Piggy.Batch
