import Piggy.Box.Sealed

/-!
# Opening what was sealed

Whatever the oracles answer can only fail to open a part or open it to the sealed
key. So a walk over the configs ends with the key as soon as one oracle gives the
true secret for one part.
-/

namespace Piggy.Box

open Piggy.Core

section

variable {Scalar Point Rng : Type} {ssl : OpenSsl Scalar Point Rng}

/-! ## True secrets -/

/-- The secret between the private key of a box's recipient and its ephemeral key. -/
def TrueSecret (ssl : OpenSsl Scalar Point Rng) (b : PivBox) (secret : Bytes) : Prop :=
  ∃ d q, ssl.pointFromBytes b.curve b.recipientPubkey = .ok (ssl.publicPoint b.curve d) ∧
    ssl.pointFromBytes b.curve b.ephemeralPubkey = .ok q ∧ ssl.derive b.curve d q = .ok secret

/-- An oracle that gives the true secret of a box whenever it is asked for it. -/
def AnswersTruly {σ : Type} (ssl : OpenSsl Scalar Point Rng) (oracle : EcdhOracle σ)
    (b : PivBox) : Prop :=
  ∃ secret query, TrueSecret ssl b secret ∧ partQuery ssl [] b = some query ∧
    ∀ s, (oracle.ecdh s query.1 query.2).1 = .ok secret

/-- A secret an oracle may answer with. -/
def MayAnswer {σ : Type} (oracle : EcdhOracle σ) (answer : Bytes) : Prop :=
  ∃ s selfBlob partnerBlob, (oracle.ecdh s selfBlob partnerBlob).1 = .ok answer

/-- The cipher accepts no key derived from an answer other than the key that sealed
the box. -/
def RejectsOthers (ssl : OpenSsl Scalar Point Rng) (answers : Bytes → Prop) (b : PivBox) : Prop :=
  ∀ secret answer plain, TrueSecret ssl b secret → answers answer →
    chacha20Poly1305Decrypt ssl (kdfSha512 ssl answer b.nonce) b.iv b.ciphertext = .ok plain →
    kdfSha512 ssl answer b.nonce = kdfSha512 ssl secret b.nonce

/-- The true secret of a sealed part is the one it was sealed with. -/
theorem SealedPart.trueSecret_iff (hssl : ssl.Lawful) {key : Bytes} {d : Scalar}
    {tplPart : EboxTplPart} {part : EboxPart} (h : SealedPart ssl key d tplPart part)
    {p : Point} (hp : ssl.pointFromBytes tplPart.pubkeyCurve tplPart.pubkey = .ok p)
    {secret : Bytes} :
    TrueSecret ssl part.pivBox secret ↔
      ssl.derive tplPart.pubkeyCurve d p = .ok secret := by
  obtain ⟨-, -, hcurve⟩ := h.header
  obtain ⟨p', -, -, -, hp', hrp, hep, -⟩ := h.contents
  obtain rfl : p = p' := by simpa [hp] using hp'
  have hr := hssl.pointFromBytes_pointToBytes .compressed (onCurve_of_ok hp)
  have he := hssl.pointFromBytes_pointToBytes .compressed
    (hssl.publicPoint_onCurve tplPart.pubkeyCurve d)
  unfold TrueSecret
  rw [hcurve, hrp, hep, hr, he]
  constructor
  · rintro ⟨d', q, hd', hq, hs⟩
    cases hq
    rw [hssl.derive_symm, ← Except.ok.inj hd'] at hs
    exact hs
  · intro hs
    obtain ⟨d', hd'⟩ := hssl.exists_scalar (onCurve_of_ok hp)
    refine ⟨d', _, by rw [hd'], rfl, ?_⟩
    rw [hssl.derive_symm, hd']
    exact hs

private theorem chacha_decrypt_sealed (hssl : ssl.Lawful) {key iv plain ct tag : Bytes}
    (hiv : iv.length = cipherIvLen)
    (henc : ssl.encryptAead .chacha20Poly1305 key iv plain = .ok (ct, tag)) :
    chacha20Poly1305Decrypt ssl key iv (ct ++ tag) = .ok plain := by
  obtain ⟨-, htag⟩ := hssl.encryptAead_length henc
  have hoff : (ct ++ tag).length - 16 = ct.length := by
    rw [List.length_append, htag]
    omega
  rw [chacha20Poly1305Decrypt, if_neg (by simp [hiv]),
    if_neg (by rw [List.length_append, htag]; omega)]
  simp only [hoff, List.take_left, List.drop_left, hssl.decryptAead_encryptAead henc]

/-- The true secret opens a sealed part to its contents. -/
theorem SealedPart.opensTo_true (hssl : ssl.Lawful) {key : Bytes} {d : Scalar}
    {tplPart : EboxTplPart} {part : EboxPart} (h : SealedPart ssl key d tplPart part)
    {secret : Bytes} (hs : TrueSecret ssl part.pivBox secret) :
    OpensTo ssl part.pivBox secret key := by
  obtain ⟨p, secret', ct, tag, hp, -, -, hsecret, henc, hct⟩ := h.contents
  have hs' := (h.trueSecret_iff hssl hp).mp hs
  obtain rfl : secret' = secret := by simpa [hsecret] using hs'
  have hdec := chacha_decrypt_sealed hssl h.iv henc
  rw [← hct] at hdec
  exact ⟨h.iv, _, hdec, pkcs7Unpad_pkcs7Pad key (by decide) (by decide)⟩

/-- Whatever answer opens a sealed part opens it to its contents. -/
theorem SealedPart.opensTo_unique (hssl : ssl.Lawful) {key : Bytes} {d : Scalar}
    {tplPart : EboxTplPart} {part : EboxPart} (h : SealedPart ssl key d tplPart part)
    {answers : Bytes → Prop} (hrej : RejectsOthers ssl answers part.pivBox)
    {answer : Bytes} (ha : answers answer) {plain : Bytes}
    (hopen : OpensTo ssl part.pivBox answer plain) : plain = key := by
  obtain ⟨p, secret, ct, tag, hp, -, -, hsecret, -, -⟩ := h.contents
  have hs := (h.trueSecret_iff hssl hp).mpr hsecret
  obtain ⟨-, padded, hdec, hpad⟩ := h.opensTo_true hssl hs
  obtain ⟨-, padded', hdec', hpad'⟩ := hopen
  have hkey := hrej secret answer padded' hs ha hdec'
  rw [hkey, hdec] at hdec'
  cases hdec'
  rw [hpad] at hpad'
  exact (Except.ok.inj hpad').symm

/-! ## Unlocking -/

section

variable {σ τ : Type}

/-- A closed part that every answer of an oracle opens to a key of a kind, if at all. -/
def Yields (ssl : OpenSsl Scalar Point Rng) (oracle : EcdhOracle σ) (kind : Bytes → Prop)
    (part : EboxPart) : Prop :=
  part.pivBox.plaintext = none ∧
    ∀ answer plain, MayAnswer oracle answer → OpensTo ssl part.pivBox answer plain → kind plain

/-- A part whose query an oracle always answers with a secret that opens it. -/
def Openable (ssl : OpenSsl Scalar Point Rng) (oracle : EcdhOracle σ) (eks : List EphemeralKey)
    (part : EboxPart) : Prop :=
  ∃ query secret plain, partQuery ssl eks part.pivBox = some query ∧
    (∀ s, (oracle.ecdh s query.1 query.2).1 = .ok secret) ∧ OpensTo ssl part.pivBox secret plain

variable {oracle : EcdhOracle σ} {eks : List EphemeralKey} {kind : Bytes → Prop}

/-- A closed part that an oracle opens to a key of a kind, if at all. -/
def OpensWithin (ssl : OpenSsl Scalar Point Rng) (oracle : EcdhOracle σ) (eks : List EphemeralKey)
    (kind : Bytes → Prop) (part : EboxPart) : Prop :=
  part.pivBox.plaintext = none ∧ ∀ s part' s', tryPart ssl oracle eks part s = (.opened part', s') →
    ∃ key, kind key ∧ part'.pivBox.plaintext = some key

/-- A part that opens at all opens to a key of the kind. -/
theorem Yields.opensWithin {part : EboxPart} (hy : Yields ssl oracle kind part) :
    OpensWithin ssl oracle eks kind part := by
  refine ⟨hy.1, ?_⟩
  intro s part' s' h
  obtain ⟨query, secret, plain, -, ha, ho, rfl⟩ := tryPart_opened h
  exact ⟨plain, hy.2 secret plain ⟨s, query.1, query.2, ha⟩ ho, rfl⟩

/-- An openable part opens. -/
private theorem tryPart_openable {part : EboxPart} (h : Openable ssl oracle eks part) (s : σ) :
    ∃ part' s', tryPart ssl oracle eks part s = (.opened part', s') := by
  obtain ⟨query, secret, plain, hq, ha, ho⟩ := h
  have hopen := openWithSecret_ok.mpr ⟨plain, ho, rfl⟩
  have hpair : oracle.ecdh s query.1 query.2 = (.ok secret, (oracle.ecdh s query.1 query.2).2) :=
    Prod.ext (ha s) rfl
  unfold tryPart
  simp only [hq]
  rw [hpair]
  simp only [hopen]
  exact ⟨_, _, rfl⟩

/-- Either the parts are left as they are, or a key of the kind can be taken from them. -/
private theorem tryParts_within {parts : List EboxPart}
    (hy : ∀ part ∈ parts, OpensWithin ssl oracle eks kind part) (reason : Option String) (s : σ) :
    ((tryParts ssl oracle eks parts reason s).1.anyOpened = false ∧
      (tryParts ssl oracle eks parts reason s).1.parts = parts) ∨
    ((tryParts ssl oracle eks parts reason s).1.anyOpened = true ∧
      ∃ key parts', kind key ∧
        takeKey (tryParts ssl oracle eks parts reason s).1.parts = some (key, parts')) := by
  induction parts generalizing reason s with
  | nil => exact .inl ⟨rfl, rfl⟩
  | cons part parts ih =>
    have hrest : ∀ reason s, _ := ih fun p hp => hy p (by simp [hp])
    have hclosed := (hy part (by simp)).1
    have hnext : ∀ reason s,
        ((tryParts ssl oracle eks parts reason s).1.anyOpened = false ∧
          part :: (tryParts ssl oracle eks parts reason s).1.parts = part :: parts) ∨
        ((tryParts ssl oracle eks parts reason s).1.anyOpened = true ∧ ∃ key parts', kind key ∧
          takeKey (part :: (tryParts ssl oracle eks parts reason s).1.parts) =
            some (key, parts')) := by
      intro reason s
      rcases hrest reason s with ⟨ho, hp⟩ | ⟨ho, key, parts', hkind, hp⟩
      · exact .inl ⟨ho, by rw [hp]⟩
      · exact .inr ⟨ho, key, part :: parts', hkind, by simp [takeKey, hclosed, hp]⟩
    unfold tryParts
    split
    · next part' s' h =>
      obtain ⟨key, hkind, hkey⟩ := (hy part (by simp)).2 _ _ _ h
      refine .inr ⟨rfl, key, part'.locked :: parts, hkind, ?_⟩
      simp only [takeKey, hkey]
      rfl
    · exact hnext _ _
    · exact hnext _ _

/-- With an openable part among them, some part opens. -/
private theorem tryParts_openable {parts : List EboxPart}
    (h : ∃ part ∈ parts, Openable ssl oracle eks part) (reason : Option String) (s : σ) :
    (tryParts ssl oracle eks parts reason s).1.anyOpened = true := by
  induction parts generalizing reason s with
  | nil => simp at h
  | cons part parts ih =>
    unfold tryParts
    split
    · rfl
    · next why s' hf =>
      obtain ⟨p, hp, ho⟩ := h
      rcases List.mem_cons.mp hp with rfl | hp
      · obtain ⟨p', s'', hopen⟩ := tryPart_openable ho s
        rw [hopen] at hf
        cases hf
      · exact ih ⟨p, hp, ho⟩ _ _
    · next s' hf =>
      obtain ⟨p, hp, ho⟩ := h
      rcases List.mem_cons.mp hp with rfl | hp
      · obtain ⟨p', s'', hopen⟩ := tryPart_openable ho s
        rw [hopen] at hf
        cases hf
      · exact ih ⟨p, hp, ho⟩ _ _

/-- An attempt either unlocks the ebox to a key of the kind or leaves it as it is. -/
private theorem tryUnlock_within {e : Ebox} {i : Nat} {c : EboxConfig} (hk : e.key = none)
    (hc : e.configs[i]? = some c)
    (hy : ∀ part ∈ c.parts, OpensWithin ssl oracle e.ephemeralKeys kind part) (s : σ) :
    ((∃ fault s', tryUnlockWithOracle ssl oracle e i s = (.error fault, e, s')) ∧
      ¬ ∃ part ∈ c.parts, Openable ssl oracle e.ephemeralKeys part) ∨
    ∃ e' s' key, tryUnlockWithOracle ssl oracle e i s = (.ok (), e', s') ∧ kind key ∧
      e'.key = some key := by
  obtain ⟨hi, rfl⟩ := List.getElem?_eq_some_iff.mp hc
  unfold tryUnlockWithOracle
  simp only [hc]
  rcases tryParts_within hy none s with
    ⟨hno, hparts⟩ | ⟨hyes, key, parts', hkind, htake⟩
  · refine .inl ⟨?_, ?_⟩
    · rw [if_neg (by simp [hno]), hparts, List.set_getElem_self]
      exact ⟨_, _, rfl⟩
    · intro h
      have hyes := tryParts_openable h none s
      rw [hno] at hyes
      cases hyes
  · rw [if_pos hyes]
    refine .inr ?_
    simp only [Ebox.unlock, hk, Option.isSome_none, Bool.false_eq_true, if_false,
      List.getElem?_set_self hi, htake]
    exact ⟨_, _, key, rfl, hkind, rfl⟩

/-- What unlocking needs of the parts of a config: both oracles can only open them to
keys of the kind. -/
def ConfigYields (ssl : OpenSsl Scalar Point Rng) (agent : Option (EcdhOracle σ))
    (card : Option (EcdhOracle τ)) (kind : Bytes → Prop) (c : EboxConfig) : Prop :=
  ∀ part ∈ c.parts, (∀ o ∈ agent, Yields ssl o kind part) ∧ ∀ o ∈ card, Yields ssl o kind part

/-- The same of what the oracles do with the parts. -/
def ConfigOpensWithin (ssl : OpenSsl Scalar Point Rng) (agent : Option (EcdhOracle σ))
    (card : Option (EcdhOracle τ)) (eks : List EphemeralKey) (kind : Bytes → Prop)
    (c : EboxConfig) : Prop :=
  ∀ part ∈ c.parts, (∀ o ∈ agent, OpensWithin ssl o eks kind part) ∧
    ∀ o ∈ card, OpensWithin ssl o eks kind part

/-- A config that one of the oracles can open. -/
def ConfigOpenable (ssl : OpenSsl Scalar Point Rng) (agent : Option (EcdhOracle σ))
    (card : Option (EcdhOracle τ)) (eks : List EphemeralKey) (c : EboxConfig) : Prop :=
  ∃ part ∈ c.parts, (∃ o ∈ agent, Openable ssl o eks part) ∨ ∃ o ∈ card, Openable ssl o eks part

private theorem attempt_within {o : Option (EcdhOracle σ)} {e : Ebox} {i : Nat} {c : EboxConfig}
    (hk : e.key = none) (hc : e.configs[i]? = some c)
    (hy : ∀ part ∈ c.parts, ∀ oracle ∈ o, OpensWithin ssl oracle e.ephemeralKeys kind part)
    (reason : Option String) (s : σ) :
    ((∃ fault reason' s', attempt ssl o e i reason s = (.error fault, e, reason', s')) ∧
      ¬ ∃ part ∈ c.parts, ∃ oracle ∈ o, Openable ssl oracle e.ephemeralKeys part) ∨
    ∃ e' reason' s' key, attempt ssl o e i reason s = (.ok (), e', reason', s') ∧ kind key ∧
      e'.key = some key := by
  cases o with
  | none => exact .inl ⟨⟨_, _, _, rfl⟩, by simp⟩
  | some oracle =>
    rcases tryUnlock_within hk hc (fun part hp => hy part hp oracle rfl) s with
      ⟨⟨fault, s', h⟩, hno⟩ | ⟨e', s', key, h, hkind, hkey⟩
    · refine .inl ⟨⟨fault, noteReason reason fault, s', by simp only [attempt, h]⟩, ?_⟩
      rintro ⟨part, hp, oracle', ⟨⟩, ho⟩
      exact hno ⟨part, hp, ho⟩
    · exact .inr ⟨e', reason, s', key, by simp only [attempt, h], hkind, hkey⟩

/-- The walk over the configs either unlocks the ebox to a key of the kind, or leaves it as
it is because none of them is openable. -/
private theorem unlockLoop_within {agent : Option (EcdhOracle σ)} {card : Option (EcdhOracle τ)}
    {indices : List Nat} {e : Ebox} (hk : e.key = none)
    (hy : ∀ i ∈ indices, ∀ c, e.configs[i]? = some c →
      ConfigOpensWithin ssl agent card e.ephemeralKeys kind c)
    (hex : ∀ i ∈ indices, i < e.configs.length) (reason : Option String) (s : σ) (t : τ) :
    ((∃ fault s' t', unlockLoop ssl agent card indices e reason s t = (.error fault, e, s', t')) ∧
      ∀ i ∈ indices, ∀ c, e.configs[i]? = some c →
        ¬ ConfigOpenable ssl agent card e.ephemeralKeys c) ∨
    ∃ e' s' t' key, unlockLoop ssl agent card indices e reason s t = (.ok (), e', s', t') ∧
      kind key ∧ e'.key = some key := by
  induction indices generalizing reason s t with
  | nil => exact .inl ⟨⟨_, _, _, rfl⟩, by simp⟩
  | cons i indices ih =>
    obtain ⟨c, hc⟩ : ∃ c, e.configs[i]? = some c :=
      ⟨_, List.getElem?_eq_getElem (hex i (by simp))⟩
    have hyc := hy i (by simp) _ hc
    unfold unlockLoop
    rcases attempt_within hk hc (fun part hp => (hyc part hp).1) reason s with
      ⟨⟨fault, reason₁, s₁, h₁⟩, hno₁⟩ | ⟨e', reason₁, s₁, key, h₁, hkey⟩
    · rw [h₁]
      rcases attempt_within hk hc (fun part hp => (hyc part hp).2) reason₁ t with
        ⟨⟨fault₂, reason₂, t₂, h₂⟩, hno₂⟩ | ⟨e', reason₂, t₂, key, h₂, hkey⟩
      · simp only [h₂]
        rcases ih (fun j hj => hy j (by simp [hj])) (fun j hj => hex j (by simp [hj]))
          reason₂ s₁ t₂ with ⟨hfail, hrest⟩ | hdone
        · refine .inl ⟨hfail, ?_⟩
          intro j hj c' hcj hopen
          rcases List.mem_cons.mp hj with rfl | hj
          · obtain rfl : c = c' := by simpa [hc] using hcj
            obtain ⟨part, hp, ho | ho⟩ := hopen
            · exact hno₁ ⟨part, hp, ho⟩
            · exact hno₂ ⟨part, hp, ho⟩
          · exact hrest j hj c' hcj hopen
        · exact .inr hdone
      · simp only [h₂]
        exact .inr ⟨e', s₁, t₂, key, rfl, hkey⟩
    · rw [h₁]
      exact .inr ⟨e', s₁, t, key, rfl, hkey⟩

/-- Unlocking an ebox either gives a key of the kind that its PRIMARY configs hold, or fails
because no part of them is openable. -/
theorem unlockEbox_within {agent : Option (EcdhOracle σ)} {card : Option (EcdhOracle τ)} {e : Ebox}
    (hk : e.key = none)
    (hy : ∀ c ∈ e.configs, c.configType = .primary →
      ConfigOpensWithin ssl agent card e.ephemeralKeys kind c)
    (s : σ) (t : τ) :
    ((∃ fault s' t', unlockEbox ssl agent card e s t = (.error fault, e, s', t')) ∧
      ∀ c ∈ e.configs, c.configType = .primary →
        ¬ ConfigOpenable ssl agent card e.ephemeralKeys c) ∨
    ∃ e' s' t' key, unlockEbox ssl agent card e s t = (.ok (), e', s', t') ∧ kind key ∧
      e'.key = some key := by
  have hmem : ∀ i ∈ primaryIndices e, i < e.configs.length := by
    intro i hi
    simpa using (List.mem_filter.mp hi).1
  have hyi : ∀ i ∈ primaryIndices e, ∀ c, e.configs[i]? = some c →
      ConfigOpensWithin ssl agent card e.ephemeralKeys kind c := by
    intro i hi c hc
    have hty := (List.mem_filter.mp hi).2
    simp only [hc, Option.any_some, decide_eq_true_eq] at hty
    exact hy c (List.mem_of_getElem? hc) hty
  rcases unlockLoop_within hk hyi hmem _ s t with ⟨hfail, hno⟩ | hdone
  · refine .inl ⟨hfail, ?_⟩
    intro c hc hty
    obtain ⟨i, hi, rfl⟩ := List.getElem_of_mem hc
    refine hno i ?_ _ (List.getElem?_eq_getElem hi)
    simp [primaryIndices, hi, hty]
  · exact .inr hdone

/-- The same when every answer the oracles may give is enough to know the key. -/
theorem unlockEbox_yields {agent : Option (EcdhOracle σ)} {card : Option (EcdhOracle τ)} {e : Ebox}
    (hk : e.key = none)
    (hy : ∀ c ∈ e.configs, c.configType = .primary → ConfigYields ssl agent card kind c)
    (s : σ) (t : τ) :
    ((∃ fault s' t', unlockEbox ssl agent card e s t = (.error fault, e, s', t')) ∧
      ∀ c ∈ e.configs, c.configType = .primary →
        ¬ ConfigOpenable ssl agent card e.ephemeralKeys c) ∨
    ∃ e' s' t' key, unlockEbox ssl agent card e s t = (.ok (), e', s', t') ∧ kind key ∧
      e'.key = some key := by
  refine unlockEbox_within hk ?_ s t
  intro c hc hty part hp
  obtain ⟨hagent, hcard⟩ := hy c hc hty part hp
  exact ⟨fun o ho => (hagent o ho).opensWithin, fun o ho => (hcard o ho).opensWithin⟩

end

end

end Piggy.Box
