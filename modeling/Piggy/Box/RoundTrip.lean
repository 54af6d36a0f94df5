import Piggy.Box.Fresh

/-!
# Stream round trip

What a stream encryption writes, a stream decryption reads back, as long as one
oracle gives the true secret for one part.
-/

namespace Piggy.Box

open Piggy.Core

section

variable {Scalar Point Rng : Type} {ssl : OpenSsl Scalar Point Rng} {σ τ : Type}

/-- The header of a fresh stream and the frames of chunks are decrypted to the chunks put together,
whenever one of the oracles always gives the true secret of one part and the cipher rejects the
other answers. -/
theorem decrypt_encryptChunks (hssl : ssl.Lawful) {dealer : Dealer Rng} {tpl : EboxTemplate}
    (htpl : tpl.Fits) (hdealer : ∀ c ∈ tpl.configs, c.configType = .recovery → dealer.Lawful)
    {rng rng' : Rng} {stream : EboxStream}
    (hnew : EboxStream.new ssl dealer tpl rng = .ok (stream, rng'))
    {agent : Option (EcdhOracle σ)} {card : Option (EcdhOracle τ)}
    (htrue : EitherAnswersTruly ssl agent card stream.ebox)
    (hreject : ∀ c ∈ stream.ebox.configs, ∀ part ∈ c.parts,
      RejectsOthers ssl (EitherMayAnswer agent card) part.pivBox)
    {chunks : List Bytes} (hle : ∀ c ∈ chunks, c.length ≤ stream.chunkSize.toNat) (s : σ) (t : τ) :
    ∃ frames, stream.toBytes = .ok stream.encoding ∧
      encryptChunks ssl stream 0 chunks = .ok frames ∧
      (Decryptor.decrypt ssl agent card s t (stream.encoding ++ frames)).1 = .ok chunks.flatten := by
  obtain ⟨key, hklen, hsealed, -, hkey, -, -, hsize⟩ := new_spec hssl hdealer hnew
  have hsmall : ∀ c ∈ chunks, c.length + 48 < 2 ^ 32 := by
    intro c hc
    have hc' := hle c hc
    have hval : stream.chunkSize.toNat = 131072 := by
      rw [hsize]
      decide
    omega
  rcases unlockEbox_asRead hssl hsealed (fun c hc _ => hreject c hc) s t with
    ⟨-, hno⟩ | ⟨e', s', t', hunlock, hkey'⟩
  · exact absurd htrue hno
  obtain ⟨frames, hframes, hdec⟩ :=
    decryptFrames_encryptChunks hssl { stream with ebox := e' } hkey hkey' hklen hsmall 0
  obtain ⟨hheader, hrun⟩ := decrypt_fresh hssl htpl hdealer hnew agent card frames s t
  refine ⟨frames, hheader, hframes, ?_⟩
  rw [hrun, hunlock]
  exact hdec _ (Nat.le_refl _)

/-- A fresh stream cuts into chunks of 128 KiB. -/
theorem chunkSize_new {dealer : Dealer Rng} {tpl : EboxTemplate} {rng rng' : Rng}
    {stream : EboxStream} (hnew : EboxStream.new ssl dealer tpl rng = .ok (stream, rng')) :
    stream.chunkSize = defaultChunkSize := by
  simp only [EboxStream.new, bind_ok] at hnew
  obtain ⟨⟨keyBytes, rng₁⟩, -, ⟨ebox, rng₂⟩, -, h⟩ := hnew
  cases h
  rfl

/-- What a stream encryption writes is decrypted to the plaintext, whenever one of the
oracles always gives the true secret of one part and the cipher rejects the other
answers. -/
theorem decrypt_cmdStreamEncrypt (hssl : ssl.Lawful) {dealer : Dealer Rng} {tpl : EboxTemplate}
    (htpl : tpl.Fits) (hprimary : ∀ c ∈ tpl.configs, c.configType = .primary) {rng rng' : Rng}
    {stream : EboxStream} (hnew : EboxStream.new ssl dealer tpl rng = .ok (stream, rng'))
    {agent : Option (EcdhOracle σ)} {card : Option (EcdhOracle τ)}
    (htrue : EitherAnswersTruly ssl agent card stream.ebox)
    (hreject : ∀ c ∈ stream.ebox.configs, ∀ part ∈ c.parts,
      RejectsOthers ssl (EitherMayAnswer agent card) part.pivBox)
    (plaintext : Bytes) (s : σ) (t : τ) :
    ∃ bytes, cmdStreamEncrypt ssl dealer tpl plaintext rng = .ok bytes ∧
      (Decryptor.decrypt ssl agent card s t bytes).1 = .ok plaintext := by
  have hdealer : ∀ c ∈ tpl.configs, c.configType = .recovery → dealer.Lawful := by
    intro c hc hty
    rw [hprimary c hc] at hty
    cases hty
  have hpos : 0 < stream.chunkSize.toNat := by
    rw [chunkSize_new hnew]
    decide
  obtain ⟨hflat, hle⟩ := streamChunks_spec hpos plaintext
  obtain ⟨frames, hheader, hframes, hrun⟩ :=
    decrypt_encryptChunks hssl htpl hdealer hnew htrue hreject hle s t
  refine ⟨stream.encoding ++ frames, ?_, ?_⟩
  · simp only [cmdStreamEncrypt, hnew, ok_bind, writeStream, hheader, hframes]
    rfl
  · rw [hrun, hflat]

end

/-! ## A run with the sample library -/

/-- A template with one PRIMARY config for the point 5. -/
def sampleTemplate : EboxTemplate where
  version := 1
  configs := [{
    configType := .primary
    n := 1
    parts := [{ guid := none, slot := defaultSlot, name := none,
                pubkey := OpenSsl.samplePoint .compressed 5,
                pubkeyCurve := .nistP256, cak := none }] }]

/-- A card that holds the scalar 5 and answers for the ephemeral point 3 only. -/
def sampleCard : EcdhOracle Unit where
  ecdh _ selfBlob partnerBlob :=
    if selfBlob = ecPointToSshPubkeyBlob .nistP256 (OpenSsl.samplePoint .uncompressed 5) ∧
        partnerBlob = ecPointToSshPubkeyBlob .nistP256 (OpenSsl.samplePoint .uncompressed 3) then
      (.ok [15], ())
    else (.error .noKey, ())

/-- The box that sealing the sample template gives. -/
def sampleBox : PivBox :=
  { PivBox.new .nistP256 with
    nonce := List.replicate 16 4
    recipientPubkey := OpenSsl.samplePoint .compressed 5
    ephemeralPubkey := OpenSsl.samplePoint .compressed 3
    iv := List.replicate 12 5
    ciphertext := List.replicate 32 0 ++ List.replicate 16 16 ++ (15 :: List.replicate 15 4)
    plaintext := some (List.replicate 32 0) }

/-- The stream that the sample template gives. -/
def sampleStream : EboxStream where
  ebox :=
    { version := 3
      eboxType := .stream
      recoveryCipher := "aes256-gcm"
      recoveryIv := List.replicate 12 2
      recoveryEnc := 2 :: 32 :: List.replicate 32 0 ++ List.replicate 16 1
      ephemeralKeys := [{ curve := .nistP256, pubkey := OpenSsl.samplePoint .compressed 3 }]
      configs := [{
        configType := .primary
        n := 1
        nonce := []
        parts := [{ guid := none, slot := defaultSlot, name := none,
                    pubkey := some (OpenSsl.samplePoint .compressed 5),
                    pubkeyCurve := some .nistP256, cak := none, pivBox := sampleBox }] }]
      key := some (List.replicate 32 0) }
  cipher := "aes256-ctr"
  mac := "sha256"
  chunkSize := 131072

/-- The sample stream is what sealing to the sample template gives. -/
theorem new_sampleTemplate (dealer : Dealer Nat) :
    EboxStream.new OpenSsl.sample dealer sampleTemplate 0 = .ok (sampleStream, 6) := by
  rfl

/-- A dealer without shares. -/
def sampleDealer : Dealer Nat := fun _ _ _ rng => ([], rng)

theorem sampleTemplate_fits : sampleTemplate.Fits := by
  refine ⟨by decide, by decide, ?_, by decide⟩
  intro c hc p hp
  obtain rfl := List.mem_singleton.mp hc
  obtain rfl := List.mem_singleton.mp hp
  exact ⟨by simp, by simp⟩

/-- The sample card answers with one secret, which is the true one. -/
theorem sampleStream_rejectsOthers :
    ∀ c ∈ sampleStream.ebox.configs, ∀ part ∈ c.parts, RejectsOthers OpenSsl.sample
      (EitherMayAnswer (none : Option (EcdhOracle Unit)) (some sampleCard)) part.pivBox := by
  have htrue : ∀ secret, TrueSecret OpenSsl.sample sampleBox secret → secret = [15] := by
    rintro secret ⟨d, q, hd, hq, hs⟩
    obtain rfl : 5 = d := Except.ok.inj hd
    obtain rfl : 3 = q := Except.ok.inj hq
    exact (Except.ok.inj hs).symm
  have hanswer : ∀ answer, MayAnswer sampleCard answer → answer = [15] := by
    rintro answer ⟨s, selfBlob, partnerBlob, h⟩
    simp only [sampleCard] at h
    split at h
    · exact (Except.ok.inj h).symm
    · cases h
  intro c hc part hpart
  obtain rfl := List.mem_singleton.mp hc
  obtain rfl := List.mem_singleton.mp hpart
  rintro secret answer plain hs (⟨o, ⟨⟩, -⟩ | ⟨o, ⟨⟩, ha⟩) -
  rw [htrue secret hs, hanswer answer ha]

/-- With the sample card a stream for the sample template is decrypted. -/
theorem decrypt_cmdStreamEncrypt_sample :
    ∃ bytes, cmdStreamEncrypt OpenSsl.sample sampleDealer sampleTemplate (strBytes "hi") 0 =
        .ok bytes ∧
      (Decryptor.decrypt OpenSsl.sample (none : Option (EcdhOracle Unit)) (some sampleCard) () ()
        bytes).1 = .ok (strBytes "hi") := by
  refine decrypt_cmdStreamEncrypt OpenSsl.sample_lawful sampleTemplate_fits (by decide)
    (new_sampleTemplate _) ?_ sampleStream_rejectsOthers _ _ _
  refine ⟨_, List.mem_singleton_self _, rfl, _, List.mem_singleton_self _, .inr ⟨_, rfl, ?_⟩⟩
  exact ⟨[15], _, ⟨5, 3, rfl, rfl, rfl⟩, rfl, fun _ => rfl⟩

end Piggy.Box
