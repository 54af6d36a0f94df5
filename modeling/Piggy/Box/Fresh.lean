import Piggy.Box.Frames
import Piggy.Box.Opening

/-!
# Fresh streams

A stream just sealed to a template: what its header reads back as, what unlocking
that header can give, and where the decryptor finds the frames.
-/

namespace Piggy.Box

open Piggy.Core

section

variable {Scalar Point Rng : Type} {ssl : OpenSsl Scalar Point Rng}

/-- A part read back asks the query of the part that was written. -/
private theorem partQuery_asRead (hssl : ssl.Lawful) {plain : Bytes} {eph : Ephemerals Scalar}
    (hpub : eph.Published ssl) {tplPart : EboxTplPart} {part : EboxPart}
    (h : SealedIn ssl plain eph tplPart part) :
    partQuery ssl eph.keys part.asRead.pivBox = partQuery ssl [] part.pivBox := by
  obtain ⟨d, hd, hs⟩ := h
  obtain ⟨-, -, hcurve⟩ := hs.header
  obtain ⟨p, -, -, -, -, -, hep, -⟩ := hs.contents
  have hne : part.pivBox.ephemeralPubkey.isEmpty = false := by
    have hhead := (hssl.compressed_bounds (hssl.publicPoint_onCurve tplPart.pubkeyCurve d)).2.1
    rw [← hep] at hhead
    cases hb : part.pivBox.ephemeralPubkey with
    | nil => simp [hb] at hhead
    | cons b bs => rfl
  have hres : resolveEphemeral eph.keys part.asRead.pivBox = resolveEphemeral [] part.pivBox := by
    have hfind := hpub.find_key hd
    rw [← hcurve] at hfind
    have hread : resolveEphemeral eph.keys part.asRead.pivBox =
        ssl.pointToBytes part.pivBox.curve .compressed (ssl.publicPoint part.pivBox.curve d) := by
      have hempty : part.asRead.pivBox.ephemeralPubkey.isEmpty = true := rfl
      have hsame : part.asRead.pivBox.curve = part.pivBox.curve := rfl
      rw [resolveEphemeral, if_pos hempty, hsame, hfind]
    rw [hread, resolveEphemeral, if_neg (by simp [hne]), hep, hcurve]
  simp only [partQuery, hres]
  rfl

/-- A fresh stream: its key, its sealed ebox and its parameters. -/
theorem new_spec (hssl : ssl.Lawful) {dealer : Dealer Rng} {tpl : EboxTemplate}
    (hdealer : ∀ c ∈ tpl.configs, c.configType = .recovery → dealer.Lawful) {rng rng' : Rng}
    {stream : EboxStream} (h : EboxStream.new ssl dealer tpl rng = .ok (stream, rng')) :
    ∃ key, key.length = 32 ∧ SealedEbox ssl key tpl stream.ebox ∧
      stream.ebox.eboxType = .stream ∧ stream.ebox.key = some key ∧
      stream.cipher = defaultStreamCipher ∧ stream.mac = defaultMac ∧
      stream.chunkSize = defaultChunkSize := by
  simp only [EboxStream.new, bind_ok, pure_ok, liftBox_ok, liftSsl_ok, Prod.mk.injEq] at h
  obtain ⟨⟨key, rng₁⟩, hkey, ⟨e, rng₂⟩, he, rfl, rfl⟩ := h
  obtain ⟨⟨hv, hrc, hri, hre, hcs⟩, hty, -⟩ := create_spec hssl hdealer he
  exact ⟨key, hssl.length_randBytes hkey, ⟨hv, hrc, hri, hre, hcs⟩, hty, rfl, rfl, rfl, rfl⟩

/-- A sealed ebox is read back, whatever stands behind it. -/
theorem SealedEbox.reads (hssl : ssl.Lawful) {key : Bytes} (hkey : key.length ≤ 237)
    {tpl : EboxTemplate} (htpl : tpl.Fits) {e : Ebox} (h : SealedEbox ssl key tpl e)
    (hty : e.eboxType ≠ .template) : Reads Ebox.readFrom e.encoding e.asRead := by
  obtain ⟨eph, hpub, hkeys, hconfigs⟩ := h.configs
  have hver : 2 ≤ e.version := by
    rw [h.version]
    decide
  refine Ebox.readFrom_reads hver hty (h.fits hssl hkey htpl.fields) ?_ ?_ ?_
  · exact hkeys ▸ hpub.length_keys
  · exact hconfigs.length_eq ▸ htpl.configs
  · intro c hc
    obtain ⟨tc, htc, hsc⟩ := forall₂_mem_right hconfigs hc
    exact hsc.parts.length_eq ▸ htpl.parts tc htc

/-- The header of a fresh stream is written as its encoding. -/
theorem toBytes_fresh (hssl : ssl.Lawful) {dealer : Dealer Rng} {tpl : EboxTemplate}
    (htpl : tpl.Fits) (hdealer : ∀ c ∈ tpl.configs, c.configType = .recovery → dealer.Lawful)
    {rng rng' : Rng} {stream : EboxStream}
    (hnew : EboxStream.new ssl dealer tpl rng = .ok (stream, rng')) :
    stream.toBytes = .ok stream.encoding := by
  obtain ⟨key, hklen, hsealed, -, -, hcipher, hmac, -⟩ := new_spec hssl hdealer hnew
  exact EboxStream.toBytes_of_fits (hsealed.fits hssl (by omega) htpl.fields)
    (by rw [hcipher]; decide) (by rw [hmac]; decide)

/-- What was written for a fresh stream is read back as the locked header. -/
private theorem fromBytes_stream {stream : EboxStream}
    (hread : Reads Ebox.readFrom stream.ebox.encoding stream.ebox.asRead)
    (hcipher : stream.cipher = defaultStreamCipher) (hmac : stream.mac = defaultMac)
    (frames : Bytes) :
    EboxStream.fromBytes (stream.encoding ++ frames) =
      .ok { stream with ebox := stream.ebox.asRead } := by
  have hstream := EboxStream.readFrom_reads hread (by rw [hcipher]; decide) (by rw [hmac]; decide)
  rw [EboxStream.fromBytes, WireReader.new, hstream, ok_bind]
  rfl

section

variable {σ τ : Type}

/-- A secret one of the two oracles may answer with. -/
def EitherMayAnswer (agent : Option (EcdhOracle σ)) (card : Option (EcdhOracle τ))
    (answer : Bytes) : Prop :=
  (∃ o ∈ agent, MayAnswer o answer) ∨ ∃ o ∈ card, MayAnswer o answer

/-- One of the two oracles always gives the true secret of a part of a PRIMARY config. -/
def EitherAnswersTruly (ssl : OpenSsl Scalar Point Rng) (agent : Option (EcdhOracle σ))
    (card : Option (EcdhOracle τ)) (e : Ebox) : Prop :=
  ∃ c ∈ e.configs, c.configType = .primary ∧ ∃ part ∈ c.parts,
    (∃ o ∈ agent, AnswersTruly ssl o part.pivBox) ∨ ∃ o ∈ card, AnswersTruly ssl o part.pivBox

/-- Unlocking the ebox read back from a fresh stream gives the stream's key or fails,
and it does not fail when one oracle always gives the true secret of a part. -/
theorem unlockEbox_asRead (hssl : ssl.Lawful) {key : Bytes} {tpl : EboxTemplate} {e : Ebox}
    (hsealed : SealedEbox ssl key tpl e)
    {agent : Option (EcdhOracle σ)} {card : Option (EcdhOracle τ)}
    (hreject : ∀ c ∈ e.configs, c.configType = .primary → ∀ part ∈ c.parts,
      RejectsOthers ssl (EitherMayAnswer agent card) part.pivBox) (s : σ) (t : τ) :
    ((∃ fault e' s' t', unlockEbox ssl agent card e.asRead s t = (.error fault, e', s', t')) ∧
      ¬ EitherAnswersTruly ssl agent card e) ∨
    ∃ e' s' t', unlockEbox ssl agent card e.asRead s t = (.ok (), e', s', t') ∧
      e'.key = some key := by
  obtain ⟨eph, hpub, hkeys, hconfigs⟩ := hsealed.configs
  have hparts : ∀ c ∈ e.configs, c.configType = .primary →
      ∀ part ∈ c.parts, ∃ tplPart, SealedIn ssl key eph tplPart part := by
    intro c hc hty part hpart
    obtain ⟨tc, htc, hsc⟩ := forall₂_mem_right hconfigs hc
    obtain ⟨tp, -, hsp⟩ := forall₂_mem_right hsc.parts hpart
    exact ⟨tp, hsp.primary (hsc.configType.symm.trans hty)⟩
  have hyields : ∀ c' ∈ e.asRead.configs, c'.configType = .primary →
      ConfigYields ssl agent card (· = key) c' := by
    intro c' hc' hty part' hpart'
    obtain ⟨c, hc, rfl⟩ := List.mem_map.mp hc'
    obtain ⟨part, hpart, rfl⟩ := List.mem_map.mp hpart'
    obtain ⟨tp, d, -, hsp⟩ := hparts c hc hty part hpart
    have hrej := hreject c hc hty part hpart
    refine ⟨?_, ?_⟩
    · intro o ho
      refine ⟨rfl, ?_⟩
      intro answer plain ha hopen
      exact hsp.opensTo_unique hssl hrej (.inl ⟨o, ho, ha⟩) hopen
    · intro o ho
      refine ⟨rfl, ?_⟩
      intro answer plain ha hopen
      exact hsp.opensTo_unique hssl hrej (.inr ⟨o, ho, ha⟩) hopen
  rcases unlockEbox_yields rfl hyields s t with
    ⟨⟨fault, s', t', hfail⟩, hno⟩ | ⟨e', s', t', _, hdone, rfl, hkey⟩
  · refine .inl ⟨⟨fault, _, s', t', hfail⟩, ?_⟩
    rintro ⟨c, hc, hty, part, hpart, htruly⟩
    obtain ⟨tp, hin⟩ := hparts c hc hty part hpart
    have hquery := partQuery_asRead hssl hpub hin
    obtain ⟨d, -, hsp⟩ := hin
    refine hno c.asRead (List.mem_map_of_mem hc) hty ⟨part.asRead, List.mem_map_of_mem hpart, ?_⟩
    have hek : e.asRead.ephemeralKeys = eph.keys := hkeys
    rcases htruly with ⟨o, ho, secret, query, hs, hq, ha⟩ | ⟨o, ho, secret, query, hs, hq, ha⟩
    · refine .inl ⟨o, ho, query, secret, key, ?_, ha, hsp.opensTo_true hssl hs⟩
      rw [hek, hquery, hq]
    · refine .inr ⟨o, ho, query, secret, key, ?_, ha, hsp.opensTo_true hssl hs⟩
      rw [hek, hquery, hq]
  · exact .inr ⟨e', s', t', hdone, hkey⟩

/-- The header of a fresh stream is written as its encoding, and the decryptor finds the
frames right behind it. -/
theorem decrypt_fresh (hssl : ssl.Lawful) {dealer : Dealer Rng} {tpl : EboxTemplate}
    (htpl : tpl.Fits) (hdealer : ∀ c ∈ tpl.configs, c.configType = .recovery → dealer.Lawful)
    {rng rng' : Rng} {stream : EboxStream}
    (hnew : EboxStream.new ssl dealer tpl rng = .ok (stream, rng'))
    (agent : Option (EcdhOracle σ)) (card : Option (EcdhOracle τ)) (frames : Bytes) (s : σ)
    (t : τ) :
    stream.toBytes = .ok stream.encoding ∧
      (Decryptor.decrypt ssl agent card s t (stream.encoding ++ frames)).1 =
        match unlockEbox ssl agent card stream.ebox.asRead s t with
        | (.error e, _, _, _) => .error (.message s!"unlock failed: {e.text}")
        | (.ok (), ebox, _, _) =>
          decryptFrames ssl { stream with ebox } frames.length 0 frames := by
  obtain ⟨key, hklen, hsealed, hty, -, hcipher, hmac, -⟩ := new_spec hssl hdealer hnew
  have hfits := hsealed.fits hssl (by omega) htpl.fields
  have hver : 2 ≤ stream.ebox.version := by
    rw [hsealed.version]
    decide
  have hheader := toBytes_fresh hssl htpl hdealer hnew
  refine ⟨hheader, ?_⟩
  have hreads := hsealed.reads hssl (by omega) htpl (by rw [hty]; decide)
  have hread := fromBytes_stream hreads hcipher hmac frames
  have hsame := unlockEbox_toBytes ssl agent card stream.ebox.asRead s t
  rw [Ebox.toBytes_of_fits hfits.asRead, Ebox.encoding_asRead hver,
    ← Ebox.toBytes_of_fits hfits] at hsame
  have hslice : sliceFrom (stream.encoding ++ frames) stream.encoding.length = .ok frames := by
    rw [sliceFrom, if_neg (by simp), List.drop_left]
  rcases hunlock : unlockEbox ssl agent card stream.ebox.asRead s t with ⟨fault | ⟨⟩, e', s', t'⟩
  · simp only [Decryptor.decrypt, hread, hunlock]
  · rw [hunlock] at hsame
    -- The unlocked header serializes to the bytes in front of the frames.
    have hheader' : { stream with ebox := e' }.toBytes = .ok stream.encoding := by
      rw [← hheader]
      simp only [EboxStream.toBytes, hsame]
    simp only [Decryptor.decrypt, hread, hunlock, hheader', withLabel, ok_bind, hslice]

end

end

end Piggy.Box
