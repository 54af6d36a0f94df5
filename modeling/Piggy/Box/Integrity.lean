import Piggy.Box.RoundTrip

/-!
# Stream integrity

What a decryptor can accept behind the header of a fresh stream. The MAC of a frame
covers the ciphertext and neither the sequence number nor the end of the stream: the
accepted frames are numbered in order and each carries a ciphertext of the stream,
and frames that are left as they were written form a prefix of what was written.
-/

namespace Piggy.Box

open Piggy.Core

section

variable {Scalar Point Rng : Type} {ssl : OpenSsl Scalar Point Rng}

/-- A ciphertext and the plaintext it is opened to. -/
structure OpenedFrame where
  ciphertext : Bytes
  plain : Bytes

/-- A ciphertext opens to a plaintext under a sequence number. -/
def OpenedFrame.OpensAt (ssl : OpenSsl Scalar Point Rng) (key : Bytes) (seqnr : UInt32)
    (f : OpenedFrame) : Prop :=
  ∃ padded, ssl.aes256Ctr key (seqnrToIv seqnr) f.ciphertext = .ok padded ∧
    pkcs7Unpad padded aesBlockSize = .ok f.plain

/-- A ciphertext that fills a block at least and fits a frame together with its MAC. -/
def OpenedFrame.Framed (ssl : OpenSsl Scalar Point Rng) (key : Bytes) (f : OpenedFrame) : Prop :=
  16 ≤ f.ciphertext.length ∧ (ssl.hmacSha256 key f.ciphertext).length = hmacLen ∧
    FitsString (f.ciphertext ++ ssl.hmacSha256 key f.ciphertext)

/-- Opened frames in the order of their sequence numbers, counted from the first. -/
def OpenInOrder (ssl : OpenSsl Scalar Point Rng) (key : Bytes) : UInt32 → List OpenedFrame → Prop
  | _, [] => True
  | seqnr, f :: fs => f.OpensAt ssl key seqnr ∧ OpenInOrder ssl key (seqnr + 1) fs

/-- The bytes of frames with their MACs, numbered in order. -/
def numberedFrames (ssl : OpenSsl Scalar Point Rng) (key : Bytes) :
    UInt32 → List OpenedFrame → List Bytes
  | _, [] => []
  | seqnr, f :: fs =>
    frameBytes seqnr (f.ciphertext ++ ssl.hmacSha256 key f.ciphertext) ::
      numberedFrames ssl key (seqnr + 1) fs

/-! ## What the loop accepts -/

/-- The data of a frame, when its length is the one the frame states. -/
private theorem frame_of_parts {seqnr : UInt32} {data enc rest : Bytes} (hfits : FitsString enc)
    (hdata : data = toBe 4 seqnr.toNat ++ (string32 enc ++ rest))
    (hlen : data.length = 4 + 4 + ofBe ((data.drop 4).take 4)) : data = frameBytes seqnr enc := by
  have hstated : (data.drop 4).take 4 = toBe 4 enc.length := by
    rw [hdata, List.drop_left' (length_toBe 4 _), string32, List.append_assoc,
      List.take_left' (length_toBe 4 _)]
  have hfit : enc.length < 256 ^ 4 := hfits
  rw [hstated, ofBe_toBe, Nat.mod_eq_of_lt hfit, hdata] at hlen
  simp only [List.length_append, length_toBe, length_string32] at hlen
  have hrest : rest = [] := List.length_eq_zero_iff.mp (by omega)
  rw [hdata, hrest, List.append_nil, frameBytes]

/-- A frame that is accepted carries the expected number and the MAC of its ciphertext. -/
theorem decryptChunk_ok {s : EboxStream} {key : Bytes} (hk : s.ebox.key = some key)
    {expected seqnr : UInt32} {data plain : Bytes}
    (hlen : data.length = 4 + 4 + ofBe ((data.drop 4).take 4))
    (h : s.decryptChunk ssl (some expected) data = .ok (seqnr, plain)) :
    ∃ f : OpenedFrame, f.plain = plain ∧ f.Framed ssl key ∧ f.OpensAt ssl key expected ∧
      data = frameBytes expected (f.ciphertext ++ ssl.hmacSha256 key f.ciphertext) := by
  simp only [EboxStream.decryptChunk, hk, bind_ok, Option.getD_some] at h
  obtain ⟨⟨seqnr', r⟩, hseq, ⟨enc, r'⟩, henc, h⟩ := h
  obtain ⟨-, hspan, -⟩ := getU32_exact.spans hseq
  obtain ⟨hfits, hspan', -⟩ := getString_exact.spans henc
  have hdata : data = toBe 4 seqnr'.toNat ++ (string32 enc ++ r'.rest) := by
    rw [← hspan']
    exact hspan
  obtain ⟨hnum, h⟩ := guard_ok.mp h
  obtain ⟨hshort, h⟩ := guard_ok.mp h
  obtain ⟨hmac, h⟩ := guard_ok.mp h
  simp only [bind_ok, pure_ok, liftSsl_ok, Prod.mk.injEq] at h
  obtain ⟨padded, haes, plain', hpad, -, rfl⟩ := h
  obtain rfl : seqnr' = expected := not_not.mp hnum
  refine ⟨⟨enc.take (enc.length - hmacLen), plain'⟩, rfl, ?_, ⟨padded, haes, hpad⟩, ?_⟩
  · simp only [hmacLen, aesBlockSize] at hshort
    refine ⟨?_, ?_, ?_⟩
    · rw [List.length_take, hmacLen]
      omega
    · rw [not_not.mp hmac, List.length_drop, hmacLen]
      dsimp only
      omega
    · rwa [not_not.mp hmac, List.take_append_drop]
  · rw [not_not.mp hmac, List.take_append_drop]
    exact frame_of_parts hfits hdata hlen

/-- The frames a run of the loop accepts: they are numbered from the expected number on,
carry the MACs of their ciphertexts and open to what the loop returns. -/
theorem decryptFrames_ok {s : EboxStream} {key : Bytes} (hk : s.ebox.key = some key) {turns : Nat}
    {expected : UInt32} {data out : Bytes} (hturns : data.length ≤ turns)
    (h : decryptFrames ssl s turns expected data = .ok out) :
    ∃ opened : List OpenedFrame, data = (numberedFrames ssl key expected opened).flatten ∧
      out = (opened.map OpenedFrame.plain).flatten ∧ OpenInOrder ssl key expected opened ∧
      ∀ f ∈ opened, f.Framed ssl key := by
  induction turns generalizing expected data out with
  | zero =>
    obtain rfl := List.length_eq_zero_iff.mp (Nat.le_zero.mp hturns)
    cases h
    exact ⟨[], rfl, rfl, trivial, by simp⟩
  | succ turns ih =>
    rw [decryptFrames] at h
    split at h
    · next hempty =>
      cases h
      exact ⟨[], List.isEmpty_iff.mp hempty, rfl, trivial, by simp⟩
    · obtain ⟨hlong, h⟩ := guard_ok.mp h
      obtain ⟨hwhole, h⟩ := guard_ok.mp h
      simp only [bind_ok, pure_ok] at h
      obtain ⟨⟨seqnr, plain⟩, hchunk, out', hrest, rfl⟩ := h
      have hchunk' := withLabel_ok.mp hchunk
      have htake : ((data.take (4 + 4 + ofBe ((data.drop 4).take 4))).drop 4).take 4 =
          (data.drop 4).take 4 := by
        rw [List.drop_take, List.take_take]
        congr 1
        omega
      obtain ⟨f, rfl, hlen, hopens, hframe⟩ := decryptChunk_ok hk
        (by rw [htake, List.length_take]; omega) hchunk'
      obtain ⟨fs, hdata, rfl, horder, hlens⟩ := ih (by rw [List.length_drop]; omega) hrest
      refine ⟨f :: fs, ?_, rfl, ⟨hopens, horder⟩, ?_⟩
      · rw [numberedFrames, List.flatten_cons, ← hdata, ← hframe, List.take_append_drop]
      · intro g hg
        rcases List.mem_cons.mp hg with rfl | hg
        · exact hlen
        · exact hlens g hg

/-- A frame with the expected number and the MAC of its ciphertext is accepted. -/
theorem decryptChunk_framed {s : EboxStream} {key : Bytes} (hk : s.ebox.key = some key)
    {expected : UInt32} {f : OpenedFrame} (hf : f.Framed ssl key)
    (hopens : f.OpensAt ssl key expected) :
    s.decryptChunk ssl (some expected)
      (frameBytes expected (f.ciphertext ++ ssl.hmacSha256 key f.ciphertext)) =
        .ok (expected, f.plain) := by
  obtain ⟨hblock, hmac, hfits⟩ := hf
  obtain ⟨padded, haes, hpad⟩ := hopens
  have hseq : Reads getU32 (toBe 4 expected.toNat) expected := getU32_exact.reads trivial
  have hstr := getString_exact.reads hfits (0 + (toBe 4 expected.toNat).length) []
  rw [List.append_nil] at hstr
  have hoff : (f.ciphertext ++ ssl.hmacSha256 key f.ciphertext).length - hmacLen =
      f.ciphertext.length := by
    rw [List.length_append, hmac]
    omega
  have hlong : ¬ (f.ciphertext ++ ssl.hmacSha256 key f.ciphertext).length <
      hmacLen + aesBlockSize := by
    rw [List.length_append, hmac, aesBlockSize]
    omega
  simp only [EboxStream.decryptChunk, hk, frameBytes, WireReader.new, hseq _ _, ok_bind, hstr,
    Option.getD_some, ne_eq, not_true_eq_false, if_false, if_neg hlong, hoff, List.take_left,
    List.drop_left, haes, liftSsl, hpad]
  rfl

/-- Frames the loop accepts under a key: numbered in order, with the MACs of their
ciphertexts, every ciphertext opening under its number. -/
def FramesUnder (ssl : OpenSsl Scalar Point Rng) (key : Bytes) (expected : UInt32)
    (data : Bytes) : Prop :=
  ∃ opened : List OpenedFrame, data = (numberedFrames ssl key expected opened).flatten ∧
    OpenInOrder ssl key expected opened ∧ ∀ f ∈ opened, f.Framed ssl key

private theorem decryptFrames_numbered {s : EboxStream} {key : Bytes}
    (hk : s.ebox.key = some key) {turns : Nat} {expected : UInt32} {opened : List OpenedFrame}
    (horder : OpenInOrder ssl key expected opened) (hframed : ∀ f ∈ opened, f.Framed ssl key)
    (hturns : (numberedFrames ssl key expected opened).flatten.length ≤ turns) :
    decryptFrames ssl s turns expected (numberedFrames ssl key expected opened).flatten =
      .ok (opened.map OpenedFrame.plain).flatten := by
  induction opened generalizing turns expected with
  | nil => cases turns <;> rfl
  | cons f fs ih =>
    obtain ⟨hopens, hrest⟩ := horder
    have hf := hframed f (by simp)
    simp only [numberedFrames, List.flatten_cons] at hturns ⊢
    have hflen : 8 ≤ (frameBytes expected
        (f.ciphertext ++ ssl.hmacSha256 key f.ciphertext)).length := by
      simp [frameBytes]
      omega
    rw [List.length_append] at hturns
    obtain ⟨turns, rfl⟩ : ∃ k, turns = k + 1 := ⟨turns - 1, by omega⟩
    rw [decryptFrames_cons hf.2.2, decryptChunk_framed hk hf hopens]
    simp only [withLabel, ok_bind, ih hrest (fun g hg => hframed g (by simp [hg]))
      (by omega : _ ≤ turns)]
    rfl

/-- The loop accepts exactly the frames that verify under the key. -/
theorem exists_decryptFrames_ok {s : EboxStream} {key : Bytes} (hk : s.ebox.key = some key)
    {turns : Nat} {expected : UInt32} {data : Bytes} (hturns : data.length ≤ turns) :
    (∃ out, decryptFrames ssl s turns expected data = .ok out) ↔
      FramesUnder ssl key expected data := by
  constructor
  · rintro ⟨out, h⟩
    obtain ⟨opened, hdata, -, horder, hframed⟩ := decryptFrames_ok hk hturns h
    exact ⟨opened, hdata, horder, hframed⟩
  · rintro ⟨opened, rfl, horder, hframed⟩
    exact ⟨_, decryptFrames_numbered hk horder hframed hturns⟩

/-! ## Honest frames -/

/-- A frame that was written for one of the chunks. -/
def HonestFrame (ssl : OpenSsl Scalar Point Rng) (stream : EboxStream) (chunks : List Bytes)
    (frame : Bytes) : Prop :=
  ∃ (i : Nat) (chunk : Bytes), chunks[i]? = some chunk ∧
    stream.encryptChunk ssl (UInt32.ofNat i) chunk = .ok frame

/-- A ciphertext that was written for one of the chunks. -/
def HonestCiphertext (ssl : OpenSsl Scalar Point Rng) (stream : EboxStream) (key : Bytes)
    (chunks : List Bytes) (ct : Bytes) : Prop :=
  ∃ seqnr, HonestFrame ssl stream chunks
    (putString (putU32 [] seqnr) (ct ++ ssl.hmacSha256 key ct))

/-- An ideal MAC: wherever data holds a frame whose MAC is right, the ciphertext was
written for one of the chunks. -/
def IdealMac (ssl : OpenSsl Scalar Point Rng) (stream : EboxStream) (key : Bytes)
    (chunks : List Bytes) (data : Bytes) : Prop :=
  ∀ before seqnr ct after, 16 ≤ ct.length →
    data = before ++ (frameBytes seqnr (ct ++ ssl.hmacSha256 key ct) ++ after) →
    HonestCiphertext ssl stream key chunks ct

/-- Every ciphertext of accepted frames is honest under an ideal MAC. -/
private theorem honest_of_idealMac {stream : EboxStream} {key : Bytes} {chunks : List Bytes}
    {seqnr : UInt32} {opened : List OpenedFrame} (before : Bytes)
    (hmac : IdealMac ssl stream key chunks
      (before ++ (numberedFrames ssl key seqnr opened).flatten))
    (hlens : ∀ f ∈ opened, 16 ≤ f.ciphertext.length) :
    ∀ f ∈ opened, HonestCiphertext ssl stream key chunks f.ciphertext := by
  induction opened generalizing seqnr before with
  | nil => simp
  | cons f fs ih =>
    intro g hg
    rcases List.mem_cons.mp hg with rfl | hg
    · exact hmac before seqnr g.ciphertext _ (hlens g (by simp)) rfl
    · rw [numberedFrames, List.flatten_cons, ← List.append_assoc] at hmac
      exact ih _ hmac (fun f' hf' => hlens f' (by simp [hf'])) g hg

/-- What the writer of a frame computes. -/
theorem encryptChunk_ok {stream : EboxStream} {key : Bytes} (hk : stream.ebox.key = some key)
    {seqnr : UInt32} {chunk frame : Bytes} :
    stream.encryptChunk ssl seqnr chunk = .ok frame ↔
      ∃ ct, ssl.aes256Ctr key (seqnrToIv seqnr) (pkcs7Pad chunk aesBlockSize) = .ok ct ∧
        frame = putString (putU32 [] seqnr) (ct ++ ssl.hmacSha256 key ct) := by
  simp only [EboxStream.encryptChunk, hk, bind_ok, pure_ok, liftSsl_ok]
  constructor
  · rintro ⟨ct, hct, rfl⟩
    exact ⟨ct, hct, rfl⟩
  · rintro ⟨ct, hct, rfl⟩
    exact ⟨ct, hct, rfl⟩

/-- A written frame determines its sequence number and its data. -/
private theorem putString_eq_frameBytes {a b : UInt32} {data data' : Bytes}
    (h : putString (putU32 [] a) data = frameBytes b data') : a = b ∧ data = data' := by
  simp only [putString, putU32, putRaw, frameBytes, string32, List.nil_append,
    List.append_assoc] at h
  obtain ⟨hnum, h⟩ := List.append_inj h (by simp)
  obtain ⟨-, hdata⟩ := List.append_inj h (by simp)
  refine ⟨?_, hdata⟩
  have hval := congrArg ofBe hnum
  have ha : a.toNat < 256 ^ 4 := a.toNat_lt
  have hb : b.toNat < 256 ^ 4 := b.toNat_lt
  rw [ofBe_toBe, ofBe_toBe, Nat.mod_eq_of_lt ha, Nat.mod_eq_of_lt hb] at hval
  exact UInt32.toNat_inj.mp hval

/-- An honest frame in its own place is the frame of the chunk with that index, and opens
to that chunk. -/
private theorem honestFrame_at (hssl : ssl.Lawful) {stream : EboxStream} {key : Bytes}
    (hk : stream.ebox.key = some key) {chunks : List Bytes} (hcount : chunks.length < 2 ^ 32)
    {i : Nat} (hi : i ≤ chunks.length) {f : OpenedFrame}
    (hopens : f.OpensAt ssl key (UInt32.ofNat i))
    (hhonest : HonestFrame ssl stream chunks
      (frameBytes (UInt32.ofNat i) (f.ciphertext ++ ssl.hmacSha256 key f.ciphertext))) :
    chunks[i]? = some f.plain ∧ stream.encryptChunk ssl (UInt32.ofNat i) f.plain =
      .ok (frameBytes (UInt32.ofNat i) (f.ciphertext ++ ssl.hmacSha256 key f.ciphertext)) := by
  obtain ⟨j, chunk, hchunk, henc⟩ := hhonest
  obtain ⟨ct, hct, hframe⟩ := (encryptChunk_ok hk).mp henc
  obtain ⟨hnum, hdata⟩ := putString_eq_frameBytes hframe.symm
  have hj : j < chunks.length := (List.getElem?_eq_some_iff.mp hchunk).1
  obtain rfl : j = i := by
    have hval := congrArg UInt32.toNat hnum
    rwa [UInt32.toNat_ofNat', UInt32.toNat_ofNat', Nat.mod_eq_of_lt (by omega),
      Nat.mod_eq_of_lt (by omega)] at hval
  obtain ⟨rfl, -⟩ := List.append_inj' hdata
    (by rw [hssl.length_hmacSha256, hssl.length_hmacSha256])
  obtain ⟨padded, haes, hpad⟩ := hopens
  rw [hssl.aes256Ctr_involutive hct] at haes
  cases haes
  rw [pkcs7Unpad_pkcs7Pad chunk (by decide) (by decide)] at hpad
  cases hpad
  exact ⟨hchunk, henc⟩

/-- Honest frames in their places are the frames of the next chunks. -/
private theorem encryptChunks_of_honest (hssl : ssl.Lawful) {stream : EboxStream} {key : Bytes}
    (hk : stream.ebox.key = some key) {chunks : List Bytes} (hcount : chunks.length < 2 ^ 32)
    {i : Nat} (hi : i ≤ chunks.length) {opened : List OpenedFrame}
    (horder : OpenInOrder ssl key (UInt32.ofNat i) opened)
    (hhonest : ∀ frame ∈ numberedFrames ssl key (UInt32.ofNat i) opened,
      HonestFrame ssl stream chunks frame) :
    i + opened.length ≤ chunks.length ∧
      opened.map OpenedFrame.plain = (chunks.drop i).take opened.length ∧
      encryptChunks ssl stream i ((chunks.drop i).take opened.length) =
        .ok (numberedFrames ssl key (UInt32.ofNat i) opened).flatten := by
  induction opened generalizing i with
  | nil => exact ⟨hi, by simp, by simp [encryptChunks, numberedFrames]⟩
  | cons f fs ih =>
    obtain ⟨hopens, horder⟩ := horder
    obtain ⟨hchunk, henc⟩ := honestFrame_at hssl hk hcount hi hopens (hhonest _ (by
      rw [numberedFrames]
      exact List.mem_cons_self))
    obtain ⟨hlt, hget⟩ := List.getElem?_eq_some_iff.mp hchunk
    have hnext : UInt32.ofNat i + 1 = UInt32.ofNat (i + 1) := by
      apply UInt32.toNat_inj.mp
      simp
    rw [hnext] at horder
    obtain ⟨hle, hplain, hrest⟩ := ih (by omega) horder (by
      intro frame hframe
      refine hhonest frame ?_
      rw [numberedFrames, hnext]
      exact List.mem_cons_of_mem _ hframe)
    have hdrop : (chunks.drop i).take (f :: fs).length =
        f.plain :: (chunks.drop (i + 1)).take fs.length := by
      rw [List.drop_eq_getElem_cons hlt, hget, List.length_cons, List.take_succ_cons]
    refine ⟨by rw [List.length_cons]; omega, ?_, ?_⟩
    · rw [hdrop, List.map_cons, hplain]
    · rw [hdrop, encryptChunks, henc, ok_bind, hrest, ok_bind, numberedFrames, hnext]
      rfl

/-! ## What a decryptor accepts -/

variable {σ τ : Type}

/-- The accepted bytes are the honest frames and nothing else. -/
def AcceptsOnlyHonest (ssl : OpenSsl Scalar Point Rng) (agent : Option (EcdhOracle σ))
    (card : Option (EcdhOracle τ)) (s : σ) (t : τ) (stream : EboxStream) (chunks : List Bytes) :
    Prop :=
  ∀ key header rest p, stream.ebox.key = some key → stream.toBytes = .ok header →
    IdealMac ssl stream key chunks rest →
    (Decryptor.decrypt ssl agent card s t (header ++ rest)).1 = .ok p →
    encryptChunks ssl stream 0 chunks = .ok rest ∧ p = chunks.flatten

/-- What a decryptor accepts behind the header of a fresh stream: frames numbered from
zero, each with a ciphertext of the stream, opened one by one. When every frame is one
that was written, they are the first of those that were written, in order. -/
theorem decrypt_accepts (hssl : ssl.Lawful) {dealer : Dealer Rng} (hdealer : dealer.Lawful)
    {tpl : EboxTemplate} (htpl : tpl.Fits) {rng rng' : Rng} {stream : EboxStream}
    (hnew : EboxStream.new ssl dealer tpl rng = .ok (stream, rng'))
    {agent : Option (EcdhOracle σ)} {card : Option (EcdhOracle τ)}
    (hreject : ∀ c ∈ stream.ebox.configs, c.configType = .primary → ∀ part ∈ c.parts,
      RejectsOthers ssl (EitherMayAnswer agent card) part.pivBox)
    {key header rest p : Bytes} (hkey : stream.ebox.key = some key)
    (hheader : stream.toBytes = .ok header) {chunks : List Bytes}
    (hmac : IdealMac ssl stream key chunks rest) {s : σ} {t : τ}
    (h : (Decryptor.decrypt ssl agent card s t (header ++ rest)).1 = .ok p) :
    ∃ opened : List OpenedFrame, rest = (numberedFrames ssl key 0 opened).flatten ∧
      p = (opened.map OpenedFrame.plain).flatten ∧ OpenInOrder ssl key 0 opened ∧
      (∀ f ∈ opened, HonestCiphertext ssl stream key chunks f.ciphertext) ∧
      (chunks.length < 2 ^ 32 →
        (∀ frame ∈ numberedFrames ssl key 0 opened, HonestFrame ssl stream chunks frame) →
        opened.length ≤ chunks.length ∧ p = (chunks.take opened.length).flatten ∧
          encryptChunks ssl stream 0 (chunks.take opened.length) = .ok rest) := by
  have hdeal : ∀ c ∈ tpl.configs, c.configType = .recovery → dealer.Lawful := fun _ _ _ => hdealer
  obtain ⟨key', -, hsealed, -, hkey', -⟩ := new_spec hssl hdeal hnew
  obtain rfl : key' = key := by simpa [hkey'] using hkey
  obtain ⟨hbytes, hrun⟩ := decrypt_fresh hssl htpl hdeal hnew agent card rest s t
  obtain rfl : stream.encoding = header := by simpa [hbytes] using hheader
  rw [hrun] at h
  rcases unlockEbox_asRead hssl hsealed hreject s t with
    ⟨⟨fault, e', s', t', hfail⟩, -⟩ | ⟨e', s', t', hunlock, hkeyed⟩
  · rw [hfail] at h
    cases h
  rw [hunlock] at h
  obtain ⟨opened, rfl, rfl, horder, hlens⟩ := decryptFrames_ok hkeyed (Nat.le_refl _) h
  refine ⟨opened, rfl, rfl, horder, ?_, ?_⟩
  · exact honest_of_idealMac [] hmac fun f hf => (hlens f hf).1
  · intro hcount hhonest
    obtain ⟨hle, hplain, hframes⟩ :=
      encryptChunks_of_honest hssl hkey hcount (Nat.zero_le _) horder hhonest
    rw [List.drop_zero] at hplain hframes
    exact ⟨by omega, by rw [hplain], hframes⟩

end

/-! ## A stream cut short -/

/-- The ciphertext of a chunk under the sample library. -/
def sampleCiphertext (chunk : Bytes) : Bytes := (pkcs7Pad chunk 16).map (· ^^^ 0x5A)

/-- The first frame of the sample stream for a chunk. -/
def sampleFrame (chunk : Bytes) : Bytes :=
  putString (putU32 [] 0) (sampleCiphertext chunk ++
    OpenSsl.sample.hmacSha256 (List.replicate 32 0) (sampleCiphertext chunk))

/-- One short frame has room for one ciphertext only. -/
private theorem idealMac_sampleFrame (chunks : List Bytes) :
    IdealMac OpenSsl.sample sampleStream (List.replicate 32 0) (strBytes "hi" :: chunks)
      (sampleFrame (strBytes "hi")) := by
  intro before seqnr ct after hct hdata
  have hmac := OpenSsl.sample_lawful.length_hmacSha256 (List.replicate 32 0) ct
  have hlen : 56 = (before ++ (frameBytes seqnr
      (ct ++ OpenSsl.sample.hmacSha256 (List.replicate 32 0) ct) ++ after)).length :=
    congrArg List.length hdata
  simp only [frameBytes, List.length_append, length_toBe, length_string32, hmac] at hlen
  obtain rfl : before = [] := List.length_eq_zero_iff.mp (by omega)
  obtain rfl : after = [] := List.length_eq_zero_iff.mp (by omega)
  rw [List.nil_append, List.append_nil] at hdata
  obtain ⟨-, hsame⟩ := putString_eq_frameBytes hdata
  obtain ⟨rfl, -⟩ := List.append_inj' hsame (by rw [hmac]; rfl)
  exact ⟨0, 0, strBytes "hi", rfl, rfl⟩

set_option maxRecDepth 20000 in
/-- The decryptor takes the header and the first frame for a whole stream. -/
private theorem decrypt_sampleFrame :
    (Decryptor.decrypt OpenSsl.sample (none : Option (EcdhOracle Unit)) (some sampleCard) () ()
      (sampleStream.encoding ++ sampleFrame (strBytes "hi"))).1 = .ok (strBytes "hi") := by
  rfl

private theorem sampleDealer_lawful : sampleDealer.Lawful := by
  intro n secret m rng share hshare
  cases hshare

private theorem toBytes_sampleStream : sampleStream.toBytes = .ok sampleStream.encoding :=
  (decrypt_fresh OpenSsl.sample_lawful sampleTemplate_fits (fun _ _ _ => sampleDealer_lawful)
    (new_sampleTemplate _) (none : Option (EcdhOracle Unit)) (some sampleCard) [] () ()).1

/-- The sample stream without its second frame is accepted. -/
theorem not_acceptsOnlyHonest_truncated :
    ¬ AcceptsOnlyHonest OpenSsl.sample (none : Option (EcdhOracle Unit)) (some sampleCard) () ()
      sampleStream [strBytes "hi", strBytes "there"] := by
  intro h
  obtain ⟨-, hplain⟩ := h _ _ _ _ rfl toBytes_sampleStream (idealMac_sampleFrame _)
    decrypt_sampleFrame
  exact absurd hplain (by decide)

/-- The frame that is left is one of the stream, and its chunk is what comes out. -/
theorem decrypt_accepts_sampleFrame :
    ∃ opened : List OpenedFrame,
      sampleFrame (strBytes "hi") =
        (numberedFrames OpenSsl.sample (List.replicate 32 0) 0 opened).flatten ∧
      strBytes "hi" = (opened.map OpenedFrame.plain).flatten := by
  obtain ⟨opened, hrest, hplain, -⟩ :=
    decrypt_accepts OpenSsl.sample_lawful sampleDealer_lawful sampleTemplate_fits
      (new_sampleTemplate _) (fun c hc _ => sampleStream_rejectsOthers c hc) rfl
      toBytes_sampleStream (idealMac_sampleFrame [strBytes "there"]) decrypt_sampleFrame
  exact ⟨opened, hrest, hplain⟩

end Piggy.Box
