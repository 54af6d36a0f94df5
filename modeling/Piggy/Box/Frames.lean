import Piggy.Box.Stream

/-!
# Frames

A frame is a sequence number and a length-prefixed piece of data. The loop of the
decryptor takes frames off the front one by one.
-/

namespace Piggy.Box

open Piggy.Core

section

variable {Scalar Point Rng : Type} {ssl : OpenSsl Scalar Point Rng}

/-- The bytes of a frame. -/
def frameBytes (seqnr : UInt32) (data : Bytes) : Bytes := toBe 4 seqnr.toNat ++ string32 data

theorem length_seqnrToIv (seqnr : UInt32) : (seqnrToIv seqnr).length = 16 := by
  simp [seqnrToIv, aesIvLen]

/-- The frame of a chunk that is not too long, and that the frame opens to the chunk. -/
theorem encryptChunk_spec (hssl : ssl.Lawful) {s : EboxStream} {key : Bytes}
    (hk : s.ebox.key = some key) (hlen : key.length = 32) (seqnr : UInt32) {chunk : Bytes}
    (hchunk : chunk.length + 48 < 2 ^ 32) :
    ∃ data, FitsString data ∧ s.encryptChunk ssl seqnr chunk = .ok (frameBytes seqnr data) ∧
      ∀ s' : EboxStream, s'.ebox.key = some key →
        s'.decryptChunk ssl (some seqnr) (frameBytes seqnr data) = .ok (seqnr, chunk) := by
  obtain ⟨ct, hct, hctl⟩ := hssl.aes256Ctr_total (pkcs7Pad chunk aesBlockSize) hlen
    (length_seqnrToIv seqnr)
  have hmac := hssl.length_hmacSha256 key ct
  have hctlen : ct.length = chunk.length + (16 - chunk.length % 16) := by
    rw [hctl, length_pkcs7Pad, aesBlockSize]
  have hfits : FitsString (ct ++ ssl.hmacSha256 key ct) := by
    rw [FitsString, List.length_append, hmac]
    omega
  refine ⟨ct ++ ssl.hmacSha256 key ct, hfits, ?_, ?_⟩
  · simp only [EboxStream.encryptChunk, hk, hct, liftSsl, ok_bind, putString_eq _ hfits]
    rfl
  · intro s' hk'
    have hseq : Reads getU32 (toBe 4 seqnr.toNat) seqnr := getU32_exact.reads trivial
    have hstr := getString_exact.reads hfits (0 + (toBe 4 seqnr.toNat).length) []
    rw [List.append_nil] at hstr
    have hoff : (ct ++ ssl.hmacSha256 key ct).length - hmacLen = ct.length := by
      rw [List.length_append, hmac]
      simp [hmacLen]
    have hlong : ¬ (ct ++ ssl.hmacSha256 key ct).length < hmacLen + aesBlockSize := by
      rw [List.length_append, hmac, hmacLen, aesBlockSize]
      omega
    simp only [EboxStream.decryptChunk, hk', frameBytes, WireReader.new, hseq _ _, ok_bind, hstr,
      Option.getD_some, ne_eq, not_true_eq_false, if_false, if_neg hlong, hoff, List.take_left,
      List.drop_left, hssl.aes256Ctr_involutive hct, liftSsl,
      pkcs7Unpad_pkcs7Pad chunk (by decide : 0 < aesBlockSize) (by decide)]
    rfl

/-- The loop takes one frame off the front. -/
theorem decryptFrames_cons {s : EboxStream} {turns : Nat} {expected : UInt32} {data rest : Bytes}
    (hfits : FitsString data) :
    decryptFrames ssl s (turns + 1) expected (frameBytes expected data ++ rest) =
      (withLabel s!"chunk {expected.toNat}: "
        (s.decryptChunk ssl (some expected) (frameBytes expected data)) >>= fun x =>
        decryptFrames ssl s turns (expected + 1) rest >>= fun out => pure (x.2 ++ out)) := by
  have hflen : (frameBytes expected data).length = 8 + data.length := by
    simp [frameBytes]
    omega
  have hdrop : ((frameBytes expected data ++ rest).drop 4).take 4 = toBe 4 data.length := by
    rw [frameBytes, List.append_assoc,
      List.drop_left' (length_toBe 4 expected.toNat), string32, List.append_assoc,
      List.take_left' (length_toBe 4 data.length)]
  have hframe : 4 + 4 + ofBe (((frameBytes expected data ++ rest).drop 4).take 4) =
      (frameBytes expected data).length := by
    have hfit : data.length < 256 ^ 4 := hfits
    rw [hdrop, ofBe_toBe, Nat.mod_eq_of_lt hfit, hflen]
  have hne : (frameBytes expected data ++ rest).isEmpty = false := by
    rw [List.isEmpty_eq_false_iff, ← List.length_pos_iff, List.length_append]
    omega
  rw [decryptFrames, if_neg (by simp [hne]), if_neg (by rw [List.length_append]; omega)]
  simp only [hframe]
  rw [if_neg (by rw [List.length_append]; omega), List.take_left, List.drop_left]

/-- The frames of numbered chunks decrypt to the chunks in order. -/
theorem decryptFrames_encryptChunks (hssl : ssl.Lawful) {s : EboxStream} (s' : EboxStream)
    {key : Bytes}
    (hk : s.ebox.key = some key) (hk' : s'.ebox.key = some key) (hlen : key.length = 32)
    {chunks : List Bytes} (hchunks : ∀ c ∈ chunks, c.length + 48 < 2 ^ 32) (i : Nat) :
    ∃ frames, encryptChunks ssl s i chunks = .ok frames ∧
      ∀ turns, frames.length ≤ turns →
        decryptFrames ssl s' turns (UInt32.ofNat i) frames = .ok chunks.flatten := by
  induction chunks generalizing i with
  | nil =>
    refine ⟨[], rfl, ?_⟩
    intro turns _
    cases turns <;> rfl
  | cons chunk chunks ih =>
    obtain ⟨data, hfits, henc, hdec⟩ :=
      encryptChunk_spec hssl hk hlen (UInt32.ofNat i) (hchunks chunk (by simp))
    obtain ⟨frames, hframes, hrest⟩ := ih (fun c hc => hchunks c (by simp [hc])) (i + 1)
    refine ⟨frameBytes (UInt32.ofNat i) data ++ frames, ?_, ?_⟩
    · rw [encryptChunks, henc, ok_bind, hframes]
      rfl
    · intro turns hturns
      have hflen : 8 ≤ (frameBytes (UInt32.ofNat i) data).length := by
        simp [frameBytes]
        omega
      rw [List.length_append] at hturns
      obtain ⟨turns, rfl⟩ : ∃ k, turns = k + 1 := ⟨turns - 1, by omega⟩
      have hnext : UInt32.ofNat i + 1 = UInt32.ofNat (i + 1) := by
        apply UInt32.toNat_inj.mp
        simp
      rw [decryptFrames_cons hfits, hdec s' hk', hnext]
      simp only [withLabel, ok_bind, hrest turns (by omega)]
      rfl

/-- The chunks of a plaintext put together are the plaintext, and none is longer than
the chunk size. -/
theorem streamChunks_spec {size : UInt64} (hsize : 0 < size.toNat) (plaintext : Bytes) :
    (streamChunks size plaintext).flatten = plaintext ∧
      ∀ c ∈ streamChunks size plaintext, c.length ≤ size.toNat := by
  have hchunks : ∀ pieces (data : Bytes), data.length ≤ pieces →
      (chunksOf size.toNat pieces data).flatten = data ∧
        ∀ c ∈ chunksOf size.toNat pieces data, c.length ≤ size.toNat := by
    intro pieces
    induction pieces with
    | zero =>
      intro data hd
      obtain rfl := List.length_eq_zero_iff.mp (Nat.le_zero.mp hd)
      simp [chunksOf]
    | succ pieces ih =>
      intro data hd
      rw [chunksOf]
      by_cases he : data.isEmpty
      · simp [List.isEmpty_iff.mp he]
      · have hpos : 0 < data.length := by
          rw [List.length_pos_iff, ← List.isEmpty_eq_false_iff]
          simpa using he
        obtain ⟨hflat, hle⟩ := ih (data.drop size.toNat) (by rw [List.length_drop]; omega)
        rw [if_neg he, List.flatten_cons, hflat, List.take_append_drop]
        refine ⟨rfl, ?_⟩
        intro c hc
        rcases List.mem_cons.mp hc with rfl | hc
        · exact List.length_take_le _ _
        · exact hle c hc
  unfold streamChunks
  by_cases he : plaintext.isEmpty
  · simp [List.isEmpty_iff.mp he]
  · rw [if_neg he]
    exact hchunks _ _ (Nat.le_refl _)

end

end Piggy.Box
