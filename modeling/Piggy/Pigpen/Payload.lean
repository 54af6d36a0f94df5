import Mathlib.Data.List.Forall2
import Mathlib.Data.List.Nodup
import Piggy.Pigpen.Crypto

/-!
# The payload of a document

Sealing cuts a plaintext into chunks and opening cuts a payload into sealed chunks. Both cuts
agree at every length, and a chunk is sealed under its number and whether it is the last one.
So nothing but the payload itself is put together from sealed chunks that are read in turn.
-/

namespace Piggy.Pigpen.Crates

open Piggy.Core
open Piggy.Box (Bytes)

/-! ## Chunks -/

/-- A chunk of a plaintext, or a sealed chunk of a payload. -/
structure Chunk where
  number : Nat
  last : Bool
  contents : Bytes
  deriving DecidableEq

/-- The nonce of a chunk. -/
def Chunk.nonce (x : Chunk) : Bytes := streamNonce x.number x.last

/-- What is cut into chunks of a size, from a number on; the first argument bounds the turns. -/
def cutFrom (size : Nat) : Nat → Nat → Bytes → List Chunk
  | 0, _, _ => []
  | turns + 1, i, rest =>
    let last := decide (rest.length ≤ size)
    ⟨i, last, rest.take size⟩ :: if last then [] else cutFrom size turns (i + 1) (rest.drop size)

/-- The chunks of a plaintext. -/
def chunks (plain : Bytes) : List Chunk := cutFrom streamChunk (plain.length + 1) 0 plain

/-- The sealed chunks of a payload. -/
def sealedChunks (payload : Bytes) : List Chunk :=
  let body := payload.drop payloadNonceLen
  cutFrom (streamChunk + tagLen) (body.length + 1) 0 body

variable {size turns i : Nat} {rest : Bytes}

theorem mem_cutFrom {x : Chunk} (hsize : 0 < size) (h : x ∈ cutFrom size turns i rest) :
    i ≤ x.number ∧ x.number ≤ i + rest.length ∧ x.contents.length ≤ size := by
  induction turns generalizing i rest with
  | zero => cases h
  | succ turns ih =>
    rw [cutFrom] at h
    rcases List.mem_cons.mp h with rfl | h
    · exact ⟨Nat.le_refl i, Nat.le_add_right _ _, List.length_take_le _ _⟩
    · split at h
      · cases h
      · next hlast =>
        obtain ⟨hlow, hhigh, hcontents⟩ := ih h
        have hlong : ¬ rest.length ≤ size := by simpa using hlast
        rw [List.length_drop] at hhigh
        exact ⟨by omega, by omega, hcontents⟩

/-- Chunks are numbered upwards. -/
theorem pairwise_cutFrom (hsize : 0 < size) :
    (cutFrom size turns i rest).Pairwise fun x y => x.number < y.number := by
  induction turns generalizing i rest with
  | zero => exact .nil
  | succ turns ih =>
    rw [cutFrom]
    apply List.Pairwise.cons
    · intro y hy
      split at hy
      · cases hy
      · have hlow := (mem_cutFrom hsize hy).1
        exact hlow
    · split
      · exact .nil
      · exact ih

/-- A number belongs to one chunk. -/
theorem eq_of_number {x y : Chunk} (hsize : 0 < size) (hx : x ∈ cutFrom size turns i rest)
    (hy : y ∈ cutFrom size turns i rest) (h : x.number = y.number) : x = y := by
  have hnodup : ((cutFrom size turns i rest).map Chunk.number).Nodup := by
    rw [List.Nodup, List.pairwise_map]
    exact (pairwise_cutFrom hsize).imp Nat.ne_of_lt
  exact List.inj_on_of_nodup_map hnodup hx hy h

/-- The nonce of a chunk tells its number and whether it is the last one. -/
theorem streamNonce_inj {i j : Nat} {last last' : Bool} (hi : i < 2 ^ 64) (hj : j < 2 ^ 64)
    (h : streamNonce i last = streamNonce j last') : i = j ∧ last = last' := by
  rw [streamNonce, streamNonce, List.append_cancel_left_eq] at h
  obtain ⟨hcounter, hflag⟩ := List.append_inj h (by simp)
  refine ⟨?_, ?_⟩
  · have hread := congrArg ofBe hcounter
    rw [ofBe_toBe, ofBe_toBe] at hread
    omega
  · cases last <;> cases last' <;> simp_all

/-- The chunks behind each other are what was cut. -/
theorem flatten_cutFrom (hsize : 0 < size) (hturns : rest.length < turns) :
    ((cutFrom size turns i rest).map Chunk.contents).flatten = rest := by
  induction turns generalizing i rest with
  | zero => exact absurd hturns (Nat.not_lt_zero _)
  | succ turns ih =>
    rw [cutFrom]
    by_cases hlast : rest.length ≤ size
    · simp [hlast, List.take_of_length_le hlast]
    · have hshort : (rest.drop size).length < turns := by
        rw [List.length_drop]
        omega
      simp only [decide_eq_false hlast, Bool.false_eq_true, if_false, List.map_cons,
        List.flatten_cons, ih hshort, List.take_append_drop]

variable {Scalar Point : Type} {c : Crates Scalar Point} {key : Bytes}

/-! ## Sealing and opening, chunk by chunk -/

/-- A chunk is sealed to some bytes. -/
def SealsTo (c : Crates Scalar Point) (key : Bytes) (x : Chunk) (ct : Bytes) : Prop :=
  c.encrypt key x.nonce x.contents = .ok ct

/-- What is sealed is the sealed chunks behind each other. -/
theorem sealChunks_ok {out : Bytes} (hturns : rest.length < turns) :
    c.sealChunks key turns i rest = .ok out ↔
      ∃ cts, List.Forall₂ (SealsTo c key) (cutFrom streamChunk turns i rest) cts ∧
        out = cts.flatten := by
  induction turns generalizing i rest out with
  | zero => exact absurd hturns (Nat.not_lt_zero _)
  | succ turns ih =>
    simp only [sealChunks, cutFrom, bind_ok, orCrypto_ok, List.forall₂_cons_left_iff]
    by_cases hlast : rest.length ≤ streamChunk
    · simp only [decide_eq_true hlast, if_true, List.forall₂_nil_left_iff]
      constructor
      · rintro ⟨ct, hct, h⟩
        obtain rfl : ct = out := Except.ok.inj h
        exact ⟨_, ⟨ct, [], hct, rfl, rfl⟩, by simp⟩
      · rintro ⟨_, ⟨ct, _, hct, rfl, rfl⟩, rfl⟩
        exact ⟨ct, hct, by rw [List.flatten_cons, List.flatten_nil, List.append_nil]⟩
    · have hchunk : 0 < streamChunk := by decide
      have hshort : (rest.drop streamChunk).length < turns := by
        rw [List.length_drop]
        omega
      simp only [decide_eq_false hlast, Bool.false_eq_true, if_false, bind_ok, pure_ok, ih hshort]
      constructor
      · rintro ⟨ct, hct, _, ⟨cts, hcts, rfl⟩, rfl⟩
        exact ⟨_, ⟨ct, cts, hct, hcts, rfl⟩, rfl⟩
      · rintro ⟨_, ⟨ct, cts, hct, hcts, rfl⟩, rfl⟩
        exact ⟨ct, hct, _, ⟨cts, hcts, rfl⟩, rfl⟩

/-- What opens is not empty, and each of its chunks is accepted. -/
theorem accepts_of_openChunks {body plain : Bytes} (hturns : body.length < turns)
    (h : c.openChunks key turns i body = .ok plain) :
    ∀ y ∈ cutFrom (streamChunk + tagLen) turns i body,
      ∃ p, c.decrypt key y.nonce y.contents = .ok p := by
  induction turns generalizing i body plain with
  | zero => exact absurd hturns (Nat.not_lt_zero _)
  | succ turns ih =>
    simp only [openChunks, guard_ok, bind_ok, mapError_ok] at h
    obtain ⟨-, p, hp, h⟩ := h
    intro y hy
    rcases List.mem_cons.mp hy with rfl | hy
    · exact ⟨p, hp⟩
    · split at hy
      · cases hy
      · next hlast =>
        rw [if_neg hlast] at h
        simp only [bind_ok, pure_ok] at h
        obtain ⟨out, hout, -⟩ := h
        refine ih ?_ hout y hy
        have hlong : ¬ body.length ≤ streamChunk + tagLen := by simpa using hlast
        have hchunk : 0 < streamChunk := by decide
        rw [List.length_drop]
        omega

/-- A chunk of one list is the sealed form of the chunk of another list that has its place. -/
theorem contents_of_sealed {all : List Chunk} {turns' : Nat} {body : Bytes} {cts : List Bytes}
    (huniq : ∀ x ∈ all, ∀ y ∈ all, x.number = y.number → x = y)
    (hturns : rest.length < turns) (hturns' : body.length < turns')
    (hsub : ∀ x ∈ cutFrom streamChunk turns i rest, x ∈ all)
    (hcts : List.Forall₂ (SealsTo c key) (cutFrom streamChunk turns i rest) cts)
    (hsealed : ∀ y ∈ cutFrom (streamChunk + tagLen) turns' i body,
      ∃ x ∈ all, x.number = y.number ∧ x.last = y.last ∧ SealsTo c key x y.contents) :
    (cutFrom (streamChunk + tagLen) turns' i body).map Chunk.contents = cts := by
  induction turns generalizing i rest turns' body cts with
  | zero => exact absurd hturns (Nat.not_lt_zero _)
  | succ turns ih =>
    cases turns' with
    | zero => exact absurd hturns' (Nat.not_lt_zero _)
    | succ turns' =>
      rw [cutFrom] at hsub hcts hsealed ⊢
      obtain ⟨ct, cts, hct, hmore, rfl⟩ := List.forall₂_cons_left_iff.mp hcts
      obtain ⟨x, hx, hnumber, hlast, hseals⟩ := hsealed _ List.mem_cons_self
      -- the first chunks have one number
      obtain rfl := huniq _ hx _ (hsub _ List.mem_cons_self) hnumber
      have hcontents : body.take (streamChunk + tagLen) = ct := Except.ok.inj (hseals.symm.trans hct)
      have hchunk : 0 < streamChunk := by decide
      have hiff : rest.length ≤ streamChunk ↔ body.length ≤ streamChunk + tagLen := by
        simpa using hlast
      rw [List.map_cons, hcontents, List.cons.injEq]
      refine ⟨rfl, ?_⟩
      by_cases hend : rest.length ≤ streamChunk
      · rw [if_pos (decide_eq_true hend)] at hmore
        obtain rfl := List.forall₂_nil_left_iff.mp hmore
        rw [if_pos (decide_eq_true (hiff.mp hend))]
        rfl
      · have hlong : ¬ body.length ≤ streamChunk + tagLen := fun h => hend (hiff.mpr h)
        simp only [decide_eq_false hend, decide_eq_false hlong, Bool.false_eq_true,
          if_false] at hmore hsub hsealed ⊢
        refine ih ?_ ?_ (fun x hx => hsub x (List.mem_cons_of_mem _ hx)) hmore
          fun y hy => hsealed y (List.mem_cons_of_mem _ hy)
        · rw [List.length_drop]
          omega
        · rw [List.length_drop]
          omega

/-! ## The stream -/

/-- Of the chunks that opening a payload tries, the cipher accepts only those that sealing a
plaintext has made. -/
def Unforged (c : Crates Scalar Point) (fileKey nonce plain payload : Bytes) : Prop :=
  ∀ y ∈ sealedChunks payload, ∀ p,
    c.decrypt (c.hkdf32 fileKey nonce infoPayload) y.nonce y.contents = .ok p →
    ∃ x ∈ chunks plain, x.nonce = y.nonce ∧
      SealsTo c (c.hkdf32 fileKey nonce infoPayload) x y.contents

theorem number_lt {plain : Bytes} (hfits : plain.length < 2 ^ 64) {x : Chunk}
    (hx : x ∈ chunks plain) : x.number < 2 ^ 64 := by
  have hnumber := (mem_cutFrom (by decide) hx).2.1
  omega

/-- Chunks of one plaintext are sealed under nonces that are all different. -/
theorem nodup_nonces {plain : Bytes} (hfits : plain.length < 2 ^ 64) :
    ((chunks plain).map Chunk.nonce).Nodup := by
  rw [List.Nodup, List.pairwise_map]
  refine List.Pairwise.imp_of_mem ?_ (pairwise_cutFrom (by decide))
  intro x y hx hy hlt heq
  have hnumber := (streamNonce_inj (number_lt hfits hx) (number_lt hfits hy) heq).1
  omega

/-- Only the payload itself is opened under its nonce, as long as nobody forges a chunk. -/
theorem eq_of_openPayload {fileKey nonce plain payload other p : Bytes}
    (hfits : plain.length < 2 ^ 64) (hfits' : other.length < 2 ^ 64)
    (hseal : c.sealPayload fileKey plain nonce = .ok payload)
    (hstart : other.take payloadNonceLen = nonce)
    (hopen : c.openPayload fileKey other = .ok p) (hunforged : Unforged c fileKey nonce plain other) :
    other = payload := by
  simp only [sealPayload, bind_ok, pure_ok] at hseal
  obtain ⟨out, hout, rfl⟩ := hseal
  obtain ⟨cts, hcts, rfl⟩ := (sealChunks_ok (Nat.lt_succ_self _)).mp hout
  rw [openPayload, guard_ok] at hopen
  dsimp only at hopen
  rw [hstart] at hopen
  have haccepts := accepts_of_openChunks (Nat.lt_succ_self _) hopen.2
  have hcontents := contents_of_sealed (fun x hx y hy => eq_of_number (by decide) hx hy)
    (Nat.lt_succ_self _) (Nat.lt_succ_self _) (fun _ hx => hx) hcts (by
      intro y hy
      obtain ⟨p, hp⟩ := haccepts y hy
      obtain ⟨x, hx, hxy, hseals⟩ := hunforged y hy p hp
      have hy' := (mem_cutFrom (by decide) hy).2.1
      rw [List.length_drop] at hy'
      obtain ⟨hnumber, hlast⟩ := streamNonce_inj (number_lt hfits hx) (by omega) hxy
      exact ⟨x, hx, hnumber, hlast, hseals⟩)
  rw [← List.take_append_drop payloadNonceLen other, hstart, ← hcontents,
    flatten_cutFrom (by decide) (Nat.lt_succ_self _)]

/-- The cipher seals every chunk. -/
def SealsChunks (c : Crates Scalar Point) : Prop :=
  ∀ {key nonce plain}, nonce.length = 12 → plain.length ≤ streamChunk →
    ∃ ct, c.encrypt key nonce plain = .ok ct

theorem exists_sealed (hseals : c.SealsChunks) (key : Bytes) (xs : List Chunk)
    (hxs : ∀ x ∈ xs, x.contents.length ≤ streamChunk) :
    ∃ cts, List.Forall₂ (SealsTo c key) xs cts := by
  induction xs with
  | nil => exact ⟨[], .nil⟩
  | cons x xs ih =>
    have hnonce : x.nonce.length = 12 := by simp [Chunk.nonce, streamNonce]
    obtain ⟨ct, hct⟩ := hseals hnonce (hxs x List.mem_cons_self)
    obtain ⟨cts, hcts⟩ := ih fun y hy => hxs y (List.mem_cons_of_mem _ hy)
    exact ⟨ct :: cts, .cons hct hcts⟩

/-- A plaintext of any length is sealed chunk by chunk under different nonces to a payload that
opens to it, and no other bytes open under the nonce of that payload. -/
theorem payload_stream (hc : c.Lawful) (hseals : c.SealsChunks) {fileKey plain nonce : Bytes}
    (hnonce : nonce.length = payloadNonceLen) (hfits : plain.length < 2 ^ 64) :
    ∃ payload cts, c.sealPayload fileKey plain nonce = .ok payload ∧
      c.openPayload fileKey payload = .ok plain ∧
      List.Forall₂ (SealsTo c (c.hkdf32 fileKey nonce infoPayload)) (chunks plain) cts ∧
      payload = nonce ++ cts.flatten ∧ ((chunks plain).map Chunk.nonce).Nodup ∧
      ∀ other p, other.length < 2 ^ 64 → other.take payloadNonceLen = nonce →
        Unforged c fileKey nonce plain other → c.openPayload fileKey other = .ok p →
        other = payload := by
  obtain ⟨cts, hcts⟩ := exists_sealed hseals (c.hkdf32 fileKey nonce infoPayload)
    (chunks plain) fun x hx => (mem_cutFrom (by decide) hx).2.2
  have hseal : c.sealPayload fileKey plain nonce = .ok (nonce ++ cts.flatten) := by
    rw [sealPayload, (sealChunks_ok (Nat.lt_succ_self _)).mpr ⟨cts, hcts, rfl⟩]
    rfl
  refine ⟨_, cts, hseal, (openPayload_sealPayload hc hnonce hseal).2, hcts, rfl,
    nodup_nonces hfits, ?_⟩
  intro other p hfits' hstart hunforged hopen
  exact eq_of_openPayload hfits hfits' hseal hstart hopen hunforged

/-! ## A payload of two chunks -/

/-- The tag that a key puts on a ciphertext under a nonce. -/
def nonceTag (key nonce : Bytes) : Bytes := (nonce ++ (key ++ List.replicate 16 0)).take 16

/-- The sample crates with a cipher that marks its key and its nonce. -/
def marking : Crates UInt8 UInt8 :=
  { sample with
    encrypt := fun key nonce plain => .ok (plain ++ nonceTag key nonce)
    decrypt := fun key nonce ct =>
      if ct = ct.take (ct.length - tagLen) ++ nonceTag key nonce then
        .ok (ct.take (ct.length - tagLen))
      else .error "aead::Error" }

theorem length_nonceTag (key nonce : Bytes) : (nonceTag key nonce).length = tagLen := by
  simp only [nonceTag, tagLen, List.length_take, List.length_append, List.length_replicate]
  omega

theorem take_sub_tag (plain key nonce : Bytes) :
    (plain ++ nonceTag key nonce).take ((plain ++ nonceTag key nonce).length - tagLen) = plain := by
  rw [List.length_append, length_nonceTag, Nat.add_sub_cancel, List.take_left]

theorem marking_lawful : marking.Lawful where
  length_x25519Public := sample_lawful.length_x25519Public
  length_toEncodedPoint := sample_lawful.length_toEncodedPoint
  x25519_symm := sample_lawful.x25519_symm
  diffieHellman_symm := sample_lawful.diffieHellman_symm
  decrypt_encrypt := by
    intro key nonce plain ct h
    cases h
    simp only [marking, take_sub_tag, if_true]
  length_encrypt := by
    intro key nonce plain ct h
    cases h
    rw [List.length_append, length_nonceTag]
  length_hmacSha256 := sample_lawful.length_hmacSha256

theorem marking_sealsChunks : marking.SealsChunks := fun {_ _ _} _ _ => ⟨_, rfl⟩

/-- The marked cipher opens under no other nonce. -/
theorem nonce_of_marking {key nonce nonce' plain p : Bytes} (hnonce : nonce.length = 12)
    (hnonce' : nonce'.length = 12)
    (h : marking.decrypt key nonce' (plain ++ nonceTag key nonce) = .ok p) : nonce' = nonce := by
  simp only [marking, take_sub_tag] at h
  split at h
  · next htag =>
    have htags := congrArg (List.take 12) (List.append_cancel_left htag)
    rw [nonceTag, nonceTag, List.take_take, List.take_take, Nat.min_eq_left (by decide),
      List.take_append_of_le_length (by omega), List.take_append_of_le_length (by omega),
      ← hnonce, List.take_length, hnonce, ← hnonce', List.take_length] at htags
    exact htags.symm
  · cases h

theorem cutFrom_short (h : rest.length ≤ size) :
    cutFrom size (turns + 1) i rest = [⟨i, true, rest⟩] := by
  simp [cutFrom, h, List.take_of_length_le h]

theorem cutFrom_two (hlong : size < rest.length) (h : rest.length ≤ size + size) :
    cutFrom size (turns + 2) i rest =
      [⟨i, false, rest.take size⟩, ⟨i + 1, true, rest.drop size⟩] := by
  have hrest : (rest.drop size).length ≤ size := by
    rw [List.length_drop]
    omega
  rw [cutFrom, cutFrom_short hrest, decide_eq_false (Nat.not_le.mpr hlong)]
  rfl

theorem take_twice {front first later : Bytes} {m n : Nat} (hfront : front.length = m)
    (hfirst : first.length = n) : (front ++ (first ++ later)).take (m + n) = front ++ first := by
  subst hfront hfirst
  rw [← List.append_assoc, ← List.length_append, List.take_left]

/-- A chunk with more behind it stands at the end of no payload. -/
theorem unforged_cut {fileKey nonce plain front ct : Bytes} (hnonce : nonce.length = payloadNonceLen)
    (hfront : front.length ≤ streamChunk)
    (hct : SealsTo marking (marking.hkdf32 fileKey nonce infoPayload) ⟨0, false, front⟩ ct) :
    Unforged marking fileKey nonce plain (nonce ++ ct) := by
  have hlen := marking_lawful.length_encrypt hct
  intro y hy p hp
  rw [sealedChunks, ← hnonce, List.drop_left, cutFrom_short
    (hlen.trans_le (Nat.add_le_add_right hfront tagLen))] at hy
  obtain rfl := List.mem_singleton.mp hy
  obtain rfl := Except.ok.inj hct
  have hsame := nonce_of_marking (by simp [Chunk.nonce, streamNonce])
    (by simp [Chunk.nonce, streamNonce]) hp
  exact absurd (streamNonce_inj (Nat.two_pow_pos 64) (Nat.two_pow_pos 64) hsame).2 Bool.noConfusion

/-- A plaintext of two chunks is not opened from its first chunk. -/
theorem first_chunk_refused {fileKey nonce plain payload p : Bytes} {cts : List Bytes}
    (hnonce : nonce.length = payloadNonceLen) (hlong : streamChunk < plain.length)
    (hshort : plain.length ≤ streamChunk + streamChunk)
    (hcts : List.Forall₂ (SealsTo marking (marking.hkdf32 fileKey nonce infoPayload)) (chunks plain) cts)
    (hpayload : payload = nonce ++ cts.flatten)
    (honly : ∀ other p, other.length < 2 ^ 64 → other.take payloadNonceLen = nonce →
      Unforged marking fileKey nonce plain other → marking.openPayload fileKey other = .ok p →
      other = payload) :
    marking.openPayload fileKey (payload.take (payloadNonceLen + (streamChunk + tagLen))) ≠ .ok p := by
  obtain ⟨turns, hturns⟩ : ∃ turns, plain.length + 1 = turns + 2 := ⟨plain.length - 1, by omega⟩
  rw [chunks, hturns, cutFrom_two hlong hshort] at hcts
  obtain ⟨ct, rest, hct, hrest, rfl⟩ := List.forall₂_cons_left_iff.mp hcts
  obtain ⟨ct', rest, hct', hnil, rfl⟩ := List.forall₂_cons_left_iff.mp hrest
  have hlast := marking_lawful.length_encrypt hct'
  have hfirst := marking_lawful.length_encrypt hct
  have htake : (plain.take streamChunk).length = streamChunk := by
    rw [List.length_take, Nat.min_eq_left hlong.le]
  rw [htake] at hfirst
  rw [hpayload, List.flatten_cons, take_twice hnonce hfirst]
  intro hopen
  have hwhole := congrArg List.length (honly _ p (by
    rw [List.length_append, hnonce, hfirst]
    decide) (by rw [← hnonce, List.take_left]) (unforged_cut hnonce htake.le hct) hopen)
  rw [hpayload, List.flatten_cons, List.flatten_cons] at hwhole
  simp only [List.length_append, hlast] at hwhole
  have htag : 0 < tagLen := by decide
  omega

/-- A plaintext of 64 KiB and one byte. -/
def twoChunks : Bytes := List.replicate 65537 7

/-- A payload of two chunks, which is not opened when it is cut at their boundary. -/
theorem payload_stream_twoChunks : ∃ payload cts,
    (marking.sealPayload [1] twoChunks (List.replicate 16 8) = .ok payload ∧
      marking.openPayload [1] payload = .ok twoChunks ∧
      List.Forall₂ (SealsTo marking (marking.hkdf32 [1] (List.replicate 16 8) infoPayload))
        (chunks twoChunks) cts ∧
      payload = List.replicate 16 8 ++ cts.flatten ∧ ((chunks twoChunks).map Chunk.nonce).Nodup ∧
      ∀ other p, other.length < 2 ^ 64 → other.take payloadNonceLen = List.replicate 16 8 →
        Unforged marking [1] (List.replicate 16 8) twoChunks other →
        marking.openPayload [1] other = .ok p → other = payload) ∧
    (chunks twoChunks).map Chunk.nonce = [streamNonce 0 false, streamNonce 1 true] ∧
    ∀ p, marking.openPayload [1] (payload.take (payloadNonceLen + (streamChunk + tagLen))) ≠ .ok p := by
  have hlen : twoChunks.length = 65537 := List.length_replicate
  have hlong : streamChunk < twoChunks.length := by rw [hlen]; decide
  have hshort : twoChunks.length ≤ streamChunk + streamChunk := by rw [hlen]; decide
  obtain ⟨payload, cts, h⟩ := @payload_stream _ _ marking marking_lawful marking_sealsChunks [1]
    twoChunks (List.replicate 16 8) (by decide) (by rw [hlen]; decide)
  refine ⟨payload, cts, h, ?_, ?_⟩
  · rw [chunks, hlen]
    exact congrArg (List.map Chunk.nonce) (cutFrom_two hlong hshort)
  · obtain ⟨-, -, hcts, hpayload, -, honly⟩ := h
    intro p
    exact first_chunk_refused (by decide) hlong hshort hcts hpayload honly

end Piggy.Pigpen.Crates
