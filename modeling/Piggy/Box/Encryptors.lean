import Piggy.Box.RoundTrip

/-!
# The two stream encryptors

`piggy-ids encrypt` fills a buffer from its input and writes a frame for each full one and for
the rest. `piggy box stream encrypt` reads everything and splits it. Both number their frames from
zero.
-/

namespace Piggy.Box

open Piggy.Core

/-- The pieces in which an input arrives. A read gives a piece, or the front of one that is longer
than the room there is; a read that gives nothing is the end. -/
structure Arrivals where
  pieces : List Bytes
  nonempty : ∀ p ∈ pieces, p ≠ []

/-- The whole plaintext. -/
def Arrivals.plaintext (a : Arrivals) : Bytes := a.pieces.flatten

/-- Reads until the buffer is full or the input ends; the pieces left are returned too. -/
def fillBuffer (size : Nat) : List Bytes → Bytes → Bytes × List Bytes
  | [], buf => (buf, [])
  | p :: ps, buf =>
    if size ≤ buf.length then (buf, p :: ps)
    else if p.length ≤ size - buf.length then fillBuffer size ps (buf ++ p)
    else (buf ++ p.take (size - buf.length), p.drop (size - buf.length) :: ps)

section

variable {Scalar Point Rng : Type} (ssl : OpenSsl Scalar Point Rng)

/-- The loop of the encryptor that reads as it goes. Every turn but the last takes a byte at least,
so the bytes bound the number of turns. -/
def encryptReads (s : EboxStream) : Nat → UInt32 → List Bytes → Except BoxError Bytes
  | 0, _, _ => .ok []
  | turns + 1, seqnr, pieces =>
    let (buf, rest) := fillBuffer s.chunkSize.toNat pieces []
    if buf.isEmpty then .ok []
    else do
      let frame ← s.encryptChunk ssl seqnr buf
      if buf.length < s.chunkSize.toNat then pure frame
      else do
        let frames ← encryptReads s turns (seqnr + 1) rest
        pure (frame ++ frames)

/-- The bytes `piggy-ids encrypt` writes for a stream. -/
def writeReads (s : EboxStream) (pieces : List Bytes) : Except BoxError Bytes := do
  let header ← s.toBytes
  let frames ← encryptReads ssl s (pieces.flatten.length + 1) 0 pieces
  pure (header ++ frames)

/-- `piggy-ids encrypt`, from the template of its recipients on. -/
def cmdEncrypt (dealer : Dealer Rng) (tpl : EboxTemplate) (pieces : List Bytes) (rng : Rng) :
    Except Fault Bytes := do
  let (s, _) ← EboxStream.new ssl dealer tpl rng
  liftBox (writeReads ssl s pieces)

end

/-! ## The chunks -/

/-- The buffers that reading fills, one after the other. -/
def readChunks (size : Nat) : Nat → List Bytes → List Bytes
  | 0, _ => []
  | turns + 1, pieces =>
    let (buf, rest) := fillBuffer size pieces []
    if buf.isEmpty then []
    else if buf.length < size then [buf]
    else buf :: readChunks size turns rest

/-- A full buffer holds the front of the input. -/
theorem fillBuffer_spec {size : Nat} (pieces : List Bytes) {buf : Bytes}
    (hbuf : buf.length ≤ size) :
    (fillBuffer size pieces buf).1 = (buf ++ pieces.flatten).take size ∧
      (fillBuffer size pieces buf).2.flatten = (buf ++ pieces.flatten).drop size := by
  induction pieces generalizing buf with
  | nil =>
    rw [fillBuffer, List.flatten_nil, List.append_nil]
    exact ⟨(List.take_of_length_le hbuf).symm, (List.drop_of_length_le hbuf).symm⟩
  | cons p ps ih =>
    rw [fillBuffer, List.flatten_cons]
    by_cases hfull : size ≤ buf.length
    · have hsize : buf.length = size := Nat.le_antisymm hbuf hfull
      rw [if_pos hfull]
      exact ⟨(List.take_left' hsize).symm, (List.drop_left' hsize).symm⟩
    · rw [if_neg hfull]
      by_cases hroom : p.length ≤ size - buf.length
      · rw [if_pos hroom, ← List.append_assoc]
        exact ih (by rw [List.length_append]; omega)
      · rw [if_neg hroom]
        refine ⟨?_, ?_⟩
        · rw [List.take_append, List.take_of_length_le hbuf,
            List.take_append_of_le_length (by omega)]
        · rw [List.drop_append, List.drop_of_length_le hbuf, List.nil_append,
            List.drop_append_of_le_length (by omega), List.flatten_cons]

theorem buffer_empty (size : Nat) : ([] : Bytes).length ≤ size := Nat.zero_le size

/-- What is read in turns is the input cut into pieces of the chunk size. -/
theorem readChunks_eq_chunksOf {size turns : Nat} {pieces : List Bytes} (hsize : 0 < size)
    (hturns : pieces.flatten.length ≤ turns) :
    readChunks size (turns + 1) pieces = chunksOf size turns pieces.flatten := by
  induction turns generalizing pieces with
  | zero =>
    have hnil : pieces.flatten = [] := List.length_eq_zero_iff.mp (Nat.le_zero.mp hturns)
    obtain ⟨hbuf, -⟩ := fillBuffer_spec pieces (buffer_empty size)
    rw [List.nil_append, hnil, List.take_nil] at hbuf
    rw [readChunks, chunksOf]
    simp only [hbuf, List.isEmpty_nil, if_true]
  | succ turns ih =>
    obtain ⟨hbuf, hrest⟩ := fillBuffer_spec pieces (buffer_empty size)
    rw [List.nil_append] at hbuf hrest
    rw [readChunks, chunksOf]
    dsimp only
    rw [hbuf]
    by_cases hnil : pieces.flatten = []
    · rw [hnil, List.take_nil]
      rfl
    · have hpos : 0 < pieces.flatten.length := List.length_pos_iff.mpr hnil
      have hlen : ((pieces.flatten).take size).length = min size pieces.flatten.length :=
        List.length_take
      have hbufne : ¬ ((pieces.flatten).take size).isEmpty = true := by
        rw [List.isEmpty_iff, ← List.length_eq_zero_iff, hlen]
        omega
      have hne : ¬ pieces.flatten.isEmpty = true := by
        rw [List.isEmpty_iff]
        exact hnil
      rw [if_neg hbufne, if_neg hne]
      by_cases hshort : ((pieces.flatten).take size).length < size
      · have hend : (pieces.flatten).drop size = [] := by
          rw [List.drop_eq_nil_iff]
          omega
        rw [if_pos hshort, hend]
        cases turns with
        | zero => rw [chunksOf]
        | succ turns => rw [chunksOf, if_pos List.isEmpty_nil]
      · have hfewer : (fillBuffer size pieces []).2.flatten.length ≤ turns := by
          rw [hrest, List.length_drop]
          omega
        have hnext := ih hfewer
        rw [if_neg hshort, hnext, hrest]

section

variable {Scalar Point Rng : Type} {ssl : OpenSsl Scalar Point Rng}

/-- The loop writes the frames of the chunks it reads. -/
theorem encryptReads_eq (s : EboxStream) (turns i : Nat) (pieces : List Bytes) :
    encryptReads ssl s turns (UInt32.ofNat i) pieces =
      encryptChunks ssl s i (readChunks s.chunkSize.toNat turns pieces) := by
  induction turns generalizing i pieces with
  | zero => rfl
  | succ turns ih =>
    have hnext : UInt32.ofNat i + 1 = UInt32.ofNat (i + 1) := by
      apply UInt32.toNat_inj.mp
      simp
    rw [encryptReads, readChunks]
    dsimp only
    by_cases hempty : (fillBuffer s.chunkSize.toNat pieces []).1.isEmpty = true
    · rw [if_pos hempty, if_pos hempty]
      rfl
    · rw [if_neg hempty, if_neg hempty]
      by_cases hshort : (fillBuffer s.chunkSize.toNat pieces []).1.length < s.chunkSize.toNat
      · simp only [if_pos hshort, encryptChunks, ok_bind]
        cases s.encryptChunk ssl (UInt32.ofNat i) (fillBuffer s.chunkSize.toNat pieces []).1 with
        | error e => rfl
        | ok frame => exact congrArg Except.ok (List.append_nil frame).symm
      · simp only [if_neg hshort, encryptChunks, hnext, ih]

/-- The chunks that are read are those of the plaintext, so they do not depend on the reads. -/
theorem writeReads_eq (s : EboxStream) (hsize : 0 < s.chunkSize.toNat) (pieces : List Bytes) :
    writeReads ssl s pieces =
      (do
        let header ← s.toBytes
        let frames ← encryptChunks ssl s 0
          (chunksOf s.chunkSize.toNat pieces.flatten.length pieces.flatten)
        pure (header ++ frames)) := by
  have hframes : encryptReads ssl s (pieces.flatten.length + 1) 0 pieces = _ :=
    encryptReads_eq s (pieces.flatten.length + 1) 0 pieces
  rw [readChunks_eq_chunksOf hsize (Nat.le_refl _)] at hframes
  rw [writeReads, ← hframes]

/-! ## The same format -/

/-- The frames of chunks, each with its sequence number. -/
def numbered (i : Nat) : List Bytes → List (UInt32 × Bytes)
  | [] => []
  | chunk :: chunks => (UInt32.ofNat i, chunk) :: numbered (i + 1) chunks

/-- The bytes of frames, each a sequence number and the plaintext in it. -/
def encryptFrames (ssl : OpenSsl Scalar Point Rng) (s : EboxStream) :
    List (UInt32 × Bytes) → Except BoxError Bytes
  | [] => .ok []
  | (seqnr, chunk) :: frames => do
    let frame ← s.encryptChunk ssl seqnr chunk
    let rest ← encryptFrames ssl s frames
    pure (frame ++ rest)

theorem encryptFrames_numbered (s : EboxStream) (i : Nat) (chunks : List Bytes) :
    encryptFrames ssl s (numbered i chunks) = encryptChunks ssl s i chunks := by
  induction chunks generalizing i with
  | nil => rfl
  | cons chunk chunks ih => rw [numbered, encryptFrames, encryptChunks, ih]

/-- A command ends well and writes the header of a stream and these frames. -/
def Writes (ssl : OpenSsl Scalar Point Rng) (s : EboxStream) (out : Except Fault Bytes)
    (frames : List (UInt32 × Bytes)) : Prop :=
  ∃ bytes, encryptFrames ssl s frames = .ok bytes ∧ out = .ok (s.encoding ++ bytes)

/-- A command ends well and its bytes decrypt to a plaintext. -/
def DecryptsTo {σ τ : Type} (ssl : OpenSsl Scalar Point Rng) (agent : Option (EcdhOracle σ))
    (card : Option (EcdhOracle τ)) (out : Except Fault Bytes) (plaintext : Bytes) : Prop :=
  ∃ bytes, out = .ok bytes ∧
    ∀ s t, (Decryptor.decrypt ssl agent card s t bytes).1 = .ok plaintext

/-- Both encryptors, with the same draws, write the same frames for a plaintext however it arrives,
and what each writes decrypts to it. -/
structure SameFormat {σ τ : Type} (ssl : OpenSsl Scalar Point Rng) (dealer : Dealer Rng)
    (tpl : EboxTemplate) (rng : Rng) (stream : EboxStream) (agent : Option (EcdhOracle σ))
    (card : Option (EcdhOracle τ)) (plaintext : Bytes) : Prop where
  sameFrames : ∃ frames,
    Writes ssl stream (cmdStreamEncrypt ssl dealer tpl plaintext rng) frames ∧
      ∀ a : Arrivals, a.plaintext = plaintext →
        Writes ssl stream (cmdEncrypt ssl dealer tpl a.pieces rng) frames
  boxDecrypts : DecryptsTo ssl agent card (cmdStreamEncrypt ssl dealer tpl plaintext rng) plaintext
  idsDecrypts : ∀ a : Arrivals, a.plaintext = plaintext →
    DecryptsTo ssl agent card (cmdEncrypt ssl dealer tpl a.pieces rng) plaintext

section

variable {σ τ : Type}

/-- For an empty plaintext one encryptor writes an empty chunk and the other nothing. -/
theorem writeStream_nil_ne (hssl : ssl.Lawful) {stream : EboxStream} {key header : Bytes}
    (hkey : stream.ebox.key = some key) (hlen : key.length = 32)
    (hheader : stream.toBytes = .ok header) :
    writeStream ssl stream [] ≠ writeReads ssl stream [] := by
  obtain ⟨data, -, hframe, -⟩ :=
    encryptChunk_spec hssl hkey hlen (UInt32.ofNat 0) (by decide : [].length + 48 < 2 ^ 32)
  have hbox : writeStream ssl stream [] =
      .ok (header ++ (frameBytes (UInt32.ofNat 0) data ++ [])) := by
    rw [writeStream, hheader, ok_bind, streamChunks, if_pos List.isEmpty_nil, encryptChunks, hframe]
    rfl
  have hids : writeReads ssl stream [] = .ok (header ++ []) := by
    rw [writeReads, hheader]
    rfl
  rw [hbox, hids]
  intro h
  have hnil := List.append_cancel_left (Except.ok.inj h)
  have hpos : 0 < (frameBytes (UInt32.ofNat 0) data).length := by
    rw [frameBytes, List.length_append, length_toBe]
    omega
  rw [List.append_nil] at hnil
  rw [hnil] at hpos
  exact Nat.lt_irrefl 0 hpos

/-- A command that writes the frames of chunks, none longer than the chunk size, ends well, and its
bytes decrypt to the chunks put together. -/
theorem written_of_chunks (hssl : ssl.Lawful) {dealer : Dealer Rng} {tpl : EboxTemplate}
    (htpl : tpl.Fits) (hdealer : dealer.Lawful) {rng rng' : Rng} {stream : EboxStream}
    (hnew : EboxStream.new ssl dealer tpl rng = .ok (stream, rng'))
    {agent : Option (EcdhOracle σ)} {card : Option (EcdhOracle τ)}
    (htrue : EitherAnswersTruly ssl agent card stream.ebox)
    (hreject : ∀ c ∈ stream.ebox.configs, ∀ part ∈ c.parts,
      RejectsOthers ssl (EitherMayAnswer agent card) part.pivBox)
    (s : σ) (t : τ) {chunks : List Bytes} (hle : ∀ c ∈ chunks, c.length ≤ stream.chunkSize.toNat)
    {out : Except Fault Bytes}
    (hout : out = liftBox (do
      let header ← stream.toBytes
      let frames ← encryptChunks ssl stream 0 chunks
      pure (header ++ frames))) :
    Writes ssl stream out (numbered 0 chunks) ∧ DecryptsTo ssl agent card out chunks.flatten := by
  obtain ⟨frames, hheader, hframes, -⟩ :=
    decrypt_encryptChunks hssl htpl (fun _ _ _ => hdealer) hnew htrue hreject hle s t
  rw [hheader, ok_bind, hframes] at hout
  have hwritten : encryptFrames ssl stream (numbered 0 chunks) = .ok frames := by
    rw [encryptFrames_numbered, hframes]
  refine ⟨⟨frames, hwritten, hout⟩, stream.encoding ++ frames, hout, ?_⟩
  intro s t
  obtain ⟨frames', -, hframes', hrun⟩ :=
    decrypt_encryptChunks hssl htpl (fun _ _ _ => hdealer) hnew htrue hreject hle s t
  obtain rfl : frames = frames' := Except.ok.inj (hframes.symm.trans hframes')
  exact hrun

/-- What the commands do once the stream is made. -/
theorem commands_of_new {dealer : Dealer Rng} {tpl : EboxTemplate} {rng rng' : Rng}
    {stream : EboxStream} (hnew : EboxStream.new ssl dealer tpl rng = .ok (stream, rng')) :
    (∀ plaintext, cmdStreamEncrypt ssl dealer tpl plaintext rng =
      liftBox (writeStream ssl stream plaintext)) ∧
    ∀ pieces, cmdEncrypt ssl dealer tpl pieces rng = liftBox (writeReads ssl stream pieces) := by
  refine ⟨?_, ?_⟩
  · intro plaintext
    rw [cmdStreamEncrypt, hnew]
    rfl
  · intro pieces
    rw [cmdEncrypt, hnew]
    rfl

/-- The same frames would make the same bytes, and an empty plaintext has different ones. -/
theorem SameFormat.nonempty (hssl : ssl.Lawful) {dealer : Dealer Rng} {tpl : EboxTemplate}
    (htpl : tpl.Fits) (hdealer : dealer.Lawful) {rng rng' : Rng} {stream : EboxStream}
    (hnew : EboxStream.new ssl dealer tpl rng = .ok (stream, rng'))
    {agent : Option (EcdhOracle σ)} {card : Option (EcdhOracle τ)} (s : σ) (t : τ)
    {plaintext : Bytes} (h : SameFormat ssl dealer tpl rng stream agent card plaintext) :
    plaintext ≠ [] := by
  rintro rfl
  obtain ⟨frames, ⟨bytes, hbytes, hout⟩, hsame⟩ := h.sameFrames
  obtain ⟨bytes', hbytes', hout'⟩ := hsame ⟨[], by simp⟩ rfl
  obtain rfl : bytes = bytes' := Except.ok.inj (hbytes.symm.trans hbytes')
  obtain ⟨hbox, hids⟩ := commands_of_new hnew
  rw [hbox, liftBox_ok] at hout
  rw [hids, liftBox_ok] at hout'
  obtain ⟨key, hlen, -, -, hkey, -⟩ := new_spec hssl (fun _ _ _ => hdealer) hnew
  obtain ⟨hheader, -⟩ := decrypt_fresh hssl htpl (fun _ _ _ => hdealer) hnew agent card [] s t
  exact writeStream_nil_ne hssl hkey hlen hheader (hout.trans hout'.symm)

/-- Both encryptors write frames for chunks of the plaintext. Only for an empty plaintext are the
chunks different ones. -/
theorem sameFormat_iff (hssl : ssl.Lawful) {dealer : Dealer Rng} {tpl : EboxTemplate}
    (htpl : tpl.Fits) (hdealer : dealer.Lawful) {rng rng' : Rng} {stream : EboxStream}
    (hnew : EboxStream.new ssl dealer tpl rng = .ok (stream, rng'))
    {agent : Option (EcdhOracle σ)} {card : Option (EcdhOracle τ)}
    (htrue : EitherAnswersTruly ssl agent card stream.ebox)
    (hreject : ∀ c ∈ stream.ebox.configs, ∀ part ∈ c.parts,
      RejectsOthers ssl (EitherMayAnswer agent card) part.pivBox)
    (s : σ) (t : τ) (plaintext : Bytes) :
    SameFormat ssl dealer tpl rng stream agent card plaintext ↔ plaintext ≠ [] := by
  refine ⟨SameFormat.nonempty hssl htpl hdealer hnew s t, ?_⟩
  intro hne
  have hpos : 0 < stream.chunkSize.toNat := by
    rw [chunkSize_new hnew]
    decide
  have hchunks : streamChunks stream.chunkSize plaintext =
      chunksOf stream.chunkSize.toNat plaintext.length plaintext := by
    rw [streamChunks, if_neg (by rwa [List.isEmpty_iff])]
  obtain ⟨hbox, hids⟩ := commands_of_new hnew
  obtain ⟨hflat, hle⟩ := streamChunks_spec hpos plaintext
  obtain ⟨hwrites, hdecrypts⟩ :=
    written_of_chunks hssl htpl hdealer hnew htrue hreject s t hle (hbox plaintext)
  rw [hflat] at hdecrypts
  have hread : ∀ a : Arrivals, a.plaintext = plaintext →
      cmdEncrypt ssl dealer tpl a.pieces rng = cmdStreamEncrypt ssl dealer tpl plaintext rng := by
    rintro a rfl
    rw [hids, hbox, writeReads_eq stream hpos, writeStream, hchunks]
    rfl
  refine ⟨⟨_, hwrites, ?_⟩, hdecrypts, ?_⟩
  · intro a ha
    rw [hread a ha]
    exact hwrites
  · intro a ha
    rw [hread a ha]
    exact hdecrypts

end

end

theorem sampleDealer_gives_none : sampleDealer.Lawful := by
  intro n secret m rng share hshare
  cases hshare

/-- With the sample card the encryptors write the same frames for "hi". -/
theorem sameFormat_hi :
    SameFormat OpenSsl.sample sampleDealer sampleTemplate 0 sampleStream
      (none : Option (EcdhOracle Unit)) (some sampleCard) (strBytes "hi") := by
  refine (sameFormat_iff OpenSsl.sample_lawful sampleTemplate_fits sampleDealer_gives_none
    (new_sampleTemplate _) ?_ sampleStream_rejectsOthers () () _).mpr (by decide +kernel)
  refine ⟨_, List.mem_singleton_self _, rfl, _, List.mem_singleton_self _, .inr ⟨_, rfl, ?_⟩⟩
  exact ⟨[15], _, ⟨5, 3, rfl, rfl, rfl⟩, rfl, fun _ => rfl⟩

/-- An empty plaintext is written as a header alone by one of them, and with an empty chunk by the
other. -/
theorem not_sameFormat_nil :
    ¬ SameFormat OpenSsl.sample sampleDealer sampleTemplate 0 sampleStream
      (none : Option (EcdhOracle Unit)) (some sampleCard) [] := fun h =>
  h.nonempty OpenSsl.sample_lawful sampleTemplate_fits sampleDealer_gives_none
    (new_sampleTemplate _) () () rfl

end Piggy.Box
