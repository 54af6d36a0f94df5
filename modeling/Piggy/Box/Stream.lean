import Piggy.Box.Unlock

/-!
# Ebox streams

A stream is a header, which is an ebox of a fresh key and the stream parameters,
followed by frames. A frame is a sequence number and a length-prefixed ciphertext
with its MAC. The decryptor reserializes the header it parsed to find the frames.
-/

namespace Piggy.Box

open Piggy.Core

def defaultChunkSize : UInt64 := 128 * 1024

def defaultStreamCipher : String := "aes256-ctr"

def defaultMac : String := "sha256"

def aesBlockSize : Nat := 16

def aesKeyLen : Nat := 32

def aesIvLen : Nat := 16

def hmacLen : Nat := 32

/-- The header of a stream. -/
structure EboxStream where
  ebox : Ebox
  cipher : String
  mac : String
  chunkSize : UInt64
  deriving DecidableEq

namespace EboxStream

/-- The serialization of a stream header. -/
def toBytes (s : EboxStream) : Except BoxError Bytes := do
  let eboxBytes ← s.ebox.toBytes
  let w := putRaw [] eboxBytes
  let w := putU64 w s.chunkSize
  let w ← putCstring8 w s.cipher
  putCstring8 w s.mac

/-- Reads a stream header; the reader is returned where it stops. -/
def readFrom (r : WireReader) : Except BoxError (EboxStream × WireReader) := do
  let (ebox, r) ← Ebox.readFrom r
  let (chunkSize, r) ← getU64 r
  let (cipher, r) ← getCstring8 r
  let (mac, r) ← getCstring8 r
  pure ({ ebox, cipher, mac, chunkSize }, r)

/-- Parses a stream header; the frames behind it are left alone. -/
def fromBytes (data : Bytes) : Except BoxError EboxStream := do
  let (s, _) ← readFrom (WireReader.new data)
  pure s

end EboxStream

/-- The bytes of a stream header. -/
def EboxStream.encoding (s : EboxStream) : Bytes :=
  s.ebox.encoding ++ (toBe 8 s.chunkSize.toNat ++ (cstring8 s.cipher ++ cstring8 s.mac))

/-- A stream header whose fields fit serializes to its encoding. -/
theorem EboxStream.toBytes_of_fits {s : EboxStream} (he : s.ebox.Fits)
    (hc : FitsCstring8 s.cipher) (hm : FitsCstring8 s.mac) : s.toBytes = .ok s.encoding := by
  simp only [EboxStream.toBytes, Ebox.toBytes_of_fits he, ok_bind, bind_ok, putCstring8_ok]
  refine ⟨_, ⟨hc, rfl⟩, hm, ?_⟩
  simp [EboxStream.encoding, putRaw, putU64]

/-- A written stream header is read back. -/
theorem EboxStream.readFrom_reads {s : EboxStream} {e : Ebox}
    (he : Reads Ebox.readFrom s.ebox.encoding e) (hc : FitsCstring8 s.cipher)
    (hm : FitsCstring8 s.mac) : Reads EboxStream.readFrom s.encoding { s with ebox := e } := by
  intro pos tail
  have hsize : Reads getU64 (toBe 8 s.chunkSize.toNat) s.chunkSize := getU64_exact.reads trivial
  simp only [EboxStream.readFrom, EboxStream.encoding, List.append_assoc, he _ _, hsize _ _,
    getCstring8_exact.reads hc _ _, getCstring8_exact.reads hm _ _, ok_bind, List.length_append,
    Nat.add_assoc]
  rfl

/-- The IV of a frame: its sequence number and zeros. -/
def seqnrToIv (seqnr : UInt32) : Bytes := toBe 4 seqnr.toNat ++ List.replicate (aesIvLen - 4) 0

section

variable {Scalar Point Rng : Type} (ssl : OpenSsl Scalar Point Rng)

namespace EboxStream

variable (dealer : Dealer Rng)

/-- A stream of a fresh key, sealed to a template. -/
def new (tpl : EboxTemplate) (rng : Rng) : Except Fault (EboxStream × Rng) := do
  let (keyBytes, rng) ← liftBox (liftSsl (ssl.randBytes rng aesKeyLen))
  let (ebox, rng) ← Ebox.create ssl dealer tpl keyBytes .stream rng
  pure ({ ebox := { ebox with key := some keyBytes }, cipher := defaultStreamCipher,
          mac := defaultMac, chunkSize := defaultChunkSize }, rng)

/-- One frame. The MAC covers the ciphertext. -/
def encryptChunk (s : EboxStream) (seqnr : UInt32) (plaintext : Bytes) : Except BoxError Bytes :=
  match s.ebox.key with
  | none => .error .notUnlocked
  | some key => do
    let padded := pkcs7Pad plaintext aesBlockSize
    let ciphertext ← liftSsl (ssl.aes256Ctr key (seqnrToIv seqnr) padded)
    let hmac := ssl.hmacSha256 key ciphertext
    pure (putString (putU32 [] seqnr) (ciphertext ++ hmac))

/-- Checks and opens one frame, with the sequence number it must carry. -/
def decryptChunk (s : EboxStream) (expectedSeqnr : Option UInt32) (chunkData : Bytes) :
    Except BoxError (UInt32 × Bytes) :=
  match s.ebox.key with
  | none => .error .notUnlocked
  | some key => do
    let (seqnr, r) ← getU32 (WireReader.new chunkData)
    let (encWithMac, _) ← getString r
    let expected := expectedSeqnr.getD seqnr
    if seqnr ≠ expected then .error (.sequenceMismatch expected seqnr)
    else if encWithMac.length < hmacLen + aesBlockSize then
      .error (.wire "encrypted chunk too short")
    else
      let macOffset := encWithMac.length - hmacLen
      let ciphertext := encWithMac.take macOffset
      let receivedMac := encWithMac.drop macOffset
      if ssl.hmacSha256 key ciphertext ≠ receivedMac then .error (.hmacMismatch seqnr)
      else do
        let padded ← liftSsl (ssl.aes256Ctr key (seqnrToIv seqnr) ciphertext)
        let plain ← pkcs7Unpad padded aesBlockSize
        pure (seqnr, plain)

end EboxStream

/-! ## Encrypting a stream -/

/-- The pieces of at most `size` bytes a byte string is cut into. -/
def chunksOf (size : Nat) : Nat → Bytes → List Bytes
  | 0, _ => []
  | pieces + 1, data =>
    if data.isEmpty then [] else data.take size :: chunksOf size pieces (data.drop size)

/-- The chunks of a plaintext; an empty plaintext is one empty chunk. -/
def streamChunks (chunkSize : UInt64) (plaintext : Bytes) : List Bytes :=
  if plaintext.isEmpty then [[]] else chunksOf chunkSize.toNat plaintext.length plaintext

/-- The frames of the chunks, numbered from an index. -/
def encryptChunks (s : EboxStream) : Nat → List Bytes → Except BoxError Bytes
  | _, [] => .ok []
  | i, chunk :: chunks => do
    let frame ← s.encryptChunk ssl (UInt32.ofNat i) chunk
    let frames ← encryptChunks s (i + 1) chunks
    pure (frame ++ frames)

/-- The bytes a stream encryption writes for a stream and a plaintext. -/
def writeStream (s : EboxStream) (plaintext : Bytes) : Except BoxError Bytes := do
  let header ← s.toBytes
  let frames ← encryptChunks ssl s 0 (streamChunks s.chunkSize plaintext)
  pure (header ++ frames)

/-- `piggy box stream encrypt`, from the parsed template on. -/
def cmdStreamEncrypt (dealer : Dealer Rng) (tpl : EboxTemplate) (plaintext : Bytes) (rng : Rng) :
    Except Fault Bytes := do
  let (s, _) ← EboxStream.new ssl dealer tpl rng
  liftBox (writeStream ssl s plaintext)

/-! ## Decrypting a stream -/

/-- How a decryption ends short: with a message for the user or by a panic. -/
inductive DecryptFault where
  | message (text : String)
  | panic
  deriving DecidableEq

/-- A box computation whose error text is shown behind a label. -/
def withLabel {α : Type} (label : String) : Except BoxError α → Except DecryptFault α
  | .ok a => .ok a
  | .error e => .error (.message (label ++ e.text))

theorem withLabel_ok {α : Type} {label : String} {x : Except BoxError α} {a : α} :
    withLabel label x = .ok a ↔ x = .ok a := by
  cases x <;> simp [withLabel]

/-- The slice of a byte string from an offset; beyond the end the program stops. -/
def sliceFrom (data : Bytes) (n : Nat) : Except DecryptFault Bytes :=
  if data.length < n then .error .panic else .ok (data.drop n)

/-- The loop over the frames. Every turn takes eight bytes at least, so the bytes
bound the number of turns. -/
def decryptFrames (s : EboxStream) : Nat → UInt32 → Bytes → Except DecryptFault Bytes
  | 0, _, _ => .ok []
  | turns + 1, expectedSeqnr, chunkData =>
    if chunkData.isEmpty then .ok []
    else if chunkData.length < 8 then .error (.message "truncated chunk frame")
    else
      let frameLen := 4 + 4 + ofBe ((chunkData.drop 4).take 4)
      if chunkData.length < frameLen then .error (.message "truncated chunk data")
      else do
        let (_, plain) ← withLabel s!"chunk {expectedSeqnr.toNat}: "
          (s.decryptChunk ssl (some expectedSeqnr) (chunkData.take frameLen))
        let out ← decryptFrames s turns (expectedSeqnr + 1) (chunkData.drop frameLen)
        pure (plain ++ out)

variable {σ τ : Type}

/-- Decrypts a stream with the agent and the card. -/
def Decryptor.decrypt (agent : Option (EcdhOracle σ)) (card : Option (EcdhOracle τ)) (s : σ) (t : τ)
    (input : Bytes) : Except DecryptFault Bytes × σ × τ :=
  match EboxStream.fromBytes input with
  | .error e => (.error (.message s!"invalid stream: {e.text}"), s, t)
  | .ok stream =>
    match unlockEbox ssl agent card stream.ebox s t with
    | (.error e, _, s, t) => (.error (.message s!"unlock failed: {e.text}"), s, t)
    | (.ok (), ebox, s, t) =>
      let stream := { stream with ebox }
      (do
        let headerBytes ← withLabel "" stream.toBytes
        let chunkData ← sliceFrom input headerBytes.length
        decryptFrames ssl stream chunkData.length 0 chunkData, s, t)

end

end Piggy.Box
