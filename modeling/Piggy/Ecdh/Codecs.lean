import Piggy.Core.Checked
import Piggy.Box.Unlock
import Piggy.Pigpen.Document

/-!
# The wire forms of the card ECDH extension

A request holds two key blobs and flags, a response the shared secret, each framed with
32-bit lengths. Three programs write and read them: the box library, the agent, and the
oracle of pigpen documents.
-/

namespace Piggy.Ecdh

open Piggy.Core Piggy.Markl
open Piggy.Box (Bytes strBytes BoxError EcCurve need putU32 putString ecPointToSshPubkeyBlob fromUtf8Lossy)

/-! ## The box library -/

/-- The body of a request for key agreement. -/
def encodeEcdhRequest (selfKeyBlob partnerKeyBlob : Bytes) (flags : UInt32) : Bytes :=
  putString [] (putU32 (putString (putString [] selfKeyBlob) partnerKeyBlob) flags)

/-- That so many bytes are left behind a position. -/
def needAt (data : Bytes) (pos n : Nat) : Checked Unit :=
  .ofExcept ((need ⟨pos, data.drop pos⟩ n).mapError BoxError.text)

/-- The reader's string, with its reads of the data. -/
def getStringAt (data : Bytes) (pos : Nat) : Checked (Bytes × Nat) := do
  needAt data pos 4
  let word ← Checked.slice data pos (pos + 4)
  let len := ofBe word
  needAt data (pos + 4) len
  let bytes ← Checked.slice data (pos + 4) (pos + 4 + len)
  .ok (bytes, pos + 4 + len)

/-- The secret in a reply. -/
def decodeEcdhResponse (details : Bytes) : Checked Bytes :=
  let invalid (text : String) : String := (BoxError.invalidAgentReply text).text
  if details.length < 4 then
    .failed (invalid s!"response shorter than 4-byte length prefix: {details.length} bytes")
  else
    match getStringAt details 0 with
    | .stopped => .stopped
    | .failed e => .failed (invalid s!"response length prefix exceeds body: {e}")
    | .ok (secret, pos) =>
      if details.length - pos ≠ 0 then
        .failed (invalid s!"{details.length - pos} trailing bytes after declared ssh-string")
      else .ok secret

/-! ## The agent -/

/-- The string at an offset, and the offset behind it. -/
def readSshString (data : Bytes) (offset : Nat) : Checked (Bytes × Nat) := do
  let short := "SSH string: not enough data for length"
  let hdrEnd ← Checked.checkedAdd offset 4 short
  if data.length < hdrEnd then .failed short
  else
    let b0 ← Checked.get data offset
    let b1 ← Checked.get data (offset + 1)
    let b2 ← Checked.get data (offset + 2)
    let b3 ← Checked.get data (offset + 3)
    let len := ofBe [b0, b1, b2, b3]
    let exceeds := s!"SSH string: length {len} exceeds remaining data {data.length - hdrEnd}"
    let stop ← Checked.checkedAdd hdrEnd len exceeds
    if data.length < stop then .failed exceeds
    else
      let payload ← Checked.slice data hdrEnd stop
      .ok (payload, stop)

/-- A word at an offset. -/
def readU32Be (data : Bytes) (offset : Nat) (label : String) : Checked UInt32 := do
  let short := s!"{label}: truncated flags field"
  let stop ← Checked.checkedAdd offset 4 short
  if data.length < stop then .failed short
  else
    let b0 ← Checked.get data offset
    let b1 ← Checked.get data (offset + 1)
    let b2 ← Checked.get data (offset + 2)
    let b3 ← Checked.get data (offset + 3)
    .ok (UInt32.ofNat (ofBe [b0, b1, b2, b3]))

/-- The point of a public key blob. -/
def extractEcPointFromSshBlob (blob : Bytes) : Checked Bytes := do
  let (_, pos) ← readSshString blob 0
  let (_, pos) ← readSshString blob pos
  let (point, _) ← readSshString blob pos
  .ok point

/-- What the agent reads from a request: the card key, the partner's point and the flags. The
key is looked up before the point is read. -/
def readEcdhRequest {Key : Type} (publicKeyFromBytes : Bytes → Except String Key) (details : Bytes) :
    Checked (Key × Bytes × UInt32) := do
  let (inner, _) ← readSshString details 0
  let (cardKeyBlob, pos) ← readSshString inner 0
  let (partnerBlob, pos) ← readSshString inner pos
  let flags ← readU32Be inner pos "ecdh"
  let cardPubkey ← .ofExcept ((publicKeyFromBytes cardKeyBlob).mapError fun e =>
    s!"ecdh: bad card key: {e}")
  let point ← extractEcPointFromSshBlob partnerBlob
  .ok (cardPubkey, point, flags)

/-- The details of the agent's response; the length is truncated to 32 bits. -/
def ecdhResponse (secret : Bytes) : Bytes := toBe 4 secret.length ++ secret

/-! ## The oracle of pigpen documents -/

def canonical : String := "ecdh@code.linenisgreat.com"

def legacy : String := "ecdh@joyent.com"

/-- The names, the canonical one first. -/
def names : List String := [canonical, legacy]

def sshAgentFailure : UInt8 := 5

def sshAgentExtensionResponse : UInt8 := 29

namespace Oracle

/-- Appends a word. -/
def putU32 (out : Bytes) (value : Nat) : Bytes := out ++ toBe 4 value

/-- Appends a text with its length in front. -/
def putString (out bytes : Bytes) : Bytes := putU32 out bytes.length ++ bytes

/-- Splits a string off the front. -/
def takeString (buf : Bytes) : Checked (Option (Bytes × Bytes)) :=
  if buf.length < 4 then .ok none
  else do
    let len := ofBe (buf.take 4)
    let rest ← Checked.slice buf 4 buf.length
    if rest.length < len then .ok none
    else
      let contents ← Checked.slice rest 0 len
      let behind ← Checked.slice rest len rest.length
      .ok (some (contents, behind))

/-- What is used of the crate for P-256. -/
structure P256 (Point : Type) where
  fromSec1Bytes : Bytes → Except String Point
  /-- `to_encoded_point(false)`. -/
  uncompressed : Point → Bytes

variable {Point : Type} (p256 : P256 Point)

/-- The SSH form of a point. -/
def p256SshBlob (sec1 : Bytes) (what : String) : Except Pigpen.Error Bytes := do
  let key ← (p256.fromSec1Bytes sec1).mapError fun e =>
    .oracle s!"{what} is not a P-256 point: {e}"
  pure (putString (putString (putString [] (strBytes "ecdsa-sha2-nistp256")) (strBytes "nistp256"))
    (p256.uncompressed key))

/-- The details of the request for a recipient and an ephemeral key. -/
def requestDetails (selfRecipient : Id) (partnerEpk : Bytes) : Except Pigpen.Error Bytes := do
  if selfRecipient.format ≠ .pivyEcdhP256Pub then
    .error (.unsupportedFormat (selfRecipient.format.debugName ++ " is not a card ECDH recipient"))
  else
    let cardBlob ← p256SshBlob p256 selfRecipient.data "recipient key"
    let partnerBlob ← p256SshBlob p256 partnerEpk "ephemeral key"
    let inner := putU32 (putString (putString [] cardBlob) partnerBlob) 0
    pure (putString [] inner)

end Oracle

/-- How the agent answered a request. -/
inductive Answer where
  | secret (bytes : Bytes)
  | refused
  deriving DecidableEq

/-- The message of an extension response. -/
def extensionResponse (name : String) (details : Bytes) : Bytes :=
  sshAgentExtensionResponse :: (Oracle.putString [] (strBytes name) ++ details)

/-- Reads the reply of the agent at a socket to a request under a name. -/
def parseReply (socket name : String) (reply : Bytes) : Checked Answer :=
  let failure (what : String) : Checked Answer := .failed s!"the agent at {socket}: {what}"
  let truncated := failure s!"truncated {name} reply"
  match reply with
  | [] => truncated
  | kind :: _ =>
    if kind = sshAgentFailure then .ok .refused
    else if kind = sshAgentExtensionResponse then do
      let behind ← Checked.slice reply 1 reply.length
      match ← Oracle.takeString behind with
      | none => truncated
      | some (echoed, rest) =>
        -- a proxy may echo its upstream's name
        if !names.any fun n => strBytes n = echoed then
          failure s!"{name} reply names extension {Pigpen.debugText (fromUtf8Lossy echoed)}"
        else do
          match ← Oracle.takeString rest with
          | none => truncated
          | some (secret, rest) =>
            if rest ≠ [] then
              failure s!"{rest.length} trailing bytes after the {name} shared secret"
            else if secret.length ≠ 32 then
              failure s!"{name} shared secret is {secret.length} bytes, not 32"
            else .ok (.secret secret)
    else failure s!"unexpected reply type {kind.toNat} to {name}"

end Piggy.Ecdh
