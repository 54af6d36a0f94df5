import Piggy.Markl.Format

/-!
# Box errors and their texts
-/

namespace Piggy.Box

open Piggy.Markl

/-- One lower-case hexadecimal digit. -/
def hexDigit (n : Nat) : Char := "0123456789abcdef".toList.getD n '0'

/-- The lower-case hexadecimal digits of a byte. -/
def hexByte (b : UInt8) : String :=
  String.ofList [hexDigit (b.toNat / 16), hexDigit (b.toNat % 16)]

/-- A 16-bit word as `{:#06x}` prints it. -/
def hexWord (w : UInt16) : String :=
  "0x" ++ hexByte (w >>> 8).toUInt8 ++ hexByte w.toUInt8

/-- The errors of the box layer, each with the data its text shows. -/
inductive BoxError where
  | wire (msg : String)
  | badMagic (expected got : UInt16)
  | unsupportedVersion (version : UInt8)
  | unsupportedCipher (name : String)
  | unsupportedKdf (name : String)
  | unsupportedCurve (name : String)
  | unsupportedRecipientFormat (format : FormatId)
  | crypto (msg : String)
  | badPadding
  | notSealed
  | notOpened
  | badEboxType (raw : UInt8)
  | badConfigType (raw : UInt8)
  | notUnlocked
  | alreadyUnlocked
  | unlockFailed (reason : Option String)
  | thresholdNotMet (got need : Nat)
  | hmacMismatch (seqnr : UInt32)
  | sequenceMismatch (expected got : UInt32)
  | invalidAgentReply (msg : String)
  /-- A PIV error, by its text. -/
  | piv (msg : String)
  /-- An OpenSSL error stack, by its text. -/
  | openSsl (msg : String)
  /-- An I/O error, by its text. -/
  | io (msg : String)
  deriving DecidableEq

/-- The reason behind a failed unlock, set off from the text before it. -/
def unlockReasonSuffix : Option String → String
  | some r => s!": {r}"
  | none => ""

/-- The text of a box error. -/
def BoxError.text : BoxError → String
  | .wire msg => s!"wire format: {msg}"
  | .badMagic expected got => s!"bad magic: expected {hexWord expected}, got {hexWord got}"
  | .unsupportedVersion v => s!"unsupported version: {v.toNat}"
  | .unsupportedCipher name => s!"unsupported cipher: {name}"
  | .unsupportedKdf name => s!"unsupported KDF: {name}"
  | .unsupportedCurve name => s!"unsupported curve: {name}"
  | .unsupportedRecipientFormat f =>
      s!"recipient format {f.asStr} not yet wired into the encrypt pipeline"
  | .crypto msg => s!"crypto: {msg}"
  | .badPadding => "PKCS#7 padding invalid"
  | .notSealed => "box not sealed"
  | .notOpened => "box not opened"
  | .badEboxType raw => s!"ebox type invalid: {raw.toNat}"
  | .badConfigType raw => s!"ebox config type invalid: {raw.toNat}"
  | .notUnlocked => "ebox not unlocked"
  | .alreadyUnlocked => "ebox already unlocked"
  | .unlockFailed reason => "no configs could be unlocked" ++ unlockReasonSuffix reason
  | .thresholdNotMet got need =>
      s!"recovery threshold not met: have {got}, need {need}"
  | .hmacMismatch seqnr => s!"stream HMAC verification failed on chunk {seqnr.toNat}"
  | .sequenceMismatch expected got =>
      s!"stream sequence number mismatch: expected {expected.toNat}, got {got.toNat}"
  | .invalidAgentReply msg => s!"invalid agent reply: {msg}"
  | .piv msg => s!"PIV: {msg}"
  | .openSsl msg => s!"OpenSSL: {msg}"
  | .io msg => s!"I/O: {msg}"

end Piggy.Box
