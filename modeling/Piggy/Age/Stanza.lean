import Piggy.Box.Unlock

/-!
# The `piv-p256` stanza

A file key is sealed for a P-256 key under a key derived from an ECDH with a fresh ephemeral
key. A stanza names its recipient by the first bytes of a hash only. Opening it asks an oracle
for the ECDH, in practice the agent.
-/

namespace Piggy.Age

open Piggy.Core Piggy.Box

def stanzaTag : String := "piv-p256"

def stanzaKeyLabel : Bytes := strBytes "piv-p256"

def tagBytes : Nat := 4

def compressedBytes : Nat := 33

def epkBytes : Nat := compressedBytes

def fileKeyBytes : Nat := 16

def encryptedFileKeyBytes : Nat := fileKeyBytes + 16

/-- A file key. -/
abbrev FileKey := {bytes : Bytes // bytes.length = fileKeyBytes}

/-- A stanza of the header of an age file. -/
structure Stanza where
  tag : String
  args : List String
  body : Bytes
  deriving DecidableEq

/-- What the plugin uses of the crates: SHA-256, P-256 with its SEC1 encodings, the HKDF and
the AEAD of age, and base 64. -/
structure Crates (Scalar Point : Type) where
  sha256 : Bytes → Bytes
  fromSec1Bytes : Bytes → Option Point
  toEncodedPoint : (compress : Bool) → Point → Bytes
  publicKey : Scalar → Point
  diffieHellman : Scalar → Point → Bytes
  hkdf : (salt label ikm : Bytes) → Bytes
  aeadEncrypt : (key plaintext : Bytes) → Bytes
  aeadDecrypt : (key : Bytes) → (size : Nat) → Bytes → Option {p : Bytes // p.length = size}
  base64Encode : Bytes → String
  base64Decode : String → Option Bytes

/-- What is known of the crates. -/
structure Crates.Lawful {Scalar Point : Type} (c : Crates Scalar Point) : Prop where
  length_sha256 : ∀ bytes, (c.sha256 bytes).length = 32
  length_compressed : ∀ p, (c.toEncodedPoint true p).length = compressedBytes
  head_compressed : ∀ p, (c.toEncodedPoint true p).head? = some 2 ∨
    (c.toEncodedPoint true p).head? = some 3
  fromSec1Bytes_toEncodedPoint : ∀ compress p, c.fromSec1Bytes (c.toEncodedPoint compress p) = some p
  diffieHellman_comm : ∀ a b, c.diffieHellman a (c.publicKey b) = c.diffieHellman b (c.publicKey a)
  length_aeadEncrypt : ∀ key p, (c.aeadEncrypt key p).length = p.length + 16
  aeadDecrypt_aeadEncrypt : ∀ key p, c.aeadDecrypt key p.length (c.aeadEncrypt key p) = some ⟨p, rfl⟩
  base64Decode_base64Encode : ∀ bytes, c.base64Decode (c.base64Encode bytes) = some bytes

section

variable {Scalar Point : Type} (c : Crates Scalar Point)

/-- The first bytes of the hash of a compressed key. -/
def staticTag (pk : Bytes) : Bytes := (c.sha256 pk).take tagBytes

/-- Whether bytes of the right number are a compressed point. -/
def validateCompressed (pk : Bytes) : Bool :=
  (pk.head? = some 2 || pk.head? = some 3) && (c.fromSec1Bytes pk).isSome

/-- A compressed public key. Recipients and identities are such keys. -/
structure CompressedKey where
  compressed : Bytes
  length_eq : compressed.length = compressedBytes
  valid : validateCompressed c compressed = true

/-- A key to seal for. -/
abbrev Recipient := CompressedKey c

/-- An identity has no private key. -/
abbrev Identity := CompressedKey c

/-- The bytes that age hands over, unless they are of another plugin. -/
def CompressedKey.fromBytes (pluginName : String) (bytes : Bytes) : Option (CompressedKey c) :=
  if pluginName ≠ "piggy" then none
  else if hlen : bytes.length = compressedBytes then
    if hvalid : validateCompressed c bytes = true then some ⟨bytes, hlen, hvalid⟩ else none
  else none

/-- The tag of the identity's stanzas. -/
def Identity.tag (identity : Identity c) : Bytes := staticTag c identity.compressed

/-- The uncompressed form of a key. -/
def uncompressed (pk : Bytes) : Option Bytes :=
  (c.fromSec1Bytes pk).map (c.toEncodedPoint false)

/-- The salt of the key derivation. -/
def salt (epk pk : Bytes) : Bytes := epk ++ pk

/-- An argument that is the base 64 of so many bytes. -/
def decodeFixed (n : Nat) (arg : String) : Option Bytes :=
  (c.base64Decode arg).filter fun bytes => bytes.length = n

/-- A parsed `piv-p256` stanza. -/
structure RecipientLine where
  tag : Bytes
  epkCompressed : Bytes
  encryptedFileKey : Bytes
  deriving DecidableEq

/-- The stanza of a line. -/
def RecipientLine.toStanza (line : RecipientLine) : Stanza where
  tag := stanzaTag
  args := [c.base64Encode line.tag, c.base64Encode line.epkCompressed]
  body := line.encryptedFileKey

/-- Nothing for another kind of stanza, an error for an invalid one of this kind. -/
def RecipientLine.fromStanza (stanza : Stanza) : Option (Except Unit RecipientLine) :=
  if stanza.tag ≠ stanzaTag then none
  else
    let (tag, epk) :=
      match stanza.args with
      | [tag, epk] => (decodeFixed c tagBytes tag, decodeFixed c epkBytes epk)
      | _ => (none, none)
    let body := if stanza.body.length = encryptedFileKeyBytes then some stanza.body else none
    some <|
      match tag, epk, body with
      | some tag, some epkCompressed, some encryptedFileKey =>
        if validateCompressed c epkCompressed then .ok ⟨tag, epkCompressed, encryptedFileKey⟩
        else .error ()
      | _, _, _ => .error ()

/-- The point of a key. -/
def CompressedKey.point {c : Crates Scalar Point} (key : CompressedKey c) : Point :=
  (c.fromSec1Bytes key.compressed).get (by
    have h := key.valid
    simp only [validateCompressed, Bool.and_eq_true] at h
    exact h.2)

/-- The key that a file key is sealed under, from the ECDH secret. -/
def encKey (epk pk shared : Bytes) : Bytes := c.hkdf (salt epk pk) stanzaKeyLabel shared

/-- Seals a file key for a recipient with an ephemeral secret. -/
def wrapFileKey (recipient : Recipient c) (fileKey : FileKey) (esk : Scalar) : RecipientLine :=
  let epk := c.toEncodedPoint true (c.publicKey esk)
  let shared := c.diffieHellman esk recipient.point
  { tag := staticTag c recipient.compressed
    epkCompressed := epk
    encryptedFileKey := c.aeadEncrypt (encKey c epk recipient.compressed shared) fileKey.1 }

/-- Why a stanza is not opened. -/
inductive UnwrapError where
  | badKey
  | oracle (e : OracleError)
  | decrypt
  deriving DecidableEq

/-- The text of an error. -/
def UnwrapError.text : UnwrapError → String
  | .badKey => "invalid P-256 public key"
  | .oracle e => s!"agent ECDH failed: {e.text}"
  | .decrypt => "stanza failed to decrypt"

variable {σ : Type}

/-- Opens a stanza for an identity, with the ECDH of an oracle. -/
def unwrapFileKey (line : RecipientLine) (recipient : Bytes) (oracle : EcdhOracle σ) (s : σ) :
    Except UnwrapError FileKey × σ :=
  match uncompressed c recipient, uncompressed c line.epkCompressed with
  | some selfPoint, some partnerPoint =>
    match oracle.ecdh s (ecPointToSshPubkeyBlob .nistP256 selfPoint)
        (ecPointToSshPubkeyBlob .nistP256 partnerPoint) with
    | (.error e, s) => (.error (.oracle e), s)
    | (.ok shared, s) =>
      match c.aeadDecrypt (encKey c line.epkCompressed recipient shared) fileKeyBytes
          line.encryptedFileKey with
      | none => (.error .decrypt, s)
      | some plaintext => (.ok plaintext, s)
  | _, _ => (.error .badKey, s)

end

/-! ## What a sealed stanza is read as -/

section

variable {Scalar Point : Type} {c : Crates Scalar Point}

/-- The bytes of a key are decoded to its point. -/
theorem CompressedKey.fromSec1Bytes_compressed (key : CompressedKey c) :
    c.fromSec1Bytes key.compressed = some key.point := by
  rw [CompressedKey.point, Option.some_get]

theorem CompressedKey.uncompressed_compressed (key : CompressedKey c) :
    uncompressed c key.compressed = some (c.toEncodedPoint false key.point) := by
  rw [uncompressed, key.fromSec1Bytes_compressed, Option.map_some]

theorem decodeFixed_base64Encode (hc : c.Lawful) {n : Nat} {bytes : Bytes} (h : bytes.length = n) :
    decodeFixed c n (c.base64Encode bytes) = some bytes := by
  rw [decodeFixed, hc.base64Decode_base64Encode, Option.filter_some, if_pos (by simpa using h)]

theorem validateCompressed_toEncodedPoint (hc : c.Lawful) (p : Point) :
    validateCompressed c (c.toEncodedPoint true p) = true := by
  rw [validateCompressed, hc.fromSec1Bytes_toEncodedPoint]
  rcases hc.head_compressed p with h | h <;> rw [h] <;> rfl

/-- A line with parts of the right lengths and a valid ephemeral key is read back. -/
theorem RecipientLine.fromStanza_toStanza (hc : c.Lawful) {line : RecipientLine}
    (htag : line.tag.length = tagBytes) (hepk : line.epkCompressed.length = epkBytes)
    (hbody : line.encryptedFileKey.length = encryptedFileKeyBytes)
    (hvalid : validateCompressed c line.epkCompressed = true) :
    fromStanza c (line.toStanza c) = some (.ok line) := by
  rw [fromStanza, toStanza, if_neg (by simp)]
  dsimp only
  rw [decodeFixed_base64Encode hc htag, decodeFixed_base64Encode hc hepk, if_pos hbody]
  dsimp only
  rw [if_pos hvalid]

/-- What was sealed is read back. -/
theorem fromStanza_wrapFileKey (hc : c.Lawful) (recipient : Recipient c) (fileKey : FileKey)
    (esk : Scalar) :
    RecipientLine.fromStanza c ((wrapFileKey c recipient fileKey esk).toStanza c) =
      some (.ok (wrapFileKey c recipient fileKey esk)) := by
  apply RecipientLine.fromStanza_toStanza hc
  · simp [wrapFileKey, staticTag, hc.length_sha256, tagBytes]
  · exact hc.length_compressed _
  · simp [wrapFileKey, hc.length_aeadEncrypt, fileKey.2, encryptedFileKeyBytes]
  · exact validateCompressed_toEncodedPoint hc _

end

end Piggy.Age
