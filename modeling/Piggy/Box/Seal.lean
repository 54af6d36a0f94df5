import Piggy.Box.OpenSsl

/-!
# Sealing and opening

A box is sealed to a recipient point with an ephemeral scalar. An ebox seals one
key to every part of a template; the parts on one curve share one ephemeral key.
-/

namespace Piggy.Box

open Piggy.Core

def nonceLen : Nat := 16

def cipherIvLen : Nat := 12

def eboxVersion : UInt8 := 3

def recoveryCipherName : String := "aes256-gcm"

def recovKey : UInt8 := 0x02

section

variable {Scalar Point Rng : Type} (ssl : OpenSsl Scalar Point Rng)

/-! ## One box -/

/-- The cipher key: the first 32 bytes of the hash of secret and nonce. -/
def kdfSha512 (sharedSecret nonce : Bytes) : Bytes := (ssl.sha512 (sharedSecret ++ nonce)).take 32

/-- ChaCha20-Poly1305 with the tag behind the ciphertext. -/
def chacha20Poly1305Encrypt (key iv plaintext : Bytes) : Except BoxError Bytes :=
  if iv.length ≠ cipherIvLen then
    .error (.crypto s!"ChaCha20-Poly1305 IV must be 12 bytes, got {iv.length}")
  else do
    let (ct, tag) ← liftSsl (ssl.encryptAead .chacha20Poly1305 key iv plaintext)
    pure (ct ++ tag)

/-- Opens a ciphertext with its tag behind it. -/
def chacha20Poly1305Decrypt (key iv ciphertext : Bytes) : Except BoxError Bytes :=
  if iv.length ≠ cipherIvLen then
    .error (.crypto s!"ChaCha20-Poly1305 IV must be 12 bytes, got {iv.length}")
  else if ciphertext.length < 16 then
    .error (.crypto "ciphertext too short for auth tag")
  else
    let tagOffset := ciphertext.length - 16
    match ssl.decryptAead .chacha20Poly1305 key iv (ciphertext.take tagOffset)
        (ciphertext.drop tagOffset) with
    | .ok pt => .ok pt
    | .error e => .error (.crypto s!"ChaCha20-Poly1305 decrypt: {e}")

/-- Seals a box with the ephemeral scalar, the KDF nonce and the IV given. -/
def sealOfflineWithEphemeralAndPinnedRandom (b : PivBox) (recipientPub : Point) (ephem : Scalar)
    (kdfNonce cipherIv : Bytes) : Except BoxError PivBox :=
  match b.plaintext with
  | none => .error .notSealed
  | some plaintext => do
    let recipientPubkey := ssl.pointToBytes b.curve .compressed recipientPub
    let ephemeralPubkey := ssl.pointToBytes b.curve .compressed (ssl.publicPoint b.curve ephem)
    let sharedSecret ← liftSsl (ssl.derive b.curve ephem recipientPub)
    let ciphertext ← chacha20Poly1305Encrypt ssl (kdfSha512 ssl sharedSecret kdfNonce) cipherIv
      (pkcs7Pad plaintext 16)
    pure { b with recipientPubkey, ephemeralPubkey, nonce := kdfNonce, iv := cipherIv, ciphertext }

/-- Seals a box with a fresh nonce and IV. -/
def sealOfflineWithEphemeral (b : PivBox) (recipientPub : Point) (ephem : Scalar) (rng : Rng) :
    Except BoxError (PivBox × Rng) := do
  let (kdfNonce, rng) ← liftSsl (ssl.randBytes rng nonceLen)
  let (cipherIv, rng) ← liftSsl (ssl.randBytes rng cipherIvLen)
  let b ← sealOfflineWithEphemeralAndPinnedRandom ssl b recipientPub ephem kdfNonce cipherIv
  pure (b, rng)

/-- Opens a box with a shared secret. -/
def openWithSecret (b : PivBox) (sharedSecret : Bytes) : Except BoxError PivBox :=
  if b.iv.length ≠ cipherIvLen then
    .error (.crypto s!"wire IV must be 12 bytes for chacha20-poly1305, got {b.iv.length}")
  else do
    let padded ← chacha20Poly1305Decrypt ssl (kdfSha512 ssl sharedSecret b.nonce) b.iv b.ciphertext
    let plain ← pkcs7Unpad padded 16
    pure { b with plaintext := some plain }

/-! ## One ebox -/

/-- AES-256-GCM under a fresh IV, with the tag behind the ciphertext. -/
def aes256GcmEncrypt (key plaintext : Bytes) (rng : Rng) :
    Except BoxError ((Bytes × Bytes) × Rng) := do
  let (iv, rng) ← liftSsl (ssl.randBytes rng 12)
  let (ct, tag) ← liftSsl (ssl.encryptAead .aes256Gcm key iv plaintext)
  pure ((ct ++ tag, iv), rng)

/-- The ephemeral keys made so far: the published points and the scalars. -/
structure Ephemerals (Scalar : Type) where
  keys : List EphemeralKey
  privkeys : List (EcCurve × Scalar)

/-- The ephemeral scalar of a curve, made on first use. -/
def getOrCreateEphemeral (curve : EcCurve) (eph : Ephemerals Scalar) (rng : Rng) :
    Except BoxError (Scalar × Ephemerals Scalar × Rng) :=
  match eph.privkeys.find? fun x => x.1 == curve with
  | some (_, d) => .ok (d, eph, rng)
  | none => do
    let (d, rng) ← liftSsl (ssl.generate rng curve)
    let pubkey := ssl.pointToBytes curve .compressed (ssl.publicPoint curve d)
    pure (d, ⟨eph.keys ++ [{ curve, pubkey }], eph.privkeys ++ [(curve, d)]⟩, rng)

/-- The contents of the part with an index: its share, or the key itself. A share
that is missing stops the program. -/
def partPlaintext (shares : Option (List Bytes)) (key : Bytes) (i : Nat) : Except Fault Bytes :=
  match shares with
  | none => .ok key
  | some ss =>
    match ss[i]? with
    | some share => .ok share
    | none => .error .panic

/-- Seals the part with an index. -/
def createPart (shares : Option (List Bytes)) (key : Bytes) (i : Nat) (tplPart : EboxTplPart)
    (eph : Ephemerals Scalar) (rng : Rng) :
    Except Fault (EboxPart × Ephemerals Scalar × Rng) := do
  let curve := tplPart.pubkeyCurve
  let (ephem, eph, rng) ← liftBox (getOrCreateEphemeral ssl curve eph rng)
  let recipientPub ← liftBox (liftSsl (ssl.pointFromBytes curve tplPart.pubkey))
  let pbox := { PivBox.new curve with guidSlot := tplPart.guid.map fun g => (g, tplPart.slot) }
  let plaintext ← partPlaintext shares key i
  let (pbox, rng) ← liftBox
    (sealOfflineWithEphemeral ssl (pbox.setData plaintext) recipientPub ephem rng)
  pure ({ guid := tplPart.guid, slot := tplPart.slot, name := tplPart.name,
          pubkey := some tplPart.pubkey, pubkeyCurve := some curve, cak := tplPart.cak,
          pivBox := pbox }, eph, rng)

/-- Seals the parts of a config, counting from an index. -/
def createParts (shares : Option (List Bytes)) (key : Bytes) :
    Nat → List EboxTplPart → Ephemerals Scalar → Rng →
      Except Fault (List EboxPart × Ephemerals Scalar × Rng)
  | _, [], eph, rng => .ok ([], eph, rng)
  | i, tplPart :: rest, eph, rng => do
    let (part, eph, rng) ← createPart ssl shares key i tplPart eph rng
    let (parts, eph, rng) ← createParts shares key (i + 1) rest eph rng
    pure (part :: parts, eph, rng)

/-- The shares of a secret: threshold, secret and number of shares. -/
abbrev Dealer (Rng : Type) := UInt8 → Bytes → Nat → Rng → List Bytes × Rng

variable (dealer : Dealer Rng)

/-- The nonce and the shares of a config; a PRIMARY config has neither. -/
def createShares (tplConfig : EboxTplConfig) (recoveryKey : Bytes) (rng : Rng) :
    Except BoxError ((Bytes × Option (List Bytes)) × Rng) :=
  match tplConfig.configType with
  | .primary => .ok (([], none), rng)
  | .recovery => do
    let (nonce, rng) ← liftSsl (ssl.randBytes rng 32)
    let configKey := List.zipWith (· ^^^ ·) nonce recoveryKey
    let (shares, rng) := dealer tplConfig.n configKey tplConfig.m.toNat rng
    pure ((nonce, some shares), rng)

/-- Seals a config. -/
def createConfig (key recoveryKey : Bytes) (tplConfig : EboxTplConfig) (eph : Ephemerals Scalar)
    (rng : Rng) : Except Fault (EboxConfig × Ephemerals Scalar × Rng) := do
  let ((nonce, shares), rng) ← liftBox (createShares ssl dealer tplConfig recoveryKey rng)
  let (parts, eph, rng) ← createParts ssl shares key 0 tplConfig.parts eph rng
  pure ({ configType := tplConfig.configType, n := tplConfig.n, nonce, parts }, eph, rng)

/-- Seals the configs in turn. -/
def createConfigs (key recoveryKey : Bytes) :
    List EboxTplConfig → Ephemerals Scalar → Rng →
      Except Fault (List EboxConfig × Ephemerals Scalar × Rng)
  | [], eph, rng => .ok ([], eph, rng)
  | tplConfig :: rest, eph, rng => do
    let (config, eph, rng) ← createConfig ssl dealer key recoveryKey tplConfig eph rng
    let (configs, eph, rng) ← createConfigs key recoveryKey rest eph rng
    pure (config :: configs, eph, rng)

/-- Seals a key to the parts of a template. -/
def Ebox.create (tpl : EboxTemplate) (key : Bytes) (eboxType : EboxType) (rng : Rng) :
    Except Fault (Ebox × Rng) := do
  let (recoveryKey, rng) ← liftBox (liftSsl (ssl.randBytes rng 32))
  let recovPlaintext ← liftBox (putString8 (putU8 [] recovKey) key)
  let ((recoveryEnc, recoveryIv), rng) ← liftBox
    (aes256GcmEncrypt ssl recoveryKey recovPlaintext rng)
  let (configs, eph, rng) ← createConfigs ssl dealer key recoveryKey tpl.configs ⟨[], []⟩ rng
  pure ({ version := eboxVersion, eboxType, recoveryCipher := recoveryCipherName, recoveryIv,
          recoveryEnc, ephemeralKeys := eph.keys, configs, key := none }, rng)

end

/-- Takes the key out of the first opened part of a list. -/
def takeKey : List EboxPart → Option (Bytes × List EboxPart)
  | [] => none
  | part :: parts =>
    match part.pivBox.plaintext with
    | some data => some (data, { part with pivBox := { part.pivBox with plaintext := none } } :: parts)
    | none => (takeKey parts).map fun (data, parts) => (data, part :: parts)

/-- Unlocks an ebox with an opened part of a config. -/
def Ebox.unlock (ebox : Ebox) (configIdx : Nat) : Except Fault Ebox :=
  if ebox.key.isSome then .error (.error .alreadyUnlocked)
  else match ebox.configs[configIdx]? with
    | none => .error .panic
    | some config =>
      match takeKey config.parts with
      | some (data, parts) =>
        .ok { ebox with key := some data, configs := ebox.configs.set configIdx { config with parts } }
      | none => .error (.error (.unlockFailed none))

end Piggy.Box
