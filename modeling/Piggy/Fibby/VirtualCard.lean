import Piggy.Fibby.Attest
import Mathlib.Logic.Function.Basic

/-!
# The virtual card

The PIV applet that stands behind a reader. A command changes the card and answers with data
and a status word. What the elliptic curve, the cipher of the management key and the
encoder of certificates do is left open; a command also sees the clock and, if it generates a key, a random
scalar.
-/

namespace Piggy.Fibby

open Piggy.Core Piggy.Box

/-! ## Models -/

/-- The two YubiKey models that the card can be. -/
inductive Model where
  | yk4
  | yk5
  deriving DecidableEq

namespace Model

/-- The answer to reset. -/
def atr : Model → Bytes
  | yk4 => [0x3B, 0xF8, 0x13, 0x00, 0x00, 0x81, 0x31, 0xFE, 0x15, 0x59, 0x75, 0x62, 0x69, 0x6B,
      0x65, 0x79, 0x34, 0xD4]
  | yk5 => [0x3B, 0xFD, 0x13, 0x00, 0x00, 0x81, 0x31, 0xFE, 0x15, 0x80, 0x73, 0xC0, 0x21, 0xC0,
      0x57, 0x59, 0x75, 0x62, 0x69, 0x4B, 0x65, 0x79, 0x40]

/-- The answer to the SELECT of PIV. -/
def selectFciBytes (_ : Model) : Bytes :=
  [0x61, 0x11, 0x4F, 0x06, 0x00, 0x00, 0x10, 0x00, 0x01, 0x00, 0x79, 0x07, 0x4F, 0x05, 0xA0, 0x00,
    0x00, 0x03, 0x08]

/-- The serial number that the PIV applet tells. -/
def serial : Model → Option Bytes
  | yk4 => none
  | yk5 => some [0x00, 0xF2, 0xC2, 0xE6]

/-- The serial number that the OTP applet tells. -/
def otpSerial : Model → Bytes
  | yk4 => [0x00, 0xBC, 0x61, 0x4E]
  | yk5 => [0x00, 0xF2, 0xC2, 0xE6]

/-- The firmware version. -/
def firmwareVersion : Model → Bytes
  | yk4 => [0x04, 0x03, 0x05]
  | yk5 => [0x05, 0x02, 0x07]

end Model

/-- How the key of a slot came to be. -/
inductive KeyOrigin where
  | generated
  | imported
  deriving DecidableEq

/-- The byte of the metadata. -/
def KeyOrigin.toByte : KeyOrigin → UInt8
  | generated => 0x01
  | imported => 0x02

/-- So many commands of an instruction, or of any, are answered with a status word. -/
structure Fault where
  ins : Option UInt8
  sw : UInt16
  remaining : Nat
  deriving DecidableEq

/-! ## Touches -/

/-- How long one touch serves a slot with the policy `cached`, in nanoseconds. -/
def touchCacheWindow : Nat := 15 * 10 ^ 9

/-- The touches of one card. -/
structure TouchPad where
  /-- Touches granted and not yet consumed by an operation. -/
  pending : UInt32
  /-- The end of the window in which a slot with the policy `cached` needs no new touch. -/
  cachedUntil : UInt8 → Option Nat
  /-- Moves on every change that a blocked operation could wait for. -/
  generation : UInt64

namespace TouchPad

/-- No touches, and no window open. -/
def new : TouchPad := ⟨0, fun _ => none, 0⟩

/-- One more touch to take; who waits is told. -/
def grant (pad : TouchPad) : TouchPad :=
  { pad with pending := pad.pending + 1, generation := pad.generation + 1 }

/-- Takes a touch for an operation of a slot; without one, the generation to wait on. -/
def tryConsume (pad : TouchPad) (slot : UInt8) (cachedPolicy : Bool) (now : Nat) :
    Except UInt64 TouchPad :=
  if cachedPolicy ∧ (pad.cachedUntil slot).any (now < ·) then .ok pad
  else if pad.pending = 0 then .error pad.generation
  else if cachedPolicy then
    .ok ⟨pad.pending - 1, Function.update pad.cachedUntil slot (some (now + touchCacheWindow)),
      pad.generation + 1⟩
  else .ok { pad with pending := pad.pending - 1 }

/-- Closes the windows of the cached policies. -/
def clearCache (pad : TouchPad) : TouchPad := { pad with cachedUntil := fun _ => none }

end TouchPad

/-! ## The card -/

/-- What the libraries do: P-256, triple DES and the certificates of this card. -/
structure CardCrypto where
  /-- Whether a scalar is a signing key. -/
  signingKey : Bytes → Bool
  /-- Whether a scalar is not zero and below the order. -/
  nonZeroScalar : Bytes → Bool
  /-- The uncompressed public point of a signing key. -/
  verifyingKey : Bytes → Bytes
  /-- Whether bytes are a point on the curve. -/
  publicKey : Bytes → Bool
  diffieHellman : Bytes → Bytes → Bytes
  /-- The DER signature of a digest, if the digest can be signed. -/
  signPrehash : Bytes → Bytes → Option Bytes
  tdesDecryptBlock : Bytes → Bytes → Bytes
  attestation : AttestationAuthority

def defaultPin : Bytes := [0x31, 0x32, 0x33, 0x34, 0x35, 0x36, 0xFF, 0xFF]
def defaultPuk : Bytes := [0x31, 0x32, 0x33, 0x34, 0x35, 0x36, 0x37, 0x38]
def defaultPinRetries : Nat := 3
def defaultPukRetries : Nat := 3
def defaultMgmtKey : Bytes :=
  [0x01, 0x02, 0x03, 0x04, 0x05, 0x06, 0x07, 0x08, 0x01, 0x02, 0x03, 0x04, 0x05, 0x06, 0x07, 0x08,
    0x01, 0x02, 0x03, 0x04, 0x05, 0x06, 0x07, 0x08]
def tagAttestationCert : Bytes := [0x5F, 0xFF, 0x01]
def swTouchTimeout : Bytes := [0x69, 0x82]
def pivAidPrefix : Bytes := [0xA0, 0x00, 0x00, 0x03, 0x08]
def ykOtpAid : Bytes := [0xA0, 0x00, 0x00, 0x05, 0x27, 0x20, 0x01, 0x01]

/-- The state of a card in its reader. -/
structure VirtualCard where
  readerName : String
  model : Model
  inserted : Bool
  eventCounter : UInt32
  powered : Bool
  selectedPiv : Bool
  selectedOtp : Bool
  serialOverride : Option Bytes
  dataObjects : Bytes → Option Bytes
  pin : Bytes
  pinRetries : Nat
  pinVerified : Bool
  commandSinceVerify : Bool
  requireSelect : Bool
  puk : Bytes
  pukRetries : Nat
  slot9aPriv : Option Bytes
  slot9cPriv : Option Bytes
  slot9dPriv : Option Bytes
  slot9ePriv : Option Bytes
  mgmtKey : Bytes
  pendingMgmtWitness : Option Bytes
  mgmtAuthenticated : Bool
  generateOverrides : UInt8 → Option Bytes
  faults : List Fault
  slotPolicies : UInt8 → Option Policy
  slotOrigins : UInt8 → Option KeyOrigin
  touch : TouchPad
  autoTouch : Bool
  /-- The slot and the generation of the operation in flight that waits for a touch. -/
  touchBlocked : Option (UInt8 × UInt64)

namespace VirtualCard

/-- A card of a model as it is built. -/
def withModel (model : Model) : VirtualCard where
  readerName := "Virtual PCD piggy fibby 00 00"
  model := model
  inserted := true
  eventCounter := 0
  powered := false
  selectedPiv := false
  selectedOtp := false
  serialOverride := none
  dataObjects := fun _ => none
  pin := defaultPin
  pinRetries := defaultPinRetries
  pinVerified := false
  commandSinceVerify := false
  requireSelect := false
  puk := defaultPuk
  pukRetries := defaultPukRetries
  slot9aPriv := none
  slot9cPriv := none
  slot9dPriv := none
  slot9ePriv := none
  mgmtKey := defaultMgmtKey
  pendingMgmtWitness := none
  mgmtAuthenticated := false
  generateOverrides := fun _ => none
  faults := []
  slotPolicies := fun _ => none
  slotOrigins := fun _ => none
  touch := TouchPad.new
  autoTouch := false
  touchBlocked := none

/-- The serial number that PIV tells. -/
def pivSerial (c : VirtualCard) : Option Bytes :=
  c.model.serial.map fun captured => c.serialOverride.getD captured

/-- The serial number that OTP tells. -/
def otpSerial (c : VirtualCard) : Bytes := c.serialOverride.getD c.model.otpSerial

/-- The key of a slot. -/
def slotPriv (c : VirtualCard) (slot : UInt8) : Option Bytes :=
  if slot = 0x9A then c.slot9aPriv
  else if slot = 0x9C then c.slot9cPriv
  else if slot = 0x9D then c.slot9dPriv
  else if slot = 0x9E then c.slot9ePriv
  else none

/-- Puts a key into one of the four key slots. -/
def installSlotKey (c : VirtualCard) (slot : UInt8) (scalar : Bytes) (policy : Policy)
    (origin : KeyOrigin) : VirtualCard :=
  { c with
    slot9aPriv := if slot = 0x9A then some scalar else c.slot9aPriv
    slot9cPriv := if slot = 0x9C then some scalar else c.slot9cPriv
    slot9dPriv := if slot = 0x9D then some scalar else c.slot9dPriv
    slot9ePriv := if slot = 0x9E then some scalar else c.slot9ePriv
    slotPolicies := Function.update c.slotPolicies slot (some policy)
    slotOrigins := Function.update c.slotOrigins slot (some origin) }

/-- The policy of a slot as it was given. -/
def storedPolicy (c : VirtualCard) (slot : UInt8) : Policy :=
  (c.slotPolicies slot).getD ⟨PinPolicy.default, TouchPolicy.default⟩

/-- The PIN policy that a slot enforces. -/
def effectivePinPolicy (c : VirtualCard) (slot : UInt8) : UInt8 :=
  if (c.storedPolicy slot).pin = PinPolicy.default then
    if slot = 0x9C then PinPolicy.always
    else if slot = 0x9E then PinPolicy.never
    else PinPolicy.once
  else (c.storedPolicy slot).pin

/-- The touch policy that a slot enforces. -/
def effectiveTouchPolicy (c : VirtualCard) (slot : UInt8) : UInt8 :=
  if (c.storedPolicy slot).touch = TouchPolicy.default then TouchPolicy.never
  else (c.storedPolicy slot).touch

/-- The touch gate of a private-key operation: whether it may go on. -/
def passTouchGate (c : VirtualCard) (slot : UInt8) (now : Nat) : Bool × VirtualCard :=
  let policy := c.effectiveTouchPolicy slot
  if policy ≠ TouchPolicy.always ∧ policy ≠ TouchPolicy.cached then (true, c)
  else if c.autoTouch then (true, c)
  else
    match c.touch.tryConsume slot (policy = TouchPolicy.cached) now with
    | .ok touch => (true, { c with touch := touch })
    | .error generation => (false, { c with touchBlocked := some (slot, generation) })

/-- What a reset of the card clears. -/
def resetSessionState (c : VirtualCard) : VirtualCard :=
  { c with
    selectedPiv := false
    selectedOtp := false
    pinVerified := false
    pendingMgmtWitness := none
    mgmtAuthenticated := false }

/-- Takes the first fault that matches an instruction. -/
def takeFault (ins : UInt8) : List Fault → Option (UInt16 × List Fault)
  | [] => none
  | f :: rest =>
    if 0 < f.remaining ∧ (f.ins = none ∨ f.ins = some ins) then
      some (f.sw, if f.remaining = 1 then rest else { f with remaining := f.remaining - 1 } :: rest)
    else (takeFault ins rest).map fun (sw, rest) => (sw, f :: rest)

/-! ## PIN and PUK -/

/-- VERIFY. Without a data field it only asks for the state. -/
def handleVerify (c : VirtualCard) : Option Bytes → Bytes × VirtualCard
  | none =>
    if c.pinVerified then (sw 0x90 0x00, c)
    else (sw 0x63 (0xC0 ||| UInt8.ofNat c.pinRetries), c)
  | some pin =>
    if pin.length ≠ 8 then (sw 0x6A 0x80, c)
    else if c.pinRetries = 0 then (sw 0x69 0x83, c)
    else if pin = c.pin then
      (sw 0x90 0x00, { c with
        pinRetries := defaultPinRetries, pinVerified := true, commandSinceVerify := false })
    else
      let left := c.pinRetries - 1
      (if left = 0 then sw 0x69 0x83 else sw 0x63 (0xC0 ||| UInt8.ofNat left),
        { c with pinRetries := left })

/-- CHANGE REFERENCE DATA for the PIN (`80`) or the PUK. -/
def handleChangeReferenceData (c : VirtualCard) (p2 : UInt8) (body : Option Bytes) :
    Bytes × VirtualCard :=
  match body with
  | none => (sw 0x6A 0x80, c)
  | some body =>
    if body.length ≠ 16 then (sw 0x6A 0x80, c)
    else
      let old := body.take 8
      let new := body.drop 8
      if p2 = 0x80 then
        if c.pinRetries = 0 then (sw 0x69 0x83, c)
        else if old ≠ c.pin then
          (sw 0x63 (0xC0 ||| UInt8.ofNat (c.pinRetries - 1)),
            { c with pinRetries := c.pinRetries - 1 })
        else (sw 0x90 0x00, { c with pin := new, pinRetries := defaultPinRetries })
      else
        if c.pukRetries = 0 then (sw 0x69 0x83, c)
        else if old ≠ c.puk then
          (sw 0x63 (0xC0 ||| UInt8.ofNat (c.pukRetries - 1)),
            { c with pukRetries := c.pukRetries - 1 })
        else (sw 0x90 0x00, { c with puk := new, pukRetries := defaultPukRetries })

/-- RESET RETRY COUNTER: a new PIN with the PUK. -/
def handleResetRetryCounter (c : VirtualCard) (body : Option Bytes) : Bytes × VirtualCard :=
  match body with
  | none => (sw 0x6A 0x80, c)
  | some body =>
    if body.length ≠ 16 then (sw 0x6A 0x80, c)
    else
      let puk := body.take 8
      let newPin := body.drop 8
      if c.pukRetries = 0 then (sw 0x69 0x83, c)
      else if puk ≠ c.puk then
        (sw 0x63 (0xC0 ||| UInt8.ofNat (c.pukRetries - 1)),
          { c with pukRetries := c.pukRetries - 1 })
      else
        (sw 0x90 0x00, { c with
          pin := newPin
          pinRetries := defaultPinRetries
          pukRetries := defaultPukRetries
          pinVerified := false })

/-- The factory reset, once PIN and PUK are blocked. -/
def handleFactoryReset (c : VirtualCard) : Bytes × VirtualCard :=
  if c.pinRetries ≠ 0 ∨ c.pukRetries ≠ 0 then (sw 0x69 0x85, c)
  else
    (sw 0x90 0x00, { c with
      slot9aPriv := none
      slot9cPriv := none
      slot9dPriv := none
      slot9ePriv := none
      slotPolicies := fun _ => none
      slotOrigins := fun _ => none
      touch := c.touch.clearCache
      dataObjects := fun _ => none
      pin := defaultPin
      pinRetries := defaultPinRetries
      puk := defaultPuk
      pukRetries := defaultPukRetries
      mgmtKey := defaultMgmtKey
      pinVerified := false })

/-! ## Data objects -/

/-- GET DATA: the F9 certificate, or an object that was put. -/
def handleGetData (crypto : CardCrypto) (c : VirtualCard) (apdu : Bytes) : Bytes :=
  match apduBody apdu with
  | none => sw 0x6A 0x80
  | some body =>
    match parse5cTag body with
    | none => sw 0x6A 0x80
    | some tag =>
      let stored := (c.dataObjects tag).orElse fun _ =>
        if tag = tagAttestationCert then some crypto.attestation.certObject else none
      match stored with
      | some value => value ++ sw 0x90 0x00
      | none => sw 0x6A 0x82

/-- PUT DATA stores the object under its tag. -/
def handlePutData (c : VirtualCard) (apdu : Bytes) : Bytes × VirtualCard :=
  match apduBody apdu with
  | none => (sw 0x6A 0x80, c)
  | some body =>
    match parse5cTagWithRest body with
    | none => (sw 0x6A 0x80, c)
    | some (tag, rest) =>
      match split53Tlv rest with
      | none => (sw 0x6A 0x80, c)
      | some (valueWith53, _) =>
        (sw 0x90 0x00, { c with dataObjects := Function.update c.dataObjects tag (some valueWith53) })

/-! ## The management key -/

/-- The challenge-response of the management key, in two phases. -/
def handleGeneralAuthenticateMgmtKey (crypto : CardCrypto) (c : VirtualCard) (body : Option Bytes) :
    Bytes × VirtualCard :=
  match body with
  | none => (sw 0x6A 0x80, c)
  | some body =>
    if body = [0x7C, 0x02, 0x81, 0x00] then
      let witness := c.pendingMgmtWitness.getD (List.replicate 8 0)
      ([0x7C, 0x0A, 0x81, 0x08] ++ witness ++ sw 0x90 0x00,
        { c with pendingMgmtWitness := some witness })
    else if body.length = 12 ∧ [0x7C, 0x0A, 0x82, 0x08] <+: body then
      match c.pendingMgmtWitness with
      | none => (sw 0x69 0x82, c)
      | some witness =>
        let c := { c with pendingMgmtWitness := none }
        if crypto.tdesDecryptBlock c.mgmtKey (body.drop 4) = witness then
          (sw 0x90 0x00, { c with mgmtAuthenticated := true })
        else (sw 0x69 0x82, c)
    else (sw 0x6A 0x80, c)

/-- SET MANAGEMENT KEY, behind the management key. -/
def handleSetMgmtKey (c : VirtualCard) (body : Option Bytes) : Bytes × VirtualCard :=
  if !c.mgmtAuthenticated then (sw 0x69 0x82, c)
  else
    match body with
    | none => (sw 0x6A 0x80, c)
    | some body =>
      if body.length ≠ 3 + 24 ∨ body.take 3 ≠ [0x03, 0x9B, 0x18] then (sw 0x6A 0x80, c)
      else (sw 0x90 0x00, { c with mgmtKey := body.drop 3 })

/-! ## Private keys -/

/-- Whether the PIN lets an operation of a slot through: the status word if not. -/
def pinGate (c : VirtualCard) (slot : UInt8) : Option Bytes :=
  if c.effectivePinPolicy slot ≠ PinPolicy.never ∧ c.pinVerified = false then some (sw 0x69 0x82)
  else if c.effectivePinPolicy slot = PinPolicy.always ∧ c.commandSinceVerify then
    some (sw 0x69 0x82)
  else none

/-- An operation of a PIN-always slot uses the verification up. -/
def consumePin (c : VirtualCard) (pin : UInt8) : VirtualCard :=
  if pin = PinPolicy.always then { c with pinVerified := false } else c

/-- Key agreement with the key of slot 9D. -/
def handleGeneralAuthenticateEcdhSlot9d (crypto : CardCrypto) (now : Nat) (c : VirtualCard)
    (body : Option Bytes) : Bytes × VirtualCard :=
  let pin := c.effectivePinPolicy 0x9D
  match c.pinGate 0x9D with
  | some refusal => (refusal, c)
  | none =>
    match c.slot9dPriv with
    | none => (sw 0x6A 0x88, c)
    | some scalar =>
      match body.bind parseGaEcdhRequest with
      | none => (sw 0x6A 0x80, c)
      | some ephPub =>
        if !crypto.publicKey ephPub then (sw 0x6A 0x80, c)
        else if !crypto.nonZeroScalar scalar then (sw 0x6A 0x88, c)
        else
          match c.passTouchGate 0x9D now with
          | (false, c) => (swTouchTimeout, c)
          | (true, c) =>
            ([0x7C, 0x22, 0x82, 0x20] ++ crypto.diffieHellman scalar ephPub ++ sw 0x90 0x00,
              c.consumePin pin)

/-- A signature with the key of a slot. -/
def signEcdsaSlot (crypto : CardCrypto) (now : Nat) (c : VirtualCard) (body : Option Bytes)
    (slot : UInt8) : Bytes × VirtualCard :=
  let pin := c.effectivePinPolicy slot
  match c.pinGate slot with
  | some refusal => (refusal, c)
  | none =>
    match c.slotPriv slot with
    | none => (sw 0x6A 0x88, c)
    | some scalar =>
      match body.bind parseGaSignRequest with
      | none => (sw 0x6A 0x80, c)
      | some challenge =>
        if !crypto.signingKey scalar then (sw 0x6A 0x88, c)
        else
          match crypto.signPrehash scalar challenge with
          | none => (sw 0x6A 0x80, c)
          | some der =>
            match c.passTouchGate slot now with
            | (false, c) => (swTouchTimeout, c)
            | (true, c) =>
              let inner := 0x82 :: pushBerLen der.length ++ der
              (0x7C :: pushBerLen inner.length ++ inner ++ sw 0x90 0x00, c.consumePin pin)

/-- GENERATE ASYMMETRIC, behind the management key. -/
def handleGenerateAsymmetric (crypto : CardCrypto) (random : Bytes) (c : VirtualCard) (slot : UInt8)
    (body : Option Bytes) : Bytes × VirtualCard :=
  if !c.mgmtAuthenticated then (sw 0x69 0x82, c)
  else
    match body.bind parseGenerateRequest with
    | none => (sw 0x6A 0x80, c)
    | some request =>
      if request.alg ≠ 0x11 then (sw 0x6A 0x80, c)
      else if slot ≠ 0x9A ∧ slot ≠ 0x9C ∧ slot ≠ 0x9D then (sw 0x6A 0x86, c)
      else
        match validatedPolicy request.pinPolicy request.touchPolicy with
        | none => (sw 0x6A 0x80, c)
        | some policy =>
          let scalar := (c.generateOverrides slot).getD random
          if !crypto.signingKey scalar then (sw 0x6A 0x80, c)
          else
            let point := crypto.verifyingKey scalar
            let inner := 0x86 :: pushBerLen point.length ++ point
            ([0x7F, 0x49] ++ pushBerLen inner.length ++ inner ++ sw 0x90 0x00,
              c.installSlotKey slot scalar policy .generated)

/-- IMPORT ASYMMETRIC, behind the management key. -/
def handleImportAsymmetric (crypto : CardCrypto) (c : VirtualCard) (alg slot : UInt8)
    (body : Option Bytes) : Bytes × VirtualCard :=
  if !c.mgmtAuthenticated then (sw 0x69 0x82, c)
  else if alg ≠ 0x11 then (sw 0x6A 0x80, c)
  else if slot ≠ 0x9A ∧ slot ≠ 0x9C ∧ slot ≠ 0x9D ∧ slot ≠ 0x9E then (sw 0x6A 0x86, c)
  else
    match body.bind parseImportRequest with
    | none => (sw 0x6A 0x80, c)
    | some request =>
      if !crypto.signingKey request.scalar then (sw 0x6A 0x80, c)
      else
        match validatedPolicy request.pinPolicy request.touchPolicy with
        | none => (sw 0x6A 0x80, c)
        | some policy => (sw 0x90 0x00, c.installSlotKey slot request.scalar policy .imported)

/-- The public point of a slot scalar, if it is a key. -/
def publicPoint (crypto : CardCrypto) (scalar : Bytes) : Option Bytes :=
  if crypto.signingKey scalar then some (crypto.verifyingKey scalar) else none

/-- ATTEST: the certificate of a key that was generated on the card. -/
def handleAttest (crypto : CardCrypto) (c : VirtualCard) (slot : UInt8) : Bytes :=
  let generatedPoint := if c.slotOrigins slot = some .generated then
    (c.slotPriv slot).bind (publicPoint crypto) else none
  match generatedPoint with
  | none => sw 0x6A 0x80
  | some point =>
    crypto.attestation.attestSlot slot point (c.storedPolicy slot) c.model.firmwareVersion ++
      sw 0x90 0x00

/-- GET METADATA: algorithm, policy, origin and public key of a slot. -/
def handleGetMetadata (crypto : CardCrypto) (c : VirtualCard) (slot : UInt8) : Bytes :=
  match (c.slotPriv slot).bind (publicPoint crypto) with
  | none => sw 0x6A 0x88
  | some point =>
    let policy := c.storedPolicy slot
    let origin := (c.slotOrigins slot).getD .imported
    [0x01, 0x01, 0x11, 0x02, 0x02, policy.pin, policy.touch, 0x03, 0x01, origin.toByte, 0x04] ++
      pushBerLen (2 + point.length) ++ 0x86 :: pushBerLen point.length ++ point ++ sw 0x90 0x00

/-! ## Commands -/

/-- What a command sees besides the card: the clock, and a random scalar. -/
structure Surroundings where
  now : Nat
  random : Bytes
  deriving DecidableEq

/-- SELECT of PIV, of OTP or of an unknown applet. -/
def handleSelect (c : VirtualCard) (aid : Bytes) : Bytes × VirtualCard :=
  if pivAidPrefix <+: aid then
    (c.model.selectFciBytes ++ sw 0x90 0x00, { c with selectedPiv := true, selectedOtp := false })
  else if ykOtpAid <+: aid then
    (sw 0x90 0x00, { c with selectedOtp := true, selectedPiv := false })
  else (sw 0x6A 0x82, c)

/-- The commands with private keys and the management key, and what is asked of keys. -/
def keyCommand (crypto : CardCrypto) (around : Surroundings) (c : VirtualCard) (ins p1 p2 : UInt8)
    (body : Option Bytes) : Bytes × VirtualCard :=
  if ins = 0x87 ∧ p1 = 0x11 ∧ p2 = 0x9D then
    -- the tag of the request decides between a signature and key agreement
    if (body.bind parseGaSignRequest).isSome then c.signEcdsaSlot crypto around.now body 0x9D
    else c.handleGeneralAuthenticateEcdhSlot9d crypto around.now body
  else if ins = 0x87 ∧ p1 = 0x11 ∧ (p2 = 0x9A ∨ p2 = 0x9C ∨ p2 = 0x9E) then
    c.signEcdsaSlot crypto around.now body p2
  else if ins = 0x87 ∧ p1 = 0x03 ∧ p2 = 0x9B then c.handleGeneralAuthenticateMgmtKey crypto body
  else if ins = 0xFF ∧ p1 = 0xFF ∧ p2 = 0xFF then c.handleSetMgmtKey body
  else if ins = 0xFE then c.handleImportAsymmetric crypto p1 p2 body
  else if ins = 0xF9 ∧ p2 = 0x00 then (c.handleAttest crypto p1, c)
  else if ins = 0xF7 ∧ p1 = 0x00 then (c.handleGetMetadata crypto p2, c)
  else (sw 0x6D 0x00, c)

/-- The commands with PIN and PUK. -/
def pinCommand (crypto : CardCrypto) (around : Surroundings) (c : VirtualCard) (ins p1 p2 : UInt8)
    (body : Option Bytes) : Bytes × VirtualCard :=
  if ins = 0x20 then
    if p1 ≠ 0x00 ∨ p2 ≠ 0x80 then (sw 0x6A 0x80, c) else c.handleVerify body
  else if ins = 0x24 then
    if p1 ≠ 0x00 ∨ (p2 ≠ 0x80 ∧ p2 ≠ 0x81) then (sw 0x6A 0x80, c)
    else c.handleChangeReferenceData p2 body
  else if ins = 0x2C then
    if p1 ≠ 0x00 ∨ p2 ≠ 0x80 then (sw 0x6A 0x80, c) else c.handleResetRetryCounter body
  else if ins = 0xFB ∧ p1 = 0x00 ∧ p2 = 0x00 then c.handleFactoryReset
  else c.keyCommand crypto around ins p1 p2 body

/-- The commands of class zero. -/
def command (crypto : CardCrypto) (around : Surroundings) (c : VirtualCard) (ins p1 p2 : UInt8)
    (apdu : Bytes) : Bytes × VirtualCard :=
  if ins = 0xA4 ∧ p1 = 0x04 ∧ p2 = 0x00 then c.handleSelect ((apduBody apdu).getD [])
  else if ins = 0xCB ∧ p1 = 0x3F ∧ p2 = 0xFF then (c.handleGetData crypto apdu, c)
  else if ins = 0xDB ∧ p1 = 0x3F ∧ p2 = 0xFF then c.handlePutData apdu
  else if ins = 0x47 ∧ p1 = 0x00 then
    c.handleGenerateAsymmetric crypto around.random p2 (apduBody apdu)
  else if ins = 0xFD ∧ p1 = 0x00 ∧ p2 = 0x00 then (c.model.firmwareVersion ++ sw 0x90 0x00, c)
  else if ins = 0xF8 ∧ p1 = 0x00 ∧ p2 = 0x00 then
    match c.pivSerial with
    | some serial => (serial ++ sw 0x90 0x00, c)
    | none => (sw 0x6D 0x00, c)
  else if c.selectedOtp ∧ ins = 0x01 ∧ p1 = 0x10 ∧ p2 = 0x00 then (c.otpSerial ++ sw 0x90 0x00, c)
  else c.pinCommand crypto around ins p1 p2 (apduBody apdu)

/-- A command, unless a fault answers it. -/
def dispatchCommand (crypto : CardCrypto) (around : Surroundings) (c : VirtualCard) (apdu : Bytes) :
    Bytes × VirtualCard :=
  match apdu with
  | cla :: ins :: p1 :: p2 :: _ =>
    match takeFault ins c.faults with
    | some (fault, faults) =>
      (sw (UInt8.ofNat (fault.toNat / 256)) (UInt8.ofNat fault.toNat), { c with faults := faults })
    | none =>
      if cla = 0x00 then c.command crypto around ins p1 p2 apdu else (sw 0x6D 0x00, c)
  | _ => (sw 0x6F 0x00, c)

/-- One command. It never waits: a private-key operation without a touch sets `touchBlocked`. -/
def dispatch (crypto : CardCrypto) (around : Surroundings) (c : VirtualCard) (apdu : Bytes) :
    Bytes × VirtualCard :=
  let c := { c with touchBlocked := none }
  let ins := apdu[1]?
  if c.requireSelect ∧ c.selectedPiv = false ∧ c.selectedOtp = false ∧ ins.isSome ∧
      ins ≠ some 0xA4 then (sw 0x6D 0x00, c)
  else
    let (response, c) := c.dispatchCommand crypto around apdu
    if ins ≠ some 0x20 ∧ c.touchBlocked = none then
      (response, { c with commandSinceVerify := true })
    else (response, c)

/-- One command of a client that does not wait for a touch. The mark of a blocked operation is
taken off again. -/
def transmit (crypto : CardCrypto) (around : Surroundings) (c : VirtualCard) (apdu : Bytes) :
    Bytes × VirtualCard :=
  let (response, c) := c.dispatch crypto around apdu
  (response, { c with touchBlocked := none })

/-! ## The card in its reader -/

namespace Disposition

def leave : UInt32 := 0
def reset : UInt32 := 1
def unpower : UInt32 := 2
def eject : UInt32 := 3

/-- The dispositions that reset the card. -/
def resets (d : UInt32) : Bool := d = reset || d = unpower

end Disposition

/-- Puts the card into its reader or takes it out. -/
def setPresent (c : VirtualCard) (present : Bool) : VirtualCard :=
  let cold : VirtualCard :=
    if !present && c.inserted then
      { c with
        powered := false
        selectedPiv := false
        selectedOtp := false
        pinVerified := false
        pendingMgmtWitness := none
        mgmtAuthenticated := false
        touch := c.touch.clearCache }
    else c
  { cold with
    eventCounter := if present ≠ c.inserted then c.eventCounter + 1 else c.eventCounter
    inserted := present }

/-- Powers the card; no applet is selected. -/
def connect (c : VirtualCard) : VirtualCard :=
  { c with powered := true, selectedPiv := false, selectedOtp := false }

/-- Ends the session of the card. -/
def disconnect (c : VirtualCard) : VirtualCard :=
  { c with
    powered := false
    selectedPiv := false
    selectedOtp := false
    pinVerified := false
    pendingMgmtWitness := none
    mgmtAuthenticated := false }

/-- Ends a transaction; two of the dispositions reset the session. -/
def endTransaction (c : VirtualCard) (disposition : UInt32) : VirtualCard :=
  if Disposition.resets disposition then c.resetSessionState else c

/-- Adds a fault to the queue. -/
def injectFault (c : VirtualCard) (fault : Fault) : VirtualCard :=
  if fault.remaining = 0 then c else { c with faults := c.faults ++ [fault] }

/-- Empties the queue of faults. -/
def clearFaults (c : VirtualCard) : VirtualCard := { c with faults := [] }

/-- A touch of the card. -/
def grantTouch (c : VirtualCard) : VirtualCard := { c with touch := c.touch.grant }

end VirtualCard

end Piggy.Fibby
