import Piggy.Agent.Selection
import Piggy.Card.Policy
import Piggy.Core.Fallible
import Piggy.Core.Text

/-!
# The provisioning engine

Setting up a card is a fixed order of card writes and questions. The card, the person behind
the frontend and the store that a generated management key is sealed into are called as
operations that may answer anything, so that each of them may fail at every step.
-/

namespace Piggy.Provision

open Piggy.Core Piggy.Box Piggy.Card Piggy.Markl

/-! ## Questions and errors -/

/-- A card as it is picked from those that are attached. -/
structure CardMeta where
  serial : Option UInt32
  guid : Guid
  reader : String
  initialized : Bool
  deriving DecidableEq

/-- The bytes of a key or a GUID in upper-case hexadecimal digits. -/
def hexEncodeUpper (bytes : Bytes) : String := String.ofList (bytes.flatMap Agent.hexUpper)

/-- A card as a frontend names it. -/
structure CardId where
  guid : String
  serial : Option UInt32
  cn : Option String
  deriving DecidableEq

/-- The serial number, or the first characters of the GUID. -/
def CardId.shortLabel (id : CardId) : String :=
  match id.serial with
  | some s => s!"serial {s.toNat}"
  | none => "card " ++ String.ofList (id.guid.toList.take 8) ++ "…"

/-- The secrets that a frontend is asked for. -/
inductive SecretKind where
  | currentPin
  | newPin
  | confirmNewPin
  | currentPuk
  | newPuk
  | confirmNewPuk
  | managementKey
  | generic
  deriving DecidableEq

/-- A question for a secret. -/
structure SecretRequest where
  kind : SecretKind
  prompt : String
  card : Option CardId
  slot : Option String
  attemptsRemaining : Option UInt32
  detail : Option String
  deriving DecidableEq

/-- A question for a management key. -/
structure MgmtKeyRequest where
  prompt : String
  card : CardId
  deriving DecidableEq

/-- The answer to it. -/
inductive MgmtKeyChoice where
  | default
  | hex (key : String)
  | random
  deriving DecidableEq

/-- A question that is answered with yes or no. -/
structure ConfirmRequest where
  message : String
  default : Option Bool
  deriving DecidableEq

/-- A notice of progress. -/
structure ProgressEvent where
  step : String
  message : String
  current : Option Nat
  total : Option Nat
  deriving DecidableEq

/-- How a run ended. -/
inductive CompletedStatus where
  | ok
  | error
  deriving DecidableEq

/-- The end of an operation, with the fields of its summary. -/
structure CompletedEvent where
  status : CompletedStatus
  summary : Option (List (String × String))
  error : Option String
  deriving DecidableEq

/-- Why a frontend gave no answer. -/
inductive FrontendError where
  | declined (m : String)
  | transport (m : String)
  | protocol (m : String)
  deriving DecidableEq

/-- The text of a frontend's error. -/
def FrontendError.text : FrontendError → String
  | declined m => s!"interaction declined: {m}"
  | transport m => s!"transport error: {m}"
  | protocol m => s!"protocol error: {m}"

/-- Why a provision failed. -/
inductive ProvisionError where
  | setup (text : String)
  | card (e : PivError)
  | frontend (e : FrontendError)
  | aborted (m : String)
  | pinMismatch
  | pukMismatch
  | badMgmtKey (text : String)
  /-- The variant `Partial`: a write failed after others had succeeded. -/
  | partlyProvisioned (text : String)
  /-- The variant `Seal`. -/
  | sealing (text : String)
  deriving DecidableEq

/-- The text of an error. -/
def ProvisionError.text : ProvisionError → String
  | setup text => text
  | card e => s!"card error: {e.text}"
  | frontend e => s!"frontend error: {e.text}"
  | aborted m => s!"operator aborted: {m}"
  | pinMismatch => "the two PIN entries did not match"
  | pukMismatch => "the two PUK entries did not match"
  | badMgmtKey text => s!"supplied management key is not valid 24-byte hex: {text}"
  | partlyProvisioned text => text
  | sealing text =>
    s!"sealing the management key failed (the card's management key was not rotated): {text}"

/-! ## Operations -/

/-- What is asked of a card. -/
inductive CardOp where
  | authenticateAdmin (key : Bytes)
  | verifyPin (pin : String)
  | writeChuid (guid : Guid)
  | generateKey (slot : UInt8) (alg : PivAlgorithm) (policy : KeyPolicy)
  | attestedPolicy (slot : UInt8)
  | signPrehash (slot : UInt8) (alg : PivAlgorithm) (digest : Bytes)
  | putCert (slot : UInt8) (cert : Bytes)
  | changePin (old new : String)
  | changePuk (old new : String)
  | setManagementKey3des (key : Bytes)
  | readYkpivVersion
  /-- The object with the certificate of a slot. -/
  | getData (tag : Nat)
  | beginPinSession
  deriving DecidableEq

/-- What the operations on a card answer. -/
@[reducible]
def CardAns : CardOp → Type
  | .authenticateAdmin _ | .verifyPin _ | .writeChuid _ | .putCert _ _ | .changePin _ _
  | .changePuk _ _ | .setManagementKey3des _ | .beginPinSession => Except PivError Unit
  | .generateKey _ _ _ | .signPrehash _ _ _ => Except PivError Bytes
  | .attestedPolicy _ => Option KeyPolicy
  | .readYkpivVersion => Option Bytes
  | .getData _ => Except PivError (Bytes × StatusWord)

/-- What is asked of the store for one entry. -/
inductive EscrowOp where
  | createDirAll
  | createFile
  /-- Starts the program that encrypts its input into the file. -/
  | spawn
  | write (plaintext : Bytes)
  | flush
  /-- Waits for the program; its status if it failed. -/
  | wait
  | removeFile
  | commit
  deriving DecidableEq

/-- What the operations on the store answer. -/
@[reducible]
def EscrowAns : EscrowOp → Type
  | .createDirAll | .createFile | .spawn | .write _ | .flush | .removeFile => Except String Unit
  | .wait => Except String (Option String)
  | .commit => Unit

/-- What the engine and its drivers may call. -/
inductive ProvOp where
  | onCard (card : CardMeta) (op : CardOp)
  | confirm (request : ConfirmRequest)
  | requestSecret (request : SecretRequest)
  | requestMgmtKey (request : MgmtKeyRequest)
  | progress (event : ProgressEvent)
  | completed (event : CompletedEvent)
  | randBytes (length : Nat)
  | escrow (op : EscrowOp)
  /-- How long the last signature took, in milliseconds. -/
  | elapsed
  | enumerateTokens (uninitialized : Bool)
  /-- The recipients that the store has for a path, unless there is an entry already. -/
  | prepare (passName : String)
  | recover (passName : String)
  deriving DecidableEq

/-- What the operations of provisioning answer. -/
@[reducible]
def ProvAns : ProvOp → Type
  | .onCard _ op => CardAns op
  | .confirm _ => Except FrontendError Bool
  | .requestSecret _ => Except FrontendError String
  | .requestMgmtKey _ => Except FrontendError MgmtKeyChoice
  | .progress _ | .completed _ => Unit
  | .randBytes _ => Except String Bytes
  | .escrow op => EscrowAns op
  | .elapsed => Nat
  | .enumerateTokens _ => Except String (List CardMeta)
  | .prepare _ => Except String (List Bytes)
  | .recover _ => Except String String

/-- The programs of provisioning. -/
abbrev ProvProg := Prog ProvOp ProvAns

/-- What a program of the engine returns. -/
abbrev Result (α : Type) := Except ProvisionError α

/-- The certificates are built by a library: the digest to sign, and the certificate with its
signature. -/
structure CertBuilder where
  digest : Bytes → String → Except PivError Bytes
  assemble : Bytes → String → Bytes → Except PivError Bytes

/-! ## Slots -/

def defaultPin : String := "123456"

def defaultPuk : String := "12345678"

/-- The management key of a new card. -/
def defaultAdminKey : Bytes :=
  [0x01, 0x02, 0x03, 0x04, 0x05, 0x06, 0x07, 0x08, 0x01, 0x02, 0x03, 0x04, 0x05, 0x06, 0x07, 0x08,
    0x01, 0x02, 0x03, 0x04, 0x05, 0x06, 0x07, 0x08]

def slotPivAuth : UInt8 := 0x9A

def slotSignature : UInt8 := 0x9C

def slotKeyMgmt : UInt8 := 0x9D

/-- A slot in a text. -/
def upperSlot (slot : UInt8) : String := String.ofList (Agent.hexUpper slot)

/-- What is said before a touch. -/
def touchInstruction (touch : TouchPolicy) (slot : UInt8) : String :=
  match touch with
  | .cached => s!"Touch the card if it asks, to sign the {upperSlot slot} certificate"
  | _ => s!"Touch the card now to sign the {upperSlot slot} certificate"

/-- The name in a slot's certificate. -/
def slotCn (name guidHex : String) : String := name ++ "@" ++ String.ofList (guidHex.toList.take 8)

/-- A key that needs the PIN at every use needs it for its own certificate. -/
def verifyForKey (card : CardMeta) (slot : UInt8) (policy : KeyPolicy) (pin : String) :
    ProvProg (Except PivError Unit) :=
  if policy.effectivePin slot = .always then Prog.op (ProvOp.onCard card (.verifyPin pin))
  else pure (.ok ())

/-- Tells that a touch is needed, if it is. -/
def announceTouch (slot : UInt8) (policy : KeyPolicy) : ProvProg Unit :=
  if policy.needsTouch then
    Prog.op (ProvOp.progress
      ⟨"touch-" ++ hexByte slot, touchInstruction policy.touch slot, none, none⟩)
  else pure ()

/-- Builds the certificate of a key that signs itself and writes it, and how long a refused
signature took. -/
def writeCert (certs : CertBuilder) (card : CardMeta) (slot : UInt8) (cn : String) (point : Bytes) :
    ProvProg (Except PivError Unit × Option Nat) :=
  match certs.digest point cn with
  | .error e => pure (.error e, none)
  | .ok digest => do
    match ← Prog.op (ProvOp.onCard card (.signPrehash slot .ecP256 digest)) with
    | .error e => do
      let millis ← Prog.op ProvOp.elapsed
      pure (.error e, if e = .pinRequired ∨ e = .apdu 0x6982 then some millis else none)
    | .ok signature =>
      match certs.assemble point cn signature with
      | .error e => pure (.error e, none)
      | .ok cert => do
        let written ← Prog.op (ProvOp.onCard card (.putCert slot cert))
        pure (written, none)

/-- The part of a slot after its key was generated. -/
def certify (certs : CertBuilder) (card : CardMeta) (slot : UInt8) (cn : String) (policy : KeyPolicy)
    (pin : String) (point : Bytes) : ProvProg (Except PivError Unit × Option Nat) := do
  match ← verifyForKey card slot policy pin with
  | .error e => pure (.error e, none)
  | .ok () => do
    let _ ← announceTouch slot policy
    writeCert certs card slot cn point

/-- Generates the key of a slot and writes its certificate. Once the key is generated, a failure
says what the slot holds now. -/
def provisionSlot (certs : CertBuilder) (card : CardMeta) (slot : UInt8) (cn : String)
    (policy : KeyPolicy) (pin recovery : String) : ProvProg (Result Bytes) :=
  ((Prog.op (ProvOp.onCard card (.generateKey slot .ecP256 policy))).orFail .card).andThen
    fun point => do
      let (certified, refusedAfter) ← certify certs card slot cn policy pin point
      match certified with
      | .ok () => pure (.ok point)
      | .error e =>
        let why := match refusedAfter with
          | some millis =>
            ": " ++ (SecurityStatusRefusal.classify millis policy.needsTouch).describe millis
          | none => ""
        pure (.error (.partlyProvisioned (s!"slot {upperSlot slot} has a new key but its certificate " ++
          s!"was not written: {e.text}{why}. {recovery}")))

/-- What is said when the card is left half done. -/
def initRecovery : String :=
  "The card is partly provisioned and still on the factory PIN, PUK and management key. Run " ++
    "`piggy card init --allow-reprovision` to start again."

/-- Whether the card attests the key that it was just given as one for operator acts. -/
def checkOperatorActs (card : CardMeta) : ProvProg Bool := do
  let attested ← Prog.op (ProvOp.onCard card (.attestedPolicy slotSignature))
  let warn (why : String) : ProvProg Bool := do
    let _ ← Prog.op (ProvOp.progress ⟨"no-operator-acts",
      s!"Warning: this card cannot serve operator acts: {why}", none, none⟩)
    pure false
  match attested with
  | some policy =>
    if policy.servesOperatorActs then pure true
    else warn s!"slot 9C is attested {policy.text}, not PIN always, touch always"
  | none => warn ("it cannot attest its 9C key (it is not a YubiKey, so its keys carry no PIN and " ++
      "touch policy)")

/-! ## Secrets -/

/-- Asks for a new secret twice. -/
def collectNewSecret (card : CardId) (enter confirm : SecretKind) (prompt : String)
    (mismatch : ProvisionError) : ProvProg (Result String) :=
  let ask (kind : SecretKind) (prompt : String) : ProvProg (Result String) :=
    (Prog.op (ProvOp.requestSecret ⟨kind, prompt, some card, none, none, none⟩)).orFail .frontend
  (ask enter prompt).andThen fun first =>
    (ask confirm "Re-enter to confirm").andThen fun second =>
      if first ≠ second then pure (.error mismatch) else pure (.ok first)

/-- The value of a hexadecimal digit. -/
def hexValue (b : UInt8) : Option UInt8 :=
  if 0x30 ≤ b ∧ b ≤ 0x39 then some (b - 0x30)
  else if 0x41 ≤ b ∧ b ≤ 0x46 then some (b - 0x37)
  else if 0x61 ≤ b ∧ b ≤ 0x66 then some (b - 0x57)
  else none

/-- A byte as `{:?}` prints its character: the escapes of the language, and what cannot be printed
by its number. -/
def debugLatin1 (b : UInt8) : List Char :=
  if b = 0x00 then ['\\', '0']
  else if b = 0x09 then ['\\', 't']
  else if b = 0x0A then ['\\', 'n']
  else if b = 0x0D then ['\\', 'r']
  else if b = 0x27 then ['\\', '\'']
  else if b = 0x5C then ['\\', '\\']
  else if b < 0x20 ∨ (0x7F ≤ b ∧ b ≤ 0xA0) ∨ b = 0xAD then
    ['\\', 'u', '\x7b'] ++ Nat.toDigits 16 b.toNat ++ ['\x7d']
  else [Char.ofNat b.toNat]

/-- Hexadecimal digits from some position on. -/
def hexDecodeFrom (index : Nat) : Bytes → Except String Bytes
  | [] => .ok []
  | [_] => .error "Odd number of digits"
  | hi :: lo :: rest =>
    match hexValue hi, hexValue lo with
    | none, _ => .error (invalid hi index)
    | some _, none => .error (invalid lo (index + 1))
    | some high, some low => do
      let bytes ← hexDecodeFrom (index + 2) rest
      .ok ((high <<< 4 ||| low) :: bytes)
where
  invalid (b : UInt8) (index : Nat) : String :=
    s!"Invalid character '{String.ofList (debugLatin1 b)}' at position {index}"

/-- Decodes hexadecimal text. -/
def hexDecode (text : String) : Except String Bytes :=
  let bytes := strBytes text
  if bytes.length % 2 ≠ 0 then .error "Odd number of digits" else hexDecodeFrom 0 bytes

/-- A text without the white space around it. -/
def trimStr (s : String) : String := String.ofList (trim s.toList)

/-- A management key from hexadecimal digits. -/
def parseMgmtKey (key : String) (describe : String → String) : Except ProvisionError Bytes :=
  match hexDecode (trimStr key) with
  | .error e => .error (.badMgmtKey (describe e))
  | .ok bytes =>
    if bytes.length ≠ 24 then .error (.badMgmtKey s!"expected 24 bytes, got {bytes.length}")
    else .ok bytes

/-! ## The management key -/

/-- Where the key of an entry goes, and whether the operator is asked first. -/
structure Escrow where
  passName : String
  recipients : List Bytes
  ask : Bool

/-- Where a management key was stored. -/
structure SealedKey where
  passName : String
  recipients : Nat
  deriving DecidableEq

/-- Encrypts into a new file with another program. The file of a failed run of that program is
removed. -/
def encrypt (plaintext : Bytes) : ProvProg (Except String Unit) :=
  (Prog.op (ProvOp.escrow .createFile)).andThen fun _ =>
  (Prog.op (ProvOp.escrow .spawn)).andThen fun _ =>
  (Prog.op (ProvOp.escrow (.write plaintext))).andThen fun _ =>
  (Prog.op (ProvOp.escrow .flush)).andThen fun _ =>
  (Prog.op (ProvOp.escrow .wait)).andThen fun failure =>
    match failure with
    | none => pure (.ok ())
    | some status => do
      let _ ← Prog.op (ProvOp.escrow .removeFile)
      pure (.error s!"piggy-ids encrypt exited {status}")

/-- Writes the entry. -/
def sealEntry (keyHex : String) : ProvProg (Except String Unit) :=
  (Prog.op (ProvOp.escrow .createDirAll)).andThen fun _ => encrypt (strBytes (keyHex ++ "\n"))

/-- Whether the operator wants the key sealed. -/
def offerSeal (id : CardId) (escrow : Escrow) : ProvProg (Except FrontendError Bool) :=
  let n := escrow.recipients.length
  let plural := if n = 1 then "" else "s"
  Prog.op (ProvOp.confirm ⟨s!"Seal {id.shortLabel}'s new management key into the password store at " ++
    s!"{escrow.passName} ({n} recipient{plural})? Otherwise it is shown once and is NOT recoverable.",
    some false⟩)

/-- Says that a seal that was asked for did not happen. -/
def noteUnsealed (escrow : Option Escrow) : ProvProg Unit :=
  match escrow with
  | some escrow =>
    if escrow.ask then pure ()
    else Prog.op (ProvOp.progress ⟨"seal-skipped",
      "Management key not sealed: only a generated (random) key is escrowed", none, none⟩)
  | none => pure ()

/-- Seals the key and then sets it on the card. The entry of a key that the card refused is
removed. -/
def sealThenRotate (card : CardMeta) (escrow : Escrow) (key : Bytes) : ProvProg (Result SealedKey) := do
  let _ ← Prog.op (ProvOp.progress ⟨"seal-mgmt-key",
    s!"Sealing management key to {escrow.passName}", none, none⟩)
  ((sealEntry (hexEncodeUpper key)).orFail .sealing).andThen fun _ => do
    match ← Prog.op (ProvOp.onCard card (.setManagementKey3des key)) with
    | .error e => do
      let _ ← Prog.op (ProvOp.escrow .removeFile)
      pure (.error (.card e))
    | .ok () => do
      let _ ← Prog.op (ProvOp.escrow .commit)
      pure (.ok ⟨escrow.passName, escrow.recipients.length⟩)

/-- The escrow that a generated key goes to. -/
def chooseEscrow (id : CardId) (escrow : Option Escrow) : ProvProg (Option Escrow) :=
  match escrow with
  | none => pure none
  | some escrow =>
    if escrow.ask then do
      let answer ← offerSeal id escrow
      -- an answer that failed counts as no
      match answer with
      | .ok true => pure (some escrow)
      | _ => pure none
    else pure (some escrow)

/-- Sets a management key of the operator's choice. A generated key is returned, unless it was
sealed. -/
def rotateMgmtKey (card : CardMeta) (id : CardId) (escrow : Option Escrow) :
    ProvProg (Result (Option String × Option SealedKey)) :=
  ((Prog.op (ProvOp.requestMgmtKey ⟨"Management key for the card", id⟩)).orFail .frontend).andThen
    fun choice =>
      match choice with
      | .default => do
        let _ ← noteUnsealed escrow
        pure (.ok (none, none))
      | .hex key =>
        match parseMgmtKey key (fun e => e) with
        | .error e => pure (.error e)
        | .ok bytes =>
          ((Prog.op (ProvOp.onCard card (.setManagementKey3des bytes))).orFail .card).andThen fun _ => do
            let _ ← noteUnsealed escrow
            pure (.ok (none, none))
      | .random =>
        ((Prog.op (ProvOp.randBytes 24)).orFail fun e => .badMgmtKey s!"rng: {e}").andThen fun key => do
          match ← chooseEscrow id escrow with
          | some escrow =>
            (sealThenRotate card escrow key).andThen fun sealedKey => pure (.ok (none, some sealedKey))
          | none =>
            ((Prog.op (ProvOp.onCard card (.setManagementKey3des key))).orFail .card).andThen
              fun _ => pure (.ok (some (hexEncodeUpper key), none))

/-! ## Setting up a card -/

/-- The policies of the three keys. -/
structure SlotPolicies where
  pivAuth : KeyPolicy
  signature : KeyPolicy
  keyMgmt : KeyPolicy
  deriving DecidableEq

/-- The policies of a new card. -/
def SlotPolicies.initial : SlotPolicies := ⟨⟨.once, .cached⟩, .operatorAct, .cardDefault⟩

/-- The policies that the card chooses. -/
def SlotPolicies.cardDefault : SlotPolicies := ⟨.cardDefault, .cardDefault, .cardDefault⟩

/-- What a card is provisioned with. -/
structure ProvisionConfig where
  policies : SlotPolicies
  acceptsPolicies : Bool
  guid : Guid
  reprovision : Bool

/-- What was done to a card. -/
structure ProvisionOutcome where
  guid : String
  generatedMgmtKey : Option String
  sealedMgmtKey : Option SealedKey
  servesOperatorActs : Bool
  deriving DecidableEq

/-- A notice of one of the seven steps. -/
def progressStep (n : Nat) (token message : String) : ProvProg Unit :=
  Prog.op (ProvOp.progress ⟨token, message, some n, some 7⟩)

/-- The card under its new GUID. -/
def ProvisionConfig.cardId (cfg : ProvisionConfig) (card : CardMeta) : CardId :=
  ⟨hexEncodeUpper cfg.guid.bytes, card.serial, none⟩

/-- The question before anything is written. -/
def confirmProvision (card : CardMeta) (cfg : ProvisionConfig) : ProvProg (Result Unit) :=
  let label := (cfg.cardId card).shortLabel
  let message :=
    if cfg.reprovision then
      s!"Card {label} is ALREADY PROVISIONED — reprovisioning DESTROYS its existing 9A + 9C + 9D keys " ++
        "and overwrites their certs (and resets PIN/PUK/management key). Proceed?"
    else
      s!"Provision card {label} — this generates new 9A + 9C + 9D keys and overwrites their certs. " ++
        "Proceed?"
  ((Prog.op (ProvOp.confirm ⟨message, some false⟩)).orFail .frontend).andThen fun proceed =>
    if proceed then pure (.ok ()) else pure (.error (.aborted "declined at confirmation"))

/-- One of the three keys. -/
def provisionKey (certs : CertBuilder) (card : CardMeta) (cfg : ProvisionConfig) (n : Nat)
    (token message : String) (slot : UInt8) (name : String) (policy : KeyPolicy) : ProvProg (Result Bytes) := do
  let _ ← progressStep n token message
  provisionSlot certs card slot (slotCn name (hexEncodeUpper cfg.guid.bytes)) policy defaultPin
    initRecovery

/-- The steps up to the three keys. -/
def writeKeys (certs : CertBuilder) (card : CardMeta) (cfg : ProvisionConfig) : ProvProg (Result Bool) :=
  let policies := if cfg.acceptsPolicies then cfg.policies else .cardDefault
  (confirmProvision card cfg).andThen fun _ => do
    let _ ← progressStep 1 "admin-auth" "Authenticating management key"
    ((Prog.op (ProvOp.onCard card (.authenticateAdmin defaultAdminKey))).orFail .card).andThen fun _ =>
    ((Prog.op (ProvOp.onCard card (.verifyPin defaultPin))).orFail .card).andThen fun _ => do
    let _ ← progressStep 2 "write-chuid" "Writing CHUID"
    ((Prog.op (ProvOp.onCard card (.writeChuid cfg.guid))).orFail .card).andThen fun _ =>
    (provisionKey certs card cfg 3 "generate-9d" "Generating key-management key (9D)" slotKeyMgmt
      "piv-key-mgmt" policies.keyMgmt).andThen fun _ =>
    (provisionKey certs card cfg 4 "generate-9a" "Generating authentication key (9A)" slotPivAuth
      "piv-auth" policies.pivAuth).andThen fun _ =>
    (provisionKey certs card cfg 5 "generate-9c" "Generating operator-act key (9C)" slotSignature
      "piv-sign" policies.signature).andThen fun _ => do
    let serves ← checkOperatorActs card
    pure (.ok serves)

/-- The steps after the keys: PIN, PUK and management key. -/
def changeSecrets (card : CardMeta) (cfg : ProvisionConfig) (escrow : Option Escrow) :
    ProvProg (Result (Option String × Option SealedKey)) := do
  let id := cfg.cardId card
  let _ ← progressStep 6 "change-secrets" "Setting new PIN and PUK"
  (collectNewSecret id .newPin .confirmNewPin "Choose a new PIN" .pinMismatch).andThen fun newPin =>
  ((Prog.op (ProvOp.onCard card (.changePin defaultPin newPin))).orFail .card).andThen fun _ =>
  (collectNewSecret id .newPuk .confirmNewPuk "Choose a new PUK" .pukMismatch).andThen fun newPuk =>
  ((Prog.op (ProvOp.onCard card (.changePuk defaultPuk newPuk))).orFail .card).andThen fun _ => do
  let _ ← progressStep 7 "rotate-mgmt-key" "Rotating management key"
  rotateMgmtKey card id escrow

/-- The keys, then the secrets. -/
def runInner (certs : CertBuilder) (card : CardMeta) (cfg : ProvisionConfig) (escrow : Option Escrow) :
    ProvProg (Result ProvisionOutcome) :=
  (writeKeys certs card cfg).andThen fun serves =>
  (changeSecrets card cfg escrow).andThen fun (generated, sealedKey) =>
  pure (.ok ⟨hexEncodeUpper cfg.guid.bytes, generated, sealedKey, serves⟩)

/-- The last notification of an operation. -/
def reportResult {α : Type} (summary : α → List (String × String))
    (result : Except ProvisionError α) : ProvProg Unit :=
  match result with
  | .ok outcome => Prog.op (ProvOp.completed ⟨.ok, some (summary outcome), none⟩)
  | .error e => Prog.op (ProvOp.completed ⟨.error, none, some e.text⟩)

/-- Sets up a card. -/
def run (certs : CertBuilder) (card : CardMeta) (cfg : ProvisionConfig) (escrow : Option Escrow) :
    ProvProg (Result ProvisionOutcome) := do
  let result ← runInner certs card cfg escrow
  let _ ← reportResult (fun outcome : ProvisionOutcome =>
    ("guid", outcome.guid) :: match outcome.sealedMgmtKey with
      | some sealedKey => [("sealed_management_key", sealedKey.passName)]
      | none => []) result
  pure result

/-! ## What the parts call -/

/-- The operations that set up one slot of a card. -/
def SlotOps (card : CardMeta) (slot : UInt8) : ProvOp → Prop
  | .progress _ | .elapsed => True
  | .onCard card' (.verifyPin _) => card' = card
  | .onCard card' (.generateKey slot' _ _) => card' = card ∧ slot' = slot
  | .onCard card' (.signPrehash slot' _ _) => card' = card ∧ slot' = slot
  | .onCard card' (.putCert slot' _) => card' = card ∧ slot' = slot
  | _ => False

/-- The operations of a slot once its key was generated. -/
def CertOps (card : CardMeta) (slot : UInt8) : ProvOp → Prop
  | .onCard _ (.generateKey _ _ _) => False
  | op => SlotOps card slot op

theorem CertOps.slotOps {card : CardMeta} {slot : UInt8} {op : ProvOp} (h : CertOps card slot op) :
    SlotOps card slot op := by
  cases op with
  | onCard card' op =>
    cases op with
    | generateKey slot' alg policy => exact h.elim
    | _ => exact h
  | _ => exact h

theorem announceTouch_only (card : CardMeta) (slot : UInt8) (policy : KeyPolicy) :
    (announceTouch slot policy).Only (CertOps card slot) := by
  rw [announceTouch]
  split
  · exact ⟨trivial, fun _ => trivial⟩
  · trivial

theorem writeCert_only (certs : CertBuilder) (card : CardMeta) (slot : UInt8) (cn : String)
    (point : Bytes) : (writeCert certs card slot cn point).Only (CertOps card slot) := by
  simp only [writeCert, Prog.op_bind]
  split
  · trivial
  refine ⟨⟨rfl, rfl⟩, ?_⟩
  rintro (e | signature)
  · exact ⟨trivial, fun _ => trivial⟩
  · dsimp only
    split
    · trivial
    · exact ⟨⟨rfl, rfl⟩, fun _ => trivial⟩

theorem certify_only (certs : CertBuilder) (card : CardMeta) (slot : UInt8) (cn : String)
    (policy : KeyPolicy) (pin : String) (point : Bytes) :
    (certify certs card slot cn policy pin point).Only (CertOps card slot) := by
  have hverify : (verifyForKey card slot policy pin).Only (CertOps card slot) := by
    rw [verifyForKey]
    split
    · exact ⟨rfl, fun _ => trivial⟩
    · trivial
  refine hverify.bind ?_
  rintro (e | ⟨⟩)
  · trivial
  · exact (announceTouch_only card slot policy).bind fun _ => writeCert_only certs card slot cn point

theorem provisionSlot_only (certs : CertBuilder) (card : CardMeta) (slot : UInt8) (cn : String)
    (policy : KeyPolicy) (pin recovery : String) :
    (provisionSlot certs card slot cn policy pin recovery).Only (SlotOps card slot) := by
  have hgenerate : SlotOps card slot (.onCard card (.generateKey slot .ecP256 policy)) := ⟨rfl, rfl⟩
  refine Prog.Only.andThen ((Prog.only_op hgenerate).orFail _) ?_
  intro point
  refine ((certify_only certs card slot cn policy pin point).mono fun _ => CertOps.slotOps).bind ?_
  rintro ⟨e | ⟨⟩, refusedAfter⟩ <;> trivial

/-- The operations of the steps up to the three keys. -/
def KeyOps (card : CardMeta) : ProvOp → Prop
  | .confirm _ => True
  | .onCard card' (.authenticateAdmin _) => card' = card
  | .onCard card' (.writeChuid _) => card' = card
  | .onCard card' (.attestedPolicy _) => card' = card
  | op => ∃ slot, SlotOps card slot op

theorem SlotOps.keyOps {card : CardMeta} {slot : UInt8} {op : ProvOp} (h : SlotOps card slot op) :
    KeyOps card op := by
  cases op with
  | onCard card' op =>
    cases op with
    | verifyPin pin => exact ⟨slot, h⟩
    | generateKey slot' alg policy => exact ⟨slot, h⟩
    | signPrehash slot' alg digest => exact ⟨slot, h⟩
    | putCert slot' cert => exact ⟨slot, h⟩
    | _ => exact h.elim
  | progress event => exact ⟨slot, h⟩
  | elapsed => exact ⟨slot, h⟩
  | _ => exact h.elim

theorem provisionKey_only (certs : CertBuilder) (card : CardMeta) (cfg : ProvisionConfig) (n : Nat)
    (token message : String) (slot : UInt8) (name : String) (policy : KeyPolicy) :
    (provisionKey certs card cfg n token message slot name policy).Only (KeyOps card) := by
  refine Prog.Only.bind (Prog.only_op ⟨slot, trivial⟩) fun _ => ?_
  exact (provisionSlot_only certs card slot _ policy defaultPin initRecovery).mono fun _ => SlotOps.keyOps

theorem checkOperatorActs_only {kind : ProvOp → Prop} {card : CardMeta}
    (hattest : kind (.onCard card (.attestedPolicy slotSignature)))
    (hwarn : ∀ event, kind (.progress event)) : (checkOperatorActs card).Only kind := by
  refine ⟨hattest, ?_⟩
  rintro (_ | policy)
  · exact ⟨hwarn _, fun _ => trivial⟩
  · show Prog.Only _ (if policy.servesOperatorActs = true then _ else _)
    split
    · trivial
    · exact ⟨hwarn _, fun _ => trivial⟩

theorem writeKeys_only (certs : CertBuilder) (card : CardMeta) (cfg : ProvisionConfig) :
    (writeKeys certs card cfg).Only (KeyOps card) := by
  have hstep : ∀ n token message, (progressStep n token message).Only (KeyOps card) :=
    fun _ _ _ => Prog.only_op ⟨0, trivial⟩
  have hadmin : KeyOps card (.onCard card (.authenticateAdmin defaultAdminKey)) := rfl
  have hpin : KeyOps card (.onCard card (.verifyPin defaultPin)) := ⟨0, rfl⟩
  have hchuid : KeyOps card (.onCard card (.writeChuid cfg.guid)) := rfl
  refine Prog.Only.andThen ?_ fun _ => ?_
  · refine Prog.Only.andThen ((Prog.only_op trivial).orFail _) fun proceed => ?_
    split <;> trivial
  refine (hstep ..).bind fun _ => ?_
  refine ((Prog.only_op hadmin).orFail _).andThen fun _ => ?_
  refine ((Prog.only_op hpin).orFail _).andThen fun _ => ?_
  refine (hstep ..).bind fun _ => ?_
  refine ((Prog.only_op hchuid).orFail _).andThen fun _ => ?_
  refine (provisionKey_only ..).andThen fun _ => ?_
  refine (provisionKey_only ..).andThen fun _ => ?_
  refine (provisionKey_only ..).andThen fun _ => ?_
  have hattest : KeyOps card (.onCard card (.attestedPolicy slotSignature)) := rfl
  exact (checkOperatorActs_only hattest fun _ => ⟨0, trivial⟩).bind fun _ => trivial

section

variable {kind : ProvOp → Prop} {card : CardMeta}

theorem collectNewSecret_only (hask : ∀ request, kind (.requestSecret request)) (id : CardId)
    (enter confirm : SecretKind) (prompt : String) (mismatch : ProvisionError) :
    (collectNewSecret id enter confirm prompt mismatch).Only kind := by
  refine Prog.Only.andThen ((Prog.only_op (hask _)).orFail _) fun first => ?_
  refine Prog.Only.andThen ((Prog.only_op (hask _)).orFail _) fun second => ?_
  split <;> trivial

theorem noteUnsealed_only (htell : ∀ event, kind (.progress event)) (escrow : Option Escrow) :
    (noteUnsealed escrow).Only kind := by
  rcases escrow with _ | escrow
  · trivial
  · rw [noteUnsealed]
    split
    · trivial
    · exact ⟨htell _, fun _ => trivial⟩

theorem chooseEscrow_only (hask : ∀ request, kind (.confirm request)) (id : CardId)
    (escrow : Option Escrow) : (chooseEscrow id escrow).Only kind := by
  rcases escrow with _ | escrow
  · trivial
  · rw [chooseEscrow]
    split
    · refine ⟨hask _, ?_⟩
      rintro (e | _ | _) <;> trivial
    · trivial

theorem sealThenRotate_only (hset : ∀ key, kind (.onCard card (.setManagementKey3des key)))
    (htell : ∀ event, kind (.progress event)) (hescrow : ∀ op, kind (.escrow op)) (escrow : Escrow)
    (key : Bytes) : (sealThenRotate card escrow key).Only kind := by
  have hentry : (sealEntry (hexEncodeUpper key)).Only kind := by
    refine (Prog.only_op (hescrow _)).andThen fun _ => ?_
    refine (Prog.only_op (hescrow _)).andThen fun _ => ?_
    refine (Prog.only_op (hescrow _)).andThen fun _ => ?_
    refine (Prog.only_op (hescrow _)).andThen fun _ => ?_
    refine (Prog.only_op (hescrow _)).andThen fun _ => ?_
    refine (Prog.only_op (hescrow _)).andThen fun failure => ?_
    cases failure with
    | none => trivial
    | some status => exact ⟨hescrow _, fun _ => trivial⟩
  refine ⟨htell _, fun _ => (hentry.orFail _).andThen fun _ => ⟨hset _, ?_⟩⟩
  rintro (e | ⟨⟩)
  · exact ⟨hescrow _, fun _ => trivial⟩
  · exact ⟨hescrow _, fun _ => trivial⟩

theorem reportResult_only {α : Type} (htell : ∀ event, kind (.completed event))
    (summary : α → List (String × String)) (result : Result α) :
    (reportResult summary result).Only kind := by
  rcases result with e | outcome <;> exact Prog.only_op (htell _)

end

end Piggy.Provision
