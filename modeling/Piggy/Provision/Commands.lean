import Piggy.Provision.Select
import Piggy.Piv.Tlv

/-!
# Commands that write a card

`card init` sets up a card, `card add-key` adds one key to a card that was set up before. Both
pick the card first, ask the operator, and only then write. The two are also methods of a
request, whose parameters name the card.
-/

namespace Piggy.Provision

open Piggy.Core Piggy.Box Piggy.Card Piggy.Markl
open Piggy.Piv (slotToCertTag slotCert)

/-! ## Reading a slot -/

/-- Keys in certificates are read by a library: the key as a recipient, if it is one. -/
structure KeyReader where
  publicKey : Bytes → Except PivError Bytes
  recipientOf : Bytes → Option Bytes
  opensshLine : Bytes → UInt8 → String → Except String String

/-- The certificate of a slot and its key. -/
def readSlot (reader : KeyReader) (card : CardMeta) (slot : UInt8) :
    ProvProg (Except PivError (Bytes × Bytes)) :=
  match slotToCertTag slot with
  | none => pure (.error (.slotEmpty slot))
  | some tag => do
    let answer ← Prog.op (ProvOp.onCard card (.getData tag))
    match slotCert slot answer with
    | .error e => pure (.error e)
    | .ok cert =>
      match reader.publicKey cert with
      | .error e => pure (.error e)
      | .ok key => pure (.ok (cert, key))

/-! ## Setting up a card -/

/-- Whether the management key goes into the store, and under which name. -/
inductive SealMode where
  | never
  | offer
  | always (passName : Option String)
  deriving DecidableEq

/-- The name under which a management key is stored. -/
def defaultPassName (guidHex : String) : String := s!"piv/{guidHex}/management-key"

/-- Whether an entry for some recipients could be read after the key of the slot is gone: a
warning, or why not. -/
def checkEscrowRecipients (recipients : List Bytes) (destroyed : Option Bytes) :
    Except String (Option String) :=
  if recipients = [] then .error "the piggy-ids for this path declares no encryption recipients"
  else
    match destroyed with
    | none => .ok none
    | some doomed =>
      if doomed ∉ recipients then .ok none
      else if recipients.all (· = doomed) then
        .error ("the only recipient is this card's current 9D key, which reprovisioning destroys; " ++
          "add a backup card to the piggy-ids first")
      else .ok (some ("this card's current 9D key is a recipient, but reprovisioning destroys it; " ++
        "the sealed key stays readable by the other recipients only"))

/-- The key that setting up a card again destroys. -/
def current9dRecipient (reader : KeyReader) (card : CardMeta) : ProvProg (Option Bytes) :=
  if card.initialized then do
    match ← readSlot reader card slotKeyMgmt with
    | .error _ => pure none
    | .ok (_, key) => pure (reader.recipientOf key)
  else pure none

/-- The recipients of an entry, and a warning about them. -/
def prepareRecipients (reader : KeyReader) (card : CardMeta) (passName : String) :
    ProvProg (Except String (List Bytes × Option String)) :=
  (Prog.op (ProvOp.prepare passName)).andThen fun recipients => do
    let destroyed ← current9dRecipient reader card
    match checkEscrowRecipients recipients destroyed with
    | .error e => pure (.error e)
    | .ok warning => pure (.ok (recipients, warning))

/-- The escrow that a mode asks for. One that is only offered may be left out. -/
def prepareEscrow (reader : KeyReader) (card : CardMeta) (mode : SealMode) (guidHex : String) :
    ProvProg (Result (Option Escrow)) :=
  let resolve (passName : String) (required : Bool) : ProvProg (Result (Option Escrow)) := do
    match ← prepareRecipients reader card passName with
    | .ok (recipients, warning) =>
      match warning with
      | some message => do
        let _ ← Prog.op (ProvOp.progress ⟨"seal-warning", message, none, none⟩)
        pure (.ok (some ⟨passName, recipients, !required⟩))
      | none => pure (.ok (some ⟨passName, recipients, !required⟩))
    | .error e =>
      if required then pure (.error (.setup s!"cannot seal the management key to {passName}: {e}"))
      else pure (.ok none)
  match mode with
  | .never => pure (.ok none)
  | .offer => resolve (defaultPassName guidHex) false
  | .always passName => resolve (passName.getD (defaultPassName guidHex)) true

/-- A GUID for the card. -/
def drawGuid : ProvProg (Result Guid) := do
  match ← Prog.op (ProvOp.randBytes 16) with
  | .error e => pure (.error (.setup s!"generate GUID: {e}"))
  | .ok bytes =>
    if h : bytes.length = 16 then pure (.ok ⟨bytes, h⟩)
    else pure (.error (.setup "generate GUID: short read"))

/-- Picks a card and sets it up. -/
def provisionWithFrontend (certs : CertBuilder) (reader : KeyReader) (selector : CardSelector)
    (allowReprovision : Bool) (policies : SlotPolicies) (mode : SealMode) :
    ProvProg (Result ProvisionOutcome) :=
  ((Prog.op (ProvOp.enumerateTokens true)).orFail .setup).andThen fun cards =>
  match selectCardForProvision cards selector allowReprovision with
  | .error e => pure (.error (.setup e))
  | .ok card => do
    let version ← Prog.op (ProvOp.onCard card .readYkpivVersion)
    drawGuid.andThen fun guid =>
    (prepareEscrow reader card mode (hexEncodeUpper guid.bytes)).andThen fun escrow =>
    ((Prog.op (ProvOp.onCard card .beginPinSession)).orFail
      fun e => .setup s!"open card session: {e.text}").andThen fun _ =>
    run certs card ⟨policies, version.isSome, guid, card.initialized⟩ escrow

/-! ## Adding a key -/

/-- What add-key is asked for. -/
structure AddKeyArgs where
  slot : String
  pinPolicy : Option String
  touchPolicy : Option String
  replace : Bool
  managementKeyFromStore : Option String
  binding : RequestBinding

/-- The slot and the policy that the arguments mean. -/
def AddKeyArgs.slotAndPolicy (args : AddKeyArgs) : Except String (UInt8 × KeyPolicy) := do
  let (slot, base) ← addKeySlot args.slot
  let policy ← keyPolicyFromFlags base args.pinPolicy args.touchPolicy args.binding
  .ok (slot, policy)

/-- What add-key has found out before it asks. -/
structure AddKeyConfig where
  guid : String
  slot : UInt8
  policy : KeyPolicy
  acceptsPolicies : Bool
  occupied : Bool
  replace : Bool
  /-- The entry that the management key is read from. -/
  storedMgmtKey : Option String
  binding : RequestBinding

/-- What add-key has done. -/
structure AddKeyOutcome where
  guid : String
  slot : UInt8
  publicPoint : Bytes
  servesOperatorActs : Bool

/-- What add-key will do. -/
structure AddKeyPlan where
  guid : String
  slot : UInt8
  policy : KeyPolicy
  mgmtKey : Bytes
  pin : String
  binding : RequestBinding

/-- What the name of a slot's certificate begins with. -/
def slotCnPrefixOf (slot : UInt8) : String :=
  if slot = slotPivAuth then "piv-auth" else if slot = slotSignature then "piv-sign" else "piv-key-mgmt"

/-- The current management key as the operator gives it. -/
def parseCurrentMgmtKey (key : String) : Result Bytes :=
  if asciiLower (trimStr key) = "default" then .ok defaultAdminKey
  else parseMgmtKey key fun _ => "expected 48 hex digits, or the word default"

/-- How to try again when the key was made and its certificate was not. -/
def addKeyRetryAdvice (slot : UInt8) (binding : RequestBinding) : String :=
  match binding with
  | .cli => s!"Run `piggy card add-key {hexByte slot} --replace` to try again."
  | .jsonRpc => s!"Call card.add_key again for slot {hexByte slot} with " ++
      binding.switchOn "replace" ++ " to try again."

/-- The policy that a card is given. -/
def AddKeyConfig.effective (cfg : AddKeyConfig) : KeyPolicy :=
  if cfg.acceptsPolicies then cfg.policy else .cardDefault

/-- The card in a question. -/
def AddKeyConfig.label (cfg : AddKeyConfig) (serial : Option UInt32) : String :=
  (⟨cfg.guid, serial, none⟩ : CardId).shortLabel

/-- The question about a slot that holds a key. -/
def replaceMessage (slot : UInt8) (label : String) (policy : KeyPolicy) : String :=
  s!"Slot {upperSlot slot} on card {label} ALREADY HOLDS A KEY — replacing it DESTROYS that key, and " ++
    s!"everything that trusts it stops working. Generate a new {upperSlot slot} key ({policy.text})?"

/-- The question before a key is added. -/
def addMessage (slot : UInt8) (label : String) (policy : KeyPolicy) : String :=
  s!"Add a new {upperSlot slot} key ({policy.text}) to card {label}? No other slot is changed."

/-- The part that asks: refuses a slot that holds a key, confirms, and gets the management key and
the PIN. -/
def planAddKey (serial : Option UInt32) (cfg : AddKeyConfig) : ProvProg (Result AddKeyPlan) :=
  let id : CardId := ⟨cfg.guid, serial, none⟩
  let label := cfg.label serial
  let slotName := hexByte cfg.slot
  if cfg.occupied ∧ !cfg.replace then
    pure (.error (.setup (s!"slot {upperSlot cfg.slot} on card {label} already holds a key; " ++
      cfg.binding.switchOn "replace" ++ " destroys it and generates a new one")))
  else
    let message := if cfg.occupied then replaceMessage cfg.slot label cfg.effective
      else addMessage cfg.slot label cfg.effective
    ((Prog.op (ProvOp.confirm ⟨message, some false⟩)).orFail .frontend).andThen fun proceed =>
    if !proceed then pure (.error (.aborted "declined at confirmation"))
    else
      let stored : ProvProg (Result String) := match cfg.storedMgmtKey with
        | some passName => (Prog.op (ProvOp.recover passName)).orFail fun e => .setup
            s!"cannot read the management key from {passName} in the password store: {e}"
        | none => (Prog.op (ProvOp.requestSecret ⟨.managementKey, "Current management key", some id,
            some slotName, none,
            some "the card's current key: 48 hex digits, or the word default"⟩)).orFail .frontend
      stored.andThen fun text =>
      match parseCurrentMgmtKey text with
      | .error e => pure (.error e)
      | .ok mgmtKey =>
        ((Prog.op (ProvOp.requestSecret ⟨.currentPin, "Card PIN", some id, some slotName, none,
          some s!"to sign the new {upperSlot cfg.slot} certificate"⟩)).orFail .frontend).andThen fun pin =>
        pure (.ok ⟨cfg.guid, cfg.slot, cfg.effective, mgmtKey, pin, cfg.binding⟩)

/-- The part that writes. -/
def applyAddKey (certs : CertBuilder) (card : CardMeta) (plan : AddKeyPlan) :
    ProvProg (Result AddKeyOutcome) :=
  ((Prog.op (ProvOp.onCard card (.authenticateAdmin plan.mgmtKey))).orFail .card).andThen fun _ =>
  ((Prog.op (ProvOp.onCard card (.verifyPin plan.pin))).orFail .card).andThen fun _ => do
  let _ ← Prog.op (ProvOp.progress ⟨"generate-" ++ hexByte plan.slot,
    s!"Generating {upperSlot plan.slot} key", none, none⟩)
  (provisionSlot certs card plan.slot (slotCn (slotCnPrefixOf plan.slot) plan.guid) plan.policy plan.pin
    ("Any key the slot held before is gone. " ++ addKeyRetryAdvice plan.slot plan.binding)).andThen
    fun publicPoint =>
      if plan.slot = slotSignature then do
        let serves ← checkOperatorActs card
        pure (.ok ⟨plan.guid, plan.slot, publicPoint, serves⟩)
      else pure (.ok ⟨plan.guid, plan.slot, publicPoint, false⟩)

/-- The one card that a selector names, of those that were set up. -/
def selectProvisionedCard (selector : CardSelector) : ProvProg (Result CardMeta) :=
  ((Prog.op (ProvOp.enumerateTokens false)).orFail .setup).andThen fun cards =>
  if cards = [] then
    pure (.error (.setup ("no provisioned PIV card found (a blank card is set up with " ++
      "`piggy card init`)")))
  else
    match selectCardForProvision cards selector true with
    | .error e => pure (.error (.setup e))
    | .ok card => pure (.ok card)

/-- Whether a slot holds a key, from what reading it gave. -/
def occupiedOf (slot : UInt8) (read : Except PivError (Bytes × Bytes)) : Result Bool :=
  match read with
  | .ok _ => .ok true
  | .error (.slotEmpty _) => .ok false
  | .error e => .error (.setup
      s!"cannot tell whether slot {upperSlot slot} already holds a key: {e.text}")

/-- Plans, opens a session and writes. -/
def planAndApply (certs : CertBuilder) (card : CardMeta) (cfg : AddKeyConfig) :
    ProvProg (Result AddKeyOutcome) :=
  (planAddKey card.serial cfg).andThen fun plan =>
  ((Prog.op (ProvOp.onCard card .beginPinSession)).orFail
    fun e => .setup s!"open card session: {e.text}").andThen fun _ =>
  applyAddKey certs card plan

/-- Adds a key, questions included. -/
def addKeyWithFrontend (certs : CertBuilder) (reader : KeyReader) (selector : CardSelector)
    (args : AddKeyArgs) : ProvProg (Result AddKeyOutcome) :=
  match args.slotAndPolicy with
  | .error e => pure (.error (.setup e))
  | .ok (slot, policy) =>
    (selectProvisionedCard selector).andThen fun card => do
    let guid := hexEncodeUpper card.guid.bytes
    let version ← Prog.op (ProvOp.onCard card .readYkpivVersion)
    let read ← readSlot reader card slot
    match occupiedOf slot read with
    | .error e => pure (.error e)
    | .ok occupied => do
      let stored := args.managementKeyFromStore.map fun name =>
        if name = "" then defaultPassName guid else name
      let result ← planAndApply certs card
        ⟨guid, slot, policy, version.isSome, occupied, args.replace, stored, args.binding⟩
      let _ ← reportResult (fun outcome : AddKeyOutcome =>
        [("guid", outcome.guid), ("slot", hexByte outcome.slot)]) result
      pure result

/-! ## Requests -/

/-- How a failure of the engine is answered. -/
def rpcFailure : ProvisionError → RpcError
  | .frontend (.declined m) => ⟨interactionDeclined, m⟩
  | .aborted m => ⟨interactionDeclined, m⟩
  | e => ⟨cardOpFailed, e.text⟩

/-- The parameter that tells where the management key goes. -/
def sealParam (params : Json) : Except RpcError SealMode :=
  match params.get "seal_management_key" with
  | none | some .null | some (.bool false) => .ok .never
  | some (.bool true) => .ok (.always none)
  | some (.string s) =>
    if s ≠ "" then .ok (.always (some s))
    else .error ⟨invalidParams,
      "card.init: 'seal_management_key' must be a boolean or a non-empty store path"⟩
  | some _ => .error ⟨invalidParams,
      "card.init: 'seal_management_key' must be a boolean or a non-empty store path"⟩

/-- What `card.init` is asked for. -/
structure InitRequest where
  selector : CardSelector
  allowReprovision : Bool
  policies : SlotPolicies
  mode : SealMode

/-- The parameters of card.init. -/
def initRequest (params : Json) : Except RpcError InitRequest := do
  let serial ← serialParam "card.init" params
  let guid := (params.get "guid").bind Json.asStr
  let reader := (params.get "reader").bind Json.asStr
  let selector ← (CardSelector.fromFlags serial guid reader .jsonRpc).mapError
    fun e => (⟨invalidParams, s!"card.init: {e}"⟩ : RpcError)
  let allowReprovision := ((params.get "allow_reprovision").bind Json.asBool).getD false
  let policies ← slotPoliciesParam "card.init" params
  let mode ← sealParam params
  .ok ⟨selector, allowReprovision, policies, mode⟩

/-- The method card.init. -/
def cardInit (certs : CertBuilder) (reader : KeyReader) (params : Json) :
    ProvProg (Except RpcError Json) :=
  match initRequest params with
  | .error e => pure (.error e)
  | .ok request => do
    match ← provisionWithFrontend certs reader request.selector request.allowReprovision
        request.policies request.mode with
    | .ok outcome =>
      pure (.ok (.object ([("guid", .string outcome.guid),
        ("serves_operator_acts", .bool outcome.servesOperatorActs)] ++
        (outcome.generatedMgmtKey.map fun key => ("generated_management_key", Json.string key)).toList ++
        (outcome.sealedMgmtKey.map fun sealedKey =>
          ("sealed_management_key", Json.string sealedKey.passName)).toList)))
    | .error e => pure (.error (rpcFailure e))

/-- The parameter that tells which entry has the management key. -/
def storeParam (params : Json) : Except RpcError (Option String) :=
  match params.get "management_key_from_store" with
  | none | some .null | some (.bool false) => .ok none
  | some (.bool true) => .ok (some "")
  | some (.string s) =>
    if s ≠ "" then .ok (some s)
    else .error ⟨invalidParams,
      "card.add_key: 'management_key_from_store' must be a boolean or a non-empty store path"⟩
  | some _ => .error ⟨invalidParams,
      "card.add_key: 'management_key_from_store' must be a boolean or a non-empty store path"⟩

/-- The parameters of card.add_key. -/
def addKeyRequest (params : Json) : Except RpcError (CardSelector × AddKeyArgs) := do
  let method := "card.add_key"
  let slot ← optionalStr method params "slot"
  let slot ← match slot with
    | some slot => .ok slot
    | none => .error (⟨invalidParams, "card.add_key: 'slot' is required (9c or 9a)"⟩ : RpcError)
  let pinPolicy ← optionalStr method params "pin_policy"
  let touchPolicy ← optionalStr method params "touch_policy"
  let serial ← serialParam method params
  let guid ← optionalStr method params "guid"
  let reader ← optionalStr method params "reader"
  let selector ← (CardSelector.fromFlags serial guid reader .jsonRpc).mapError
    fun e => (⟨invalidParams, s!"card.add_key: {e}"⟩ : RpcError)
  let replace := ((params.get "replace").bind Json.asBool).getD false
  let stored ← storeParam params
  let args : AddKeyArgs := ⟨slot, pinPolicy, touchPolicy, replace, stored, .jsonRpc⟩
  match args.slotAndPolicy with
  | .error e => .error ⟨invalidParams, s!"card.add_key: {e}"⟩
  | .ok _ => .ok (selector, args)

/-- The method card.add_key. -/
def cardAddKey (certs : CertBuilder) (reader : KeyReader) (params : Json) :
    ProvProg (Except RpcError Json) :=
  match addKeyRequest params with
  | .error e => pure (.error e)
  | .ok (selector, args) => do
    match ← addKeyWithFrontend certs reader selector args with
    | .ok outcome =>
      match reader.opensshLine outcome.publicPoint outcome.slot outcome.guid with
      | .error e => pure (.error ⟨cardOpFailed, e⟩)
      | .ok publicKey => pure (.ok (.object [("guid", .string outcome.guid),
          ("slot", .string (hexByte outcome.slot)), ("public_key", .string publicKey),
          ("serves_operator_acts", .bool outcome.servesOperatorActs)]))
    | .error e => pure (.error (rpcFailure e))

end Piggy.Provision
