import Piggy.Agent.OperatorAct
import Piggy.Agent.Requests
import Piggy.Card.Policy
import Piggy.Core.Jobs

/-!
# Requests that sign

Every request of the agent is a program that calls the keys the agent serves, the PINs, the
prompt, the card and other agents. Two kinds of requests sign: a sign request, for any data but
that of an operator act, and an operator act, which shows its text first. Programs run at the
same time and their calls are answered in any way; the locks only leave out some orders.
-/

namespace Piggy.Agent

open Piggy.Core Piggy.Box Piggy.Card Piggy.Markl

/-! ## What is signed -/

/-- A key that the agent serves. -/
structure NativeKey where
  guid : Guid
  slotId : UInt8
  algorithm : PivAlgorithm
  publicKey : Bytes
  comment : String
  deriving DecidableEq

/-- A slot as a session reads it. -/
structure SlotInfo where
  algorithm : PivAlgorithm
  certDer : Bytes
  deriving DecidableEq

/-- The parts of a box that its card needs: where it says its key is, the recipient and the
ephemeral point. -/
structure BoxParts where
  guidSlot : Option (Guid × UInt8)
  recipient : Bytes
  ephemeral : Except String Bytes

/-- What signing calls and this model leaves open: the hashes and key encodings of libraries, and
the readers of policies, certificates and signatures (`parse_policy`, `extract_public_key`,
`to_ssh_signature`) that the card crate has. -/
structure SignCrates where
  sha : Sha2
  publicKeyFromBytes : Bytes → Except String Bytes
  parsePolicy : Bytes → Except PivError KeyPolicy
  extractPublicKey : Bytes → Except PivError Bytes
  /-- Whether the first certificate is signed by the key of the second. -/
  verifies : Bytes → Bytes → Except String Bool
  toSshSignature : PivAlgorithm → Bytes → UInt32 → Except String (String × Bytes)
  /-- The point of a public key blob. -/
  ecPoint : Bytes → Except String Bytes
  parseBox : Bytes → Except String BoxParts
  /-- Opens a box with its secret and seals it for a partner: the box, the secret, the partner,
  the target card and its slot. -/
  rebox : Bytes → Bytes → Bytes → Bytes → UInt8 → Except String Bytes

/-- What an agent was started with. -/
structure AgentSetup where
  crates : SignCrates
  /-- Whether there are other agents to ask. -/
  hasUpstreams : Bool
  proxyOnly : Bool

def rsaSha2512 : UInt32 := 4

/-- What stands before a digest in an RSA signature: SHA-256 and SHA-512. -/
def rsaDigestPrefixes : Bytes × Bytes :=
  ([0x30, 0x31, 0x30, 0x0d, 0x06, 0x09, 0x60, 0x86, 0x48, 0x01, 0x65, 0x03, 0x04, 0x02, 0x01, 0x05,
      0x00, 0x04, 0x20],
    [0x30, 0x51, 0x30, 0x0d, 0x06, 0x09, 0x60, 0x86, 0x48, 0x01, 0x65, 0x03, 0x04, 0x02, 0x03, 0x05,
      0x00, 0x04, 0x40])

/-- The padded digest that a key of so many bytes signs. -/
def pkcs1V15Pad (hash digestInfo : Bytes) (keySize : Nat) : Except String Bytes :=
  if keySize < digestInfo.length + hash.length + 11 then .error "key too small for digest"
  else
    .ok ([0x00, 0x01] ++ List.replicate (keySize - (digestInfo.length + hash.length) - 3) 0xFF ++
      [0x00] ++ digestInfo ++ hash)

/-- What the card is given for some data. -/
def prepareSignData (sha : Sha2) (alg : PivAlgorithm) (data : Bytes) (flags : UInt32) :
    Except String Bytes :=
  let rsa (keySize : Nat) :=
    if flags &&& rsaSha2512 ≠ 0 then pkcs1V15Pad (sha.sha512 data) rsaDigestPrefixes.2 keySize
    else pkcs1V15Pad (sha.sha256 data) rsaDigestPrefixes.1 keySize
  match alg with
  | .ecP256 => .ok (sha.sha256 data)
  | .ecP384 => .ok (sha.sha384 data)
  | .rsa1024 => rsa 128
  | .rsa2048 => rsa 256
  | .ed25519 => .ok data

/-! ## Operations -/

/-- What a request may call. -/
inductive AgentOp where
  | findCachedKey (publicKey : Bytes)
  | findKeyByGuid (g : Guid)
  | findKeyByRecipient (recipient : Bytes)
  | servedKeys
  | agentMode
  | hasPin
  | clearPins
  | offerPin (pin : String)
  | upstreamIdentities
  | upstreamSign (publicKey data : Bytes) (flags : UInt32)
  /-- Something that all other agents are told, whatever they answer. -/
  | upstreamTell (message : Bytes)
  | upstreamAdd (identity : Bytes)
  | upstreamNames
  | upstreamStatus
  | upstreamForward (name : String) (details : Bytes)
  | forwardForKey (publicKey details : Bytes)
  | ensurePin (op : String) (g : Guid)
  | forgetPin (g : Guid)
  | cachePin (g : Guid) (acquired : AcquiredPin)
  | reconnectToToken (g : Guid)
  | beginPinSession (g : Guid)
  | readSlot (g : Guid) (slot : UInt8)
  | pinRetriesRemaining (g : Guid)
  | verifyPin (g : Guid) (pin : String)
  | sign (g : Guid) (slot : UInt8) (alg : UInt8) (input : Bytes)
  | ecdhDerive (g : Guid) (slot : UInt8) (alg : UInt8) (point : Bytes)
  | ykAttest (g : Guid) (slot : UInt8)
  | askpass (prompt context kind : String)
  | notifyOperator (title message : String)
  /-- The time an operation took, in milliseconds. -/
  | elapsed
  deriving DecidableEq

/-- What the calls are answered with. -/
@[reducible]
def AgentAns : AgentOp → Type
  | .findCachedKey _ | .findKeyByGuid _ | .findKeyByRecipient _ => Option NativeKey
  | .servedKeys => List NativeKey
  | .agentMode | .upstreamStatus => Except String Bytes
  | .hasPin => Bool
  | .clearPins | .offerPin _ | .upstreamTell _ => Unit
  | .upstreamIdentities => Except String (List (Bytes × String))
  | .upstreamSign _ _ _ => Except String (String × Bytes)
  | .upstreamAdd _ => Except String Unit
  | .upstreamNames => List String
  | .upstreamForward _ _ => Except String (Option (String × Bytes))
  | .forwardForKey _ _ => Option (Except String (Except String (Option (String × Bytes))))
  | .ensurePin _ _ => Except String AcquiredPin
  | .forgetPin _ | .cachePin _ _ => Unit
  | .reconnectToToken _ => Except String Unit
  | .beginPinSession _ => Except PivError Unit
  | .readSlot _ _ => Except PivError SlotInfo
  | .pinRetriesRemaining _ => Except PivError UInt8
  | .verifyPin _ _ => Except PivError Unit
  | .sign _ _ _ _ | .ecdhDerive _ _ _ _ | .ykAttest _ _ => Except PivError Bytes
  | .askpass _ _ _ => Except String String
  | .notifyOperator _ _ => Bool
  | .elapsed => Nat

/-- The programs of the agent. -/
abbrev AgentProg := Prog AgentOp AgentAns

/-- An operation and its answer. -/
abbrev AgentCall := Σ op, AgentAns op

/-- The answer to a request. -/
inductive Answer where
  | failure (text : String)
  | identities (ids : List (Bytes × String))
  | signature (algorithm : String) (data : Bytes)
  | extension (reply : Option (String × Bytes))
  | done
  /-- The request is still in its loop. -/
  | pending

/-! ## The card -/

/-- The PIN for a slot. The card authentication slot needs none. -/
def acquirePin (op : String) (g : Guid) (slotId : UInt8) :
    AgentProg (Except String (Option AcquiredPin)) :=
  if slotId ≠ 0x9E then do
    match ← Prog.op (AgentOp.ensurePin op g) with
    | .error e => pure (.error e)
    | .ok acquired => pure (.ok (some acquired))
  else pure (.ok none)

/-- Whether a PIN is an offered one that the card may not have enough tries for. -/
def offerTooRisky (g : Guid) (acquired : AcquiredPin) : AgentProg Bool :=
  if acquired.offered then do
    let retries ← Prog.op (AgentOp.pinRetriesRemaining g)
    pure (!offeredRetriesOk retries)
  else pure false

/-- The loop around a PIN-protected use of a slot. A PIN that the card refuses is asked for
once more; the bound is on the rounds that are made, of which there may be any number. -/
def withPin {α : Type} (op : String) (g : Guid) (slotId : UInt8)
    (run : SlotInfo → AgentProg (Except String α)) :
    Nat → Nat → AgentProg (Option (Except String α))
  | 0, _ => pure none
  | rounds + 1, attempt => do
    match ← acquirePin op g slotId with
    | .error e => pure (some (.error e))
    | .ok acquired =>
      match ← Prog.op (AgentOp.reconnectToToken g) with
      | .error e => pure (some (.error e))
      | .ok () =>
        match ← Prog.op (AgentOp.beginPinSession g) with
        | .error e => pure (some (.error e.text))
        | .ok () =>
          match ← Prog.op (AgentOp.readSlot g slotId) with
          | .error e => pure (some (.error e.text))
          | .ok slot =>
            match acquired with
            | none => do
              let result ← run slot
              pure (some result)
            | some acquired =>
              if ← offerTooRisky g acquired then do
                let _ ← Prog.op (AgentOp.forgetPin g)
                withPin op g slotId run rounds attempt
              else
                match ← Prog.op (AgentOp.verifyPin g acquired.pin) with
                | .ok () => do
                  let _ ← Prog.op (AgentOp.cachePin g acquired)
                  let result ← run slot
                  pure (some result)
                | .error (.pinIncorrect retries) =>
                  if attempt < pinRetryLimit then do
                    let _ ← Prog.op (AgentOp.forgetPin g)
                    withPin op g slotId run rounds (attempt + 1)
                  else pure (some (.error (PivError.pinIncorrect retries).text))
                | .error e => pure (some (.error e.text))

/-- Signs with a slot that was read. -/
def signPrehash (g : Guid) (slotId : UInt8) (input : Bytes) (slot : SlotInfo) :
    AgentProg (Except String Bytes) := do
  match ← Prog.op (AgentOp.sign g slotId slot.algorithm.toByte input) with
  | .error e => pure (.error e.text)
  | .ok signature => pure (.ok signature)

/-- A signature for a key of the agent, or of another agent. -/
def signInner (setup : AgentSetup) (rounds : Nat) (publicKey data : Bytes) (flags : UInt32) :
    AgentProg Answer :=
  match refuseOperatorActSignedData data with
  | .error e => pure (.failure e)
  | .ok () => do
    match ← Prog.op (AgentOp.findCachedKey publicKey) with
    | none =>
      if setup.hasUpstreams then do
        match ← Prog.op (AgentOp.upstreamSign publicKey data flags) with
        | .error e => pure (.failure e)
        | .ok (algorithm, data) => pure (.signature algorithm data)
      else pure (.failure "key not found")
    | some key =>
      match prepareSignData setup.crates.sha key.algorithm data flags with
      | .error e => pure (.failure e)
      | .ok input => do
        match ← withPin "sign" key.guid key.slotId (signPrehash key.guid key.slotId input) rounds 0 with
        | none => pure .pending
        | some (.error e) => pure (.failure e)
        | some (.ok signature) =>
          match setup.crates.toSshSignature key.algorithm signature flags with
          | .error e => pure (.failure e)
          | .ok (algorithm, data) => pure (.signature algorithm data)

/-- A sign request. The key of a refused one is looked up again for the log. -/
def sign (setup : AgentSetup) (rounds : Nat) (publicKey data : Bytes) (flags : UInt32) :
    AgentProg Answer := do
  match ← signInner setup rounds publicKey data flags with
  | .failure e => do
    let _ ← Prog.op (AgentOp.findCachedKey publicKey)
    pure (.failure e)
  | answer => pure answer

/-! ## Operator acts -/

/-- A slot in a text. -/
def slotText (slot : UInt8) : String := "slot " ++ String.ofList (hexUpper slot)

/-- Whether the card attests that a slot holds a key for operator acts. -/
def checkOperatorActAttestation (crates : SignCrates) (g : Guid) (slot : UInt8) (requested : Bytes) :
    AgentProg (Except String Unit) := do
  match ← Prog.op (AgentOp.ykAttest g slot) with
  | .error e => pure (.error s!"{slotText slot}: the card did not attest the key ({e.text})")
  | .ok attestation =>
    match crates.parsePolicy attestation with
    | .error e => pure (.error s!"{slotText slot}: the attestation states no policy ({e.text})")
    | .ok policy =>
      if !policy.servesOperatorActs then pure (.error s!"{slotText slot}: {policy.text}")
      else
        match crates.extractPublicKey attestation with
        | .error e => pure (.error s!"{slotText slot}: unreadable attestation ({e.text})")
        | .ok attestedKey =>
          if attestedKey ≠ requested then
            pure (.error s!"{slotText slot}: the attestation is for a different key")
          else
            match ← Prog.op (AgentOp.readSlot g 0xF9) with
            | .error e =>
              pure (.error s!"{slotText slot}: no card attestation certificate ({e.text})")
            | .ok intermediate =>
              match crates.verifies attestation intermediate.certDer with
              | .error e => pure (.error s!"{slotText slot}: attestation chain unreadable ({e})")
              | .ok false =>
                pure (.error (s!"{slotText slot}: the attestation is not signed by the card's " ++
                  "attestation certificate"))
              | .ok true => pure (.ok ())

/-- The reason of a refused PIN. -/
def operatorActPinRefusal : PivError → String
  | .pinIncorrect retries => s!"wrong PIN ({retries.toNat} retries left)"
  | .pinBlocked => "PIN blocked"
  | other => s!"PIN verify failed: {other.text}"

/-- A security status that the card did not accept, by the time it took. -/
def securityStatusRefusal (millis : Nat) : Status × String :=
  let refusal := SecurityStatusRefusal.classify millis true
  let status := match refusal with
    | .touchTimedOut => Status.cancelled
    | .pinStateNotSatisfied => Status.error
  (status, refusal.describe millis)

/-- A request whose fields were judged. -/
structure JudgedAct where
  request : ActRequest
  hash : HashAlgorithm
  cls : DisplayClass
  text : String

/-- Judges the fields of a request for a key that is served here. -/
def judge (details : Bytes) : Except ActResponse JudgedAct :=
  match ActRequest.decode details with
  | none => .error (.refusal .badRequest "malformed operator-act request")
  | some request =>
    match HashAlgorithm.parse request.hashAlgorithm with
    | none => .error (.refusal .badRequest
        s!"hash algorithm {debugStr request.hashAlgorithm} is not sha256 or sha512")
    | some hash =>
      match displayClass request.namespaceName with
      | none => .error (.refusal .refusedNamespace
          s!"namespace {debugStr request.namespaceName} is not registered for operator acts")
      | some cls =>
        match displayableText request.text with
        | none => .error (.refusal .refusedText (s!"the text must be 1 to {maxTextBytes} bytes of " ++
            "UTF-8 with no control characters other than newline and tab"))
        | some text => .ok ⟨request, hash, cls, text⟩

/-- Signs an act on the card: the card attests once more, takes the PIN and waits for a touch. -/
def signAct (crates : SignCrates) (key : NativeKey) (publicKey : Bytes) (cls : DisplayClass)
    (input : Bytes) (pin : String) : AgentProg (Except ActResponse Bytes) := do
  match ← Prog.op (AgentOp.reconnectToToken key.guid) with
  | .error e => pure (.error (.refusal .cardAbsent e))
  | .ok () =>
    match ← checkOperatorActAttestation crates key.guid key.slotId publicKey with
    | .error detail => pure (.error (.refusal .refusedPolicy detail))
    | .ok () =>
      match ← Prog.op (AgentOp.beginPinSession key.guid) with
      | .error e => pure (.error (.refusal .cardAbsent e.text))
      | .ok () =>
        match ← Prog.op (AgentOp.verifyPin key.guid pin) with
        | .error e => pure (.error (.refusal .error (operatorActPinRefusal e)))
        | .ok () => do
          let _ ← Prog.op (AgentOp.notifyOperator "piggy-agent: touch your card"
            (s!"card {guidShortId key.guid}, {slotText key.slotId}: touch it now to sign the " ++
              s!"{cls.asStr} operator act"))
          match ← Prog.op (AgentOp.sign key.guid key.slotId key.algorithm.toByte input) with
          | .ok signature => pure (.ok signature)
          | .error .pinRequired => do
            let millis ← Prog.op AgentOp.elapsed
            let (status, detail) := securityStatusRefusal millis
            pure (.error (.refusal status detail))
          | .error e => pure (.error (.refusal .error e.text))

/-- An act for a key that is served here. -/
def serveOperatorAct (crates : SignCrates) (key : NativeKey) (publicKey details : Bytes) :
    AgentProg ActResponse :=
  match judge details with
  | .error response => pure response
  | .ok act => do
    match ← Prog.op (AgentOp.reconnectToToken key.guid) with
    | .error e => pure (.refusal .cardAbsent e)
    | .ok () =>
      match ← checkOperatorActAttestation crates key.guid key.slotId publicKey with
      | .error detail => pure (.refusal .refusedPolicy detail)
      | .ok () =>
        let card := guidShortId key.guid
        match ← Prog.op (AgentOp.askpass s!"PIN for card {card} to sign this operator act"
            (promptContext act.cls card key.slotId act.request.namespaceName act.text)
            act.cls.asStr) with
        | .error e => pure (.refusal .cancelled s!"no PIN from the askpass: {e}")
        | .ok pin =>
          let data := signedData crates.sha act.request.namespaceName act.hash act.request.text
          match prepareSignData crates.sha key.algorithm data 0 with
          | .error e => pure (.refusal .error e)
          | .ok input => do
            match ← signAct crates key publicKey act.cls input pin with
            | .error response => pure response
            | .ok signature =>
              match crates.toSshSignature key.algorithm signature 0 with
              | .error e => pure (.refusal .error e)
              | .ok (algorithm, data) =>
                pure (.ofSigned (sshsigBlob act.request.key act.request.namespaceName act.hash
                  (sshSignature algorithm data)))

/-- An operator act: checked, shown, and signed with a fresh PIN. -/
def handleOperatorAct (crates : SignCrates) (details : Bytes) : AgentProg Answer := do
  let reply (response : ActResponse) : AgentProg Answer :=
    pure (.extension (some (operatorActExtension, response.encode)))
  match (requestKey details).bind fun key => (crates.publicKeyFromBytes key).toOption with
  | none => reply (.refusal .badRequest "malformed operator-act request")
  | some publicKey =>
    match ← Prog.op (AgentOp.findCachedKey publicKey) with
    | none =>
      match ← Prog.op (AgentOp.forwardForKey publicKey details) with
      | some (.ok (.ok answer)) => pure (.extension answer)
      | some (.ok (.error e)) => pure (.failure e)
      | some (.error unanswered) => reply (.refusal .error unanswered)
      | none => reply (.refusal .noSuchKey "no agent here serves that key")
    | some key => do
      let response ← serveOperatorAct crates key publicKey details
      reply response

end Piggy.Agent
