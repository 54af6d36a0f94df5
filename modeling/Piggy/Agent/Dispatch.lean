import Piggy.Agent.Signing

/-!
# Every request of the agent

The requests of the agent protocol and its extensions, each as the program that serves it.
-/

namespace Piggy.Agent

open Piggy.Core Piggy.Box Piggy.Card Piggy.Markl

/-- The requests that the agent answers. -/
inductive AgentRequest where
  | requestIdentities
  | sign (publicKey data : Bytes) (flags : UInt32)
  | lock (key : String)
  | unlock (key : String)
  | addIdentity (identity : Bytes)
  | addIdentityConstrained (identity : Bytes)
  | extension (name : String) (details : Bytes)
  deriving DecidableEq

/-- The keys that are served here come first, and no key is listed twice. -/
def requestIdentities (setup : AgentSetup) : AgentProg Answer := do
  let keys ← Prog.op AgentOp.servedKeys
  let native := keys.map fun key => (key.publicKey, key.comment)
  if setup.hasUpstreams then do
    match ← Prog.op AgentOp.upstreamIdentities with
    | .error e => pure (if native = [] then .failure e else .identities native)
    | .ok others =>
      pure (.identities (others.foldl (fun ids other =>
        if ids.any fun known => known.1 = other.1 then ids else ids ++ [other]) native))
  else pure (.identities native)

/-- Forgets the PINs and tells the other agents. -/
def lock (setup : AgentSetup) (key : String) : AgentProg Answer := do
  let _ ← Prog.op AgentOp.clearPins
  if setup.hasUpstreams then do
    let _ ← Prog.op (AgentOp.upstreamTell (strBytes key))
    pure .done
  else pure .done

/-- Offers the text as a PIN and tells the other agents. -/
def unlock (setup : AgentSetup) (key : String) : AgentProg Answer := do
  let _ ← Prog.op (AgentOp.offerPin key)
  if setup.hasUpstreams then do
    let _ ← Prog.op (AgentOp.upstreamTell (strBytes key))
    pure .done
  else pure .done

/-- An added key can only go to another agent. -/
def addIdentity (identity : Bytes) : AgentProg Answer := do
  match ← Prog.op (AgentOp.upstreamAdd identity) with
  | .error e => pure (.failure e)
  | .ok () => pure .done

/-! ## Card extensions -/

/-- A text with its length in front, at an offset, and where it ends. -/
def readSshString (data : Bytes) (offset : Nat) : Except String (Bytes × Nat) :=
  if data.length < offset + 4 then .error "SSH string: not enough data for length"
  else
    let len := ofBe ((data.drop offset).take 4)
    let rest := data.drop (offset + 4)
    if rest.length < len then
      .error s!"SSH string: length {len} exceeds remaining data {rest.length}"
    else .ok (rest.take len, offset + 4 + len)

/-- A word, big-endian, at an offset. -/
def readU32Be (data : Bytes) (offset : Nat) (label : String) : Except String Nat :=
  if data.length < offset + 4 then .error s!"{label}: truncated flags field"
  else .ok (ofBe ((data.drop offset).take 4))

/-- Why an extension was not served here. -/
inductive NativeExtError where
  /-- The key is not one that is served here. -/
  | keyNotNative (text : String)
  | agent (text : String)

/-- The outcome of an extension; nothing while it is still in its loop. -/
abbrev NativeExt := Option (Except NativeExtError (Option (String × Bytes)))

/-- An error of the agent's own. -/
private def agentError (e : String) : NativeExt := some (.error (.agent e))

def ecdhCanonical : String := "ecdh@code.linenisgreat.com"

def ecdhLegacy : String := "ecdh@joyent.com"

/-- Key agreement under either of its names. -/
def isEcdh (name : String) : Bool := name = ecdhCanonical || name = ecdhLegacy

/-- The card key and the partner's key. -/
def ecdhRequest (crates : SignCrates) (details : Bytes) : Except String (Bytes × Bytes) := do
  let (inner, _) ← readSshString details 0
  let (cardKeyBlob, pos) ← readSshString inner 0
  let (partnerBlob, pos) ← readSshString inner pos
  let _ ← readU32Be inner pos "ecdh"
  match crates.publicKeyFromBytes cardKeyBlob with
  | .error e => .error s!"ecdh: bad card key: {e}"
  | .ok publicKey => .ok (publicKey, partnerBlob)

/-- The secret of a slot that was read and a point. -/
def ecdhDerive (g : Guid) (slotId : UInt8) (point : Bytes) (slot : SlotInfo) :
    AgentProg (Except String Bytes) := do
  match ← Prog.op (AgentOp.ecdhDerive g slotId slot.algorithm.toByte point) with
  | .error e => pure (.error e.text)
  | .ok secret => pure (.ok secret)

/-- Key agreement with a key of the agent. -/
def handleEcdh (crates : SignCrates) (rounds : Nat) (name : String) (details : Bytes) :
    AgentProg NativeExt :=
  match ecdhRequest crates details with
  | .error e => pure (agentError e)
  | .ok (publicKey, partnerBlob) => do
    match ← Prog.op (AgentOp.findCachedKey publicKey) with
    | none => pure (some (.error (.keyNotNative "ecdh: key not found")))
    | some key =>
      match crates.ecPoint partnerBlob with
      | .error e => pure (agentError e)
      | .ok point =>
        if key.algorithm = .ecP256 ∨ key.algorithm = .ecP384 then do
          match ← withPin "ecdh" key.guid key.slotId (ecdhDerive key.guid key.slotId point) rounds 0
            with
          | none => pure none
          | some (.error e) => pure (agentError e)
          | some (.ok secret) => pure (some (.ok (some (name, putString secret))))
        else pure (agentError "ecdh: key is not an EC key")

/-- The attestation of a card's key. -/
def handleAttest (crates : SignCrates) (details : Bytes) : AgentProg NativeExt :=
  let request : Except String Bytes := do
    let (inner, _) ← readSshString details 0
    let (cardKeyBlob, pos) ← readSshString inner 0
    let _ ← readU32Be inner pos "attest"
    match crates.publicKeyFromBytes cardKeyBlob with
    | .error e => .error s!"attest: bad card key: {e}"
    | .ok publicKey => .ok publicKey
  match request with
  | .error e => pure (agentError e)
  | .ok publicKey => do
    match ← Prog.op (AgentOp.findCachedKey publicKey) with
    | none => pure (some (.error (.keyNotNative "attest: key not found")))
    | some key =>
      match ← Prog.op (AgentOp.reconnectToToken key.guid) with
      | .error e => pure (agentError e)
      | .ok () =>
        match ← Prog.op (AgentOp.ykAttest key.guid key.slotId) with
        | .error e => pure (agentError e.text)
        | .ok attestCert => do
          let certs ← do
            match ← Prog.op (AgentOp.readSlot key.guid 0xF9) with
            | .ok f9Slot => pure [attestCert, f9Slot.certDer]
            | .error _ => pure [attestCert]
          pure (some (.ok (some ("ykpiv-attest@joyent.com",
            putU32 certs.length ++ (certs.map putString).flatten))))

/-- The fields of a request to seal a box again. -/
structure ReboxRequest where
  box : Bytes
  parts : BoxParts
  guid : Bytes
  slotId : UInt8
  partner : Bytes

/-- The box, the key and the partner of a request. -/
def reboxRequest (crates : SignCrates) (details : Bytes) : Except String ReboxRequest := do
  let (inner, _) ← readSshString details 0
  let (box, pos) ← readSshString inner 0
  let (guid, pos) ← readSshString inner pos
  let slotId ← match inner[pos]? with
    | none => .error "ecdh-rebox: truncated slot_id"
    | some slotId => .ok slotId
  let (partner, pos) ← readSshString inner (pos + 1)
  let flags ← readU32Be inner pos "ecdh-rebox"
  if flags ≠ 0 then .error s!"ecdh-rebox: unsupported flags 0x{String.ofList (Nat.toDigits 16 flags)}"
  else
    match crates.parseBox box with
    | .error e => .error s!"ecdh-rebox: bad box: {e}"
    | .ok parts => .ok ⟨box, parts, guid, slotId, partner⟩

/-- The key of a box and its slot: by the card that the box names, or by its recipient. -/
def boxKey (parts : BoxParts) : AgentProg (Except String (NativeKey × UInt8)) :=
  match parts.guidSlot with
  | some (g, slot) => do
    match ← Prog.op (AgentOp.findKeyByGuid g) with
    | none => pure (.error "ecdh-rebox: no matching key for GUID")
    | some key => pure (.ok (key, slot))
  | none => do
    match ← Prog.op (AgentOp.findKeyByRecipient parts.recipient) with
    | none => pure (.error "ecdh-rebox: no agent key matches the box recipient")
    | some key => pure (.ok (key, key.slotId))

/-- Opens a box with a key of the agent and seals it for the partner. -/
def handleEcdhRebox (crates : SignCrates) (rounds : Nat) (details : Bytes) : AgentProg NativeExt :=
  match reboxRequest crates details with
  | .error e => pure (agentError e)
  | .ok request => do
    match ← boxKey request.parts with
    | .error text => pure (some (.error (.keyNotNative text)))
    | .ok (key, slot) =>
      match request.parts.ephemeral with
      | .error e => pure (agentError e)
      | .ok point => do
        match ← withPin "ecdh-rebox" key.guid slot (ecdhDerive key.guid slot point) rounds 0 with
        | none => pure none
        | some (.error e) => pure (agentError e)
        | some (.ok secret) =>
          match crates.rebox request.box secret request.partner request.guid request.slotId with
          | .error e => pure (agentError e)
          | .ok box => pure (some (.ok (some ("ecdh-rebox@joyent.com", putString box))))

/-! ## Extensions -/

/-- What the other agents answered. -/
private def relayed : Except String (Option (String × Bytes)) → Answer
  | .error e => .failure e
  | .ok reply => .extension reply

/-- The answer of a card extension. A key that is not served here is left to other agents; one
that only knows the old name of an extension is asked under that name too. -/
def cardExtension (setup : AgentSetup) (name : String) (details : Bytes) (native : NativeExt) :
    AgentProg Answer :=
  match native with
  | none => pure .pending
  | some (.ok reply) => pure (.extension reply)
  | some (.error (.agent e)) => pure (.failure e)
  | some (.error (.keyNotNative text)) =>
    if setup.hasUpstreams then do
      match ← Prog.op (AgentOp.upstreamForward name details) with
      | .ok reply => pure (.extension reply)
      | .error e =>
        if name = ecdhCanonical then do
          let second ← Prog.op (AgentOp.upstreamForward ecdhLegacy details)
          pure (relayed second)
        else pure (.failure e)
    else pure (.failure text)

/-- The names that are served here. -/
def supported (setup : AgentSetup) : List String :=
  ["query", "session-bind@openssh.com", "pin-status@joyent.com", ecdhCanonical, ecdhLegacy,
      "ecdh-rebox@joyent.com", "ykpiv-attest@joyent.com", "agent-mode@piggy"] ++
    (if setup.proxyOnly then [] else [operatorActExtension]) ++
    if setup.hasUpstreams then ["upstream-status@piggy"] else []

/-- The extensions that the agent and the others know. -/
def handleQuery (setup : AgentSetup) : AgentProg Answer := do
  let others ← if setup.hasUpstreams then Prog.op AgentOp.upstreamNames else pure []
  let names := others.foldl (fun names name => if name ∈ names then names else names ++ [name])
    (supported setup)
  pure (.extension (some ("query", (names.map fun name => putString (strBytes name)).flatten)))

/-- Whether a PIN is cached and whether keys are served. -/
def handlePinStatus : AgentProg Answer := do
  let hasPin ← Prog.op AgentOp.hasPin
  let keys ← Prog.op AgentOp.servedKeys
  pure (.extension (some ("pin-status@joyent.com",
    [if hasPin then 1 else 0, if keys = [] then 0 else 1])))

/-- A report of the agent about itself. -/
def selfReport (name : String) (json : Except String Bytes) : Answer :=
  match json with
  | .error e => .failure e
  | .ok details => .extension (some (name, details))

/-- An extension: the agent's own ones first, then the others'. -/
def extension (setup : AgentSetup) (rounds : Nat) (name : String) (details : Bytes) :
    AgentProg Answer :=
  if name = "query" then handleQuery setup
  else if name = "session-bind@openssh.com" then
    if setup.hasUpstreams then do
      let _ ← Prog.op (AgentOp.upstreamTell details)
      pure (.extension none)
    else pure (.extension none)
  else if name = "pin-status@joyent.com" then handlePinStatus
  else if isEcdh name then do
    let native ← handleEcdh setup.crates rounds name details
    cardExtension setup name details native
  else if name = "ecdh-rebox@joyent.com" then do
    let native ← handleEcdhRebox setup.crates rounds details
    cardExtension setup name details native
  else if name = "ykpiv-attest@joyent.com" then do
    let native ← handleAttest setup.crates details
    cardExtension setup name details native
  else if name = operatorActExtension then handleOperatorAct setup.crates details
  else if name = "agent-mode@piggy" then do
    let json ← Prog.op AgentOp.agentMode
    pure (selfReport name json)
  else if name = "upstream-status@piggy" ∧ setup.hasUpstreams then do
    let json ← Prog.op AgentOp.upstreamStatus
    pure (selfReport name json)
  else if setup.hasUpstreams then do
    let reply ← Prog.op (AgentOp.upstreamForward name details)
    pure (relayed reply)
  else pure (.failure "Command not supported (27)")

/-- The program of a request. -/
def program (setup : AgentSetup) (rounds : Nat) : AgentRequest → AgentProg Answer
  | .requestIdentities => requestIdentities setup
  | .sign publicKey data flags => sign setup rounds publicKey data flags
  | .lock key => lock setup key
  | .unlock key => unlock setup key
  | .addIdentity identity | .addIdentityConstrained identity => addIdentity identity
  | .extension name details => extension setup rounds name details

end Piggy.Agent
