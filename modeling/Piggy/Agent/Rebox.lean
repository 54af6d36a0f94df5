import Piggy.Agent.Dispatch
import Piggy.Box.Rebox
import Piggy.Ecdh.Agreement

/-!
# Sealing a box again

The agent opens a box with a card's secret and seals its contents for another key. The key is found
by the card that the box names, or by the recipient of a box that names none; the requests of other
clients and the card itself may answer anything.
-/

namespace Piggy.Agent

open Piggy.Core Piggy.Box Piggy.Card Piggy.Markl

variable {Scalar Point Rng : Type} (ssl : OpenSsl Scalar Point Rng)

/-! ## What the libraries do -/

/-- The point of a public key blob. -/
def extractEcPointFromSshBlob (blob : Bytes) : Except String Bytes := do
  let (_, pos) ← readSshString blob 0
  let (_, pos) ← readSshString blob pos
  let (point, _) ← readSshString blob pos
  pure point

/-- The uncompressed form of a point. -/
def decompressEcPoint (compressed : Bytes) (curve : EcCurve) : Except String Bytes :=
  match ssl.pointFromBytes curve compressed with
  | .error e => .error s!"ec decompress: {e}"
  | .ok point => .ok (ssl.pointToBytes curve .uncompressed point)

/-- The key of a point. -/
def ecPublicKeyFromPoint (point : Bytes) (curve : EcCurve) : Except String Point :=
  (ssl.pointFromBytes curve point).mapError fun e => s!"ec point: {e}"

/-- What of a box the agent looks at before it goes to the card. -/
def boxParts (box : PivBox) : BoxParts :=
  ⟨box.guidSlot, box.recipientPubkey, decompressEcPoint ssl box.ephemeralPubkey box.curve⟩

/-- The parts of the box in a request. -/
def parseBoxParts (bytes : Bytes) : Except String BoxParts :=
  match PivBox.fromBytes bytes with
  | .error e => .error e.text
  | .ok box => .ok (boxParts ssl box)

/-- The guid and slot that the new box is to name. -/
def targetGuidSlot (guid : Bytes) (slotId : UInt8) : Except String (Option (Guid × UInt8)) :=
  if guid.isEmpty then .ok none
  else
    match Guid.fromBytes guid with
    | .error e => .error s!"ecdh-rebox: bad target GUID: {e.text}"
    | .ok g => .ok (some (g, slotId))

/-- From the secret on: the box is opened, and its contents are sealed in a fresh box. -/
def resealed (rng : Rng) (box : PivBox) (secret partner guid : Bytes) (slotId : UInt8) :
    Except String Bytes := do
  let opened ← (openWithSecret ssl box secret).mapError fun e => s!"ecdh-rebox: decrypt: {e.text}"
  let point ← extractEcPointFromSshBlob partner
  let target ← ecPublicKeyFromPoint ssl point box.curve
  let guidSlot ← targetGuidSlot guid slotId
  let (plaintext, _) ← opened.takeData.mapError fun e => s!"ecdh-rebox: take_data: {e.text}"
  let newBox := PivBox.setData { PivBox.new box.curve with guidSlot := guidSlot } plaintext
  let (newBox, _) ← (sealOffline ssl newBox target rng).mapError fun e => s!"ecdh-rebox: seal: {e.text}"
  newBox.toBytes.mapError fun e => s!"ecdh-rebox: serialize: {e.text}"

/-- The libraries of an agent, with boxes and points as the code has them. The bytes of a request's
box were parsed before they are opened. -/
def boxCrates (base : SignCrates) (rng : Rng) : SignCrates :=
  { base with
    ecPoint := extractEcPointFromSshBlob
    parseBox := parseBoxParts ssl
    rebox := fun bytes secret partner guid slotId =>
      match PivBox.fromBytes bytes with
      | .error e => .error e.text
      | .ok box => resealed ssl rng box secret partner guid slotId }

/-! ## The keys that are served -/

/-- The first served key of a card. -/
def findKeyByGuid (keys : List NativeKey) (g : Guid) : Option NativeKey :=
  keys.find? fun key => key.guid = g

/-- The served key of a recipient; a key that is not one for ECDSA has no point. -/
def findKeyByRecipientPubkey (ecdsaPoint : Bytes → Option Bytes) (keys : List NativeKey)
    (recipient : Bytes) : Option NativeKey :=
  match canonicalizeUncompressed ssl recipient with
  | .error _ => none
  | .ok want => keys.find? fun key => ecdsaPoint key.publicKey = some want

/-- How lookups are answered; the answers of everything else are free. -/
def FromKeys (ecdsaPoint : Bytes → Option Bytes) (keys : List NativeKey) :
    (op : AgentOp) → AgentAns op → Prop
  | .findKeyByGuid g, ans => ans = findKeyByGuid keys g
  | .findKeyByRecipient recipient, ans => ans = findKeyByRecipientPubkey ssl ecdsaPoint keys recipient
  | _, _ => True

/-- One call, noted in front of those before it. -/
def Noted (ecdsaPoint : Bytes → Option Bytes) (keys : List NativeKey) (calls : List AgentCall)
    (op : AgentOp) (ans : AgentAns op) (calls' : List AgentCall) : Prop :=
  FromKeys ssl ecdsaPoint keys op ans ∧ calls' = ⟨op, ans⟩ :: calls

/-- The key for a box and the slot that is asked, or why there is none. -/
def keyFor (ecdsaPoint : Bytes → Option Bytes) (keys : List NativeKey) (parts : BoxParts) :
    Except String (NativeKey × UInt8) :=
  match parts.guidSlot with
  | some (g, slot) =>
    match findKeyByGuid keys g with
    | none => .error "ecdh-rebox: no matching key for GUID"
    | some key => .ok (key, slot)
  | none =>
    match findKeyByRecipientPubkey ssl ecdsaPoint keys parts.recipient with
    | none => .error "ecdh-rebox: no agent key matches the box recipient"
    | some key => .ok (key, key.slotId)

/-! ## The card -/

/-- A lookup of a served key. -/
def AgentOp.Lookup : AgentOp → Prop
  | .findKeyByGuid _ | .findKeyByRecipient _ => True
  | _ => False

/-- A use of one slot of one card, other than the derivation of a secret. -/
def AgentOp.Prepares (g : Guid) (slot : UInt8) : AgentOp → Prop
  | .ensurePin _ g' | .forgetPin g' | .cachePin g' _ | .reconnectToToken g' | .beginPinSession g'
  | .pinRetriesRemaining g' | .verifyPin g' _ => g' = g
  | .readSlot g' slot' => g' = g ∧ slot' = slot
  | _ => False

variable {ssl} {ecdsaPoint : Bytes → Option Bytes} {keys : List NativeKey}

/-- What a program over one slot notes stays about it. -/
theorem ensures_prepares {α : Type} {g : Guid} {slot : UInt8} {p : AgentProg α}
    (hp : p.Only (AgentOp.Prepares g slot)) {known : List AgentCall → Prop}
    (hknown : ∀ op ans calls, AgentOp.Prepares g slot op → known calls → known (⟨op, ans⟩ :: calls))
    {calls : List AgentCall} (hcalls : known calls) :
    p.Ensures (Noted ssl ecdsaPoint keys) (fun _ calls => known calls) calls := by
  induction p generalizing calls with
  | ret a => exact hcalls
  | call op next ih =>
    rintro ans _ ⟨-, rfl⟩
    exact ih ans (hp.2 ans) (hknown op ans calls hp.1 hcalls)

theorem acquirePin_prepares (op : String) (g : Guid) (slot : UInt8) :
    (acquirePin op g slot).Only (AgentOp.Prepares g slot) := by
  rw [acquirePin]
  split
  · refine ⟨rfl, ?_⟩
    rintro (e | acquired) <;> trivial
  · trivial

theorem offerTooRisky_prepares (g : Guid) (slot : UInt8) (acquired : AcquiredPin) :
    (offerTooRisky g acquired).Only (AgentOp.Prepares g slot) := by
  rw [offerTooRisky]
  split
  · exact ⟨rfl, fun _ => trivial⟩
  · trivial

/-- The loop around a use of a slot: it prepares the slot until it gives up or runs the use, once. -/
theorem ensures_withPin {α : Type} {op : String} {g : Guid} {slot : UInt8}
    {run : SlotInfo → AgentProg (Except String α)} {known : List AgentCall → Prop}
    {post : Except String α → List AgentCall → Prop}
    (hknown : ∀ op ans calls, AgentOp.Prepares g slot op → known calls → known (⟨op, ans⟩ :: calls))
    (hrun : ∀ info calls, known calls → (run info).Ensures (Noted ssl ecdsaPoint keys) post calls)
    (herror : ∀ e calls, known calls → post (.error e) calls) (rounds attempt : Nat)
    {calls : List AgentCall} (hcalls : known calls) :
    (withPin op g slot run rounds attempt).Ensures (Noted ssl ecdsaPoint keys) (fun result calls =>
      (result = none ∧ known calls) ∨ ∃ answer, result = some answer ∧ post answer calls) calls := by
  have hrun' : ∀ info calls, known calls →
      (run info >>= fun answer => pure (some answer)).Ensures (Noted ssl ecdsaPoint keys)
        (fun result calls =>
          (result = none ∧ known calls) ∨ ∃ answer, result = some answer ∧ post answer calls) calls := by
    intro info calls hcalls
    exact (hrun info calls hcalls).bind fun answer calls h => .inr ⟨answer, rfl, h⟩
  have hfails : ∀ (e : String) calls, known calls →
      (some (.error e : Except String α) = none ∧ known calls) ∨
        ∃ answer, some (.error e) = some answer ∧ post answer calls :=
    fun e calls hcalls => .inr ⟨_, rfl, herror e calls hcalls⟩
  have hcall : ∀ (op : AgentOp) (next : AgentAns op → AgentProg (Option (Except String α))),
      AgentOp.Prepares g slot op → ∀ calls, known calls →
      (∀ ans calls, known calls → (next ans).Ensures (Noted ssl ecdsaPoint keys) (fun result calls =>
        (result = none ∧ known calls) ∨ ∃ answer, result = some answer ∧ post answer calls) calls) →
      (Prog.call op next).Ensures (Noted ssl ecdsaPoint keys) (fun result calls =>
        (result = none ∧ known calls) ∨ ∃ answer, result = some answer ∧ post answer calls) calls := by
    rintro op next hop calls hcalls hnext ans _ ⟨-, rfl⟩
    exact hnext ans _ (hknown op ans calls hop hcalls)
  induction rounds generalizing attempt calls with
  | zero => exact .inl ⟨rfl, hcalls⟩
  | succ rounds ih =>
    rw [withPin]
    refine (ensures_prepares (acquirePin_prepares op g slot) hknown hcalls).bind ?_
    rintro (e | acquired) calls hcalls
    · exact hfails e calls hcalls
    refine hcall (.reconnectToToken g) _ rfl calls hcalls ?_
    rintro (e | ⟨⟩) calls hcalls
    · exact hfails e calls hcalls
    refine hcall (.beginPinSession g) _ rfl calls hcalls ?_
    rintro (e | ⟨⟩) calls hcalls
    · exact hfails e.text calls hcalls
    refine hcall (.readSlot g slot) _ ⟨rfl, rfl⟩ calls hcalls ?_
    rintro (e | info) calls hcalls
    · exact hfails e.text calls hcalls
    rcases acquired with _ | acquired
    · exact hrun' info calls hcalls
    refine (ensures_prepares (offerTooRisky_prepares g slot acquired) hknown hcalls).bind ?_
    rintro (_ | _) calls hcalls
    · refine hcall (.verifyPin g acquired.pin) _ rfl calls hcalls ?_
      rintro (e | ⟨⟩) calls hcalls
      · cases e with
        | pinIncorrect retries =>
          by_cases hlimit : attempt < pinRetryLimit
          · simp only [Prog.bind, hlimit, if_true]
            exact hcall (.forgetPin g) _ rfl calls hcalls fun _ calls hcalls => ih (attempt + 1) hcalls
          · simp only [Prog.bind, hlimit, if_false]
            exact hfails _ calls hcalls
        | _ => exact hfails _ calls hcalls
      · exact hcall (.cachePin g acquired) _ rfl calls hcalls fun _ calls hcalls => hrun' info calls hcalls
    · exact hcall (.forgetPin g) _ rfl calls hcalls fun _ calls hcalls => ih attempt hcalls

/-! ## The whole request -/

variable (crates : SignCrates)

/-- The reply to a request, by what the card derived. -/
def derivedReply (request : ReboxRequest) :
    Except PivError Bytes → Except NativeExtError (Option (String × Bytes))
  | .error e => .error (.agent e.text)
  | .ok secret =>
    match crates.rebox request.box secret request.partner request.guid request.slotId with
    | .error e => .error (.agent e)
    | .ok box => .ok (some ("ecdh-rebox@joyent.com", putString box))

/-- Calls about a slot and lookups. -/
def Preparing (g : Guid) (slot : UInt8) (calls : List AgentCall) : Prop :=
  ∀ call ∈ calls, call.1.Lookup ∨ call.1.Prepares g slot

/-- How a request goes on whose key was found: the slot is prepared, and the request stays in its loop
or fails, or the slot derives a secret, once, and the reply is what comes of it. -/
def UsesSlot (request : ReboxRequest) (g : Guid) (slot : UInt8) (r : NativeExt) (calls : List AgentCall) :
    Prop :=
  (Preparing g slot calls ∧ (r = none ∨ ∃ e, r = some (.error (.agent e)))) ∨
    ∃ alg point answer before, calls = ⟨.ecdhDerive g slot alg point, answer⟩ :: before ∧
      Preparing g slot before ∧ request.parts.ephemeral = .ok point ∧
      r = some (derivedReply crates request answer)

/-- How a request is answered. -/
def Handled (ssl : OpenSsl Scalar Point Rng) (ecdsaPoint : Bytes → Option Bytes) (keys : List NativeKey)
    (details : Bytes) (r : NativeExt) (calls : List AgentCall) : Prop :=
  match reboxRequest crates details with
  | .error e => r = some (.error (.agent e)) ∧ calls = []
  | .ok request =>
    match keyFor ssl ecdsaPoint keys request.parts with
    | .error text => r = some (.error (.keyNotNative text)) ∧ ∀ call ∈ calls, call.1.Lookup
    | .ok (key, slot) => UsesSlot crates request key.guid slot r calls

variable {crates}

theorem preparing_cons {g : Guid} {slot : UInt8} {calls : List AgentCall} (call : AgentCall)
    (hcall : call.1.Lookup ∨ call.1.Prepares g slot) (h : Preparing g slot calls) :
    Preparing g slot (call :: calls) := List.forall_mem_cons.mpr ⟨hcall, h⟩

/-- From the key on. -/
theorem ensures_usesSlot (rounds : Nat) (request : ReboxRequest) (key : NativeKey) (slot : UInt8)
    {calls : List AgentCall} (hcalls : Preparing key.guid slot calls) :
    (match request.parts.ephemeral with
      | .error e => pure (some (.error (.agent e)))
      | .ok point => do
        match ← withPin "ecdh-rebox" key.guid slot (ecdhDerive key.guid slot point) rounds 0 with
        | none => pure none
        | some (.error e) => pure (some (.error (.agent e)))
        | some (.ok secret) =>
          match crates.rebox request.box secret request.partner request.guid request.slotId with
          | .error e => pure (some (.error (.agent e)))
          | .ok box => pure (some (.ok (some ("ecdh-rebox@joyent.com", putString box)))) :
        AgentProg NativeExt).Ensures (Noted ssl ecdsaPoint keys)
      (UsesSlot crates request key.guid slot) calls := by
  rcases hpoint : request.parts.ephemeral with e | point
  · exact .inl ⟨hcalls, .inr ⟨e, rfl⟩⟩
  -- What is noted when the derivation is over.
  let post : Except String Bytes → List AgentCall → Prop := fun answer calls =>
    (Preparing key.guid slot calls ∧ ∃ e, answer = .error e) ∨
      ∃ alg derived before, calls = ⟨.ecdhDerive key.guid slot alg point, derived⟩ :: before ∧
        Preparing key.guid slot before ∧ answer = derived.mapError PivError.text
  have hderive : ∀ info calls, Preparing key.guid slot calls →
      (ecdhDerive key.guid slot point info).Ensures (Noted ssl ecdsaPoint keys) post calls := by
    rintro info calls hcalls (e | secret) _ ⟨-, rfl⟩
    · exact .inr ⟨_, _, calls, rfl, hcalls, rfl⟩
    · exact .inr ⟨_, _, calls, rfl, hcalls, rfl⟩
  refine (ensures_withPin (fun op ans calls hop => preparing_cons ⟨op, ans⟩ (.inr hop)) hderive
    (fun e calls hcalls => .inl ⟨hcalls, e, rfl⟩) rounds 0 hcalls).bind ?_
  rintro result calls (⟨rfl, hcalls⟩ |
    ⟨answer, rfl, ⟨hcalls, e, rfl⟩ | ⟨alg, derived, before, rfl, hbefore, rfl⟩⟩)
  · exact .inl ⟨hcalls, .inl rfl⟩
  · exact .inl ⟨hcalls, .inr ⟨e, rfl⟩⟩
  · cases derived with
    | error e => exact .inr ⟨alg, point, .error e, before, rfl, hbefore, hpoint, rfl⟩
    | ok secret =>
      dsimp only [Except.mapError]
      rcases hrebox : crates.rebox request.box secret request.partner request.guid request.slotId with
        e | box
      · exact .inr ⟨alg, point, .ok secret, before, rfl, hbefore, hpoint, by rw [derivedReply, hrebox]⟩
      · exact .inr ⟨alg, point, .ok secret, before, rfl, hbefore, hpoint, by rw [derivedReply, hrebox]⟩

/-- A key is found as it is among the served ones. -/
theorem ensures_boxKey (parts : BoxParts) :
    (boxKey parts).Ensures (Noted ssl ecdsaPoint keys) (fun found calls =>
      found = keyFor ssl ecdsaPoint keys parts ∧ ∀ call ∈ calls, call.1.Lookup) [] := by
  rw [boxKey, keyFor]
  rcases parts.guidSlot with _ | ⟨g, slot⟩
  · rintro ans _ ⟨rfl, rfl⟩
    dsimp only
    rcases findKeyByRecipientPubkey ssl ecdsaPoint keys parts.recipient with _ | key
    · exact ⟨rfl, List.forall_mem_singleton.mpr trivial⟩
    · exact ⟨rfl, List.forall_mem_singleton.mpr trivial⟩
  · rintro ans _ ⟨rfl, rfl⟩
    dsimp only
    rcases findKeyByGuid keys g with _ | key
    · exact ⟨rfl, List.forall_mem_singleton.mpr trivial⟩
    · exact ⟨rfl, List.forall_mem_singleton.mpr trivial⟩

/-- Every request is handled so, whatever the card and the operator answer. -/
theorem ensures_handleEcdhRebox (rounds : Nat) (details : Bytes) :
    (handleEcdhRebox crates rounds details).Ensures (Noted ssl ecdsaPoint keys)
      (Handled crates ssl ecdsaPoint keys details) [] := by
  rw [handleEcdhRebox]
  rcases hrequest : reboxRequest crates details with e | request
  · change Handled crates ssl ecdsaPoint keys details _ []
    rw [Handled, hrequest]
    exact ⟨rfl, rfl⟩
  refine (ensures_boxKey request.parts).bind ?_
  rintro (text | ⟨key, slot⟩) calls ⟨hfound, hcalls⟩
  · change Handled crates ssl ecdsaPoint keys details _ calls
    rw [Handled, hrequest]
    dsimp only
    rw [← hfound]
    exact ⟨rfl, hcalls⟩
  · refine (ensures_usesSlot rounds request key slot fun call hcall => .inl (hcalls call hcall)).mono ?_
    intro r calls h
    rw [Handled, hrequest]
    dsimp only
    rw [← hfound]
    exact h

end Piggy.Agent
