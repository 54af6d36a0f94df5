import Piggy.Provision.Engine

/-!
# Picking a card

A card is picked by its serial, its GUID or its reader, or because it is the only one. The
selectors come from flags or from the parameters of a request, as do the slot and the policies.
-/

namespace Piggy.Provision

open Piggy.Core Piggy.Box Piggy.Card Piggy.Markl

/-- How a command was asked for, which decides how its options are spelt. -/
inductive RequestBinding where
  | cli
  | jsonRpc
  deriving DecidableEq

/-- A parameter as the user writes it. -/
def RequestBinding.option (binding : RequestBinding) (param : String) : String :=
  match binding with
  | cli => "--" ++ String.ofList (param.toList.map fun c => if c = '_' then '-' else c)
  | jsonRpc => s!"'{param}'"

/-- A flag as the user writes it. -/
def RequestBinding.switchOn (binding : RequestBinding) (param : String) : String :=
  match binding with
  | cli => binding.option param
  | jsonRpc => binding.option param ++ ": true"

/-! ## Selectors -/

/-- Which card is meant. -/
inductive CardSelector where
  | serial (n : UInt32)
  | guid (g : Guid)
  | reader (name : String)
  | auto
  deriving DecidableEq

/-- A GUID from hexadecimal digits. -/
def guidFromHex (s : String) : Except PivError Guid :=
  match hexDecode s with
  | .error e => .error (.invalidGuid e)
  | .ok bytes =>
    if h : bytes.length = 16 then .ok ⟨bytes, h⟩
    else .error (.invalidGuid s!"expected 16 bytes, got {bytes.length}")

/-- At most one of the three names a card. -/
def CardSelector.fromFlags (serial : Option UInt32) (guid reader : Option String)
    (binding : RequestBinding) : Except String CardSelector :=
  match serial, guid, reader with
  | none, none, none => .ok .auto
  | some n, none, none => .ok (.serial n)
  | none, some g, none =>
    match guidFromHex (trimStr g) with
    | .error e => .error ("invalid " ++ binding.option "guid" ++ s!" {debugStr g}: {e.text}")
    | .ok guid => .ok (.guid guid)
  | none, none, some name => .ok (.reader name)
  | _, _, _ => .error ("provide at most one of " ++ binding.option "serial" ++ ", " ++
      binding.option "guid" ++ ", " ++ binding.option "reader")

/-- Whether a card is the one that a selector names. -/
def CardSelector.names (selector : CardSelector) (card : CardMeta) : Bool :=
  match selector with
  | serial n => card.serial = some n
  | guid g => card.guid = g
  | reader name => card.reader = name
  | auto => true

/-- The cards that are there, in a text. -/
def candidateText (cards : List CardMeta) : String :=
  if cards = [] then "none present"
  else "; ".intercalate (cards.map fun card =>
    s!"guid={hexEncodeUpper card.guid.bytes} reader={card.reader}")

/-- The one card of those that match. -/
def resolveMatch (cards : List CardMeta) (what noun candidates : String) :
    Except String CardMeta :=
  match cards with
  | [] => .error s!"no {noun} matching {what}. candidates: {candidates}"
  | [card] => .ok card
  | _ => .error (s!"{cards.length} {noun}s match {what}; disambiguate with --reader <NAME>. " ++
      s!"candidates: {candidates}")

/-- Picks a card. Only blank cards count, unless an initialized one may be provisioned again. -/
def selectCardForProvision (cards : List CardMeta) (selector : CardSelector)
    (allowReprovision : Bool) : Except String CardMeta :=
  let noun := if allowReprovision then "PIV card" else "uninitialized (factory-blank) PIV card"
  let eligible := cards.filter fun card => allowReprovision || !card.initialized
  let candidates := candidateText eligible
  let matching := eligible.filter selector.names
  match selector with
  | .auto =>
    match eligible with
    | [] => .error s!"no {noun} found; insert one to provision"
    | [card] => .ok card
    | _ => .error (s!"{eligible.length} candidate cards present; choose one with --serial <N>, " ++
        s!"--guid <HEX>, or --reader <NAME>. candidates: {candidates}")
  | .serial n => resolveMatch matching s!"serial {n.toNat}" noun candidates
  | .guid g => resolveMatch matching s!"guid {hexEncodeUpper g.bytes}" noun candidates
  | .reader name => resolveMatch matching s!"reader {debugStr name}" noun candidates

/-! ## Slots and policies -/

/-- A text with its ASCII letters small. -/
def asciiLower (s : String) : String :=
  String.ofList (s.toList.map fun c =>
    if 'A' ≤ c ∧ c ≤ 'Z' then Char.ofNat (c.toNat + 32) else c)

/-- The slot of a name. -/
def namedSlot (name : String) : Option UInt8 :=
  if asciiLower name = "9a" then some slotPivAuth
  else if asciiLower name = "9c" then some slotSignature
  else if asciiLower name = "9d" then some slotKeyMgmt
  else none

/-- A policy name in any case; an unknown one keeps its spelling in the error. -/
def parsePolicyName {α : Type} (fromStr : String → Except String α) (name : String) :
    Except String α :=
  match fromStr (asciiLower name) with
  | .ok policy => .ok policy
  | .error _ => fromStr name

/-- The slot that a key may be added to and the policy it gets. -/
def addKeySlot (slot : String) : Except String (UInt8 × KeyPolicy) :=
  match namedSlot slot with
  | some n =>
    if n = slotSignature then .ok (slotSignature, SlotPolicies.initial.signature)
    else if n = slotPivAuth then .ok (slotPivAuth, SlotPolicies.initial.pivAuth)
    else .error ("slot 9D is never regenerated: the password store is encrypted to its key, and a " ++
      "new key could not decrypt it")
  | none => .error s!"unknown slot {debugStr slot} (add-key takes 9c or 9a)"

/-- One policy of a key: the one that was asked for, or the one it has anyway. -/
def policyFlag {α : Type} (fromStr : String → Except String α) (base : α) (name : Option String)
    (option : String) : Except String α :=
  match name with
  | none => .ok base
  | some name => (parsePolicyName fromStr name).mapError fun e => s!"{option}: {e}"

/-- The policy of the flags, and the base where they say nothing. -/
def keyPolicyFromFlags (base : KeyPolicy) (pin touch : Option String) (binding : RequestBinding) :
    Except String KeyPolicy := do
  let pin ← policyFlag PinPolicy.fromStr base.pin pin (binding.option "pin_policy")
  let touch ← policyFlag TouchPolicy.fromStr base.touch touch (binding.option "touch_policy")
  .ok ⟨pin, touch⟩

/-- Overrides the PIN policy of one slot. The name of the policy is parsed before the slot is
looked up. -/
def SlotPolicies.setPin (policies : SlotPolicies) (slot policy : String) :
    Except String SlotPolicies := do
  let pin ← parsePolicyName PinPolicy.fromStr policy
  match namedSlot slot with
  | none => .error s!"unknown slot {debugStr slot} (card init provisions 9a, 9c and 9d)"
  | some n =>
    if n = slotPivAuth then .ok { policies with pivAuth := { policies.pivAuth with pin } }
    else if n = slotSignature then .ok { policies with signature := { policies.signature with pin } }
    else .ok { policies with keyMgmt := { policies.keyMgmt with pin } }

/-- Overrides the touch policy of one slot. -/
def SlotPolicies.setTouch (policies : SlotPolicies) (slot policy : String) :
    Except String SlotPolicies := do
  let touch ← parsePolicyName TouchPolicy.fromStr policy
  match namedSlot slot with
  | none => .error s!"unknown slot {debugStr slot} (card init provisions 9a, 9c and 9d)"
  | some n =>
    if n = slotPivAuth then .ok { policies with pivAuth := { policies.pivAuth with touch } }
    else if n = slotSignature then
      .ok { policies with signature := { policies.signature with touch } }
    else .ok { policies with keyMgmt := { policies.keyMgmt with touch } }

/-! ## Parameters of a request -/

/-- A JSON value. A number is kept as the natural number it is, if it is one of 64 bits. -/
inductive Json where
  | null
  | bool (b : Bool)
  | number (asU64 : Option Nat)
  | string (s : String)
  | array (items : List Json)
  | object (fields : List (String × Json))

/-- A field of an object. -/
def Json.get : Json → String → Option Json
  | object fields, key => fields.lookup key
  | _, _ => none

/-- A text. -/
def Json.asStr : Json → Option String
  | string s => some s
  | _ => none

/-- A truth value. -/
def Json.asBool : Json → Option Bool
  | bool b => some b
  | _ => none

/-- The error of a request, by its code. -/
structure RpcError where
  code : Int
  message : String
  deriving DecidableEq

def invalidParams : Int := -32602

def interactionDeclined : Int := -32010

def cardOpFailed : Int := -32050

/-- The serial number among the parameters. -/
def serialParam (method : String) (params : Json) : Except RpcError (Option UInt32) :=
  match params.get "serial" with
  | none | some .null => .ok none
  | some (.number (some n)) =>
    if n < 2 ^ 32 then .ok (some (UInt32.ofNat n))
    else .error ⟨invalidParams, s!"{method}: 'serial' must be a u32"⟩
  | some _ => .error ⟨invalidParams, s!"{method}: 'serial' must be a u32"⟩

/-- A text that may be left out. -/
def optionalStr (method : String) (params : Json) (key : String) : Except RpcError (Option String) :=
  match params.get key with
  | none | some .null => .ok none
  | some (.string s) => .ok (some s)
  | some _ => .error ⟨invalidParams, s!"{method}: '{key}' must be a string"⟩

/-- The overrides of one kind of policy. -/
def applyOverrides (method key : String) (params : Json)
    (set : SlotPolicies → String → String → Except String SlotPolicies) (policies : SlotPolicies) :
    Except RpcError SlotPolicies :=
  match params.get key with
  | none | some .null => .ok policies
  | some (.object fields) =>
    fields.foldlM (fun policies (slot, policy) =>
      match policy.asStr with
      | none => .error ⟨invalidParams, s!"{method}: '{key}.{slot}' must be a policy name"⟩
      | some policy => (set policies slot policy).mapError
          fun e => ⟨invalidParams, s!"{method}: '{key}.{slot}': {e}"⟩) policies
  | some _ =>
    .error ⟨invalidParams, s!"{method}: '{key}' must be an object mapping a slot to a policy name"⟩

/-- The policies among the parameters. -/
def slotPoliciesParam (method : String) (params : Json) : Except RpcError SlotPolicies := do
  let policies ← applyOverrides method "pin_policy" params SlotPolicies.setPin .initial
  applyOverrides method "touch_policy" params SlotPolicies.setTouch policies

end Piggy.Provision
