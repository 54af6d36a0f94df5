import Piggy.Box.Wire

/-!
# What the virtual card reads

A command comes as the bytes of an APDU. Its data field has a length of one or of three bytes;
inside are tagged values whose length has one or two bytes, and for data objects up to three.
-/

namespace Piggy.Fibby

open Piggy.Core Piggy.Box

/-- The data field of a command. -/
def apduBody (apdu : Bytes) : Option Bytes :=
  if apdu.length < 5 then none
  else if apdu[4]? = some 0x00 ∧ 7 ≤ apdu.length then
    let lc := ofBe ((apdu.drop 5).take 2)
    if lc = 0 ∨ apdu.length < 7 + lc then none else some ((apdu.drop 7).take lc)
  else
    let lc := (apdu.getD 4 0).toNat
    if lc = 0 ∨ apdu.length < 5 + lc then none else some ((apdu.drop 5).take lc)

/-- A length at the front: how many bytes it takes, and its value. -/
def berLen : Bytes → Option (Nat × Nat)
  | [] => none
  | first :: rest =>
    if first < 0x80 then some (1, first.toNat)
    else if first = 0x81 then rest.head?.map fun len => (2, len.toNat)
    else none

/-- The tagged value at the front, and what is behind it. -/
def splitTlv (bytes : Bytes) : Option (UInt8 × Bytes × Bytes) :=
  match bytes with
  | [] => none
  | tag :: rest =>
    match berLen rest with
    | none => none
    | some (lenOffset, len) =>
      let valueStart := 1 + lenOffset
      if bytes.length < valueStart + len then none
      else some (tag, (bytes.drop valueStart).take len, bytes.drop (valueStart + len))

theorem splitTlv_shorter {bytes value rest : Bytes} {tag : UInt8}
    (h : splitTlv bytes = some (tag, value, rest)) : rest.length < bytes.length := by
  cases bytes with
  | nil => cases h
  | cons first bytes =>
    rw [splitTlv] at h
    split at h
    · cases h
    · dsimp only at h
      split at h
      · cases h
      · simp only [Option.some.injEq, Prod.mk.injEq] at h
        obtain ⟨-, -, rfl⟩ := h
        rw [List.length_drop, List.length_cons]
        omega

/-- The inside of the template that a data field is. -/
def template (outer : UInt8) (body : Bytes) : Option Bytes :=
  match splitTlv body with
  | some (tag, inner, _) => if tag = outer then some inner else none
  | none => none

/-! ## GENERAL AUTHENTICATE -/

/-- The value of the first TLV with a tag. The loop goes on while there are bytes left; so many
rounds as there are bytes are enough. -/
def findTlv (tag : UInt8) : Nat → Bytes → Option Bytes
  | 0, _ => none
  | fuel + 1, cur =>
    match splitTlv cur with
    | none => none
    | some (t, value, rest) => if t = tag then some value else findTlv tag fuel rest

/-- More rounds than there are bytes make no difference. -/
theorem findTlv_fuel (tag : UInt8) {fuel : Nat} {cur : Bytes} (h : cur.length ≤ fuel) :
    findTlv tag fuel cur = findTlv tag cur.length cur := by
  induction fuel using Nat.strong_induction_on generalizing cur with
  | _ fuel ih =>
    match fuel, cur with
    | 0, cur =>
      rw [Nat.le_zero.mp h]
    | fuel + 1, [] => rfl
    | fuel + 1, b :: bytes =>
      rw [List.length_cons, findTlv, findTlv]
      rcases hsplit : splitTlv (b :: bytes) with - | ⟨t, value, rest⟩
      · rfl
      · have hrest := splitTlv_shorter hsplit
        rw [List.length_cons] at hrest h
        simp only
        split
        · rfl
        · rw [ih fuel (by omega) (by omega), ih bytes.length (by omega) (by omega)]

/-- A request of GENERAL AUTHENTICATE: the value of one tag of the template `7C`, if it is one
that is accepted. -/
def parseGaRequest (tag : UInt8) (accept : Bytes → Bool) (body : Bytes) : Option Bytes :=
  match template 0x7C body with
  | none => none
  | some inner => (findTlv tag inner.length inner).filter accept

/-- The point of an ECDH request. -/
def parseGaEcdhRequest (body : Bytes) : Option Bytes :=
  parseGaRequest 0x85 (fun value => value.length = 65 && value.head? = some 0x04) body

/-- The challenge of a signing request. -/
def parseGaSignRequest (body : Bytes) : Option Bytes :=
  parseGaRequest 0x81 (fun value => !value.isEmpty) body

/-! ## GENERATE ASYMMETRIC and IMPORT ASYMMETRIC -/

/-- What a GENERATE ASYMMETRIC asks for. -/
structure GenerateRequest where
  alg : UInt8
  pinPolicy : Option UInt8
  touchPolicy : Option UInt8
  deriving DecidableEq

/-- The fields of a request that were read so far. -/
structure RequestFields where
  alg : Option UInt8
  pinPolicy : Option UInt8
  touchPolicy : Option UInt8
  deriving DecidableEq

namespace RequestFields

/-- One more field of a GENERATE request. -/
def generateTlv (f : RequestFields) (tag : UInt8) (value : Bytes) : Option RequestFields :=
  if tag = 0x80 then value.getLast?.map fun alg => { f with alg := some alg }
  else if tag = 0xAA then
    match value with
    | [p] => some { f with pinPolicy := some p }
    | _ => none
  else if tag = 0xAB then
    match value with
    | [t] => some { f with touchPolicy := some t }
    | _ => none
  else some f

/-- One more field behind the key of an IMPORT request. -/
def importTlv (f : RequestFields) (tag : UInt8) (value : Bytes) : Option RequestFields :=
  if tag = 0x80 then some f else f.generateTlv tag value

/-- All fields of a GENERATE request, so many rounds at most. -/
def generateTlvs : Nat → Bytes → RequestFields → Option RequestFields
  | _, [], f => some f
  | 0, _ :: _, _ => none
  | fuel + 1, cur@(_ :: _), f =>
    match splitTlv cur with
    | none => none
    | some (tag, value, rest) => (f.generateTlv tag value).bind (generateTlvs fuel rest)

/-- All fields behind the key of an IMPORT request, up to bytes that are no TLV. -/
def importTlvs : Nat → Bytes → RequestFields → Option RequestFields
  | 0, _, f => some f
  | fuel + 1, cur, f =>
    match splitTlv cur with
    | none => some f
    | some (tag, value, rest) => (f.importTlv tag value).bind (importTlvs fuel rest)

end RequestFields

/-- The request in the body of a GENERATE ASYMMETRIC. -/
def parseGenerateRequest (body : Bytes) : Option GenerateRequest :=
  match template 0xAC body with
  | none => none
  | some inner =>
    match RequestFields.generateTlvs inner.length inner ⟨none, none, none⟩ with
    | some ⟨some alg, pin, touch⟩ => some ⟨alg, pin, touch⟩
    | _ => none

/-- What an IMPORT ASYMMETRIC brings. -/
structure ImportRequest where
  scalar : Bytes
  pinPolicy : Option UInt8
  touchPolicy : Option UInt8
  deriving DecidableEq

/-- Takes leading zeros off what is longer than a scalar. -/
def trimScalar : Bytes → Bytes
  | [] => []
  | b :: rest => if 32 ≤ rest.length ∧ b = 0x00 then trimScalar rest else b :: rest

/-- The request in the body of an IMPORT ASYMMETRIC. -/
def parseImportRequest (body : Bytes) : Option ImportRequest :=
  match body with
  | 0x06 :: len :: rest =>
    if rest.length < len.toNat then none
    else
      let val := trimScalar (rest.take len.toNat)
      if 32 < val.length then none
      else
        let cur := rest.drop len.toNat
        (RequestFields.importTlvs cur.length cur ⟨none, none, none⟩).map fun f =>
          ⟨List.replicate (32 - val.length) 0 ++ val, f.pinPolicy, f.touchPolicy⟩
  | _ => none

/-- The PIN and touch policy of a key. -/
structure Policy where
  pin : UInt8
  touch : UInt8
  deriving DecidableEq

namespace PinPolicy

def default : UInt8 := 0x00
def never : UInt8 := 0x01
def once : UInt8 := 0x02
def always : UInt8 := 0x03

end PinPolicy

namespace TouchPolicy

def default : UInt8 := 0x00
def never : UInt8 := 0x01
def always : UInt8 := 0x02
def cached : UInt8 := 0x03

end TouchPolicy

/-- The policy that a request asks for, if both bytes are known ones. -/
def validatedPolicy (pin touch : Option UInt8) : Option Policy :=
  let pin := pin.getD PinPolicy.default
  let touch := touch.getD TouchPolicy.default
  if pin ≤ PinPolicy.always ∧ touch ≤ TouchPolicy.cached then some ⟨pin, touch⟩ else none

/-! ## GET DATA and PUT DATA -/

/-- The tag that `5C` names, and what is behind it. -/
def parse5cTagWithRest (body : Bytes) : Option (Bytes × Bytes) :=
  match body with
  | 0x5C :: tagLen :: rest =>
    if tagLen = 0 ∨ rest.length < tagLen.toNat then none
    else some (rest.take tagLen.toNat, rest.drop tagLen.toNat)
  | _ => none

/-- The tag of the object that is asked for. -/
def parse5cTag (body : Bytes) : Option Bytes := (parse5cTagWithRest body).map Prod.fst

/-- The object `53` at the front, with its tag and length. -/
def split53Tlv (body : Bytes) : Option (Bytes × Bytes) :=
  match body with
  | 0x53 :: firstLen :: rest =>
    let lengths : Option (Nat × Nat) :=
      if firstLen < 0x80 then some (2, firstLen.toNat)
      else if firstLen = 0x81 then rest.head?.map fun len => (3, len.toNat)
      else if firstLen = 0x82 then
        match rest with
        | high :: low :: _ => some (4, high.toNat * 256 + low.toNat)
        | _ => none
      else none
    match lengths with
    | none => none
    | some (headerLen, payloadLen) =>
      let total := headerLen + payloadLen
      if body.length < total then none else some (body.take total, body.drop total)
  | _ => none

/-- A length as the card writes it. -/
def pushBerLen (len : Nat) : Bytes :=
  if len < 0x80 then [UInt8.ofNat len]
  else if len < 0x100 then [0x81, UInt8.ofNat len]
  else [0x82, UInt8.ofNat (len / 256), UInt8.ofNat len]

/-- A status word. -/
def sw (sw1 sw2 : UInt8) : Bytes := [sw1, sw2]

end Piggy.Fibby
