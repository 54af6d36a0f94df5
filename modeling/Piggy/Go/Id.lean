import Piggy.Core.Text
import Piggy.Go.Blech32
import Piggy.Go.Purpose

/-!
# Markl ids in Go

An `Id` is mutable: each setter works on the receiver step by step, and an error exit
leaves behind what was done until then. So every setter is a function from the receiver to
how the call ends and the receiver after it. Which formats and purposes there are is up to
what the program has registered.
-/

namespace Piggy.Go.Markl

open Piggy.Core
open Piggy.Go.Blech32 (isLowerHrpByte)

/-! ## The registry -/

/-- A format with the number of bytes it has. -/
structure Format where
  id : Bytes
  size : Nat
  deriving DecidableEq

/-- What is registered: the formats, other names for them, the purposes with the formats
they admit, and the digest of nothing for each hash format. Format ids are spelled in the
charset of human-readable parts; other names have the shape of a purpose id. -/
structure Registry where
  formats : List Format
  aliases : List (Bytes × Bytes)
  purposes : List (Bytes × List Bytes)
  nulls : List (Bytes × Bytes)
  charset : ∀ f ∈ formats, f.id ≠ [] ∧ ∀ b ∈ f.id, isLowerHrpByte b = true
  shaped : ∀ a ∈ aliases, Blech32.separator ∈ a.1

/-- The names of formats can be checked by running over them. -/
theorem charset_of_all {formats : List Format}
    (h : (formats.all fun f => !f.id.isEmpty && f.id.all isLowerHrpByte) = true) :
    ∀ f ∈ formats, f.id ≠ [] ∧ ∀ b ∈ f.id, isLowerHrpByte b = true := by
  intro f hf
  have hname := List.all_eq_true.mp h f hf
  rw [Bool.and_eq_true, Bool.not_eq_true', List.isEmpty_eq_false_iff, List.all_eq_true] at hname
  exact hname

/-- The errors of ids. -/
inductive Error where
  | blech32 (e : Blech32.Error)
  | purpose (e : Purpose.Error)
  | unknownFormat (formatId : Bytes)
  | notSupported (formatId purposeId : Bytes)
  | nilFormat (count : Nat)
  | wrongSize (expected actual : Nat)
  | emptyByteMissing
  | legacyCombinedHRP (purpose formatId data splitHRPChecksum raw : Bytes)
  | hexLength (decoded : Nat) (formatId : Bytes) (size : Nat) (input : Bytes)
  | hexInvalid (input : Bytes)
  deriving DecidableEq

namespace Registry

variable (reg : Registry)

/-- The format of a name or of an alias. -/
def getFormatOrError (formatId : Bytes) : Except Error Format :=
  let formatId := (reg.aliases.lookup formatId).getD formatId
  match reg.formats.find? fun f => f.id == formatId with
  | some f => .ok f
  | none => .error (.unknownFormat formatId)

/-- Purposes that are not registered are carried along unchecked. -/
def validatePurposeAndFormatId (purposeId formatId : Bytes) : Except Error Unit :=
  if formatId = [] ∨ purposeId = [] then .ok ()
  else
    match reg.purposes.lookup purposeId with
    | none => .ok ()
    | some formatIds =>
      if formatId ∈ formatIds then .ok () else .error (.notSupported formatId purposeId)

end Registry

/-- The digest of nothing under a hash format. -/
def nullDigests : List (Bytes × Bytes) :=
  [(utf8 "sha256".toList,
    [0xe3, 0xb0, 0xc4, 0x42, 0x98, 0xfc, 0x1c, 0x14, 0x9a, 0xfb, 0xf4, 0xc8, 0x99, 0x6f, 0xb9, 0x24,
      0x27, 0xae, 0x41, 0xe4, 0x64, 0x9b, 0x93, 0x4c, 0xa4, 0x95, 0x99, 0x1b, 0x78, 0x52, 0xb8, 0x55]),
    (utf8 "blake2b256".toList,
    [0x0e, 0x57, 0x51, 0xc0, 0x26, 0xe5, 0x43, 0xb2, 0xe8, 0xab, 0x2e, 0xb0, 0x60, 0x99, 0xda, 0xa1,
      0xd1, 0xe5, 0xdf, 0x47, 0x77, 0x8f, 0x77, 0x87, 0xfa, 0xab, 0x45, 0xcd, 0xf1, 0x2f, 0xe3, 0xa8])]

/-- What the program itself registers. -/
def production : Registry where
  formats := [("sha256", 32), ("blake2b256", 32), ("ed25519_pub", 32), ("ed25519_sec", 64),
    ("ed25519_sig", 64), ("ed25519_ssh", 32), ("age_x25519_pub", 32), ("age_x25519_sec", 32),
    ("ecdsa_p256_pub", 33), ("ecdsa_p256_sig", 64), ("ecdsa_p256_ssh", 33),
    ("ssh_ecdsa_nistp256_pub", 33), ("ssh_ed25519_pub", 32), ("ssh_ecdsa_nistp384_pub", 49),
    ("pivy_ecdh_p256_pub", 33), ("pigpen_wrap_p256", 65), ("pigpen_wrap_x25519", 64),
    ("pigpen_header_mac", 32), ("nonce", 32)].map fun f => ⟨utf8 f.1.toList, f.2⟩
  aliases := []
  purposes := [("piggy-piv_auth-v1", ["ssh_ecdsa_nistp256_pub", "ssh_ed25519_pub", "ssh_ecdsa_nistp384_pub"]),
    ("piggy-piv_sig-v1", ["ssh_ecdsa_nistp256_pub", "ssh_ed25519_pub", "ssh_ecdsa_nistp384_pub"]),
    ("piggy-piv_card_auth-v1", ["ssh_ecdsa_nistp256_pub", "ssh_ed25519_pub", "ssh_ecdsa_nistp384_pub"]),
    ("piggy-recipient-v1", ["pivy_ecdh_p256_pub", "age_x25519_pub"]),
    ("pigpen-wrap-v1", ["pigpen_wrap_p256", "pigpen_wrap_x25519"]),
    ("pigpen-doc-v1", ["pigpen_header_mac", "blake2b256"]),
    ("piggy-record-digest-v1", ["sha256", "blake2b256"]),
    ("piggy-record-sig-v1", ["ed25519_sig", "ecdsa_p256_sig"])].map fun p =>
      (utf8 p.1.toList, p.2.map fun f => utf8 f.toList)
  nulls := nullDigests
  charset := charset_of_all (by decide +kernel)
  shaped := fun _ h => nomatch h

/-! ## The id and its setters -/

/-- An id. One without a format has no bytes. -/
structure Id where
  purposeId : Bytes
  format : Option Format
  data : Bytes
  deriving DecidableEq

/-- The zero value, which is the null id. -/
def Id.zero : Id := ⟨[], none, []⟩

/-- How a call on a receiver ends, and the receiver after it. -/
abbrev Outcome := Result Error Unit × Id

namespace Id

variable (reg : Registry) (t : CaseTables)

/-- The zero id. -/
def reset (_ : Id) : Id := zero

/-- The id under another purpose. -/
def setPurposeId (value : Bytes) (id : Id) : Id := { id with purposeId := value }

/-- The zero id under a purpose. -/
def resetWithPurpose (purpose : Bytes) (_ : Id) : Id := ⟨purpose, none, []⟩

/-- The id in another format, which its purpose must allow. -/
def setFormatId (formatId : Bytes) (id : Id) : Outcome :=
  match reg.getFormatOrError formatId with
  | .error e => (.error e, { id with format := none })
  | .ok f => (.lift (reg.validatePurposeAndFormatId id.purposeId formatId), { id with format := some f })

/-- Empty bytes are let through and leave the data as they are. -/
def setData (bites : Bytes) (id : Id) : Outcome :=
  if bites = [] then (.ok (), id)
  else
    match id.format with
    | none => (.error (.nilFormat bites.length), id)
    | some f =>
      if bites.length ≠ f.size then (.error (.wrongSize f.size bites.length), id)
      else (.ok (), { id with data := bites })

/-- A failure on the way resets the receiver. -/
def setMarklId (formatId bites : Bytes) (id : Id) : Outcome :=
  if formatId = [] ∧ bites = [] then (.ok (), id.reset)
  else
    match setFormatId reg formatId id with
    | (.ok _, id) =>
      match setData bites id with
      | (.ok _, id) => (.ok (), id)
      | (.error e, id) => (.error e, id.reset)
      | (.panic, id) => (.panic, id)
    | (.error e, id) => (.error e, id.reset)
    | (.panic, id) => (.panic, id)

/-- Sets the purpose that a slot spells. -/
def setPurposeFromWireSlot (slot : Bytes) (id : Id) : Outcome :=
  match Purpose.unquotePurpose slot with
  | .ok purposeId => (.ok (), id.setPurposeId purposeId)
  | .error e => (.error (.purpose e), id)

/-- Reads the part behind the purpose. -/
def setWithoutPurpose (value : Bytes) (id : Id) : Outcome :=
  match Blech32.decodeString t value with
  | .ok (formatId, data) => setMarklId reg formatId data id
  | .error e => (.error (.blech32 e), id)
  | .panic => (.panic, id)

/-- Reads the purpose and the part behind it. -/
def setWithPurpose (purpose body : Bytes) (id : Id) : Outcome :=
  match setPurposeFromWireSlot purpose id with
  | (.ok _, id) => setWithoutPurpose reg t body id
  | failed => failed

/-- `Set`: the slot is split off and taken first, then the body. -/
def set (value : Bytes) (id : Id) : Outcome :=
  if value = [] then (.ok (), id.reset)
  else
    match Purpose.splitPurposeSlot value with
    | (some slot, body) => setWithPurpose reg t slot body id
    | (none, _) => setWithoutPurpose reg t value id

/-- Text whose checksum was made over purpose and format together. -/
def buildLegacyCombinedHRPError (purpose bites body : Bytes) : Option Error := do
  let sep ← Blech32.lastSeparator body
  if sep = 0 then none
  else
    let (innerHRP, data) ←
      Blech32.decodeWithHRPOverride t (purpose ++ Purpose.join :: body.take sep) body
    let canonical ← (Blech32.encode t innerHRP data).toOption
    if canonical.length < 6 then none
    else some (.legacyCombinedHRP purpose innerHRP data
      (canonical.drop (canonical.length - 6)) bites)

/-- The body of `UnmarshalText`, read by the decoder of byte slices. -/
def unmarshalBody (bites body : Bytes) (id : Id) : Outcome :=
  match Blech32.decode t body with
  | .ok (formatId, data) => setMarklId reg formatId data id
  | .panic => (.panic, id)
  | .error e =>
    if id.purposeId ≠ [] ∧ e = .invalidChecksum then
      (.error ((buildLegacyCombinedHRPError t id.purposeId bites body).getD (.blech32 e)), id)
    else (.error (.blech32 e), id)

/-- `UnmarshalText`: the second reader of the text form. -/
def unmarshalText (bites : Bytes) (id : Id) : Outcome :=
  if bites = [] then (.ok (), id.reset)
  else
    match Purpose.splitPurposeSlot bites with
    | (some slot, rest) =>
      match setPurposeFromWireSlot slot id with
      | (.ok _, id) => unmarshalBody reg t bites rest id
      | failed => failed
    | (none, _) => unmarshalBody reg t bites bites id

/-- `UnmarshalBinary`: purpose, format id and data between zero bytes. -/
def unmarshalBinary (bites : Bytes) (id : Id) : Outcome :=
  if bites = [] then (.ok (), id)
  else
    match cut 0 bites with
    | none => (.error .emptyByteMissing, id)
    | some (formatBytes, bytesAfterFormat) =>
      let id := id.setPurposeId formatBytes
      match cut 0 bytesAfterFormat with
      | none => (.error .emptyByteMissing, id)
      | some (formatIdBytes, bytesAfterFormatId) => setMarklId reg formatIdBytes bytesAfterFormatId id

/-- `SetDigest`: a digest without a format is a nil dereference. -/
def setDigest (digest id : Id) : Outcome :=
  let id := id.setPurposeId digest.purposeId
  match digest.format with
  | none => (.panic, id)
  | some f => setMarklId reg f.id digest.data id

/-- `ResetWith`: a failure of the last step is a panic. -/
def resetWith (src id : Id) : Outcome :=
  let id := { id with purposeId := src.purposeId, format := src.format }
  if src.data = [] then (.ok (), { id with data := [] })
  else
    match setData src.data id with
    | (.ok _, id) => (.ok (), id)
    | (_, id) => (.panic, id)

/-- Takes another id's value. -/
def resetWithMarklId (src id : Id) : Outcome :=
  if src.format = none ∧ src.data ≠ [] then (.panic, id)
  else
    match setMarklId reg ((src.format.map Format.id).getD []) src.data
      (id.setPurposeId src.purposeId) with
    | (.ok _, id) => (.ok (), id)
    | (_, id) => (.panic, id)

/-! ## Hexadecimal text -/

/-- Whitespace at the start, rune by rune; the first argument bounds the turns. -/
def trimLeft : Nat → Bytes → Bytes
  | 0, s => s
  | turns + 1, s =>
    if s ≠ [] ∧ isWhitespace (decodeRune s).1 then trimLeft turns (s.drop (decodeRune s).2) else s

/-- Whitespace at the end. -/
def trimRight : Nat → Bytes → Bytes
  | 0, s => s
  | turns + 1, s =>
    match (runes s).getLast? with
    | some (pos, c) => if isWhitespace c then trimRight turns (s.take pos) else s
    | none => s

/-- `bytes.TrimSpace`. -/
def trimSpace (s : Bytes) : Bytes := trimRight s.length (trimLeft s.length s)

/-- The value of a hexadecimal digit. -/
def hexDigit (b : UInt8) : Option Nat :=
  let c := asciiChar b
  if c.isDigit then some (b.toNat - 48)
  else if 97 ≤ b.toNat ∧ b.toNat ≤ 102 then some (b.toNat - 87)
  else if 65 ≤ b.toNat ∧ b.toNat ≤ 70 then some (b.toNat - 55)
  else none

/-- `hex.Decode`: pairs of digits; a digit that is left over is an error. -/
def hexDecode : Bytes → Option Bytes
  | [] => some []
  | [_] => none
  | a :: b :: rest => do
    let high ← hexDigit a
    let low ← hexDigit b
    let out ← hexDecode rest
    some (UInt8.ofNat (16 * high + low) :: out)

/-- `SetHexBytes` on an `Id`: the format is pinned without a look at the purpose. -/
def setHexBytes (formatId bites : Bytes) (id : Id) : Outcome :=
  let bites := trimSpace bites
  match reg.getFormatOrError formatId with
  | .error e => (.error e, id)
  | .ok f =>
    if bites.length / 2 ≠ f.size then
      (.error (.hexLength (bites.length / 2) formatId f.size bites), id)
    else
      match hexDecode bites with
      | some data => (.ok (), { id with format := some f, data := data })
      | none => (.error (.hexInvalid bites), id.reset)

/-! ## Text and questions -/

/-- `PanicIfError` around an encoding. -/
def mustEncode (hrp data : Bytes) : Result Error Bytes :=
  match Blech32.encode t hrp data with
  | .ok s => .ok s
  | .error _ => .panic

def errorHRP : Bytes := utf8 "!error-empty_format".toList

/-- The text of an id without its purpose. -/
def string (id : Id) : Result Error Bytes :=
  if id.data = [] then .ok []
  else mustEncode t ((id.format.map Format.id).getD errorHRP) id.data

/-- The text with its purpose in front. -/
def withPurpose (id : Id) (text : Bytes) : Bytes :=
  if id.purposeId ≠ [] then Purpose.spellPurpose id.purposeId ++ Purpose.join :: text else text

/-- The same; an id without a format panics. -/
def stringWithFormat (id : Id) : Result Error Bytes :=
  if id.data = [] then .ok []
  else
    match id.format with
    | none => .panic
    | some f => do
      let text ← mustEncode t f.id id.data
      pure (id.withPurpose text)

/-- The text of an id with its purpose. -/
def marshalText (id : Id) : Result Error Bytes :=
  match id.format with
  | none => .ok []
  | some f =>
    match Blech32.encode t f.id id.data with
    | .ok text => .ok (id.withPurpose text)
    | .error e => .error (.blech32 e)

/-- The id has no bytes, or those that stand for none. -/
def isNull (id : Id) : Result Error Bool :=
  if id.data = [] then .ok true
  else
    match id.format with
    | none => .panic
    | some f => .ok (reg.nulls.lookup f.id = some id.data)

end Id

end Piggy.Go.Markl
