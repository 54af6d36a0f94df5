import Piggy.Piv.Tlv

/-!
# Commands of the host

The commands that are sent to a card, their bytes, and how an answer is put together from
what the card sends. Where a builder stops the program the result is `none`.
-/

namespace Piggy.Piv

open Piggy.Core Piggy.Box Piggy.Card

/-- A command with its data and the length of the expected answer. -/
structure Apdu where
  cla : UInt8
  ins : UInt8
  p1 : UInt8
  p2 : UInt8
  data : Bytes
  le : Option UInt16
  deriving DecidableEq

/-- A PIN or PUK, filled up to eight bytes. -/
def padded (s : Bytes) : Bytes := s ++ List.replicate (8 - s.length) 0xFF

namespace Apdu

/-- A command without data. -/
def new (cla ins p1 p2 : UInt8) : Apdu := ⟨cla, ins, p1, p2, [], none⟩

def pivAid : Bytes := [0xA0, 0x00, 0x00, 0x03, 0x08, 0x00, 0x00, 0x10, 0x00, 0x01, 0x00]

/-- SELECT of an applet. -/
def select (aid : Bytes) : Apdu := { new 0x00 0xA4 0x04 0x00 with data := aid }

/-- GET DATA of an object. -/
def getData (tag : UInt32) : Option Apdu :=
  (writeTagValue 0x5C (writeTag tag)).map fun data => { new 0x00 0xCB 0x3F 0xFF with data := data }

/-- GENERAL AUTHENTICATE with a key. -/
def generalAuthenticate (alg slot : UInt8) (data : Bytes) : Apdu :=
  { new 0x00 0x87 alg slot with data := data }

/-- GENERATE ASYMMETRIC with the policies that are given. -/
def generateAsym (slot keyAlg : UInt8) (pinPolicy touchPolicy : Option UInt8) : Option Apdu := do
  let alg ← writeTagValue 0x80 [keyAlg]
  let pin ← pinPolicy.elim (some []) fun p => writeTagValue 0xAA [p]
  let touch ← touchPolicy.elim (some []) fun t => writeTagValue 0xAB [t]
  let outer ← writeTagValue 0xAC (alg ++ pin ++ touch)
  some { new 0x00 0x47 0x00 slot with data := outer }

/-- PUT DATA of an object. -/
def putData (tag : UInt32) (value : Bytes) : Option Apdu := do
  let tagList ← writeTagValue 0x5C (writeTag tag)
  let object ← writeTagValue 0x53 value
  some { new 0x00 0xDB 0x3F 0xFF with data := tagList ++ object }

/-- VERIFY. The program stops at a PIN of more than eight bytes. -/
def verifyPin (pin : Bytes) : Option Apdu :=
  if pin.length ≤ 8 then some { new 0x00 0x20 0x00 0x80 with data := padded pin } else none

/-- An empty VERIFY, which tells the tries left. -/
def verifyPinStatus : Apdu := new 0x00 0x20 0x00 0x80

/-- The attestation of a slot. -/
def ykAttest (slot : UInt8) : Apdu := new 0x00 0xF9 slot 0x00

/-- The bytes of a command: a length of one byte, or of three for what is longer. -/
def toBytes (a : Apdu) : Bytes :=
  let dataLen := a.data.length
  let header := [a.cla, a.ins, a.p1, a.p2]
  if 255 < dataLen ∨ a.le.any (256 < ·) then
    header ++ 0x00 ::
      ((if a.data = [] then []
        else UInt8.ofNat (dataLen / 256) :: UInt8.ofNat dataLen :: a.data) ++
      a.le.elim [] fun le => [UInt8.ofNat (le.toNat / 256), UInt8.ofNat le.toNat])
  else
    header ++ ((if a.data = [] then [] else UInt8.ofNat dataLen :: a.data) ++
      a.le.elim [] fun le => [if 256 ≤ le then 0x00 else UInt8.ofNat le.toNat])

end Apdu

/-! ## PIN and PUK -/

/-- A PIN or a PUK filled up to eight bytes. -/
def padReference (s : Bytes) : Except PivError Bytes :=
  if 8 < s.length then .error (.other s!"PIN/PUK must be at most 8 bytes, got {s.length}")
  else if s = [] then .error (.other "PIN/PUK must not be empty")
  else .ok (padded s)

/-- CHANGE REFERENCE DATA of the PIN or the PUK. -/
def changeReferenceDataApdu (p2 : UInt8) (old new : Bytes) : Except PivError Apdu := do
  let old ← padReference old
  let new ← padReference new
  .ok { Apdu.new 0x00 0x24 0x00 p2 with data := old ++ new }

/-- RESET RETRY COUNTER. -/
def resetRetryCounterApdu (puk newPin : Bytes) : Except PivError Apdu := do
  let puk ← padReference puk
  let newPin ← padReference newPin
  .ok { Apdu.new 0x00 0x2C 0x00 0x80 with data := puk ++ newPin }

/-! ## Keys -/

/-- IMPORT of the scalar of an elliptic curve. -/
def importEcKeyApdu (slot keyAlg : UInt8) (scalar : Bytes) : Apdu :=
  { Apdu.new 0x00 0xFE keyAlg slot with
    data := 0x06 :: UInt8.ofNat scalar.length :: scalar }

/-- GENERAL AUTHENTICATE with a challenge or a point, and an empty response. -/
def generalAuthenticateApdu (alg slot dataTag : UInt8) (data : Bytes) : Option Apdu := do
  let response ← writeTagValue 0x82 []
  let value ← writeTagValue dataTag.toUInt32 data
  let outer ← writeTagValue 0x7C (response ++ value)
  some (Apdu.generalAuthenticate alg slot outer)

/-! ## Answers -/

/-- `61xx`: there is more. -/
def hasMoreData (sw : StatusWord) : Bool := sw.sw1 = 0x61

/-- How much more there is; no number stands for 256. -/
def remainingBytes (sw : StatusWord) : UInt16 := if sw.sw2 = 0 then 256 else sw.sw2.toUInt16

/-- The status word at the end of a response, and what stands before it. -/
def splitResponse (resp : Bytes) : Option (Bytes × StatusWord) :=
  if resp.length < 2 then none
  else some (resp.take (resp.length - 2), ⟨resp.getD (resp.length - 2) 0, resp.getD (resp.length - 1) 0⟩)

theorem splitResponse_append (data : Bytes) (sw1 sw2 : UInt8) :
    splitResponse (data ++ [sw1, sw2]) = some (data, ⟨sw1, sw2⟩) := by
  have hlength : (data ++ [sw1, sw2]).length = data.length + 2 := List.length_append
  rw [splitResponse, if_neg (by omega), hlength, Nat.add_sub_cancel, List.take_left' rfl]
  simp

/-- What takes a command to a card and brings a response, with a state of its own. -/
abbrev Link (σ : Type) := σ → Bytes → Except PivError Bytes × σ

/-- GET RESPONSE for the bytes that remain. -/
def getResponse (sw : StatusWord) : Apdu :=
  { Apdu.new 0x00 0xC0 0x00 0x00 with le := some (remainingBytes sw) }

/-- Fetches the rest of a response, so many pieces at most. -/
def chainResponses {σ : Type} (link : Link σ) : Nat → Bytes → StatusWord → σ →
    Option (Except PivError (Bytes × StatusWord) × σ)
  | fuel, full, chainSw, s =>
    if !hasMoreData chainSw then some (.ok (full, chainSw), s)
    else
      match fuel with
      | 0 => none
      | fuel + 1 =>
        match link s (getResponse chainSw).toBytes with
        | (.error e, s) => some (.error e, s)
        | (.ok resp, s) =>
          match splitResponse resp with
          | none => some (.error (.other "chained response too short"), s)
          | some (more, sw) => chainResponses link fuel (full ++ more) sw s

/-- Sends a command and puts its response together. Without enough fuel it is not done yet. -/
def transmitOn {σ : Type} (link : Link σ) (fuel : Nat) (apdu : Apdu) (s : σ) :
    Option (Except PivError (Bytes × StatusWord) × σ) :=
  match link s apdu.toBytes with
  | (.error e, s) => some (.error e, s)
  | (.ok resp, s) =>
    match splitResponse resp with
    | none => some (.error (.other "response too short for status word"), s)
    | some (data, sw) => chainResponses link fuel data sw s

/-! ## What holds across a link -/

section

variable {σ : Type} {link : Link σ} {motive : σ → Prop}

theorem chainResponses_invariant
    (hlink : ∀ s sw, motive s → motive (link s (getResponse sw).toBytes).2) {fuel : Nat} {full : Bytes} {chainSw : StatusWord} {s s' : σ} {r : Except PivError (Bytes × StatusWord)}
    (hs : motive s) (h : chainResponses link fuel full chainSw s = some (r, s')) : motive s' := by
  induction fuel generalizing full chainSw s with
  | zero =>
    rw [chainResponses] at h
    split at h
    · cases h
      exact hs
    · cases h
  | succ fuel ih =>
    rw [chainResponses] at h
    split at h
    · cases h
      exact hs
    have hnext := hlink s chainSw hs
    split at h
    · next e s'' hanswer =>
      cases h
      rwa [hanswer] at hnext
    · next resp s'' hanswer =>
      rw [hanswer] at hnext
      split at h
      · cases h
        exact hnext
      · exact ih hnext h

/-- What every exchange keeps, a command with all its responses keeps. -/
theorem transmitOn_invariant (hlink : ∀ s command, motive s → motive (link s command).2) {fuel : Nat}
    {apdu : Apdu} {s s' : σ} {r : Except PivError (Bytes × StatusWord)} (hs : motive s)
    (h : transmitOn link fuel apdu s = some (r, s')) : motive s' := by
  have hnext := hlink s apdu.toBytes hs
  rw [transmitOn] at h
  split at h
  · next e s'' hanswer =>
    cases h
    rwa [hanswer] at hnext
  · next resp s'' hanswer =>
    rw [hanswer] at hnext
    split at h
    · cases h
      exact hnext
    · exact chainResponses_invariant (fun s sw => hlink s _) hnext h

end

/-! ## Data objects -/

/-- Writes a data object. -/
def putData {σ : Type} (link : Link σ) (fuel : Nat) (tag : UInt32) (value : Bytes) (s : σ) :
    Option (Except PivError Unit × σ) := do
  let apdu ← Apdu.putData tag value
  let (answer, s) ← transmitOn link fuel apdu s
  match answer with
  | .error e => some (.error e, s)
  | .ok (_, sw) => some (if sw.isSuccess then .ok () else .error (.apdu sw.asU16), s)

/-- Reads a data object. -/
def getData {σ : Type} (link : Link σ) (fuel : Nat) (tag : UInt32) (s : σ) :
    Option (Except PivError (Bytes × StatusWord) × σ) := do
  let apdu ← Apdu.getData tag
  transmitOn link fuel apdu s

/-- The object with the certificate of a slot. -/
def certTagForSlot (slot : UInt8) : Option UInt32 :=
  if slot = 0x9A then some 0x5FC105
  else if slot = 0x9C then some 0x5FC10A
  else if slot = 0x9D then some 0x5FC10B
  else if slot = 0x9E then some 0x5FC101
  else none

/-- A length in at most two bytes; of a longer one the lower two bytes are left. -/
def pushDerLen (len : Nat) : Bytes :=
  if len < 0x80 then [UInt8.ofNat len]
  else if len < 0x100 then [0x81, UInt8.ofNat len]
  else 0x82 :: toBe 2 len

/-- The object that a certificate is kept in. -/
def certObject (certDer : Bytes) : Bytes :=
  0x70 :: (pushDerLen certDer.length ++ (certDer ++ [0x71, 0x01, 0x00]))

/-- Writes the certificate of a slot. -/
def putCert {σ : Type} (link : Link σ) (fuel : Nat) (slot : UInt8) (certDer : Bytes) (s : σ) :
    Option (Except PivError Unit × σ) :=
  match certTagForSlot slot with
  | none => some (.error (.other ("no cert tag for slot 0x" ++ hexByte slot)), s)
  | some tag => putData link fuel tag (certObject certDer) s

/-- A slot as it is read: its certificate, and what is in it. -/
structure ReadSlot (κ : Type) where
  id : UInt8
  certDer : Bytes
  key : κ
  deriving DecidableEq

/-- Reads the certificate of a slot and the key in it. -/
def readSlot {σ κ : Type} (extractPublicKey : Bytes → Except PivError κ) (link : Link σ) (fuel : Nat)
    (slot : UInt8) (s : σ) : Option (Except PivError (ReadSlot κ) × σ) :=
  match slotToCertTag slot with
  | none => some (.error (.slotEmpty slot), s)
  | some certTag => do
    let (answer, s) ← getData link fuel (UInt32.ofNat certTag) s
    some (do
      let certDer ← slotCert slot answer
      let key ← extractPublicKey certDer
      .ok ⟨slot, certDer, key⟩, s)

end Piggy.Piv
