import Piggy.Piv.DataFields
import Piggy.Fibby.DataObjects

/-!
# Host and virtual card

Every command of the host comes back out of the card's readers as it went in. An object that
the card has taken is what a later GET DATA returns, until it is put again or the card is reset;
a certificate is read back byte for byte.
-/

namespace Piggy.Piv

open Piggy.Core Piggy.Box Piggy.Card Piggy.Fibby

/-! ## The commands of the host -/

/-- What the host asks a card. -/
inductive HostCommand where
  | putData (tag : UInt32) (value : Bytes)
  | getData (tag : UInt32)
  | verifyPin (pin : Bytes)
  | verifyPinStatus
  | changeReferenceData (p2 : UInt8) (old new : Bytes)
  | resetRetryCounter (puk newPin : Bytes)
  | generateAsym (slot keyAlg : UInt8) (pinPolicy touchPolicy : Option UInt8)
  | importEcKey (slot keyAlg : UInt8) (scalar : Bytes)
  | sign (alg slot : UInt8) (challenge : Bytes)
  | ecdh (alg slot : UInt8) (point : Bytes)

/-- A PIN or PUK that the host takes. -/
def IsSecret (s : Bytes) : Prop := 1 ≤ s.length ∧ s.length ≤ 8

namespace HostCommand

/-- The command as it is built, if it is. -/
def apdu : HostCommand → Option Apdu
  | putData tag value => Apdu.putData tag value
  | getData tag => Apdu.getData tag
  | verifyPin pin => Apdu.verifyPin pin
  | verifyPinStatus => some Apdu.verifyPinStatus
  | changeReferenceData p2 old new => (changeReferenceDataApdu p2 old new).toOption
  | resetRetryCounter puk newPin => (resetRetryCounterApdu puk newPin).toOption
  | generateAsym slot keyAlg pinPolicy touchPolicy =>
    Apdu.generateAsym slot keyAlg pinPolicy touchPolicy
  | importEcKey slot keyAlg scalar => some (importEcKeyApdu slot keyAlg scalar)
  | sign alg slot challenge => generalAuthenticateApdu alg slot 0x81 challenge
  | ecdh alg slot point => generalAuthenticateApdu alg slot 0x85 point

/-- The arguments that the host gives: secrets have up to eight bytes, scalars up to 48. -/
def InScope : HostCommand → Prop
  | verifyPin pin => IsSecret pin
  | changeReferenceData _ old new => IsSecret old ∧ IsSecret new
  | resetRetryCounter puk newPin => IsSecret puk ∧ IsSecret newPin
  | importEcKey _ _ scalar => scalar.length ≤ 48
  | sign _ _ challenge => challenge.length ≤ 120
  | ecdh _ _ point => point.length ≤ 120
  | _ => True

/-- What the card's handlers find in the data field. The card has keys of one curve: it takes
scalars that fit in 32 bytes, points of 65 bytes, and no empty challenge. -/
def ReadBack (cmd : HostCommand) (body : Option Bytes) : Prop :=
  match cmd with
  | putData tag value => ∃ object, writeTagValue 0x53 value = some object ∧
      body.bind parse5cTagWithRest = some (writeTag tag, object) ∧
      split53Tlv object = some (object, [])
  | getData tag => body.bind parse5cTag = some (writeTag tag)
  | verifyPin pin => body = some (padded pin)
  | verifyPinStatus => body = none
  | changeReferenceData _ old new => ∃ data, body = some data ∧ data.length = 16 ∧
      data.take 8 = padded old ∧ data.drop 8 = padded new
  | resetRetryCounter puk newPin => ∃ data, body = some data ∧ data.length = 16 ∧
      data.take 8 = padded puk ∧ data.drop 8 = padded newPin
  | generateAsym _ keyAlg pinPolicy touchPolicy =>
    body.bind parseGenerateRequest = some ⟨keyAlg, pinPolicy, touchPolicy⟩
  | importEcKey _ _ scalar => body.bind parseImportRequest =
      if ofBe scalar < 256 ^ 32 then some ⟨toBe 32 (ofBe scalar), none, none⟩ else none
  | sign _ _ challenge =>
    body.bind parseGaSignRequest = if challenge = [] then none else some challenge
  | ecdh _ _ point => body.bind parseGaSignRequest = none ∧
      body.bind parseGaEcdhRequest =
        if point.length = 65 ∧ point.head? = some 0x04 then some point else none

end HostCommand

/-! ## What the handlers find -/

theorem length_padded {s : Bytes} (h : s.length ≤ 8) : (padded s).length = 8 := by
  rw [padded, List.length_append, List.length_replicate]
  omega

theorem padReference_secret {s : Bytes} (h : IsSecret s) : padReference s = .ok (padded s) := by
  have hne : s ≠ [] := List.ne_nil_of_length_pos h.1
  rw [padReference, if_neg (Nat.not_lt.mpr h.2), if_neg hne]

theorem changeReferenceDataApdu_secrets (p2 : UInt8) {old new : Bytes} (hold : IsSecret old)
    (hnew : IsSecret new) : changeReferenceDataApdu p2 old new =
      .ok { Apdu.new 0x00 0x24 0x00 p2 with data := padded old ++ padded new } := by
  rw [changeReferenceDataApdu, padReference_secret hold, padReference_secret hnew]
  rfl

theorem resetRetryCounterApdu_secrets {puk newPin : Bytes} (hpuk : IsSecret puk)
    (hnew : IsSecret newPin) : resetRetryCounterApdu puk newPin =
      .ok { Apdu.new 0x00 0x2C 0x00 0x80 with data := padded puk ++ padded newPin } := by
  rw [resetRetryCounterApdu, padReference_secret hpuk, padReference_secret hnew]
  rfl

/-- Two blocks are a data field that the card splits again. -/
theorem twoBlocks {first second : Bytes} (hfirst : IsSecret first) (hsecond : IsSecret second) :
    (padded first ++ padded second).length = 16 ∧
      (padded first ++ padded second).take 8 = padded first ∧
      (padded first ++ padded second).drop 8 = padded second := by
  refine ⟨?_, List.take_left' (length_padded hfirst.2), List.drop_left' (length_padded hfirst.2)⟩
  rw [List.length_append, length_padded hfirst.2, length_padded hsecond.2]

theorem padded_ne_nil {s : Bytes} (h : IsSecret s) : padded s ≠ [] :=
  List.ne_nil_of_length_pos (by rw [length_padded h.2]; decide)

namespace HostCommand

/-- No builder asks for an answer of a certain length. -/
theorem le_eq_none {cmd : HostCommand} {apdu : Apdu} (hscope : cmd.InScope)
    (h : cmd.apdu = some apdu) : apdu.le = none := by
  cases cmd with
  | putData tag value =>
    obtain ⟨len, -, rfl⟩ := putData_fields h
    rfl
  | getData tag =>
    rw [HostCommand.apdu, getData_eq] at h
    rw [← Option.some.inj h]
    rfl
  | verifyPin pin =>
    rw [HostCommand.apdu, Apdu.verifyPin, if_pos hscope.2] at h
    rw [← Option.some.inj h]
    rfl
  | verifyPinStatus =>
    rw [← Option.some.inj h]
    rfl
  | changeReferenceData p2 old new =>
    rw [HostCommand.apdu, changeReferenceDataApdu_secrets p2 hscope.1 hscope.2] at h
    rw [← Option.some.inj h]
    rfl
  | resetRetryCounter puk newPin =>
    rw [HostCommand.apdu, resetRetryCounterApdu_secrets hscope.1 hscope.2] at h
    rw [← Option.some.inj h]
    rfl
  | generateAsym slot keyAlg pinPolicy touchPolicy =>
    obtain ⟨body, hbody, -, -⟩ := generateAsym_fields slot keyAlg pinPolicy touchPolicy
    rw [HostCommand.apdu, hbody] at h
    rw [← Option.some.inj h]
    rfl
  | importEcKey slot keyAlg scalar =>
    rw [← Option.some.inj h]
    rfl
  | sign alg slot challenge =>
    have hlt : challenge.length < 0x7C := Nat.lt_of_le_of_lt hscope (by decide)
    rw [HostCommand.apdu, generalAuthenticateApdu_eq alg slot rfl hlt] at h
    rw [← Option.some.inj h]
    rfl
  | ecdh alg slot point =>
    have hlt : point.length < 0x7C := Nat.lt_of_le_of_lt hscope (by decide)
    rw [HostCommand.apdu, generalAuthenticateApdu_eq alg slot rfl hlt] at h
    rw [← Option.some.inj h]
    rfl

/-- The card finds what the host has put into a command. -/
theorem readBack {cmd : HostCommand} {apdu : Apdu} (hscope : cmd.InScope)
    (h : cmd.apdu = some apdu) (hlength : apdu.data.length < 2 ^ 16) :
    cmd.ReadBack (apduBody apdu.toBytes) := by
  rw [apduBody_toBytes (le_eq_none hscope h) hlength]
  cases cmd with
  | putData tag value =>
    obtain ⟨len, hlen, rfl⟩ := putData_fields h
    rw [if_neg (List.cons_ne_nil _ _)]
    refine ⟨0x53 :: (len ++ value), ?_, parse5cTagWithRest_written tag _, ?_⟩
    · rw [writeTagValue, hlen]
      rfl
    · have hobject := split53Tlv_written hlen (0x53 :: (len ++ value)).length
      simp only [List.length_cons, List.length_append] at hlength
      rwa [List.take_length, if_pos ⟨Nat.le_refl _, by omega⟩] at hobject
  | getData tag =>
    rw [HostCommand.apdu, getData_eq] at h
    rw [← Option.some.inj h, if_neg (List.cons_ne_nil _ _)]
    exact parse5cTag_written tag
  | verifyPin pin =>
    rw [HostCommand.apdu, Apdu.verifyPin, if_pos hscope.2] at h
    rw [← Option.some.inj h, if_neg (padded_ne_nil hscope)]
    rfl
  | verifyPinStatus =>
    rw [← Option.some.inj h]
    rfl
  | changeReferenceData p2 old new =>
    rw [HostCommand.apdu, changeReferenceDataApdu_secrets p2 hscope.1 hscope.2] at h
    rw [← Option.some.inj h, if_neg (List.append_ne_nil_of_left_ne_nil (padded_ne_nil hscope.1) _)]
    exact ⟨_, rfl, twoBlocks hscope.1 hscope.2⟩
  | resetRetryCounter puk newPin =>
    rw [HostCommand.apdu, resetRetryCounterApdu_secrets hscope.1 hscope.2] at h
    rw [← Option.some.inj h, if_neg (List.append_ne_nil_of_left_ne_nil (padded_ne_nil hscope.1) _)]
    exact ⟨_, rfl, twoBlocks hscope.1 hscope.2⟩
  | generateAsym slot keyAlg pinPolicy touchPolicy =>
    obtain ⟨body, hbody, hne, hparse⟩ := generateAsym_fields slot keyAlg pinPolicy touchPolicy
    rw [HostCommand.apdu, hbody] at h
    rw [← Option.some.inj h, if_neg hne]
    exact hparse
  | importEcKey slot keyAlg scalar =>
    rw [← Option.some.inj h, importEcKeyApdu, if_neg (List.cons_ne_nil _ _)]
    exact parseImportRequest_written (Nat.lt_of_le_of_lt hscope (by decide))
  | sign alg slot challenge =>
    have hlt : challenge.length < 0x7C := Nat.lt_of_le_of_lt hscope (by decide)
    rw [HostCommand.apdu, generalAuthenticateApdu_eq alg slot rfl hlt] at h
    rw [← Option.some.inj h, Apdu.generalAuthenticate, if_neg (List.cons_ne_nil _ _)]
    refine (parseGaRequest_written _ hlt (by decide)).trans ?_
    by_cases hempty : challenge = []
    · simp [hempty]
    · simp [hempty]
  | ecdh alg slot point =>
    have hlt : point.length < 0x7C := Nat.lt_of_le_of_lt hscope (by decide)
    rw [HostCommand.apdu, generalAuthenticateApdu_eq alg slot rfl hlt] at h
    rw [← Option.some.inj h, Apdu.generalAuthenticate, if_neg (List.cons_ne_nil _ _)]
    refine ⟨(parseGaRequest_written _ hlt (by decide)).trans (if_neg (by simp)), ?_⟩
    refine (parseGaRequest_written _ hlt (by decide)).trans ?_
    simp

end HostCommand

/-! ## Objects that the card has taken -/

open VirtualCard (Surroundings)

/-- A virtual card behind a transport that takes commands and answers as they are. -/
def cardLink (crypto : CardCrypto) (around : Surroundings) : Link VirtualCard :=
  fun c command => (.ok (c.dispatch crypto around command).1, (c.dispatch crypto around command).2)

section Card

variable {crypto : CardCrypto} {around : Surroundings} {fuel : Nat} {c c' : VirtualCard}

theorem splitResponse_sw (data : Bytes) (sw1 sw2 : UInt8) :
    splitResponse (data ++ sw sw1 sw2) = some (data, ⟨sw1, sw2⟩) :=
  splitResponse_append data sw1 sw2

/-- A response that is all there needs no chaining. -/
theorem transmitOn_card {apdu : Apdu} (data : Bytes) {sw1 sw2 : UInt8} {after : VirtualCard}
    (h : c.dispatch crypto around apdu.toBytes = (data ++ sw sw1 sw2, after)) (hmore : sw1 ≠ 0x61) :
    transmitOn (cardLink crypto around) fuel apdu c = some (.ok (data, ⟨sw1, sw2⟩), after) := by
  rw [transmitOn, cardLink, h]
  dsimp only
  rw [splitResponse_sw]
  dsimp only
  rw [chainResponses.eq_def]
  exact if_pos (by simp [hasMoreData, hmore])

/-- The header of a command comes first. -/
theorem toBytes_header (a : Apdu) : ∃ rest, a.toBytes = a.cla :: a.ins :: a.p1 :: a.p2 :: rest := by
  rw [Apdu.toBytes]
  split
  · exact ⟨_, rfl⟩
  · exact ⟨_, rfl⟩

/-- Without faults, a command of class zero either reaches the applet or is answered as an
unknown one, for want of a selected applet. -/
theorem received_cases {apdu : Apdu} (hfaults : c.faults = []) (hcla : apdu.cla = 0x00) :
    c.received apdu.toBytes = some (apdu.ins, apdu.p1, apdu.p2) ∨
    c.dispatch crypto around apdu.toBytes = (sw 0x6D 0x00, { c with touchBlocked := none }) := by
  obtain ⟨rest, hbytes⟩ := toBytes_header apdu
  rw [hbytes, hcla]
  by_cases hselect : c.requireSelect = true ∧ c.selectedPiv = false ∧ c.selectedOtp = false ∧
      apdu.ins ≠ 0xA4
  · right
    rw [VirtualCard.dispatch]
    exact if_pos ⟨hselect.1, hselect.2.1, hselect.2.2.1, rfl,
      fun h => hselect.2.2.2 (Option.some.inj h)⟩
  · left
    rw [VirtualCard.received, if_neg hselect, hfaults]
    rfl

theorem received_eq {apdu : Apdu} (hcla : apdu.cla = 0x00) (h : c.received apdu.toBytes ≠ none) :
    c.received apdu.toBytes = some (apdu.ins, apdu.p1, apdu.p2) := by
  obtain ⟨rest, hbytes⟩ := toBytes_header apdu
  rw [hbytes, hcla, VirtualCard.received] at h ⊢
  split at h
  · exact absurd rfl h
  next hselect =>
  split at h
  · exact absurd rfl h
  next hfault =>
  rw [if_neg hselect, if_neg hfault]
  rfl

/-- A data field that is too long for its length is not taken. -/
theorem handlePutData_long {tag : UInt32} {value : Bytes} {apdu : Apdu}
    (h : Apdu.putData tag value = some apdu) (hlong : 2 ^ 16 ≤ apdu.data.length) (c : VirtualCard) :
    c.handlePutData apdu.toBytes = (sw 0x6A 0x80, c) := by
  have hle := @HostCommand.le_eq_none (.putData tag value) _ trivial h
  have hmod : apdu.data.length % 2 ^ 16 < 2 ^ 16 := Nat.mod_lt _ (by decide)
  rw [VirtualCard.handlePutData, apduBody_toBytes_long hle (by omega)]
  split
  · rfl
  next body hbody =>
  split at hbody
  · cases hbody
  obtain ⟨len, hlen, hapdu⟩ := putData_fields h
  have hdata : apdu.data =
      0x5C :: UInt8.ofNat (writeTag tag).length :: (writeTag tag ++ 0x53 :: (len ++ value)) := by
    rw [hapdu]
  rw [← Option.some.inj hbody]
  generalize apdu.data.length % 2 ^ 16 = n at hmod
  rw [hdata] at hlong ⊢
  rcases parse5cTagWithRest_take tag (0x53 :: (len ++ value)) n with hnone | ⟨k, hk, hsome⟩
  · rw [hnone]
  · rw [hsome]
    dsimp only
    rw [split53Tlv_written hlen, if_neg]
    rintro ⟨hall, -⟩
    simp only [List.length_cons, List.length_append] at hlong hall
    omega

/-- A data field that is not too long is taken. -/
theorem handlePutData_short {tag : UInt32} {value : Bytes} {apdu : Apdu}
    (h : Apdu.putData tag value = some apdu) (hshort : apdu.data.length < 2 ^ 16) (c : VirtualCard) :
    ∃ object, writeTagValue 0x53 value = some object ∧
      c.handlePutData apdu.toBytes = (sw 0x90 0x00,
        { c with dataObjects := Function.update c.dataObjects (writeTag tag) (some object) }) := by
  obtain ⟨object, hobject, hparse, hsplit⟩ :=
    @HostCommand.readBack (.putData tag value) _ trivial h hshort
  obtain ⟨body, hbody, hparse⟩ := Option.bind_eq_some_iff.mp hparse
  refine ⟨object, hobject, ?_⟩
  rw [VirtualCard.handlePutData, hbody]
  dsimp only
  rw [hparse]
  dsimp only
  rw [hsplit]

/-- What PUT DATA does to a card without faults. -/
theorem putData_card {tag : UInt32} {value : Bytes} {r : Except PivError Unit}
    (hfaults : c.faults = []) (h : putData (cardLink crypto around) fuel tag value c = some (r, c')) :
    (r = .ok () ∧ (∃ apdu, Apdu.putData tag value = some apdu ∧ apdu.data.length < 2 ^ 16) ∧
      ∃ object, writeTagValue 0x53 value = some object ∧
      c'.dataObjects = Function.update c.dataObjects (writeTag tag) (some object)) ∨
    (r ≠ .ok () ∧ c'.dataObjects = c.dataObjects) := by
  obtain ⟨apdu, hapdu, h⟩ := Option.bind_eq_some_iff.mp h
  obtain ⟨len, -, hfields⟩ := putData_fields hapdu
  have hcla : apdu.cla = 0x00 := by rw [hfields]; rfl
  rcases received_cases hfaults hcla with hreceived | hunselected
  · obtain ⟨marked, hdispatch⟩ : ∃ marked, c.dispatch crypto around apdu.toBytes = _ :=
      VirtualCard.dispatch_received hreceived
    have hcommand : (({ c with touchBlocked := none } : VirtualCard).command crypto around apdu.ins
        apdu.p1 apdu.p2 apdu.toBytes) =
        ({ c with touchBlocked := none } : VirtualCard).handlePutData apdu.toBytes := by
      have hheader : apdu.ins = 0xDB ∧ apdu.p1 = 0x3F ∧ apdu.p2 = 0xFF := by
        rw [hfields]
        exact ⟨rfl, rfl, rfl⟩
      simp [VirtualCard.command, hheader]
    rw [hcommand] at hdispatch
    by_cases hshort : apdu.data.length < 2 ^ 16
    · obtain ⟨object, hobject, hput⟩ := handlePutData_short hapdu hshort { c with touchBlocked := none }
      rw [hput] at hdispatch
      rw [transmitOn_card [] hdispatch (by decide)] at h
      cases h
      exact .inl ⟨rfl, ⟨apdu, hapdu, hshort⟩, object, hobject, rfl⟩
    · rw [handlePutData_long hapdu (Nat.le_of_not_lt hshort)] at hdispatch
      rw [transmitOn_card [] hdispatch (by decide)] at h
      cases h
      exact .inr ⟨(fun h => by cases h), rfl⟩
  · rw [transmitOn_card [] hunselected (by decide)] at h
    cases h
    exact .inr ⟨(fun h => by cases h), rfl⟩

theorem length_value_lt {tag : UInt32} {value : Bytes} {apdu : Apdu}
    (h : Apdu.putData tag value = some apdu) : value.length < apdu.data.length := by
  obtain ⟨len, -, hfields⟩ := putData_fields h
  rw [hfields]
  simp only [List.length_cons, List.length_append]
  omega

/-- GET DATA returns the object that the card has. -/
theorem getData_card {tag : UInt32} {object : Bytes} {apdu : Apdu}
    (hapdu : Apdu.getData tag = some apdu) (hreceived : c.received apdu.toBytes ≠ none)
    (hobject : c.dataObjects (writeTag tag) = some object) :
    ∃ after, getData (cardLink crypto around) fuel tag c =
      some (.ok (object, ⟨0x90, 0x00⟩), after) := by
  have hfields := Option.some.inj (hapdu.symm.trans (getData_eq tag))
  have hcla : apdu.cla = 0x00 := by rw [hfields]; rfl
  have hheader : apdu.ins = 0xCB ∧ apdu.p1 = 0x3F ∧ apdu.p2 = 0xFF := by
    rw [hfields]
    exact ⟨rfl, rfl, rfl⟩
  obtain ⟨marked, hdispatch⟩ : ∃ marked, c.dispatch crypto around apdu.toBytes = _ :=
    VirtualCard.dispatch_received (received_eq hcla hreceived)
  have hparse : (apduBody apdu.toBytes).bind parse5cTag = some (writeTag tag) := by
    have htag := length_writeTag_le tag
    apply @HostCommand.readBack (.getData tag) _ trivial hapdu
    rw [hfields]
    simp only [List.length_cons]
    omega
  obtain ⟨body, hbody, htag⟩ := Option.bind_eq_some_iff.mp hparse
  have hget : ({ c with touchBlocked := none } : VirtualCard).handleGetData crypto apdu.toBytes =
      object ++ sw 0x90 0x00 := by
    rw [VirtualCard.handleGetData, hbody]
    dsimp only
    rw [htag]
    dsimp only
    rw [hobject]
    rfl
  have hcommand : (({ c with touchBlocked := none } : VirtualCard).command crypto around apdu.ins
      apdu.p1 apdu.p2 apdu.toBytes) = (object ++ sw 0x90 0x00, { c with touchBlocked := none }) := by
    simp [VirtualCard.command, hheader, hget]
  rw [hcommand] at hdispatch
  rw [getData, hapdu]
  exact ⟨_, transmitOn_card object hdispatch (by decide)⟩

end Card

/-! ## Reading objects -/

/-- The tag of an object, its value, and what is behind it. -/
def readObject (object : Bytes) : Except PivError (Nat × Bytes × Bytes) := do
  let (tag, rest) ← readTag object
  let (value, rest) ← readValue rest
  .ok (tag, value, rest)

theorem readObject_written {value object : Bytes} (h : writeTagValue 0x53 value = some object) :
    readObject object = .ok (0x53, value, []) := by
  obtain ⟨len, hlen, rfl⟩ := Option.map_eq_some_iff.mp h
  have htag : readTag (0x53 :: (len ++ value)) = .ok (0x53, len ++ value) := rfl
  have hread := readValue_writeLength hlen []
  rw [List.append_nil] at hread
  have hobject : writeTag 0x53 ++ len ++ value = 0x53 :: (len ++ value) := rfl
  rw [hobject, readObject, htag, ok_bind]
  dsimp only
  rw [hread, ok_bind]

theorem writeLength_pushDerLen {n : Nat} (h : n < 2 ^ 16) : writeLength n = some (pushDerLen n) := by
  rw [writeLength, pushDerLen]
  split
  · rfl
  split
  · rfl
  · exact if_pos h

/-- The certificate is the last element of its tag in its object. -/
theorem findCert_certObject {certDer : Bytes} (hshort : certDer.length < 2 ^ 16) :
    findCert none (certObject certDer).length (certObject certDer) = .ok (some certDer) := by
  have hfuel : ∃ fuel, (certObject certDer).length = fuel + 3 := by
    rw [certObject]
    simp only [List.length_cons, List.length_append, List.length_nil]
    exact ⟨(pushDerLen certDer.length).length + certDer.length + 1, by omega⟩
  obtain ⟨fuel, hfuel⟩ := hfuel
  have htag : readTag (certObject certDer) =
      .ok (0x70, pushDerLen certDer.length ++ (certDer ++ [0x71, 0x01, 0x00])) := rfl
  have hvalue := readValue_writeLength (writeLength_pushDerLen hshort) [0x71, 0x01, 0x00]
  have hinfo : findCert (some certDer) (fuel + 2) [0x71, 0x01, 0x00] = .ok (some certDer) := rfl
  have hne : certObject certDer ≠ [] := List.cons_ne_nil _ _
  rw [hfuel, findCert, if_neg hne, htag, ok_bind]
  dsimp only
  rw [hvalue, ok_bind]
  exact hinfo

/-- The certificate in an object is the one that was put there. -/
theorem slotCert_written {certDer object : Bytes} (hshort : certDer.length < 2 ^ 16)
    (h : writeTagValue 0x53 (certObject certDer) = some object) (slot : UInt8) :
    slotCert slot (.ok (object, ⟨0x90, 0x00⟩)) = .ok certDer := by
  obtain ⟨len, hlen, rfl⟩ := Option.map_eq_some_iff.mp h
  have htag : readTag (0x53 :: (len ++ certObject certDer)) = .ok (0x53, len ++ certObject certDer) :=
    rfl
  have hread := readValue_writeLength hlen []
  rw [List.append_nil] at hread
  have hobject : writeTag 0x53 ++ len ++ certObject certDer = 0x53 :: (len ++ certObject certDer) := rfl
  have hsuccess : StatusWord.isSuccess ⟨0x90, 0x00⟩ = true := rfl
  rw [hobject, slotCert]
  simp only [hsuccess, Bool.not_true, Bool.false_eq_true, if_false, htag, ok_bind, ne_eq,
    not_true_eq_false, hread, findCert_certObject hshort]

theorem length_certDer_lt (certDer : Bytes) : certDer.length < (certObject certDer).length := by
  rw [certObject]
  simp only [List.length_cons, List.length_append]
  omega

theorem slotToCertTag_of_certTagForSlot {slot : UInt8} {tag : UInt32}
    (h : certTagForSlot slot = some tag) : slotToCertTag slot = some tag.toNat := by
  rw [certTagForSlot] at h
  rw [slotToCertTag]
  split at h
  · next hslot =>
    rw [if_pos hslot, ← Option.some.inj h]
    rfl
  next h9a =>
  rw [if_neg h9a]
  split at h
  · next hslot =>
    rw [if_pos hslot, ← Option.some.inj h]
    rfl
  next h9c =>
  rw [if_neg h9c]
  split at h
  · next hslot =>
    rw [if_pos hslot, ← Option.some.inj h]
    rfl
  next h9d =>
  rw [if_neg h9d]
  split at h
  · next hslot =>
    rw [if_pos hslot, ← Option.some.inj h]
    rfl
  · cases h

/-! ## Agreement -/

/-- Host and card agree. -/
structure Agrees (crypto : CardCrypto) : Prop where
  /-- Every command but one with a huge object is built, and comes back out of the card's
  readers. -/
  commands : ∀ cmd : HostCommand, cmd.InScope →
    (cmd.apdu = none → ∃ tag value, cmd = .putData tag value ∧ 2 ^ 24 ≤ value.length) ∧
    ∀ apdu, cmd.apdu = some apdu → apdu.data.length < 2 ^ 16 →
      apduBody apdu.toBytes = (if apdu.data = [] then none else some apdu.data) ∧
      cmd.ReadBack (apduBody apdu.toBytes)
  /-- An object that was put without an error is what GET DATA returns later. -/
  stored : ∀ around around' fuel fuel' tag value c c' c'' apdu, c.faults = [] →
    putData (cardLink crypto around) fuel tag value c = some (.ok (), c') →
    Keeps crypto (writeTag tag) c' c'' →
    Apdu.getData tag = some apdu → c''.received apdu.toBytes ≠ none →
    ∃ object after, readObject object = .ok (0x53, value, []) ∧
      getData (cardLink crypto around') fuel' tag c'' = some (.ok (object, ⟨0x90, 0x00⟩), after)
  /-- What is too long is refused, and nothing is stored. -/
  refused : ∀ around fuel tag value c c' r, c.faults = [] →
    putData (cardLink crypto around) fuel tag value c = some (r, c') →
    (∀ apdu, Apdu.putData tag value = some apdu → 2 ^ 16 ≤ apdu.data.length) →
    r ≠ .ok () ∧ c'.dataObjects = c.dataObjects
  /-- So is a certificate that is too long. -/
  refusedCert : ∀ around fuel slot certDer c c' r, c.faults = [] →
    putCert (cardLink crypto around) fuel slot certDer c = some (r, c') →
    2 ^ 16 ≤ certDer.length → r ≠ .ok () ∧ c'.dataObjects = c.dataObjects
  /-- A certificate that was put without an error is the one that the slot has later. -/
  certificates : ∀ {κ : Type} (extractPublicKey : Bytes → Except PivError κ) around around' fuel fuel'
      slot certDer tag c c' c'' apdu, c.faults = [] →
    putCert (cardLink crypto around) fuel slot certDer c = some (.ok (), c') →
    certTagForSlot slot = some tag → Keeps crypto (writeTag tag) c' c'' →
    Apdu.getData tag = some apdu → c''.received apdu.toBytes ≠ none →
    ∃ after, readSlot extractPublicKey (cardLink crypto around') fuel' slot c'' =
      some ((extractPublicKey certDer).map fun key => ⟨slot, certDer, key⟩, after)

theorem writeLength_eq_none {n : Nat} (h : writeLength n = none) : 2 ^ 24 ≤ n := by
  rw [writeLength] at h
  split at h
  · cases h
  split at h
  · cases h
  split at h
  · cases h
  split at h
  · cases h
  · omega

theorem putData_eq_none {tag : UInt32} {value : Bytes} (h : Apdu.putData tag value = none) :
    2 ^ 24 ≤ value.length := by
  have htag := length_writeTag_le tag
  rw [Apdu.putData, writeTagValue, writeTagValue, writeLength_short (by omega)] at h
  cases hlen : writeLength value.length with
  | none => exact writeLength_eq_none hlen
  | some len =>
    rw [hlen] at h
    cases h

namespace HostCommand

/-- A command that the host does not build writes a huge object. -/
theorem apdu_eq_none {cmd : HostCommand} (hscope : cmd.InScope) (h : cmd.apdu = none) :
    ∃ tag value, cmd = .putData tag value ∧ 2 ^ 24 ≤ value.length := by
  cases cmd with
  | putData tag value => exact ⟨tag, value, rfl, putData_eq_none h⟩
  | getData tag =>
    rw [HostCommand.apdu, getData_eq] at h
    cases h
  | verifyPin pin =>
    rw [HostCommand.apdu, Apdu.verifyPin, if_pos hscope.2] at h
    cases h
  | verifyPinStatus => cases h
  | changeReferenceData p2 old new =>
    rw [HostCommand.apdu, changeReferenceDataApdu_secrets p2 hscope.1 hscope.2] at h
    cases h
  | resetRetryCounter puk newPin =>
    rw [HostCommand.apdu, resetRetryCounterApdu_secrets hscope.1 hscope.2] at h
    cases h
  | generateAsym slot keyAlg pinPolicy touchPolicy =>
    obtain ⟨body, hbody, -, -⟩ := generateAsym_fields slot keyAlg pinPolicy touchPolicy
    rw [HostCommand.apdu, hbody] at h
    cases h
  | importEcKey slot keyAlg scalar => cases h
  | sign alg slot challenge =>
    have hlt : challenge.length < 0x7C := Nat.lt_of_le_of_lt hscope (by decide)
    rw [HostCommand.apdu, generalAuthenticateApdu_eq alg slot rfl hlt] at h
    cases h
  | ecdh alg slot point =>
    have hlt : point.length < 0x7C := Nat.lt_of_le_of_lt hscope (by decide)
    rw [HostCommand.apdu, generalAuthenticateApdu_eq alg slot rfl hlt] at h
    cases h

end HostCommand

/-- What the host writes is what the card reads and what the host reads back. -/
theorem agrees (crypto : CardCrypto) : Agrees crypto where
  commands cmd hscope := by
    refine ⟨HostCommand.apdu_eq_none hscope, fun apdu hapdu hlength => ⟨?_, ?_⟩⟩
    · exact apduBody_toBytes (HostCommand.le_eq_none hscope hapdu) hlength
    · exact HostCommand.readBack hscope hapdu hlength
  stored around around' fuel fuel' tag value c c' c'' apdu hfaults hput hkeeps hapdu hreceived := by
    rcases putData_card hfaults hput with ⟨-, -, object, hobject, hstored⟩ | ⟨hr, -⟩
    · have hkept : c''.dataObjects (writeTag tag) = some object := by
        rw [hkeeps.dataObjects, hstored, Function.update_self]
      obtain ⟨after, hget⟩ := getData_card hapdu hreceived hkept
      exact ⟨object, after, readObject_written hobject, hget⟩
    · exact absurd rfl hr
  refused around fuel tag value c c' r hfaults hput hlong := by
    rcases putData_card hfaults hput with ⟨-, ⟨apdu, hapdu, hshort⟩, -⟩ | h
    · exact absurd hshort (Nat.not_lt.mpr (hlong apdu hapdu))
    · exact h
  refusedCert around fuel slot certDer c c' r hfaults hput hlong := by
    rw [putCert] at hput
    split at hput
    · cases hput
      exact ⟨nofun, rfl⟩
    · rcases putData_card hfaults hput with ⟨-, ⟨apdu, hapdu, hshort⟩, -⟩ | h
      · have hvalue := length_value_lt hapdu
        have hcert := length_certDer_lt certDer
        omega
      · exact h
  certificates extractPublicKey around around' fuel fuel' slot certDer tag c c' c'' apdu hfaults hput
      htag hkeeps hapdu hreceived := by
    rw [putCert, htag] at hput
    rcases putData_card hfaults hput with ⟨-, ⟨put, hputApdu, hshort⟩, object, hobject, hstored⟩ | ⟨hr, -⟩
    · have hkept : c''.dataObjects (writeTag tag) = some object := by
        rw [hkeeps.dataObjects, hstored, Function.update_self]
      have hcert : certDer.length < 2 ^ 16 :=
        (length_certDer_lt certDer).trans ((length_value_lt hputApdu).trans hshort)
      have hread := slotCert_written hcert hobject slot
      obtain ⟨after, hget⟩ : ∃ after, getData (cardLink crypto around') fuel' tag c'' = some (_, after) :=
        getData_card hapdu hreceived hkept
      refine ⟨after, ?_⟩
      rw [readSlot, slotToCertTag_of_certTagForSlot htag]
      dsimp only
      rw [UInt32.ofNat_toNat, hget]
      simp only [Option.bind_eq_bind, Option.bind_some, hread, ok_bind]
      cases extractPublicKey certDer with
      | error e => rfl
      | ok key => rfl
    · exact absurd rfl hr

/-- A challenge of no bytes is not read back: the card refuses it. -/
theorem not_signsEmpty : ¬ ∀ (alg slot : UInt8) (challenge : Bytes) (apdu : Apdu),
    challenge.length ≤ 120 → (HostCommand.sign alg slot challenge).apdu = some apdu →
    (apduBody apdu.toBytes).bind parseGaSignRequest = some challenge := by
  intro h
  have hread := h 0x11 0x9A [] _ (by decide) rfl
  exact absurd hread (by decide)

/-- Three bytes are put into slot 9C and read back after the card was out of its reader. -/
theorem agrees_sample : ∃ put after,
    putCert (cardLink sampleCrypto ⟨0, []⟩) 0 0x9C [0x30, 0x01, 0x00] (VirtualCard.withModel .yk4) =
      some (.ok (), put) ∧
    readSlot (fun _ => .ok ()) (cardLink sampleCrypto ⟨0, []⟩) 0 0x9C
      ((put.setPresent false).setPresent true) =
      some (.ok ⟨0x9C, [0x30, 0x01, 0x00], ()⟩, after) := by
  obtain ⟨put, hput, hselect⟩ : ∃ put, putCert (cardLink sampleCrypto ⟨0, []⟩) 0 0x9C
      [0x30, 0x01, 0x00] (VirtualCard.withModel .yk4) = some (.ok (), put) ∧
      ∀ apdu, ((put.setPresent false).setPresent true).received (0x00 :: 0xCB :: 0x3F :: 0xFF :: apdu) =
        some (0xCB, 0x3F, 0xFF) := ⟨_, rfl, fun _ => rfl⟩
  have hkeeps : Keeps sampleCrypto (writeTag 0x5FC10A) put ((put.setPresent false).setPresent true) :=
    ⟨[⟨_, .setPresent true⟩, ⟨put, .setPresent false⟩],
      .step (.step (.start rfl) ⟨rfl, rfl⟩ (fun _ _ h => by cases h)) ⟨rfl, rfl⟩ (fun _ _ h => by cases h)⟩
  obtain ⟨after, hread⟩ := (agrees sampleCrypto).certificates (fun _ => .ok ()) _ ⟨0, []⟩ _ 0 _ _ _ _ _ _
    _ rfl hput rfl hkeeps (getData_eq _) (by rw [Apdu.toBytes]; exact (hselect _).trans_ne (fun h => by cases h))
  exact ⟨put, after, hput, hread⟩

end Piggy.Piv
