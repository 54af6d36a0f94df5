import Piggy.Fibby.PinGate

/-!
# What a command makes of the card

A command that reaches the applet does one of a few things. They are listed once, and whatever
is said of every command is said of each of them.
-/

namespace Piggy.Fibby

open Piggy.Core Piggy.Box

namespace VirtualCard

variable {crypto : CardCrypto} {around : Surroundings} {c : VirtualCard} {ins p1 p2 : UInt8}
  {apdu : Bytes}

/-! ## The list -/

/-- The card with other fields for PIN and PUK. -/
def withPinState (c : VirtualCard) (s : PinState) : VirtualCard :=
  { c with
    pin := s.pin, pinRetries := s.pinRetries, puk := s.puk, pukRetries := s.pukRetries
    pinVerified := s.pinVerified }

/-- The card after a factory reset. -/
def wiped (c : VirtualCard) : VirtualCard :=
  { c with
    slot9aPriv := none, slot9cPriv := none, slot9dPriv := none, slot9ePriv := none
    slotPolicies := fun _ => none, slotOrigins := fun _ => none
    touch := c.touch.clearCache
    dataObjects := fun _ => none
    pin := defaultPin, pinRetries := defaultPinRetries
    puk := defaultPuk, pukRetries := defaultPukRetries
    mgmtKey := defaultMgmtKey
    pinVerified := false }

/-- A command with a PIN or a PUK in it, of the length that it has to have, while its counter is
not down. -/
def Tries (c : VirtualCard) (ins p2 : UInt8) (apdu : Bytes) : Prop :=
  ∃ body, apduBody apdu = some body ∧
    (ins = 0x20 ∧ body.length = 8 ∧ c.pinRetries ≠ 0 ∨
      ins = 0x24 ∧ body.length = 16 ∧ (if p2 = 0x80 then c.pinRetries else c.pukRetries) ≠ 0 ∨
      ins = 0x2C ∧ body.length = 16 ∧ c.pukRetries ≠ 0)

/-- The answer of the client in the challenge-response of the management key is the right one. -/
structure RightResponse (crypto : CardCrypto) (c : VirtualCard) (apdu : Bytes) : Prop where
  body : ∃ body witness, apduBody apdu = some body ∧ body.length = 12 ∧
    [0x7C, 0x0A, 0x82, 0x08] <+: body ∧ c.pendingMgmtWitness = some witness ∧
    crypto.tdesDecryptBlock c.mgmtKey (body.drop 4) = witness

/-- A GENERATE ASYMMETRIC that the card takes. -/
structure Generates (crypto : CardCrypto) (c : VirtualCard) (slot : UInt8) (body : Option Bytes)
    (scalar : Bytes) (policy : Policy) : Prop where
  auth : c.mgmtAuthenticated = true
  slot : slot = 0x9A ∨ slot = 0x9C ∨ slot = 0x9D
  request : ∃ request, body.bind parseGenerateRequest = some request ∧ request.alg = 0x11 ∧
    validatedPolicy request.pinPolicy request.touchPolicy = some policy
  key : crypto.signingKey scalar = true

/-- What a GENERATE ASYMMETRIC answers. -/
def publicKeyTemplate (point : Bytes) : Bytes :=
  let inner := 0x86 :: pushBerLen point.length ++ point
  [0x7F, 0x49] ++ pushBerLen inner.length ++ inner ++ sw 0x90 0x00

/-- An IMPORT ASYMMETRIC that the card takes. -/
structure Imports (crypto : CardCrypto) (c : VirtualCard) (alg slot : UInt8) (body : Option Bytes)
    (scalar : Bytes) (policy : Policy) : Prop where
  auth : c.mgmtAuthenticated = true
  alg : alg = 0x11
  slot : slot = 0x9A ∨ slot = 0x9C ∨ slot = 0x9D ∨ slot = 0x9E
  request : ∃ request, body.bind parseImportRequest = some request ∧ request.scalar = scalar ∧
    validatedPolicy request.pinPolicy request.touchPolicy = some policy
  key : crypto.signingKey scalar = true

/-- What a command that reaches the applet answers, and the card that it leaves. -/
inductive CommandResult (crypto : CardCrypto) (around : Surroundings) (c : VirtualCard)
    (ins p1 p2 : UInt8) (apdu : Bytes) : Bytes × VirtualCard → Prop where
  | refused (sw1 sw2 : UInt8) (hsw : ins = 0x20 ∨ sw1 ≠ 0x90) :
      CommandResult crypto around c ins p1 p2 apdu (sw sw1 sw2, c)
  | answered (response : Bytes) (hins : ins ∈ ([0xFD, 0xF8, 0x01, 0xF9, 0xF7] : List UInt8)) :
      CommandResult crypto around c ins p1 p2 apdu (response, c)
  | read (hins : ins = 0xCB ∧ p1 = 0x3F ∧ p2 = 0xFF) :
      CommandResult crypto around c ins p1 p2 apdu (c.handleGetData crypto apdu, c)
  | selected (response : Bytes) (piv otp : Bool) (hins : ins = 0xA4) :
      CommandResult crypto around c ins p1 p2 apdu
        (response, { c with selectedPiv := piv, selectedOtp := otp })
  | objectPut (tag value : Bytes) (hins : ins = 0xDB ∧ p1 = 0x3F ∧ p2 = 0xFF) :
      CommandResult crypto around c ins p1 p2 apdu
        (sw 0x90 0x00, { c with dataObjects := Function.update c.dataObjects tag (some value) })
  | verified (hins : ins = 0x20) (h : c.RightVerify apdu) :
      CommandResult crypto around c ins p1 p2 apdu (sw 0x90 0x00, { c with
        pinRetries := defaultPinRetries, pinVerified := true, commandSinceVerify := false })
  | tried (sw1 sw2 : UInt8) (s : PinState) (hacts : c.Tries ins p2 apdu)
      (hverified : s.pinVerified = true → c.pinVerified = true) :
      CommandResult crypto around c ins p1 p2 apdu (sw sw1 sw2, c.withPinState s)
  | reset (hins : ins = 0xFB ∧ p1 = 0x00 ∧ p2 = 0x00) (hpin : c.pinRetries = 0)
      (hpuk : c.pukRetries = 0) :
      CommandResult crypto around c ins p1 p2 apdu (sw 0x90 0x00, c.wiped)
  | challenged (response witness : Bytes) (hins : ins = 0x87 ∧ p1 = 0x03 ∧ p2 = 0x9B)
      (hwitness : witness = c.pendingMgmtWitness.getD (List.replicate 8 0)) :
      CommandResult crypto around c ins p1 p2 apdu
        (response, { c with pendingMgmtWitness := some witness })
  | authenticated (hins : ins = 0x87 ∧ p1 = 0x03 ∧ p2 = 0x9B) (h : c.RightResponse crypto apdu) :
      CommandResult crypto around c ins p1 p2 apdu
        (sw 0x90 0x00, { c with pendingMgmtWitness := none, mgmtAuthenticated := true })
  | notAuthenticated (hins : ins = 0x87 ∧ p1 = 0x03 ∧ p2 = 0x9B) :
      CommandResult crypto around c ins p1 p2 apdu
        (sw 0x69 0x82, { c with pendingMgmtWitness := none })
  | mgmtKeySet (key : Bytes) (hins : ins = 0xFF ∧ p1 = 0xFF ∧ p2 = 0xFF)
      (hauth : c.mgmtAuthenticated = true) :
      CommandResult crypto around c ins p1 p2 apdu (sw 0x90 0x00, { c with mgmtKey := key })
  | generated (scalar : Bytes) (policy : Policy) (hins : ins = 0x47 ∧ p1 = 0x00)
      (h : c.Generates crypto p2 (apduBody apdu) scalar policy) :
      CommandResult crypto around c ins p1 p2 apdu
        (publicKeyTemplate (crypto.verifyingKey scalar),
          c.installSlotKey p2 scalar policy .generated)
  | imported (scalar : Bytes) (policy : Policy) (hins : ins = 0xFE)
      (h : c.Imports crypto p1 p2 (apduBody apdu) scalar policy) :
      CommandResult crypto around c ins p1 p2 apdu
        (sw 0x90 0x00, c.installSlotKey p2 scalar policy .imported)
  | blocked (generation : UInt64) (hins : ins = 0x87 ∧ p1 = 0x11)
      (hgate : c.passTouchGate p2 around.now =
        (false, { c with touchBlocked := some (p2, generation) })) :
      CommandResult crypto around c ins p1 p2 apdu
        (swTouchTimeout, { c with touchBlocked := some (p2, generation) })
  | used (data : Bytes) (touch : TouchPad) (hins : ins = 0x87 ∧ p1 = 0x11) (hdata : data ≠ [])
      (hpin : c.pinGate p2 = none)
      (hgate : c.passTouchGate p2 around.now = (true, { c with touch := touch })) :
      CommandResult crypto around c ins p1 p2 apdu
        (data ++ sw 0x90 0x00,
          ({ c with touch := touch } : VirtualCard).consumePin (c.effectivePinPolicy p2))

/-! ## The handlers -/

/-- What the touch gate says, and what it makes of the card. -/
theorem passTouchGate_cases (c : VirtualCard) (slot : UInt8) (now : Nat) :
    (∃ generation, c.passTouchGate slot now =
      (false, { c with touchBlocked := some (slot, generation) })) ∨
    ∃ touch, c.passTouchGate slot now = (true, { c with touch := touch }) := by
  rw [passTouchGate]
  split
  · exact .inr ⟨c.touch, rfl⟩
  · split
    · exact .inr ⟨c.touch, rfl⟩
    · split
      · next touch _ => exact .inr ⟨touch, rfl⟩
      · next generation _ => exact .inl ⟨generation, rfl⟩

/-- The PIN gate has one refusal. -/
theorem pinGate_refusal {slot : UInt8} {refusal : Bytes} (h : c.pinGate slot = some refusal) :
    refusal = sw 0x69 0x82 := by
  rw [pinGate] at h
  split at h
  · exact (Option.some.inj h).symm
  · split at h
    · exact (Option.some.inj h).symm
    · cases h

theorem handleGeneralAuthenticateEcdhSlot9d_result :
    CommandResult crypto around c 0x87 0x11 0x9D apdu
      (c.handleGeneralAuthenticateEcdhSlot9d crypto around.now (apduBody apdu)) := by
  rw [handleGeneralAuthenticateEcdhSlot9d]
  split
  · next refusal hgate =>
    rw [pinGate_refusal hgate]
    exact .refused _ _ (.inr (by decide))
  next hpin =>
  split
  · exact .refused _ _ (.inr (by decide))
  split
  · exact .refused _ _ (.inr (by decide))
  split
  · exact .refused _ _ (.inr (by decide))
  split
  · exact .refused _ _ (.inr (by decide))
  rcases passTouchGate_cases c 0x9D around.now with ⟨generation, hgate⟩ | ⟨touch, hgate⟩
  · rw [hgate]
    exact .blocked generation ⟨rfl, rfl⟩ hgate
  · rw [hgate]
    exact .used _ touch ⟨rfl, rfl⟩ (fun h => by cases h) hpin hgate

theorem signEcdsaSlot_result (slot : UInt8) :
    CommandResult crypto around c 0x87 0x11 slot apdu
      (c.signEcdsaSlot crypto around.now (apduBody apdu) slot) := by
  rw [signEcdsaSlot]
  split
  · next refusal hgate =>
    rw [pinGate_refusal hgate]
    exact .refused _ _ (.inr (by decide))
  next hpin =>
  split
  · exact .refused _ _ (.inr (by decide))
  split
  · exact .refused _ _ (.inr (by decide))
  split
  · exact .refused _ _ (.inr (by decide))
  split
  · exact .refused _ _ (.inr (by decide))
  rcases passTouchGate_cases c slot around.now with ⟨generation, hgate⟩ | ⟨touch, hgate⟩
  · rw [hgate]
    exact .blocked generation ⟨rfl, rfl⟩ hgate
  · rw [hgate]
    exact .used _ touch ⟨rfl, rfl⟩ (fun h => by cases h) hpin hgate

theorem handleGeneralAuthenticateMgmtKey_result :
    CommandResult crypto around c 0x87 0x03 0x9B apdu
      (c.handleGeneralAuthenticateMgmtKey crypto (apduBody apdu)) := by
  cases hbody : apduBody apdu with
  | none => exact .refused _ _ (.inr (by decide))
  | some body =>
    unfold handleGeneralAuthenticateMgmtKey
    dsimp only
    split
    · exact .challenged _ _ ⟨rfl, rfl, rfl⟩ rfl
    · split
      · next hlength =>
        obtain ⟨hlength, htag⟩ := hlength
        split
        · exact .refused _ _ (.inr (by decide))
        · next witness hwitness =>
          split
          · next hright =>
            exact .authenticated ⟨rfl, rfl, rfl⟩
              ⟨body, witness, hbody, hlength, htag, hwitness, hright⟩
          · exact .notAuthenticated ⟨rfl, rfl, rfl⟩
      · exact .refused _ _ (.inr (by decide))

theorem handleSetMgmtKey_result :
    CommandResult crypto around c 0xFF 0xFF 0xFF apdu (c.handleSetMgmtKey (apduBody apdu)) := by
  unfold handleSetMgmtKey
  split
  · exact .refused _ _ (.inr (by decide))
  next hauth =>
  have hauth : c.mgmtAuthenticated = true := by simpa using hauth
  split
  · exact .refused _ _ (.inr (by decide))
  · split
    · exact .refused _ _ (.inr (by decide))
    · exact .mgmtKeySet _ ⟨rfl, rfl, rfl⟩ hauth

theorem handleGenerateAsymmetric_result :
    CommandResult crypto around c 0x47 0x00 p2 apdu
      (c.handleGenerateAsymmetric crypto around.random p2 (apduBody apdu)) := by
  rw [handleGenerateAsymmetric]
  split
  · exact .refused _ _ (.inr (by decide))
  next hauth =>
  split
  · exact .refused _ _ (.inr (by decide))
  next request hrequest =>
  split
  · exact .refused _ _ (.inr (by decide))
  next halg =>
  split
  · exact .refused _ _ (.inr (by decide))
  next hslot =>
  split
  · exact .refused _ _ (.inr (by decide))
  next policy hpolicy =>
  dsimp only
  split
  · exact .refused _ _ (.inr (by decide))
  next hkey =>
  have hauth : c.mgmtAuthenticated = true := by simpa using hauth
  have hslot : p2 = 0x9A ∨ p2 = 0x9C ∨ p2 = 0x9D := by
    by_contra hother
    rw [not_or, not_or] at hother
    exact hslot hother
  exact .generated _ policy ⟨rfl, rfl⟩
    ⟨hauth, hslot, ⟨request, hrequest, not_not.mp halg, hpolicy⟩, by simpa using hkey⟩

theorem handleImportAsymmetric_result :
    CommandResult crypto around c 0xFE p1 p2 apdu
      (c.handleImportAsymmetric crypto p1 p2 (apduBody apdu)) := by
  rw [handleImportAsymmetric]
  split
  · exact .refused _ _ (.inr (by decide))
  next hauth =>
  split
  · exact .refused _ _ (.inr (by decide))
  next halg =>
  split
  · exact .refused _ _ (.inr (by decide))
  next hslot =>
  split
  · exact .refused _ _ (.inr (by decide))
  next request hrequest =>
  split
  · exact .refused _ _ (.inr (by decide))
  next hkey =>
  split
  · exact .refused _ _ (.inr (by decide))
  next policy hpolicy =>
  have hauth : c.mgmtAuthenticated = true := by simpa using hauth
  have hslot : p2 = 0x9A ∨ p2 = 0x9C ∨ p2 = 0x9D ∨ p2 = 0x9E := by
    by_contra hother
    rw [not_or, not_or, not_or] at hother
    exact hslot hother
  exact .imported _ policy rfl
    ⟨hauth, not_not.mp halg, hslot, ⟨request, hrequest, rfl, hpolicy⟩, by simpa using hkey⟩

theorem handlePutData_result :
    CommandResult crypto around c 0xDB 0x3F 0xFF apdu (c.handlePutData apdu) := by
  rw [handlePutData]
  split
  · exact .refused _ _ (.inr (by decide))
  · split
    · exact .refused _ _ (.inr (by decide))
    · split
      · exact .refused _ _ (.inr (by decide))
      · exact .objectPut _ _ ⟨rfl, rfl, rfl⟩

theorem handleSelect_result (aid : Bytes) :
    CommandResult crypto around c 0xA4 p1 p2 apdu (c.handleSelect aid) := by
  rw [handleSelect]
  split
  · exact .selected _ _ _ rfl
  · split
    · exact .selected _ _ _ rfl
    · exact .refused _ _ (.inr (by decide))

theorem handleVerify_result (hreceived : c.received apdu = some (0x20, 0x00, 0x80)) :
    CommandResult crypto around c 0x20 0x00 0x80 apdu (c.handleVerify (apduBody apdu)) := by
  cases hbody : apduBody apdu with
  | none =>
    simp only [handleVerify]
    split
    · exact .refused _ _ (.inl rfl)
    · exact .refused _ _ (.inl rfl)
  | some pin =>
    simp only [handleVerify]
    split
    · exact .refused _ _ (.inl rfl)
    next hlength =>
    have hlength : pin.length = 8 := not_not.mp hlength
    split
    · exact .refused _ _ (.inl rfl)
    next hretries =>
    split
    · next hpin =>
      subst hpin
      exact .verified rfl ⟨hreceived, hbody, hlength, hretries⟩
    · have htries : c.Tries 0x20 0x80 apdu := ⟨pin, hbody, .inl ⟨rfl, hlength, hretries⟩⟩
      split
      · exact .tried _ _ { c.pinState with pinRetries := c.pinRetries - 1 } htries id
      · exact .tried _ _ { c.pinState with pinRetries := c.pinRetries - 1 } htries id

theorem handleChangeReferenceData_result :
    CommandResult crypto around c 0x24 p1 p2 apdu
      (c.handleChangeReferenceData p2 (apduBody apdu)) := by
  cases hbody : apduBody apdu with
  | none => exact .refused _ _ (.inr (by decide))
  | some body =>
    simp only [handleChangeReferenceData]
    split
    · exact .refused _ _ (.inr (by decide))
    next hlength =>
    have hlength : body.length = 16 := not_not.mp hlength
    have htries (h : (if p2 = 0x80 then c.pinRetries else c.pukRetries) ≠ 0) :
        c.Tries 0x24 p2 apdu := ⟨body, hbody, .inr (.inl ⟨rfl, hlength, h⟩)⟩
    split
    · next hp2 =>
      rw [if_pos hp2] at htries
      split
      · exact .refused _ _ (.inr (by decide))
      next hretries =>
      split
      · exact .tried _ _ { c.pinState with pinRetries := c.pinRetries - 1 } (htries hretries) id
      · exact .tried _ _
          { c.pinState with pin := body.drop 8, pinRetries := defaultPinRetries }
          (htries hretries) id
    · next hp2 =>
      rw [if_neg hp2] at htries
      split
      · exact .refused _ _ (.inr (by decide))
      next hretries =>
      split
      · exact .tried _ _ { c.pinState with pukRetries := c.pukRetries - 1 } (htries hretries) id
      · exact .tried _ _
          { c.pinState with puk := body.drop 8, pukRetries := defaultPukRetries }
          (htries hretries) id

theorem handleResetRetryCounter_result :
    CommandResult crypto around c 0x2C p1 p2 apdu (c.handleResetRetryCounter (apduBody apdu)) := by
  cases hbody : apduBody apdu with
  | none => exact .refused _ _ (.inr (by decide))
  | some body =>
    simp only [handleResetRetryCounter]
    split
    · exact .refused _ _ (.inr (by decide))
    next hlength =>
    have hlength : body.length = 16 := not_not.mp hlength
    split
    · exact .refused _ _ (.inr (by decide))
    next hretries =>
    have htries : c.Tries 0x2C p2 apdu := ⟨body, hbody, .inr (.inr ⟨rfl, hlength, hretries⟩)⟩
    split
    · exact .tried _ _ { c.pinState with pukRetries := c.pukRetries - 1 } htries id
    · exact .tried _ _
        ⟨body.drop 8, defaultPinRetries, c.puk, defaultPukRetries, false⟩ htries (fun h => by cases h)

theorem handleFactoryReset_result :
    CommandResult crypto around c 0xFB 0x00 0x00 apdu c.handleFactoryReset := by
  rw [handleFactoryReset]
  split
  · exact .refused _ _ (.inr (by decide))
  · next hretries =>
    obtain ⟨hpin, hpuk⟩ := not_or.mp hretries
    exact .reset ⟨rfl, rfl, rfl⟩ (not_not.mp hpin) (not_not.mp hpuk)

/-! ## The commands -/

theorem keyCommand_result :
    CommandResult crypto around c ins p1 p2 apdu
      (c.keyCommand crypto around ins p1 p2 (apduBody apdu)) := by
  unfold keyCommand
  split
  · next h =>
    obtain ⟨rfl, rfl, rfl⟩ := h
    split
    · exact signEcdsaSlot_result _
    · exact handleGeneralAuthenticateEcdhSlot9d_result
  split
  · next h =>
    obtain ⟨rfl, rfl, -⟩ := h
    exact signEcdsaSlot_result _
  split
  · next h =>
    obtain ⟨rfl, rfl, rfl⟩ := h
    exact handleGeneralAuthenticateMgmtKey_result
  split
  · next h =>
    obtain ⟨rfl, rfl, rfl⟩ := h
    exact handleSetMgmtKey_result
  split
  · next h =>
    subst h
    exact handleImportAsymmetric_result
  split
  · next h => exact .answered _ (by rw [h.1]; decide)
  split
  · next h => exact .answered _ (by rw [h.1]; decide)
  · exact .refused _ _ (.inr (by decide))

theorem pinCommand_result (hreceived : c.received apdu = some (ins, p1, p2)) :
    CommandResult crypto around c ins p1 p2 apdu
      (c.pinCommand crypto around ins p1 p2 (apduBody apdu)) := by
  unfold pinCommand
  split
  · next hins =>
    subst hins
    split
    · exact .refused _ _ (.inr (by decide))
    · next hp =>
      obtain ⟨hp1, hp2⟩ := not_or.mp hp
      obtain rfl := not_not.mp hp1
      obtain rfl := not_not.mp hp2
      exact handleVerify_result hreceived
  split
  · next hins =>
    subst hins
    split
    · exact .refused _ _ (.inr (by decide))
    · exact handleChangeReferenceData_result
  split
  · next hins =>
    subst hins
    split
    · exact .refused _ _ (.inr (by decide))
    · exact handleResetRetryCounter_result
  split
  · next h =>
    obtain ⟨rfl, rfl, rfl⟩ := h
    exact handleFactoryReset_result
  · exact keyCommand_result

/-- What a command does that reaches the applet. -/
theorem command_result (crypto : CardCrypto) (around : Surroundings)
    (hreceived : c.received apdu = some (ins, p1, p2)) :
    CommandResult crypto around c ins p1 p2 apdu (c.command crypto around ins p1 p2 apdu) := by
  unfold command
  split
  · next h =>
    obtain ⟨rfl, rfl, rfl⟩ := h
    exact handleSelect_result _
  split
  · next h => exact .read h
  split
  · next h =>
    obtain ⟨rfl, rfl, rfl⟩ := h
    exact handlePutData_result
  split
  · next h =>
    obtain ⟨rfl, rfl⟩ := h
    exact handleGenerateAsymmetric_result
  split
  · next h => exact .answered _ (by rw [h.1]; decide)
  split
  · next h =>
    split
    · exact .answered _ (by rw [h.1]; decide)
    · exact .refused _ _ (.inr (by decide))
  split
  · next h => exact .answered _ (by rw [h.2.1]; decide)
  · exact pinCommand_result hreceived

/-! ## One command -/

/-- A command that finds an applet selected, or needs none. -/
def LetIn (c : VirtualCard) (apdu : Bytes) : Prop :=
  c.requireSelect = true → c.selectedPiv = false → c.selectedOtp = false →
    ∀ ins, apdu[1]? = some ins → ins = 0xA4

/-- The instruction of a command that is looked at, be it for the faults alone. -/
def heard (c : VirtualCard) (apdu : Bytes) : Option UInt8 :=
  match apdu with
  | _ :: ins :: _ :: _ :: _ =>
    if c.requireSelect ∧ c.selectedPiv = false ∧ c.selectedOtp = false ∧ ins ≠ 0xA4 then none
    else some ins
  | _ => none

theorem heard_eq_some (h : c.heard apdu = some ins) : c.LetIn apdu ∧ apdu[1]? = some ins ∧
    ∃ cla p1 p2 rest, apdu = cla :: ins :: p1 :: p2 :: rest := by
  match apdu with
  | cla :: ins' :: p1 :: p2 :: rest =>
    rw [heard] at h
    split at h
    · cases h
    · next hselect =>
      obtain rfl := Option.some.inj h
      refine ⟨fun hrequire hpiv hotp ins hins => ?_, rfl, cla, p1, p2, rest, rfl⟩
      obtain rfl : ins' = ins := Option.some.inj hins
      by_contra hne
      exact hselect ⟨hrequire, hpiv, hotp, hne⟩
  | [] | [_] | [_, _] | [_, _, _] => cases h

/-- The end of a command that is let in. -/
def finish (apdu : Bytes) (r : Bytes × VirtualCard) : Bytes × VirtualCard :=
  if apdu[1]? ≠ some 0x20 ∧ r.2.touchBlocked = none then
    (r.1, { r.2 with commandSinceVerify := true }) else r

/-- What a card makes of a command. -/
inductive DispatchResult (crypto : CardCrypto) (around : Surroundings) (c : VirtualCard)
    (apdu : Bytes) : Bytes × VirtualCard → Prop where
  | notSelected (h : ¬ c.LetIn apdu) (hreceived : c.received apdu = none) :
      DispatchResult crypto around c apdu (sw 0x6D 0x00, { c with touchBlocked := none })
  | unheard (h : c.LetIn apdu) (hreceived : c.received apdu = none) (sw1 sw2 : UInt8)
      (faults : List Fault) (hfaults : faults = c.faults ∨
        ∃ ins fault, c.heard apdu = some ins ∧ takeFault ins c.faults = some (fault, faults)) :
      DispatchResult crypto around c apdu
        (finish apdu (sw sw1 sw2, { c with touchBlocked := none, faults := faults }))
  | ran (h : c.LetIn apdu) {ins p1 p2 : UInt8} (hreceived : c.received apdu = some (ins, p1, p2))
      (hins : apdu[1]? = some ins) {r : Bytes × VirtualCard}
      (hr : CommandResult crypto around { c with touchBlocked := none } ins p1 p2 apdu r) :
      DispatchResult crypto around c apdu (finish apdu r)

theorem dispatch_notSelected (crypto : CardCrypto) (around : Surroundings) (h : ¬ c.LetIn apdu) :
    c.dispatch crypto around apdu = (sw 0x6D 0x00, { c with touchBlocked := none }) := by
  simp only [LetIn, not_forall] at h
  obtain ⟨hrequire, hpiv, hotp, ins, hins, hne⟩ := h
  rw [dispatch]
  exact if_pos ⟨hrequire, hpiv, hotp, by rw [hins]; rfl, by rw [hins]; simpa using hne⟩

theorem dispatch_letIn (crypto : CardCrypto) (around : Surroundings) (h : c.LetIn apdu) :
    c.dispatch crypto around apdu = finish apdu
      (({ c with touchBlocked := none } : VirtualCard).dispatchCommand crypto around apdu) := by
  rw [dispatch]
  refine if_neg ?_
  rintro ⟨hrequire, hpiv, hotp, hsome, hne⟩
  obtain ⟨ins, hins⟩ := Option.isSome_iff_exists.mp hsome
  exact hne (by rw [hins, h hrequire hpiv hotp ins hins])

/-- What is not let in does not reach the applet. -/
theorem received_eq_none (h : ¬ c.LetIn apdu) : c.received apdu = none := by
  simp only [LetIn, not_forall] at h
  obtain ⟨hrequire, hpiv, hotp, ins, hins, hne⟩ := h
  match apdu with
  | cla :: ins' :: p1 :: p2 :: rest =>
    obtain rfl : ins' = ins := by simpa using hins
    rw [received, if_pos ⟨hrequire, hpiv, hotp, hne⟩]
  | [] | [_] | [_, _] | [_, _, _] => rfl

/-- A command that reaches the applet does what its handler does. -/
theorem dispatch_of_received (crypto : CardCrypto) (around : Surroundings)
    (h : c.received apdu = some (ins, p1, p2)) :
    c.dispatch crypto around apdu = finish apdu
      (({ c with touchBlocked := none } : VirtualCard).command crypto around ins p1 p2 apdu) := by
  have hin : c.LetIn apdu := by
    by_contra hout
    exact absurd ((received_eq_none hout).symm.trans h) nofun
  rw [dispatch_letIn crypto around hin]
  match apdu with
  | cla :: ins' :: p1' :: p2' :: rest =>
    rw [received] at h
    split at h
    · cases h
    split at h
    · cases h
    next hfault =>
    split at h
    · next hcla =>
      cases h
      rw [dispatchCommand, Option.not_isSome_iff_eq_none.mp hfault]
      exact congrArg (finish _) (if_pos hcla)
    · cases h
  | [] | [_] | [_, _] | [_, _, _] => cases h

theorem dispatch_result (crypto : CardCrypto) (around : Surroundings) (c : VirtualCard)
    (apdu : Bytes) :
    DispatchResult crypto around c apdu (c.dispatch crypto around apdu) := by
  by_cases h : c.LetIn apdu
  · rw [dispatch_letIn crypto around h]
    match apdu with
    | cla :: ins :: p1 :: p2 :: rest =>
      have hselect : ¬ (c.requireSelect = true ∧ c.selectedPiv = false ∧ c.selectedOtp = false ∧
          ins ≠ 0xA4) := fun h' => h'.2.2.2 (h h'.1 h'.2.1 h'.2.2.1 ins rfl)
      have hreceived : c.received (cla :: ins :: p1 :: p2 :: rest) =
          if (takeFault ins c.faults).isSome then none
          else if cla = 0x00 then some (ins, p1, p2) else none := by
        rw [received, if_neg hselect]
      rw [dispatchCommand]
      cases hfault : takeFault ins c.faults with
      | some fault =>
        simp only [hfault, Option.isSome_some, if_true] at hreceived
        have hheard : c.heard (cla :: ins :: p1 :: p2 :: rest) = some ins := if_neg hselect
        exact .unheard h hreceived _ _ fault.2 (.inr ⟨ins, fault.1, hheard, hfault⟩)
      | none =>
        simp only [hfault, Option.isSome_none, Bool.false_eq_true, if_false] at hreceived ⊢
        split
        · next hcla =>
          rw [if_pos hcla] at hreceived
          exact .ran h hreceived rfl
            (command_result (c := { c with touchBlocked := none }) crypto around hreceived)
        · next hcla =>
          rw [if_neg hcla] at hreceived
          exact .unheard h hreceived _ _ c.faults (.inl rfl)
    | [] => exact .unheard h rfl _ _ c.faults (.inl rfl)
    | [_] => exact .unheard h rfl _ _ c.faults (.inl rfl)
    | [_, _] => exact .unheard h rfl _ _ c.faults (.inl rfl)
    | [_, _, _] => exact .unheard h rfl _ _ c.faults (.inl rfl)
  · rw [dispatch_notSelected crypto around h]
    exact .notSelected h (received_eq_none h)

@[simp] theorem finish_fst (apdu : Bytes) (r : Bytes × VirtualCard) :
    (finish apdu r).1 = r.1 := by
  rw [finish]
  split
  · rfl
  · rfl

@[simp] theorem touchBlocked_finish (apdu : Bytes) (r : Bytes × VirtualCard) :
    (finish apdu r).2.touchBlocked = r.2.touchBlocked := by
  rw [finish]
  split
  · rfl
  · rfl

@[simp] theorem faults_finish (apdu : Bytes) (r : Bytes × VirtualCard) :
    (finish apdu r).2.faults = r.2.faults := by
  rw [finish]
  split
  · rfl
  · rfl

theorem finish_of_verify (h : apdu[1]? = some 0x20) (r : Bytes × VirtualCard) :
    finish apdu r = r := if_neg fun h' => h'.1 h

theorem finish_of_blocked {r : Bytes × VirtualCard} (h : r.2.touchBlocked ≠ none) :
    finish apdu r = r := if_neg fun h' => h h'.2

theorem finish_of_ne {r : Bytes × VirtualCard} (hins : apdu[1]? ≠ some 0x20)
    (h : r.2.touchBlocked = none) :
    finish apdu r = (r.1, { r.2 with commandSinceVerify := true }) := if_pos ⟨hins, h⟩

@[simp] theorem touchBlocked_consumePin (c : VirtualCard) (pin : UInt8) :
    (c.consumePin pin).touchBlocked = c.touchBlocked := by
  rw [consumePin]
  split
  · rfl
  · rfl

@[simp] theorem faults_consumePin (c : VirtualCard) (pin : UInt8) :
    (c.consumePin pin).faults = c.faults := by
  rw [consumePin]
  split
  · rfl
  · rfl

/-- No command that reaches the applet changes the queue of faults. -/
theorem CommandResult.faults_eq {r : Bytes × VirtualCard}
    (h : CommandResult crypto around c ins p1 p2 apdu r) : r.2.faults = c.faults := by
  cases h with
  | used data touch => exact faults_consumePin _ _
  | refused | answered | read | selected | objectPut | verified | tried | reset | challenged
  | authenticated | notAuthenticated | mgmtKeySet | generated | imported | blocked => rfl

/-- A command leaves the queue of faults as it is, or one of them takes it. -/
theorem faults_dispatch (c : VirtualCard) (apdu : Bytes) :
    (c.dispatch crypto around apdu).2.faults = c.faults ∨
      ∃ ins fault, c.heard apdu = some ins ∧
        takeFault ins c.faults = some (fault, (c.dispatch crypto around apdu).2.faults) := by
  have hresult := dispatch_result crypto around c apdu
  generalize c.dispatch crypto around apdu = r at hresult ⊢
  cases hresult with
  | notSelected => exact .inl rfl
  | unheard hin hreceived sw1 sw2 faults hfaults =>
    rw [faults_finish]
    exact hfaults
  | ran hin hreceived hins hr =>
    rw [faults_finish]
    exact .inl hr.faults_eq

/-- Only a blocked operation leaves the mark of one. -/
theorem CommandResult.blocked_of_touchBlocked {r : Bytes × VirtualCard}
    (h : CommandResult crypto around c ins p1 p2 apdu r) (hc : c.touchBlocked = none)
    {b : UInt8 × UInt64} (hr : r.2.touchBlocked = some b) :
    ins = 0x87 ∧ p1 = 0x11 ∧ b.1 = p2 ∧
      c.passTouchGate p2 around.now = (false, { c with touchBlocked := some b }) ∧
      r = (swTouchTimeout, { c with touchBlocked := some b }) := by
  have hunblocked : some b ≠ c.touchBlocked := by
    rw [hc]
    nofun
  cases h with
  | blocked generation hins hgate =>
    obtain rfl := Option.some.inj hr
    exact ⟨hins.1, hins.2, rfl, hgate, rfl⟩
  | used data touch =>
    rw [touchBlocked_consumePin] at hr
    exact absurd hr.symm hunblocked
  | refused | answered | read | selected | objectPut | verified | tried | reset | challenged
  | authenticated | notAuthenticated | mgmtKeySet | generated | imported =>
    exact absurd hr.symm hunblocked

/-- A blocked operation changes nothing but its own mark. -/
theorem dispatch_blocked {b : UInt8 × UInt64}
    (h : (c.dispatch crypto around apdu).2.touchBlocked = some b) :
    c.received apdu = some (0x87, 0x11, b.1) ∧
      ({ c with touchBlocked := none } : VirtualCard).passTouchGate b.1 around.now =
        (false, { c with touchBlocked := some b }) ∧
      c.dispatch crypto around apdu = (swTouchTimeout, { c with touchBlocked := some b }) := by
  have hresult := dispatch_result crypto around c apdu
  generalize c.dispatch crypto around apdu = r at h hresult
  cases hresult with
  | notSelected => cases h
  | unheard hin hreceived sw1 sw2 faults =>
    rw [touchBlocked_finish] at h
    cases h
  | ran hin hreceived hins hr =>
    rw [touchBlocked_finish] at h
    obtain ⟨rfl, rfl, rfl, hgate, rfl⟩ := hr.blocked_of_touchBlocked rfl h
    exact ⟨hreceived, hgate, finish_of_blocked nofun⟩

/-- An operation that is answered with data has passed both gates. -/
theorem CommandResult.used_of_answered {slot : UInt8} {data : Bytes} {c' : VirtualCard}
    (hdata : data ≠ [])
    (h : CommandResult crypto around c 0x87 0x11 slot apdu (data ++ sw 0x90 0x00, c')) :
    c.pinGate slot = none ∧ ∃ touch,
      c.passTouchGate slot around.now = (true, { c with touch := touch }) ∧
      c' = ({ c with touch := touch } : VirtualCard).consumePin (c.effectivePinPolicy slot) := by
  have hlength : (data ++ sw 0x90 0x00).length ≠ 2 := length_answer hdata rfl
  generalize hr : ((data ++ sw 0x90 0x00, c') : Bytes × VirtualCard) = r at h
  have hresponse : r.1.length ≠ 2 := by
    rw [← hr]
    exact hlength
  cases h with
  | used data' touch hins hdata' hpin hgate =>
    exact ⟨hpin, touch, hgate, (Prod.mk.inj hr).2⟩
  | answered response hins => exact absurd hins (by decide)
  | read hins => exact absurd hins.1 (by decide)
  | selected response piv otp hins => exact absurd hins (by decide)
  | challenged response witness hins => exact absurd hins.2.1 (by decide)
  | generated scalar policy hins => exact absurd hins.1 (by decide)
  | refused | objectPut | verified | tried | reset | authenticated | notAuthenticated
  | mgmtKeySet | imported | blocked => exact absurd rfl hresponse

/-- What a use of a key does. -/
theorem UsesKey.dispatch_eq {slot : UInt8} (h : UsesKey crypto c apdu around slot) :
    c.LetIn apdu ∧ c.pinGate slot = none ∧ ∃ touch,
      ({ c with touchBlocked := none } : VirtualCard).passTouchGate slot around.now =
        (true, { c with touchBlocked := none, touch := touch }) ∧
      (c.dispatch crypto around apdu).2 =
        { ({ c with touchBlocked := none, touch := touch } : VirtualCard).consumePin
            (c.effectivePinPolicy slot) with commandSinceVerify := true } := by
  obtain ⟨data, hdata, hanswer⟩ := h.answered
  have hresult := dispatch_result crypto around c apdu
  generalize c.dispatch crypto around apdu = r at hanswer hresult ⊢
  cases hresult with
  | notSelected hin hreceived => exact absurd (hreceived.symm.trans h.received) nofun
  | unheard hin hreceived => exact absurd (hreceived.symm.trans h.received) nofun
  | @ran hin ins p1 p2 hreceived hins r hr =>
    obtain ⟨rfl, rfl, rfl⟩ : ins = 0x87 ∧ p1 = 0x11 ∧ p2 = slot := by
      simpa only [Option.some.injEq, Prod.mk.injEq] using hreceived.symm.trans h.received
    obtain ⟨response, c'⟩ := r
    rw [finish_fst] at hanswer
    subst hanswer
    obtain ⟨hpin, touch, hgate, rfl⟩ := hr.used_of_answered hdata
    have hne : apdu[1]? ≠ some 0x20 := by
      rw [hins]
      decide
    refine ⟨hin, hpin, touch, hgate, ?_⟩
    rw [finish_of_ne hne (touchBlocked_consumePin _ _)]
    rfl

/-! ## Sequences of commands -/

/-- What a card answers to one command after another. -/
def responses (crypto : CardCrypto) : VirtualCard → List (Bytes × Surroundings) → List Bytes
  | _, [] => []
  | c, (apdu, around) :: later =>
    (c.transmit crypto around apdu).1 :: responses crypto (c.transmit crypto around apdu).2 later

/-- The mark of a blocked operation plays no part. -/
theorem responses_touchBlocked (crypto : CardCrypto) (c : VirtualCard)
    (later : List (Bytes × Surroundings)) :
    responses crypto { c with touchBlocked := none } later = responses crypto c later := by
  cases later with
  | nil => rfl
  | cons command later => rfl

end VirtualCard

end Piggy.Fibby
