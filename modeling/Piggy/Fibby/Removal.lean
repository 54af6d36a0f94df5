import Piggy.Fibby.CardLog
import Piggy.Fibby.Isolation
import Piggy.Fibby.Results
import Piggy.Fibby.Seeding

/-!
# A card that is out of its reader

Whether the card is in is asked when a handle is opened, and not again. A handle that was opened
before goes on reaching a card that is out; and what is verified while it is out is still
verified once it is back. Where no command that matters reaches the card while it is out, it
does nothing, and comes back locked.
-/

namespace Piggy.Fibby

open Piggy.Core Piggy.Box

namespace VirtualCard

variable {crypto : CardCrypto} {around : Surroundings} {c : VirtualCard} {ins p1 p2 : UInt8}
  {apdu : Bytes}

/-! ## A command that does nothing -/

/-- What a card keeps for good. -/
structure Store where
  pin : Bytes
  pinRetries : Nat
  puk : Bytes
  pukRetries : Nat
  dataObjects : Bytes → Option Bytes
  mgmtKey : Bytes
  slots : UInt8 → SlotState

/-- What is stored on a card. -/
def store (c : VirtualCard) : Store :=
  ⟨c.pin, c.pinRetries, c.puk, c.pukRetries, c.dataObjects, c.mgmtKey, c.slotState⟩

/-- A command that is answered with a signature, a shared secret or an object. -/
inductive Yields (crypto : CardCrypto) (c : VirtualCard) (apdu : Bytes) (around : Surroundings) :
    Prop where
  | used (slot : UInt8) (h : c.UsesKey crypto apdu around slot) : Yields crypto c apdu around
  | read (data : Bytes) (hreceived : c.received apdu = some (0xCB, 0x3F, 0xFF))
      (h : (c.dispatch crypto around apdu).1 = data ++ sw 0x90 0x00) : Yields crypto c apdu around

/-- A command that changes nothing that the card keeps, and gives nothing away. -/
structure Inert (crypto : CardCrypto) (c : VirtualCard) (apdu : Bytes) (around : Surroundings) :
    Prop where
  store : (c.dispatch crypto around apdu).2.store = c.store
  yields : ¬ c.Yields crypto apdu around

/-- A card with no verified PIN and no authenticated management key. -/
structure Locked (c : VirtualCard) : Prop where
  pinVerified : c.pinVerified = false
  mgmtAuthenticated : c.mgmtAuthenticated = false

/-- A use of a key that asks for no PIN: the slot has a key, and the request is well formed. -/
structure FreeUse (c : VirtualCard) (slot : UInt8) (apdu : Bytes) : Prop where
  policy : c.effectivePinPolicy slot = PinPolicy.never
  key : c.slotPriv slot ≠ none
  request : (apduBody apdu).bind parseGaSignRequest ≠ none ∨
    slot = 0x9D ∧ (apduBody apdu).bind parseGaEcdhRequest ≠ none

/-- The commands that matter while the card is locked. -/
inductive Matters (crypto : CardCrypto) (c : VirtualCard) (apdu : Bytes) : Prop where
  | tries {ins p2 : UInt8} (hreceived : c.received apdu = some (ins, 0x00, p2))
      (hp2 : p2 = 0x80 ∨ ins = 0x24 ∧ p2 = 0x81) (h : c.Tries ins p2 apdu) : Matters crypto c apdu
  | reset (hreceived : c.received apdu = some (0xFB, 0x00, 0x00)) (hpin : c.pinRetries = 0)
      (hpuk : c.pukRetries = 0) : Matters crypto c apdu
  | put (hreceived : c.received apdu = some (0xDB, 0x3F, 0xFF)) {tag rest : Bytes}
      (htag : (apduBody apdu).bind parse5cTagWithRest = some (tag, rest))
      (hvalue : split53Tlv rest ≠ none) : Matters crypto c apdu
  | get (hreceived : c.received apdu = some (0xCB, 0x3F, 0xFF)) {tag : Bytes}
      (htag : (apduBody apdu).bind parse5cTag = some tag)
      (hstored : c.dataObjects tag ≠ none ∨ tag = tagAttestationCert) : Matters crypto c apdu
  | authenticate (hreceived : c.received apdu = some (0x87, 0x03, 0x9B))
      (h : c.RightResponse crypto apdu) : Matters crypto c apdu
  | use {slot : UInt8} (hreceived : c.received apdu = some (0x87, 0x11, slot))
      (h : c.FreeUse slot apdu) : Matters crypto c apdu

/-- VERIFY, CHANGE REFERENCE DATA and RESET RETRY COUNTER with other parameters are refused. -/
theorem command_of_parameters (hins : ins = 0x20 ∨ ins = 0x24 ∨ ins = 0x2C)
    (h : ¬ (p1 = 0x00 ∧ (p2 = 0x80 ∨ ins = 0x24 ∧ p2 = 0x81))) :
    c.command crypto around ins p1 p2 apdu = (sw 0x6A 0x80, c) := by
  rcases hins with rfl | rfl | rfl
  · have hp : p1 ≠ 0x00 ∨ p2 ≠ 0x80 := by grind
    simp [command, pinCommand, hp]
  · have hp : p1 ≠ 0x00 ∨ (p2 ≠ 0x80 ∧ p2 ≠ 0x81) := by grind
    simp [command, pinCommand, hp]
  · have hp : p1 ≠ 0x00 ∨ p2 ≠ 0x80 := by grind
    simp [command, pinCommand, hp]

theorem length_signEcdsaSlot {now : Nat} {slot : UInt8} {body : Option Bytes}
    (h : c.slotPriv slot = none ∨ body.bind parseGaSignRequest = none) :
    (c.signEcdsaSlot crypto now body slot).1.length = 2 := by
  rw [signEcdsaSlot]
  dsimp only
  split
  · next refusal hgate =>
    rw [pinGate_refusal hgate]
    rfl
  · split
    · rfl
    · next scalar hscalar =>
      rcases h with h | h
      · exact absurd (hscalar.symm.trans h) (fun h => by cases h)
      · rw [h]
        rfl

theorem length_ecdhSlot9d {now : Nat} {body : Option Bytes}
    (h : c.slotPriv 0x9D = none ∨ body.bind parseGaEcdhRequest = none) :
    (c.handleGeneralAuthenticateEcdhSlot9d crypto now body).1.length = 2 := by
  rw [handleGeneralAuthenticateEcdhSlot9d]
  split
  · next refusal hgate =>
    rw [pinGate_refusal hgate]
    rfl
  · split
    · rfl
    · next scalar hscalar =>
      rcases h with h | h
      · exact absurd (hscalar.symm.trans h) (fun h => by cases h)
      · rw [h]
        rfl

/-- A locked card answers two bytes unless the use of the key is free. -/
theorem length_of_not_freeUse (crypto : CardCrypto) (around : Surroundings)
    (hv : c.pinVerified = false) {slot : UInt8} (h : ¬ c.FreeUse slot apdu) :
    (c.command crypto around 0x87 0x11 slot apdu).1.length = 2 := by
  rw [command_keyCommand]
  by_cases hpolicy : c.effectivePinPolicy slot = PinPolicy.never
  · have hunfit : c.slotPriv slot = none ∨ (apduBody apdu).bind parseGaSignRequest = none ∧
        (slot = 0x9D → (apduBody apdu).bind parseGaEcdhRequest = none) := by
      by_contra hfit
      obtain ⟨hkey, hrequest⟩ := not_or.mp hfit
      refine h ⟨hpolicy, hkey, ?_⟩
      by_contra hnone
      obtain ⟨hsign, hecdh⟩ := not_or.mp hnone
      exact hrequest ⟨not_not.mp hsign, fun hslot => by
        by_contra hsome
        exact hecdh ⟨hslot, hsome⟩⟩
    unfold keyCommand
    split
    · next hslot =>
      obtain ⟨-, -, rfl⟩ := hslot
      split
      · exact length_signEcdsaSlot (hunfit.imp_right And.left)
      · exact length_ecdhSlot9d (hunfit.imp_right fun h => h.2 rfl)
    split
    · exact length_signEcdsaSlot (hunfit.imp_right And.left)
    · simp [sw]
  · exact length_keyCommand hv hpolicy

theorem sw_ne_answer {sw1 sw2 : UInt8} (h : sw1 ≠ 0x90) (data : Bytes) :
    sw sw1 sw2 ≠ data ++ sw 0x90 0x00 := by
  intro heq
  cases data with
  | nil => exact h (List.cons.inj heq).1
  | cons b data =>
    have hlength := congrArg List.length heq
    simp only [sw, List.length_append, List.length_cons, List.length_nil] at hlength
    omega

theorem handleGetData_of_absent
    (h : ∀ tag, (apduBody apdu).bind parse5cTag = some tag →
      c.dataObjects tag = none ∧ tag ≠ tagAttestationCert) (data : Bytes) :
    c.handleGetData crypto apdu ≠ data ++ sw 0x90 0x00 := by
  rw [handleGetData]
  split
  · exact sw_ne_answer (by decide) data
  · next body hbody =>
    split
    · exact sw_ne_answer (by decide) data
    · next tag htag =>
      obtain ⟨hnone, hcert⟩ := h tag (by rw [hbody]; exact htag)
      simp only [hnone, Option.orElse_none, if_neg hcert]
      exact sw_ne_answer (by decide) data

theorem handlePutData_of_malformed
    (h : ∀ tag rest, (apduBody apdu).bind parse5cTagWithRest = some (tag, rest) →
      split53Tlv rest = none) : c.handlePutData apdu = (sw 0x6A 0x80, c) := by
  rw [handlePutData]
  split
  · rfl
  · next body hbody =>
    split
    · rfl
    · next tag rest htag =>
      rw [h tag rest (by rw [hbody]; exact htag)]

/-- What a command leaves of a locked card when it does not matter. -/
structure Still (c : VirtualCard) (ins p1 p2 : UInt8) (r : Bytes × VirtualCard) : Prop where
  store : r.2.store = c.store
  locked : r.2.Locked
  used : ins = 0x87 → p1 = 0x11 → r.1.length = 2
  read : ins = 0xCB → p1 = 0x3F → p2 = 0xFF → ∀ data, r.1 ≠ data ++ sw 0x90 0x00

theorem still_command (hlocked : c.Locked) (hreceived : c.received apdu = some (ins, p1, p2))
    (hquiet : ¬ c.Matters crypto apdu) :
    Still c ins p1 p2 (c.command crypto around ins p1 p2 apdu) := by
  have hrefused (sw1 sw2 : UInt8) (hsw : ins = 0x20 ∨ sw1 ≠ 0x90) :
      Still c ins p1 p2 (sw sw1 sw2, c) := by
    refine ⟨rfl, hlocked, fun _ _ => rfl, fun hins _ _ => ?_⟩
    exact sw_ne_answer (hsw.resolve_left (by rw [hins]; decide))
  have hother {r : Bytes × VirtualCard} (hstore : r.2.store = c.store) (hr : r.2.Locked)
      (hused : ¬ (ins = 0x87 ∧ p1 = 0x11)) (hread : ins ≠ 0xCB) : Still c ins p1 p2 r :=
    ⟨hstore, hr, fun h h' => absurd ⟨h, h'⟩ hused, fun h => absurd h hread⟩
  have hr := command_result crypto around hreceived
  generalize hcommand : c.command crypto around ins p1 p2 apdu = r at hr
  cases hr with
  | refused sw1 sw2 hsw => exact hrefused sw1 sw2 hsw
  | answered response hins =>
    refine hother rfl hlocked (fun h => ?_) (fun h => ?_)
    · rw [h.1] at hins
      exact absurd hins (by decide)
    · rw [h] at hins
      exact absurd hins (by decide)
  | read hins =>
    obtain ⟨rfl, rfl, rfl⟩ := hins
    refine ⟨rfl, hlocked, fun h => absurd h (by decide), fun _ _ _ => ?_⟩
    refine handleGetData_of_absent fun tag htag => ⟨?_, ?_⟩
    · by_contra hstored
      exact hquiet (.get hreceived htag (.inl hstored))
    · exact fun hcert => hquiet (.get hreceived htag (.inr hcert))
  | selected response piv otp hins =>
    subst hins
    exact hother rfl ⟨hlocked.1, hlocked.2⟩ (by simp) (by decide)
  | objectPut tag value hins =>
    obtain ⟨rfl, rfl, rfl⟩ := hins
    have hmalformed := handlePutData_of_malformed (c := c) fun tag rest htag => by
      by_contra hvalue
      exact hquiet (.put hreceived htag hvalue)
    have hput : c.command crypto around 0xDB 0x3F 0xFF apdu = c.handlePutData apdu := rfl
    rw [hput, hmalformed] at hcommand
    have hsw : sw 0x6A 0x80 = sw 0x90 0x00 := congrArg Prod.fst hcommand
    exact absurd hsw (by decide)
  | verified hins h =>
    cases h.received.symm.trans hreceived
    refine absurd (.tries hreceived (.inl rfl) ?_) hquiet
    exact ⟨_, h.body, .inl ⟨rfl, h.length, h.retries⟩⟩
  | tried sw1 sw2 s htries hverified =>
    by_cases hparameters : p1 = 0x00 ∧ (p2 = 0x80 ∨ ins = 0x24 ∧ p2 = 0x81)
    · obtain ⟨rfl, hp2⟩ := hparameters
      exact absurd (.tries hreceived hp2 htries) hquiet
    · have hins : ins = 0x20 ∨ ins = 0x24 ∨ ins = 0x2C := by
        obtain ⟨body, -, h | h | h⟩ := htries
        · exact .inl h.1
        · exact .inr (.inl h.1)
        · exact .inr (.inr h.1)
      rw [command_of_parameters hins hparameters] at hcommand
      rw [← hcommand]
      exact hrefused _ _ (.inr (by decide))
  | reset hins hpin hpuk =>
    obtain ⟨rfl, rfl, rfl⟩ := hins
    exact absurd (.reset hreceived hpin hpuk) hquiet
  | challenged response witness hins =>
    obtain ⟨rfl, rfl, rfl⟩ := hins
    exact hother rfl ⟨hlocked.1, hlocked.2⟩ (by simp) (by decide)
  | authenticated hins h =>
    obtain ⟨rfl, rfl, rfl⟩ := hins
    exact absurd (.authenticate hreceived h) hquiet
  | notAuthenticated hins =>
    obtain ⟨rfl, rfl, rfl⟩ := hins
    exact hother rfl ⟨hlocked.1, hlocked.2⟩ (by simp) (by decide)
  | mgmtKeySet key hins hauth => exact absurd (hauth.symm.trans hlocked.2) nofun
  | generated scalar policy hins h => exact absurd (h.auth.symm.trans hlocked.2) nofun
  | imported scalar policy hins h => exact absurd (h.auth.symm.trans hlocked.2) nofun
  | blocked generation hins hgate =>
    refine ⟨rfl, ⟨hlocked.1, hlocked.2⟩, fun _ _ => rfl, fun h => ?_⟩
    exact absurd (hins.1.symm.trans h) (by decide)
  | used data touch hins hdata hpin hgate =>
    obtain ⟨rfl, rfl⟩ := hins
    -- no PIN is verified, so the use would be free
    have hlength := length_of_not_freeUse crypto around hlocked.1 fun h => hquiet (.use hreceived h)
    rw [hcommand] at hlength
    exact absurd hlength (length_answer hdata rfl)

/-! ## A command that matters to nobody -/

theorem Matters.of_unmarked (h : Matters crypto { c with touchBlocked := none } apdu) :
    Matters crypto c apdu := by
  cases h with
  | tries hreceived hp2 h => exact .tries hreceived hp2 h
  | reset hreceived hpin hpuk => exact .reset hreceived hpin hpuk
  | put hreceived htag hvalue => exact .put hreceived htag hvalue
  | get hreceived htag hstored => exact .get hreceived htag hstored
  | authenticate hreceived h => exact .authenticate hreceived ⟨h.body⟩
  | use hreceived h => exact .use hreceived ⟨h.policy, h.key, h.request⟩

theorem store_finish (r : Bytes × VirtualCard) : (finish apdu r).2.store = r.2.store := by
  rw [finish]
  split
  · rfl
  · rfl

theorem Locked.finish {r : Bytes × VirtualCard} (h : r.2.Locked) : (finish apdu r).2.Locked := by
  rw [VirtualCard.finish]
  split
  · exact ⟨h.1, h.2⟩
  · exact h

/-- A locked card stays locked and does nothing at a command that does not matter. -/
theorem inert_of_locked (crypto : CardCrypto) (around : Surroundings) (hlocked : c.Locked)
    (hquiet : ¬ c.Matters crypto apdu) :
    c.Inert crypto apdu around ∧ (c.dispatch crypto around apdu).2.Locked := by
  cases hreceived : c.received apdu with
  | none =>
    obtain ⟨sw1, sw2, faults, marked, hdispatch⟩ :=
      @dispatch_not_received crypto c apdu around hreceived
    refine ⟨⟨by rw [hdispatch]; rfl, fun hyields => ?_⟩, by rw [hdispatch]; exact ⟨hlocked.1, hlocked.2⟩⟩
    cases hyields with
    | used slot h => exact absurd (hreceived.symm.trans h.received) nofun
    | read data h => exact absurd (hreceived.symm.trans h) nofun
  | some parameters =>
    obtain ⟨ins, p1, p2⟩ := parameters
    have hstill : Still { c with touchBlocked := none } ins p1 p2
        (({ c with touchBlocked := none } : VirtualCard).command crypto around ins p1 p2 apdu) :=
      still_command ⟨hlocked.1, hlocked.2⟩ hreceived fun h => hquiet h.of_unmarked
    have hdispatch := dispatch_of_received crypto around hreceived
    refine ⟨⟨?_, fun hyields => ?_⟩, ?_⟩
    · rw [hdispatch, store_finish]
      exact hstill.store
    · cases hyields with
      | used slot h =>
        cases hreceived.symm.trans h.received
        obtain ⟨data, hdata, hanswer⟩ := h.answered
        rw [hdispatch, finish_fst] at hanswer
        exact length_answer hdata hanswer (hstill.used rfl rfl)
      | read data h hanswer =>
        cases hreceived.symm.trans h
        rw [hdispatch, finish_fst] at hanswer
        exact hstill.read rfl rfl rfl data hanswer
    · rw [hdispatch]
      exact hstill.locked.finish

theorem CommandResult.inserted_eq {r : Bytes × VirtualCard}
    (h : CommandResult crypto around c ins p1 p2 apdu r) : r.2.inserted = c.inserted := by
  cases h with
  | used data touch =>
    rw [consumePin]
    split
    · rfl
    · rfl
  | refused | answered | read | selected | objectPut | verified | tried | reset | challenged
  | authenticated | notAuthenticated | mgmtKeySet | generated | imported | blocked => rfl

theorem inserted_dispatch (c : VirtualCard) (apdu : Bytes) :
    (c.dispatch crypto around apdu).2.inserted = c.inserted := by
  have hfinish (r : Bytes × VirtualCard) : (VirtualCard.finish apdu r).2.inserted = r.2.inserted := by
    rw [VirtualCard.finish]
    split
    · rfl
    · rfl
  have hresult := dispatch_result crypto around c apdu
  generalize c.dispatch crypto around apdu = r at hresult ⊢
  cases hresult with
  | notSelected => rfl
  | unheard => exact hfinish _
  | ran hin hreceived hins hr => exact (hfinish _).trans hr.inserted_eq

/-- Only the right answer to a challenge authenticates the management key. -/
theorem CommandResult.mgmtAuthenticated_cases {r : Bytes × VirtualCard}
    (h : CommandResult crypto around c ins p1 p2 apdu r) (hauth : r.2.mgmtAuthenticated = true) :
    c.mgmtAuthenticated = true ∨
      (ins = 0x87 ∧ p1 = 0x03 ∧ p2 = 0x9B) ∧ c.RightResponse crypto apdu := by
  cases h with
  | authenticated hins h => exact .inr ⟨hins, h⟩
  | used data touch =>
    rw [consumePin] at hauth
    split at hauth
    · exact .inl hauth
    · exact .inl hauth
  | refused | answered | read | selected | objectPut | verified | tried | reset | challenged
  | notAuthenticated | mgmtKeySet | generated | imported | blocked => exact .inl hauth

/-- A command that only an administrator may give, and that is answered with success. -/
structure Administers (crypto : CardCrypto) (c : VirtualCard) (apdu : Bytes)
    (around : Surroundings) : Prop where
  received : ∃ ins p1 p2, c.received apdu = some (ins, p1, p2) ∧
    (ins = 0x47 ∧ p1 = 0x00 ∨ ins = 0xFE ∨ ins = 0xFF ∧ p1 = 0xFF ∧ p2 = 0xFF)
  answered : ∃ data, (c.dispatch crypto around apdu).1 = data ++ sw 0x90 0x00

theorem CommandResult.authenticated_of_answered {r : Bytes × VirtualCard}
    (h : CommandResult crypto around c ins p1 p2 apdu r)
    (hins : ins = 0x47 ∧ p1 = 0x00 ∨ ins = 0xFE ∨ ins = 0xFF ∧ p1 = 0xFF ∧ p2 = 0xFF)
    {data : Bytes} (hanswer : r.1 = data ++ sw 0x90 0x00) : c.mgmtAuthenticated = true := by
  have hmem : ins ∈ ([0x47, 0xFE, 0xFF] : List UInt8) := by
    rcases hins with h | h | h
    · rw [h.1]
      decide
    · rw [h]
      decide
    · rw [h.1]
      decide
  cases h with
  | refused sw1 sw2 hsw =>
    refine absurd hanswer (sw_ne_answer (hsw.resolve_left fun h => ?_) data)
    rw [h] at hmem
    exact absurd hmem (by decide)
  | mgmtKeySet key hins hauth => exact hauth
  | generated scalar policy hins h => exact h.auth
  | imported scalar policy hins h => exact h.auth
  | answered response h =>
    simp only [List.mem_cons, List.not_mem_nil, or_false] at h hmem
    rcases hmem with rfl | rfl | rfl <;> simp at h
  | tried sw1 sw2 s h =>
    obtain ⟨body, -, ⟨rfl, -⟩ | ⟨rfl, -⟩ | ⟨rfl, -⟩⟩ := h
    · exact absurd hmem (by decide)
    · exact absurd hmem (by decide)
    · exact absurd hmem (by decide)
  | selected response piv otp h | verified h =>
    rw [h] at hmem
    exact absurd hmem (by decide)
  | read h | objectPut tag value h | reset h | challenged response witness h | authenticated h
  | notAuthenticated h | blocked generation h | used data touch h =>
    rw [h.1] at hmem
    exact absurd hmem (by decide)

theorem Administers.authenticated (h : Administers crypto c apdu around) :
    c.mgmtAuthenticated = true := by
  obtain ⟨⟨ins, p1, p2, hreceived, hins⟩, data, hanswer⟩ := h
  rw [dispatch_of_received crypto around hreceived, finish_fst] at hanswer
  have hresult : CommandResult crypto around { c with touchBlocked := none } ins p1 p2 apdu _ :=
    command_result crypto around hreceived
  exact hresult.authenticated_of_answered hins hanswer

/-! ## Events -/

theorem pinVerified_after {e : CardEvent} (h : (c.after crypto e).pinVerified = true) :
    c.pinVerified = true ∨ ∃ apdu around, e = .transmit apdu around ∧ c.RightVerify apdu := by
  have heffect := after_effect crypto c e
  generalize hs : (c.after crypto e).pinState = s at heffect
  have hv : s.pinVerified = true := by
    rw [← hs]
    exact h
  cases heffect with
  | verified apdu around he h => exact .inr ⟨apdu, around, he, h⟩
  | cleared | unblocked | wiped => cases hv
  | same | refused | changed | pukRefused | pukChanged => exact .inl hv

theorem mgmtAuthenticated_after {e : CardEvent}
    (h : (c.after crypto e).mgmtAuthenticated = true) :
    c.mgmtAuthenticated = true ∨ ∃ apdu around, e = .transmit apdu around ∧
      c.received apdu = some (0x87, 0x03, 0x9B) ∧ c.RightResponse crypto apdu := by
  cases e with
  | connect | clearFaults | grantTouch => exact .inl h
  | disconnect disposition => cases h
  | endTransaction disposition =>
    simp only [after, endTransaction] at h
    split at h
    · cases h
    · exact .inl h
  | setPresent present =>
    simp only [after, setPresent] at h
    split at h
    · cases h
    · exact .inl h
  | injectFault fault =>
    simp only [after, injectFault] at h
    split at h
    · exact .inl h
    · exact .inl h
  | transmit apdu around =>
    have hfinish {r : Bytes × VirtualCard}
        (h : (VirtualCard.finish apdu r).2.mgmtAuthenticated = true) :
        r.2.mgmtAuthenticated = true := by
      rw [VirtualCard.finish] at h
      split at h
      · exact h
      · exact h
    rw [after] at h
    have hresult := dispatch_result crypto around c apdu
    generalize c.dispatch crypto around apdu = r at h hresult
    cases hresult with
    | notSelected => exact .inl h
    | unheard => exact .inl (hfinish h)
    | ran hin hreceived hins hr =>
      rcases hr.mgmtAuthenticated_cases (hfinish h) with hauth | ⟨⟨rfl, rfl, rfl⟩, hright⟩
      · exact .inl hauth
      · exact .inr ⟨apdu, around, rfl, hreceived, ⟨hright.body⟩⟩

end VirtualCard

/-! ## Runs -/

namespace Entry

/-- While the card is out no command reaches it that matters. -/
def Quiet (crypto : CardCrypto) (e : Entry) : Prop :=
  e.card.inserted = false → ∀ apdu around, e.event = .transmit apdu around →
    ¬ e.card.Matters crypto apdu

/-- The card is put back. -/
def Inserts (e : Entry) : Prop := e.card.inserted = false ∧ e.event = .setPresent true

/-- The management key is authenticated. -/
def RightResponse (crypto : CardCrypto) (e : Entry) : Prop :=
  ∃ apdu around, e.event = .transmit apdu around ∧
    e.card.received apdu = some (0x87, 0x03, 0x9B) ∧ e.card.RightResponse crypto apdu

end Entry

/-- A card does nothing while it is out, and comes back locked: what the PIN or the management
key guards is refused until one of them is given anew. -/
structure Removable (crypto : CardCrypto) (log : List Entry) : Prop where
  inert : ∀ e ∈ log, e.card.inserted = false → ∀ apdu around, e.event = .transmit apdu around →
    e.card.Inert crypto apdu around
  guarded : ∀ newer e between insertion older,
    log = newer ++ e :: (between ++ insertion :: older) → insertion.Inserts →
      ∀ apdu around, e.event = .transmit apdu around →
        (∀ slot, e.card.UsesKey crypto apdu around slot →
          e.card.effectivePinPolicy slot ≠ PinPolicy.never → ∃ x ∈ between, x.RightVerify) ∧
        (e.card.Administers crypto apdu around → ∃ x ∈ between, x.RightResponse crypto)

section Runs

variable {crypto : CardCrypto} {log : List Entry} {c c' : VirtualCard} {e : Entry}

theorem Entry.Acts.pinVerified_eq (h : Entry.Acts crypto c e c') :
    c'.pinVerified = (e.card.after crypto e.event).pinVerified := by
  have hsame := congrArg VirtualCard.pinVerified h.2
  rw [h.1]
  exact hsame

theorem Entry.Acts.mgmtAuthenticated_eq (h : Entry.Acts crypto c e c') :
    c'.mgmtAuthenticated = (e.card.after crypto e.event).mgmtAuthenticated := by
  have hsame := congrArg VirtualCard.mgmtAuthenticated h.2
  rw [h.1]
  exact hsame

theorem Entry.Acts.inserted_eq (h : Entry.Acts crypto c e c') :
    c'.inserted = (e.card.after crypto e.event).inserted := by
  have hsame := congrArg VirtualCard.inserted h.2
  rw [h.1]
  exact hsame

/-- A card that is locked while it is out, stays so. -/
theorem locked_after (hquiet : e.Quiet crypto)
    (hlocked : e.card.inserted = false → e.card.Locked)
    (hout : (e.card.after crypto e.event).inserted = false) :
    (e.card.after crypto e.event).Locked := by
  obtain ⟨c, event⟩ := e
  cases event with
  | connect => exact ⟨(hlocked hout).1, (hlocked hout).2⟩
  | clearFaults => exact ⟨(hlocked hout).1, (hlocked hout).2⟩
  | grantTouch => exact ⟨(hlocked hout).1, (hlocked hout).2⟩
  | disconnect disposition => exact ⟨rfl, rfl⟩
  | endTransaction disposition =>
    simp only [VirtualCard.after, VirtualCard.endTransaction] at hout ⊢
    split
    · exact ⟨rfl, rfl⟩
    · next hreset =>
      rw [if_neg hreset] at hout
      exact hlocked hout
  | injectFault fault =>
    simp only [VirtualCard.after, VirtualCard.injectFault] at hout ⊢
    split
    · next hzero =>
      rw [if_pos hzero] at hout
      exact hlocked hout
    · next hzero =>
      rw [if_neg hzero] at hout
      exact ⟨(hlocked hout).1, (hlocked hout).2⟩
  | setPresent present =>
    obtain rfl : present = false := hout
    simp only [VirtualCard.after, VirtualCard.setPresent]
    split
    · exact ⟨rfl, rfl⟩
    · next hin =>
      have hin : c.inserted = false := by simpa using hin
      exact ⟨(hlocked hin).1, (hlocked hin).2⟩
  | transmit apdu around =>
    have hinserted : c.inserted = false := (VirtualCard.inserted_dispatch c apdu).symm.trans hout
    exact (VirtualCard.inert_of_locked crypto around (hlocked hinserted)
      (hquiet hinserted apdu around rfl)).2

theorem locked_run (h : Run VirtualCard.Locked (Entry.Acts crypto) anyStep log c)
    (hquiet : ∀ e ∈ log, e.Quiet crypto) (hout : c.inserted = false) : c.Locked := by
  induction h with
  | start hlocked => exact hlocked
  | step hrun hstep _ ih =>
    have hbefore := ih fun x hx => hquiet x (List.mem_cons_of_mem _ hx)
    rw [← hstep.1] at hbefore
    rw [hstep.inserted_eq] at hout
    have hlocked := locked_after (hquiet _ List.mem_cons_self) hbefore hout
    exact ⟨hstep.pinVerified_eq.trans hlocked.1, hstep.mgmtAuthenticated_eq.trans hlocked.2⟩

/-- Behind the insertion of a locked card, whatever is verified was verified since. -/
theorem guarded_run {between older : List Entry} {insertion : Entry}
    (h : Run VirtualCard.Locked (Entry.Acts crypto) anyStep (between ++ insertion :: older) c)
    (hquiet : ∀ e ∈ older, e.Quiet crypto) (hinserts : insertion.Inserts) :
    (c.pinVerified = true → ∃ x ∈ between, x.RightVerify) ∧
      (c.mgmtAuthenticated = true → ∃ x ∈ between, x.RightResponse crypto) := by
  induction between generalizing c with
  | nil =>
    cases h with
    | @step _ c _ _ hrun hstep _ =>
      obtain ⟨rfl, -⟩ := id hstep
      obtain ⟨hout, hevent⟩ := hinserts
      have hlocked := locked_run hrun hquiet hout
      have hv := hstep.pinVerified_eq
      have hauth := hstep.mgmtAuthenticated_eq
      rw [hevent] at hv hauth
      constructor
      · exact fun htrue => absurd (hlocked.1.symm.trans (hv.symm.trans htrue)) nofun
      · exact fun htrue => absurd (hlocked.2.symm.trans (hauth.symm.trans htrue)) nofun
  | cons e between ih =>
    cases h with
    | step hrun hstep _ =>
      obtain ⟨hverified, hauthenticated⟩ := ih hrun
      constructor
      · intro hv
        rw [hstep.pinVerified_eq] at hv
        rcases VirtualCard.pinVerified_after hv with hbefore | ⟨apdu, around, he, hright⟩
        · rw [hstep.1] at hbefore
          obtain ⟨x, hx, hxright⟩ := hverified hbefore
          exact ⟨x, List.mem_cons_of_mem _ hx, hxright⟩
        · exact ⟨e, List.mem_cons_self, apdu, around, he, hright⟩
      · intro hauth
        rw [hstep.mgmtAuthenticated_eq] at hauth
        rcases VirtualCard.mgmtAuthenticated_after hauth with hbefore | ⟨apdu, around, he, hright⟩
        · rw [hstep.1] at hbefore
          obtain ⟨x, hx, hxright⟩ := hauthenticated hbefore
          exact ⟨x, List.mem_cons_of_mem _ hx, hxright⟩
        · exact ⟨e, List.mem_cons_self, apdu, around, he, hright⟩

/-- In every run of a card in which no command that matters reaches it while it is out. -/
theorem removable_run (h : Run VirtualCard.Locked (Entry.Acts crypto) anyStep log c)
    (hquiet : ∀ e ∈ log, e.Quiet crypto) : Removable crypto log := by
  constructor
  · intro e he hout apdu around hevent
    obtain ⟨newer, older, rfl⟩ := List.append_of_mem he
    obtain ⟨before, after, hrun, ⟨rfl, -⟩, -⟩ := h.step_of_append
    have hlocked := locked_run hrun (fun x hx => hquiet x (by simp [hx])) hout
    exact (VirtualCard.inert_of_locked crypto around hlocked
      (hquiet e he hout apdu around hevent)).1
  · rintro newer e between insertion older rfl hinserts apdu around hevent
    obtain ⟨before, after, hrun, ⟨rfl, -⟩, -⟩ := h.step_of_append
    obtain ⟨hverified, hauthenticated⟩ :=
      guarded_run hrun (fun x hx => hquiet x (by simp [hx])) hinserts
    exact ⟨fun slot huse hpolicy => hverified (huse.verified hpolicy),
      fun hadmin => hauthenticated hadmin.authenticated⟩

end Runs

/-- In every run of a daemon, a card is dead while it is out of its reader and comes back
locked, if no command that matters reaches it while it is out. -/
theorem removable_of_quiet {n : Nat} (crypto : CardCrypto) {cards : Fin (n + 1) → VirtualCard}
    {log : List (Act n)} {s : Daemon n VirtualCard}
    (h : Run (· = Daemon.initial cards) (Act.Step crypto) anyStep log s) (idx : Fin (n + 1))
    (hlocked : (cards idx).Locked) (hquiet : ∀ e ∈ cardLog crypto idx log, e.Quiet crypto) :
    Removable crypto (cardLog crypto idx log) :=
  removable_run (run_cardLog h idx hlocked) hquiet

/-! ## A daemon whose card is pulled out -/

section Sample

/-- A TRANSMIT of so many bytes with the first handle. -/
def transmitBody (length : UInt32) : Bytes := (TransmitStruct.mk 1 2 8 length 2 8 258 0).toBytes

def readerName : String := "Virtual PCD piggy fibby 00 00"

/-- No key is used without a PIN by the request for a signature. -/
theorem not_matters_signApdu {c : VirtualCard} (hreceived : c.received signApdu = some (0x87, 0x11, 0x9A))
    (hpolicy : c.effectivePinPolicy 0x9A ≠ PinPolicy.never) : ¬ c.Matters sampleCrypto signApdu := by
  rintro (⟨h, -, -⟩ | ⟨h, -, -⟩ | ⟨h, -, -⟩ | ⟨h, -, -⟩ | ⟨h, -⟩ | ⟨h, huse⟩)
  all_goals cases hreceived.symm.trans h
  exact hpolicy huse.policy

set_option maxRecDepth 20000 in
/-- A handle is open while the card is taken out: its key is refused then, and signs behind the
VERIFY that comes once the card is back. -/
theorem removable_of_quiet_pulledOut : ∃ (log : List (Act 0)) (s : Daemon 0 VirtualCard),
    ∃ e older, Run (· = Daemon.initial fun _ => signingCard) (Act.Step sampleCrypto) anyStep log s ∧
      cardLog sampleCrypto 0 log = e :: older ∧ e.UsesKey sampleCrypto 0x9A ∧
      older.map Entry.event = [sent (verifyApdu defaultPin), .setPresent true, sent signApdu,
        .setPresent false, .connect] ∧ Removable sampleCrypto (cardLog sampleCrypto 0 log) := by
  have hstart : Run (· = Daemon.initial fun _ : Fin 1 => signingCard) (Act.Step sampleCrypto) anyStep
      [] _ := .start rfl
  have haccept := hstart.step
    (show Act.Step sampleCrypto _ ⟨_, Event.accept, _⟩ _ from ⟨rfl, rfl⟩) trivial
  have hversion := haccept.step
    (show Act.Step sampleCrypto _ ⟨_, .message 0 0x11 (Daemon.versionReply 0) [], _⟩ _ from
      ⟨rfl, rfl⟩) trivial
  have hconnect := hversion.step
    (show Act.Step sampleCrypto _ ⟨_, .message 0 0x04 Daemon.sampleConnect.toBytes [], _⟩ _ from
      ⟨rfl, Daemon.step_connect ⟨rfl, rfl, Daemon.length_sampleConnect, rfl⟩
        Daemon.fromBytes_sampleConnect rfl rfl⟩) trivial
  have hopened := hconnect.step
    (show Act.Step sampleCrypto _ ⟨_, .proceed 0 ⟨0, []⟩, _⟩ _ from ⟨rfl, rfl⟩) trivial
  have hremoved := hopened.step
    (show Act.Step sampleCrypto _ ⟨_, .control readerName (.setPresent false), _⟩ _ from
      ⟨rfl, rfl⟩) trivial
  have hasked := hremoved.step
    (show Act.Step sampleCrypto _ ⟨_, .message 0 0x09 (transmitBody 43) signApdu, _⟩ _ from
      ⟨rfl, rfl⟩) trivial
  have hrefused := hasked.step
    (show Act.Step sampleCrypto _ ⟨_, .proceed 0 ⟨0, []⟩, _⟩ _ from ⟨rfl, rfl⟩) trivial
  have hback := hrefused.step
    (show Act.Step sampleCrypto _ ⟨_, .control readerName (.setPresent true), _⟩ _ from
      ⟨rfl, rfl⟩) trivial
  have hsent := hback.step
    (show Act.Step sampleCrypto _
      ⟨_, .message 0 0x09 (transmitBody 13) (verifyApdu defaultPin), _⟩ _ from ⟨rfl, rfl⟩) trivial
  have hverified := hsent.step
    (show Act.Step sampleCrypto _ ⟨_, .proceed 0 ⟨0, []⟩, _⟩ _ from ⟨rfl, rfl⟩) trivial
  have hagain := hverified.step
    (show Act.Step sampleCrypto _ ⟨_, .message 0 0x09 (transmitBody 43) signApdu, _⟩ _ from
      ⟨rfl, rfl⟩) trivial
  have hsigned := hagain.step
    (show Act.Step sampleCrypto _ ⟨_, .proceed 0 ⟨0, []⟩, _⟩ _ from ⟨rfl, rfl⟩) trivial
  refine ⟨_, _, _, _, hsigned, rfl, ⟨signApdu, ⟨0, []⟩, rfl, rfl, _, by simp, rfl⟩, rfl, ?_⟩
  refine removable_of_quiet sampleCrypto hsigned 0 ⟨rfl, rfl⟩ fun e he hout apdu around hevent => ?_
  have hmem : e ∈ [(⟨_, sent signApdu⟩ : Entry), ⟨_, sent (verifyApdu defaultPin)⟩,
      ⟨_, .setPresent true⟩, ⟨_, sent signApdu⟩, ⟨_, .setPresent false⟩, ⟨_, .connect⟩] := he
  simp only [List.mem_cons, List.not_mem_nil, or_false] at hmem
  rcases hmem with rfl | rfl | rfl | rfl | rfl | rfl
  · exact absurd hout Bool.noConfusion
  · exact absurd hout Bool.noConfusion
  · cases hevent
  · cases hevent
    exact not_matters_signApdu rfl (by decide)
  · cases hevent
  · cases hevent

set_option maxRecDepth 20000 in
/-- The PIN is verified while the card is out; once it is back, its key signs. -/
theorem not_removable :
    ¬ ∀ (log : List (Act 0)) (s : Daemon 0 VirtualCard),
      Run (· = Daemon.initial fun _ => signingCard) (Act.Step sampleCrypto) anyStep log s →
        Removable sampleCrypto (cardLog sampleCrypto 0 log) := by
  intro hall
  have hstart : Run (· = Daemon.initial fun _ : Fin 1 => signingCard) (Act.Step sampleCrypto) anyStep
      [] _ := .start rfl
  have haccept := hstart.step
    (show Act.Step sampleCrypto _ ⟨_, Event.accept, _⟩ _ from ⟨rfl, rfl⟩) trivial
  have hversion := haccept.step
    (show Act.Step sampleCrypto _ ⟨_, .message 0 0x11 (Daemon.versionReply 0) [], _⟩ _ from
      ⟨rfl, rfl⟩) trivial
  have hconnect := hversion.step
    (show Act.Step sampleCrypto _ ⟨_, .message 0 0x04 Daemon.sampleConnect.toBytes [], _⟩ _ from
      ⟨rfl, Daemon.step_connect ⟨rfl, rfl, Daemon.length_sampleConnect, rfl⟩
        Daemon.fromBytes_sampleConnect rfl rfl⟩) trivial
  have hopened := hconnect.step
    (show Act.Step sampleCrypto _ ⟨_, .proceed 0 ⟨0, []⟩, _⟩ _ from ⟨rfl, rfl⟩) trivial
  have hremoved := hopened.step
    (show Act.Step sampleCrypto _ ⟨_, .control readerName (.setPresent false), _⟩ _ from
      ⟨rfl, rfl⟩) trivial
  have hsent := hremoved.step
    (show Act.Step sampleCrypto _
      ⟨_, .message 0 0x09 (transmitBody 13) (verifyApdu defaultPin), _⟩ _ from ⟨rfl, rfl⟩) trivial
  have hverified := hsent.step
    (show Act.Step sampleCrypto _ ⟨_, .proceed 0 ⟨0, []⟩, _⟩ _ from ⟨rfl, rfl⟩) trivial
  have hback := hverified.step
    (show Act.Step sampleCrypto _ ⟨_, .control readerName (.setPresent true), _⟩ _ from
      ⟨rfl, rfl⟩) trivial
  have hasked := hback.step
    (show Act.Step sampleCrypto _ ⟨_, .message 0 0x09 (transmitBody 43) signApdu, _⟩ _ from
      ⟨rfl, rfl⟩) trivial
  have hsigned := hasked.step
    (show Act.Step sampleCrypto _ ⟨_, .proceed 0 ⟨0, []⟩, _⟩ _ from ⟨rfl, rfl⟩) trivial
  obtain ⟨x, hx, -⟩ := ((hall _ _ hsigned).guarded [] ⟨_, sent signApdu⟩ [] ⟨_, .setPresent true⟩ _
    rfl ⟨rfl, rfl⟩ signApdu ⟨0, []⟩ rfl).1 0x9A ⟨rfl, _, by simp, rfl⟩ (by decide)
  exact absurd hx List.not_mem_nil

end Sample

end Piggy.Fibby
