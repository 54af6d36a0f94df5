import Piggy.Fibby.Indistinct
import Piggy.Fibby.Faults

/-!
# The factory reset

A card that is reset should answer like one that was just built. What it was configured with
stays, and so do the faults, the touches that were granted and the applet that is selected. Two
fields of the session stay too, which a new card does not have.
-/

namespace Piggy.Fibby

open Piggy.Core Piggy.Box

/-- Triple DES takes blocks to blocks one to one: each block is what some block decrypts to. -/
def BlockCipher (crypto : CardCrypto) : Prop :=
  ∀ key block : Bytes, block.length = 8 →
    ∃ response, response.length = 8 ∧ crypto.tdesDecryptBlock key response = block

namespace VirtualCard

/-- A new card of the same model and configuration, with the faults, the touches and the applet
of the old one. -/
def newLike (c : VirtualCard) : VirtualCard :=
  { withModel c.model with
    readerName := c.readerName
    selectedPiv := c.selectedPiv
    selectedOtp := c.selectedOtp
    serialOverride := c.serialOverride
    requireSelect := c.requireSelect
    generateOverrides := c.generateOverrides
    faults := c.faults
    touch := { TouchPad.new with pending := c.touch.pending }
    autoTouch := c.autoTouch }

/-- A factory reset that is answered with success. -/
structure Resets (crypto : CardCrypto) (around : Surroundings) (c : VirtualCard) (apdu : Bytes) :
    Prop where
  received : c.received apdu = some (0xFB, 0x00, 0x00)
  answered : (c.transmit crypto around apdu).1 = sw 0x90 0x00

variable {crypto : CardCrypto} {around : Surroundings} {a b c : VirtualCard} {apdu : Bytes}

theorem Resets.factoryReset (h : Resets crypto around c apdu) : c.FactoryReset apdu := by
  have hanswered := h.answered
  rw [transmit, dispatch_of_received crypto around h.received, command_factoryReset,
    handleFactoryReset] at hanswered
  by_cases hretries : c.pinRetries ≠ 0 ∨ c.pukRetries ≠ 0
  · rw [if_pos hretries] at hanswered
    have hrefused : sw 0x69 0x85 = sw 0x90 0x00 := (finish_fst _ _).symm.trans hanswered
    exact absurd hrefused (by decide)
  · obtain ⟨hpin, hpuk⟩ := not_or.mp hretries
    exact ⟨h.received, not_not.mp hpin, not_not.mp hpuk⟩

/-- The card behind a factory reset. -/
theorem Resets.transmit_eq (h : Resets crypto around c apdu) :
    (c.transmit crypto around apdu).2 =
      { c.wiped with touchBlocked := none, commandSinceVerify := true } := by
  obtain ⟨hreceived, hpin, hpuk⟩ := h.factoryReset
  have hins : apdu[1]? ≠ some 0x20 := by
    rw [ins_of_received hreceived]
    decide
  have hreset : ({ c with touchBlocked := none } : VirtualCard).handleFactoryReset =
      (sw 0x90 0x00, { c.wiped with touchBlocked := none }) :=
    if_neg (by simp [hpin, hpuk])
  rw [transmit, dispatch_of_received crypto around hreceived, command_factoryReset, hreset,
    finish_of_ne hins rfl]

/-- Without what the session has left, the card behind a reset is a new one. -/
theorem Resets.alike (h : Resets crypto around c apdu) (hauth : c.mgmtAuthenticated = false)
    (hwitness : c.pendingMgmtWitness = none) :
    Alike (c.transmit crypto around apdu).2 (c.transmit crypto around apdu).2.newLike := by
  rw [h.transmit_eq]
  refine ⟨⟨true, 0, false, false, 0, none⟩, ?_, nofun, Iff.rfl⟩
  simp only [newLike, wiped, hide, withModel, TouchPad.new, TouchPad.clearCache, hauth, hwitness]

/-! ## A command that tells cards apart -/

/-- A card in the same state, but for its faults and the marks of commands. -/
def Drained (c c' : VirtualCard) : Prop :=
  ∃ faults since, c' = { c with
    faults := faults, commandSinceVerify := since, touchBlocked := none }

theorem Drained.trans (hab : Drained a b) (hbc : Drained b c) : Drained a c := by
  obtain ⟨faults, since, rfl⟩ := hab
  obtain ⟨faults', since', rfl⟩ := hbc
  exact ⟨faults', since', rfl⟩

theorem Drained.heard (h : Drained a b) : b.heard apdu = a.heard apdu := by
  obtain ⟨faults, since, rfl⟩ := h
  rfl

theorem Drained.faulted (crypto : CardCrypto) (around : Surroundings) {ins : UInt8}
    {fault : UInt16} {faults : List Fault} (hheard : c.heard apdu = some ins)
    (htake : takeFault ins c.faults = some (fault, faults)) :
    Drained c (c.transmit crypto around apdu).2 ∧
      (c.transmit crypto around apdu).2.faults = faults := by
  obtain ⟨marked, hmarked⟩ :
      ∃ marked, finish apdu (faultResponse fault,
        { c with touchBlocked := none, faults := faults }) =
      (faultResponse fault,
        { c with touchBlocked := none, faults := faults, commandSinceVerify := marked }) :=
    marked_eq (faultResponse fault, { c with touchBlocked := none, faults := faults }) _
  rw [transmit, dispatch_faulted hheard htake, hmarked]
  exact ⟨⟨faults, marked, rfl⟩, rfl⟩

/-- How many commands the faults of a queue will answer. -/
def total (faults : List Fault) : Nat := (faults.map Fault.remaining).sum

theorem total_used {before after : List Fault} {f : Fault} (hf : 0 < f.remaining) :
    total (before ++ (f.used ++ after)) < total (before ++ f :: after) := by
  simp only [total, List.map_append, List.sum_append, List.map_cons, List.sum_cons]
  have hused : (f.used.map Fault.remaining).sum < f.remaining := by
    rw [Fault.used]
    split
    · simpa using hf
    · simp only [List.map_cons, List.map_nil, List.sum_cons, List.sum_nil]
      omega
  omega

/-- If a command is answered differently once the faults for it are used up, then some sequence
of commands is: the command, as often as it takes. -/
theorem exists_responses_ne (crypto : CardCrypto) (apdu : Bytes) {ins : UInt8}
    (hfaults : b.faults = a.faults)
    (ha : a.heard apdu = some ins) (hb : b.heard apdu = some ins)
    (hne : ∀ a' b', Drained a a' → Drained b b' → a'.heard apdu = some ins →
      b'.heard apdu = some ins → (∀ f ∈ a'.faults, ¬ f.Matches ins) →
      (∀ f ∈ b'.faults, ¬ f.Matches ins) →
      (a'.transmit crypto ⟨0, []⟩ apdu).1 ≠ (b'.transmit crypto ⟨0, []⟩ apdu).1) :
    ∃ later, responses crypto a later ≠ responses crypto b later := by
  induction hn : total a.faults using Nat.strong_induction_on generalizing a b with
  | _ n ih =>
    rcases exists_first (·.Matches ins) a.faults with ⟨before, f, after, hqueue, hf, hbefore⟩ |
      hnone
    · -- a fault answers both cards
      have htake : takeFault ins a.faults = some (f.sw, before ++ (f.used ++ after)) := by
        rw [hqueue]
        exact takeFault_of_matches hf hbefore
      obtain ⟨hdrainedA, hfaultsA⟩ :=
        Drained.faulted crypto ⟨0, []⟩ ha htake
      obtain ⟨hdrainedB, hfaultsB⟩ :=
        Drained.faulted crypto ⟨0, []⟩ hb (hfaults ▸ htake)
      generalize hcardA : (a.transmit crypto ⟨0, []⟩ apdu).2 = a' at hdrainedA hfaultsA
      generalize hcardB : (b.transmit crypto ⟨0, []⟩ apdu).2 = b' at hdrainedB hfaultsB
      have hless : total a'.faults < n := by
        rw [hfaultsA, ← hn, hqueue]
        exact total_used hf.1
      obtain ⟨later, hlater⟩ := ih _ hless (hfaultsB.trans hfaultsA.symm)
        (hdrainedA.heard.trans ha) (hdrainedB.heard.trans hb)
        (fun a'' b'' hA hB => hne a'' b'' (hdrainedA.trans hA) (hdrainedB.trans hB)) rfl
      refine ⟨(apdu, ⟨0, []⟩) :: later, fun hsame => hlater ?_⟩
      rw [responses, responses, hcardA, hcardB] at hsame
      exact (List.cons.inj hsame).2
    · refine ⟨[(apdu, ⟨0, []⟩)], fun hsame => ?_⟩
      have hnoneB : ∀ f ∈ b.faults, ¬ f.Matches ins := by
        rw [hfaults]
        exact hnone
      exact hne { a with touchBlocked := none } { b with touchBlocked := none }
        ⟨_, _, rfl⟩ ⟨_, _, rfl⟩ ha hb hnone hnoneB (List.cons.inj hsame).1

/-- A command that no fault takes and that reaches the applet, behind a reset. -/
theorem received_of_drained {cla ins p1 p2 : UInt8} {rest : Bytes} (hcla : cla = 0x00)
    (hheard : c.heard (cla :: ins :: p1 :: p2 :: rest) = some ins)
    (hfaults : ∀ f ∈ c.faults, ¬ f.Matches ins) :
    c.received (cla :: ins :: p1 :: p2 :: rest) = some (ins, p1, p2) := by
  rw [heard] at hheard
  split at hheard
  · cases hheard
  · next hselect =>
    rw [received, if_neg hselect, takeFault_eq_none hfaults]
    exact if_pos hcla

/-- A SET MANAGEMENT KEY without a data field. -/
def setMgmtKeyApdu : Bytes := [0x00, 0xFF, 0xFF, 0xFF]

theorem command_setMgmtKey (crypto : CardCrypto) (around : Surroundings) (c : VirtualCard)
    (apdu : Bytes) : c.command crypto around 0xFF 0xFF 0xFF apdu =
      c.handleSetMgmtKey (apduBody apdu) := by
  simp [command, pinCommand, keyCommand]

theorem command_mgmtKey (crypto : CardCrypto) (around : Surroundings) (c : VirtualCard)
    (apdu : Bytes) : c.command crypto around 0x87 0x03 0x9B apdu =
      c.handleGeneralAuthenticateMgmtKey crypto (apduBody apdu) := by
  simp [command, pinCommand, keyCommand]

/-- It tells whether the management key was authenticated. -/
theorem transmit_setMgmtKeyApdu (crypto : CardCrypto)
    (hreceived : c.received setMgmtKeyApdu = some (0xFF, 0xFF, 0xFF)) :
    (c.transmit crypto ⟨0, []⟩ setMgmtKeyApdu).1 =
      if c.mgmtAuthenticated then sw 0x6A 0x80 else sw 0x69 0x82 := by
  have hhandler : (({ c with touchBlocked := none } : VirtualCard).handleSetMgmtKey none).1 =
      if c.mgmtAuthenticated then sw 0x6A 0x80 else sw 0x69 0x82 := by
    unfold handleSetMgmtKey
    cases c.mgmtAuthenticated with
    | true => rfl
    | false => rfl
  rw [transmit, dispatch_of_received crypto ⟨0, []⟩ hreceived, command_setMgmtKey]
  exact (finish_fst _ _).trans hhandler

/-- The answer to a challenge. -/
def responseApdu (response : Bytes) : Bytes :=
  [0x00, 0x87, 0x03, 0x9B, 0x0C, 0x7C, 0x0A, 0x82, 0x08] ++ response

theorem apduBody_responseApdu {response : Bytes} (hlength : response.length = 8) :
    apduBody (responseApdu response) = some ([0x7C, 0x0A, 0x82, 0x08] ++ response) := by
  have htake : response.take 8 = response := List.take_of_length_le (Nat.le_of_eq hlength)
  simp [apduBody, responseApdu, hlength, htake]

theorem transmit_responseApdu (crypto : CardCrypto) {response : Bytes}
    (hlength : response.length = 8)
    (hreceived : c.received (responseApdu response) = some (0x87, 0x03, 0x9B)) :
    (c.transmit crypto ⟨0, []⟩ (responseApdu response)).1 =
      if c.pendingMgmtWitness = some (crypto.tdesDecryptBlock c.mgmtKey response) then
        sw 0x90 0x00 else sw 0x69 0x82 := by
  have hhandler : (({ c with touchBlocked := none } : VirtualCard).handleGeneralAuthenticateMgmtKey
      crypto (some ([0x7C, 0x0A, 0x82, 0x08] ++ response))).1 =
      if c.pendingMgmtWitness = some (crypto.tdesDecryptBlock c.mgmtKey response) then
        sw 0x90 0x00 else sw 0x69 0x82 := by
    unfold handleGeneralAuthenticateMgmtKey
    dsimp only
    rw [if_neg fun h => absurd (congrArg List.length h) (by simp [hlength]),
      if_pos ⟨by simp [hlength], List.prefix_append _ _⟩]
    cases hwitness : c.pendingMgmtWitness with
    | none => rfl
    | some witness =>
      dsimp only
      by_cases hright : crypto.tdesDecryptBlock c.mgmtKey response = witness
      · rw [if_pos (congrArg some hright.symm)]
        exact congrArg Prod.fst (if_pos hright)
      · rw [if_neg fun h => hright (Option.some.inj h).symm]
        exact congrArg Prod.fst (if_neg hright)
  rw [transmit, dispatch_of_received crypto ⟨0, []⟩ hreceived, command_mgmtKey,
    apduBody_responseApdu hlength]
  exact (finish_fst _ _).trans hhandler

/-! ## The card behind a reset and a new one -/

/-- Behind a reset every command is let in that would be let in before. -/
theorem Resets.heard (h : Resets crypto around c apdu) (cla ins p1 p2 : UInt8) (rest : Bytes) :
    (c.transmit crypto around apdu).2.heard (cla :: ins :: p1 :: p2 :: rest) = some ins := by
  have hin : c.requireSelect = true → c.selectedPiv = false → c.selectedOtp = false → False := by
    intro hrequire hpiv hotp
    have hletIn : c.LetIn apdu := by
      by_contra hout
      exact absurd ((received_eq_none hout).symm.trans h.received) nofun
    exact absurd (hletIn hrequire hpiv hotp 0xFB (ins_of_received h.received)) (by decide)
  rw [h.transmit_eq]
  exact if_neg fun h' => hin h'.1 h'.2.1 h'.2.2.1

/-- Behind a reset the management key is still authenticated. -/
theorem Resets.ne_of_authenticated (h : Resets crypto around c apdu)
    (hauth : c.mgmtAuthenticated = true) :
    ∃ later, responses crypto (c.transmit crypto around apdu).2 later ≠
      responses crypto (c.transmit crypto around apdu).2.newLike later := by
  have hheard := h.heard 0x00 0xFF 0xFF 0xFF []
  have hcard : (c.transmit crypto around apdu).2.mgmtAuthenticated = true := by
    rw [h.transmit_eq]
    exact hauth
  refine exists_responses_ne crypto setMgmtKeyApdu rfl hheard hheard ?_
  intro a b ha hb hheardA hheardB hfaultsA hfaultsB
  rw [transmit_setMgmtKeyApdu crypto (received_of_drained rfl hheardA hfaultsA),
    transmit_setMgmtKeyApdu crypto (received_of_drained rfl hheardB hfaultsB)]
  have hauthA : a.mgmtAuthenticated = true := by
    obtain ⟨faults, since, rfl⟩ := ha
    exact hcard
  have hauthB : b.mgmtAuthenticated = false := by
    obtain ⟨faults, since, rfl⟩ := hb
    rfl
  rw [hauthA, hauthB]
  exact (by decide : sw 0x6A 0x80 ≠ sw 0x69 0x82)

/-- Behind a reset the challenge is still open. -/
theorem Resets.ne_of_witness (hcipher : BlockCipher crypto) (h : Resets crypto around c apdu)
    {witness : Bytes} (hwitness : c.pendingMgmtWitness = some witness)
    (hlength : witness.length = 8) :
    ∃ later, responses crypto (c.transmit crypto around apdu).2 later ≠
      responses crypto (c.transmit crypto around apdu).2.newLike later := by
  obtain ⟨response, hresponse, hdecrypt⟩ := hcipher defaultMgmtKey witness hlength
  have hheard := h.heard 0x00 0x87 0x03 0x9B ([0x0C, 0x7C, 0x0A, 0x82, 0x08] ++ response)
  have hcard : (c.transmit crypto around apdu).2.pendingMgmtWitness =
      some (crypto.tdesDecryptBlock (c.transmit crypto around apdu).2.mgmtKey response) := by
    rw [h.transmit_eq]
    exact hwitness.trans (congrArg some hdecrypt.symm)
  refine exists_responses_ne crypto (responseApdu response) rfl hheard hheard ?_
  intro a b ha hb hheardA hheardB hfaultsA hfaultsB
  rw [transmit_responseApdu crypto hresponse (received_of_drained rfl hheardA hfaultsA),
    transmit_responseApdu crypto hresponse (received_of_drained rfl hheardB hfaultsB)]
  have hopen : a.pendingMgmtWitness = some (crypto.tdesDecryptBlock a.mgmtKey response) := by
    obtain ⟨faults, since, rfl⟩ := ha
    exact hcard
  have hnone : b.pendingMgmtWitness = none := by
    obtain ⟨faults, since, rfl⟩ := hb
    rfl
  rw [if_pos hopen, if_neg (by rw [hnone]; nofun)]
  exact (by decide : sw 0x90 0x00 ≠ sw 0x69 0x82)

end VirtualCard

/-- A card that is reset answers like a new one, for ever, exactly if the management key was not
authenticated and no challenge was open. -/
theorem factoryReset_like_new_iff {crypto : CardCrypto} (hcipher : BlockCipher crypto)
    {c : VirtualCard} (hwitness : ∀ witness, c.pendingMgmtWitness = some witness →
      witness.length = 8) {around : VirtualCard.Surroundings} {apdu : Bytes}
    (h : VirtualCard.Resets crypto around c apdu) :
    (∀ later, VirtualCard.responses crypto (c.transmit crypto around apdu).2 later =
        VirtualCard.responses crypto (c.transmit crypto around apdu).2.newLike later) ↔
      c.mgmtAuthenticated = false ∧ c.pendingMgmtWitness = none := by
  constructor
  · intro hsame
    constructor
    · by_contra hauth
      obtain ⟨later, hne⟩ := h.ne_of_authenticated (by simpa using hauth)
      exact hne (hsame later)
    · by_contra hopen
      obtain ⟨witness, hsome⟩ := Option.ne_none_iff_exists'.mp hopen
      obtain ⟨later, hne⟩ := h.ne_of_witness hcipher hsome (hwitness witness hsome)
      exact hne (hsame later)
  · rintro ⟨hauth, hnone⟩ later
    exact VirtualCard.responses_alike crypto (h.alike hauth hnone) later

/-! ## A card whose management key was authenticated -/

/-- What a block of zeros is encrypted to under the management key of a new card. -/
def zerosEncrypted : Bytes := [0xB0, 0x73, 0xDC, 0x3F, 0xB2, 0x09, 0x53, 0x6D]

/-- The libraries, as far as this one block needs them. -/
def sampleTdes : CardCrypto :=
  { sampleCrypto with
    tdesDecryptBlock := fun key block =>
      if key ≠ defaultMgmtKey then block
      else if block = zerosEncrypted then List.replicate 8 0
      else if block = List.replicate 8 0 then zerosEncrypted
      else block }

theorem blockCipher_sampleTdes : BlockCipher sampleTdes := by
  intro key block hlength
  by_cases hkey : key = defaultMgmtKey
  · subst hkey
    by_cases hzeros : block = List.replicate 8 0
    · subst hzeros
      exact ⟨zerosEncrypted, rfl, rfl⟩
    · by_cases hencrypted : block = zerosEncrypted
      · subst hencrypted
        exact ⟨List.replicate 8 0, rfl, rfl⟩
      · refine ⟨block, hlength, ?_⟩
        simp only [sampleTdes, hzeros, hencrypted, ne_eq, not_true_eq_false, if_false]
  · exact ⟨block, hlength, if_pos hkey⟩

def factoryResetApdu : Bytes := [0x00, 0xFB, 0x00, 0x00]

/-- Events go on from where a run is. -/
theorem exists_run {crypto : CardCrypto} {log : List Entry} {c : VirtualCard}
    (h : Run Fresh (Entry.Step crypto) anyStep log c) (events : List CardEvent) :
    ∃ log, Run Fresh (Entry.Step crypto) anyStep log
      (events.foldl (VirtualCard.after crypto) c) := by
  induction events generalizing log c with
  | nil => exact ⟨log, h⟩
  | cons e events ih =>
    have hnext : Entry.Step crypto c ⟨c, e⟩ (c.after crypto e) := ⟨rfl, rfl⟩
    exact ih (h.step hnext trivial)

/-- A card with PIN and PUK blocked. -/
def blockedYk4 : VirtualCard := { VirtualCard.withModel .yk4 with pinRetries := 0, pukRetries := 0 }

theorem factoryReset_like_new_iff_blocked :
    VirtualCard.responses sampleTdes (blockedYk4.transmit sampleTdes ⟨0, []⟩ factoryResetApdu).2
        [(VirtualCard.setMgmtKeyApdu, ⟨0, []⟩)] =
      VirtualCard.responses sampleTdes
        (blockedYk4.transmit sampleTdes ⟨0, []⟩ factoryResetApdu).2.newLike
        [(VirtualCard.setMgmtKeyApdu, ⟨0, []⟩)] :=
  (factoryReset_like_new_iff blockCipher_sampleTdes (c := blockedYk4) nofun
    (⟨rfl, rfl⟩ : VirtualCard.Resets sampleTdes ⟨0, []⟩ blockedYk4 factoryResetApdu)).mpr
    ⟨rfl, rfl⟩ _

/-- A command to change the PUK with a wrong old one. -/
def wrongPukApdu : Bytes := [0x00, 0x24, 0x00, 0x81, 0x10] ++ zerosPin ++ zerosPin

/-- The management key is authenticated, and PIN and PUK are blocked by wrong tries. -/
def administering : List CardEvent :=
  [sent [0x00, 0x87, 0x03, 0x9B, 0x04, 0x7C, 0x02, 0x81, 0x00],
    sent (VirtualCard.responseApdu zerosEncrypted),
    sent (verifyApdu zerosPin), sent (verifyApdu zerosPin), sent (verifyApdu zerosPin),
    sent wrongPukApdu, sent wrongPukApdu, sent wrongPukApdu]

/-- A card behind these commands. -/
def administered : VirtualCard :=
  administering.foldl (VirtualCard.after sampleTdes) (VirtualCard.withModel .yk4)

/-- Behind the factory reset the management key of the card can be set at once. -/
theorem not_like_new_authenticated :
    ¬ ∀ (log : List Entry) (c : VirtualCard),
      Run Fresh (Entry.Step sampleTdes) anyStep log c → ∀ around apdu,
        VirtualCard.Resets sampleTdes around c apdu → ∀ later,
          VirtualCard.responses sampleTdes (c.transmit sampleTdes around apdu).2 later =
            VirtualCard.responses sampleTdes (c.transmit sampleTdes around apdu).2.newLike later := by
  intro h
  have hnew : Fresh (VirtualCard.withModel .yk4) :=
    ⟨rfl, (by decide : defaultPinRetries ≤ defaultPinRetries),
      (by decide : defaultPukRetries ≤ defaultPukRetries)⟩
  have hstart : Run Fresh (Entry.Step sampleTdes) anyStep [] (VirtualCard.withModel .yk4) :=
    .start hnew
  obtain ⟨log, hlog⟩ := exists_run hstart administering
  have hsame := h log administered hlog ⟨0, []⟩ factoryResetApdu ⟨rfl, rfl⟩
    [(VirtualCard.setMgmtKeyApdu, ⟨0, []⟩)]
  have hold : VirtualCard.responses sampleTdes
      (administered.transmit sampleTdes ⟨0, []⟩ factoryResetApdu).2
      [(VirtualCard.setMgmtKeyApdu, ⟨0, []⟩)] = [sw 0x6A 0x80] := rfl
  have hnew : VirtualCard.responses sampleTdes
      (administered.transmit sampleTdes ⟨0, []⟩ factoryResetApdu).2.newLike
      [(VirtualCard.setMgmtKeyApdu, ⟨0, []⟩)] = [sw 0x69 0x82] := rfl
  rw [hold, hnew] at hsame
  exact absurd hsame (by decide)

end Piggy.Fibby
