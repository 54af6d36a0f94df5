import Piggy.Agent.Presence
import Piggy.Core.Runs

/-!
# Selection of cards

Every pass loads the keys that the agent should serve: those of the first card that is
admitted, or of every card that is. The served keys follow them card by card. A card that is
served already is not looked at again as long as it is there, so its keys and its reader stay
as they were when it was adopted; and a new card is adopted at once, while a card that is
missing is dropped with a delay.
-/

namespace Piggy.Agent

open Piggy.Box Piggy.Core

/-! ## Loading -/

/-- A byte in hexadecimal, in upper case. -/
def hexUpper (b : UInt8) : List Char :=
  [(hexDigit (b.toNat / 16)).toUpper, (hexDigit (b.toNat % 16)).toUpper]

/-- A GUID in hexadecimal. -/
def guidToHex (g : Guid) : String := String.ofList (g.bytes.flatMap hexUpper)

/-- The first four bytes of a GUID in hexadecimal. -/
def guidShortId (g : Guid) : String := String.ofList ((g.bytes.take 4).flatMap hexUpper)

/-- Which keys are loaded. -/
structure KeyLoadConfig where
  guidFilter : Option String
  allCards : Bool
  allowedSlots : Option (List UInt8)
  cak : Option Bytes

/-- A card that was found, with its slots if they could be read. -/
structure PivToken where
  guid : Guid
  readerName : String
  readAllSlots : Option (List (UInt8 × Bytes))

/-- The keys of a card in the slots that may be used. -/
def tokenKeys (config : KeyLoadConfig) (token : PivToken) : List CachedKey :=
  ((token.readAllSlots.getD []).filter fun slot => config.allowedSlots.all (·.contains slot.1)).map
    fun slot =>
      { guid := token.guid, readerName := token.readerName, slotId := slot.1, publicKey := slot.2 }

/-- The keys to be served and the card that counts as the primary one. -/
def buildCachedKeys (config : KeyLoadConfig) (authenticate : Guid → Bytes → Bool) :
    List PivToken → List CachedKey × Option Guid
  | [] => ([], none)
  | token :: tokens =>
    if config.guidFilter.any fun filter =>
        guidToHex token.guid ≠ filter ∧ guidShortId token.guid ≠ filter then
      buildCachedKeys config authenticate tokens
    else if config.cak.any fun cak => !authenticate token.guid cak then
      buildCachedKeys config authenticate tokens
    else if config.allCards then
      (tokenKeys config token ++ (buildCachedKeys config authenticate tokens).1, some token.guid)
    else
      (tokenKeys config token, some token.guid)

/-- The keys that can be loaded under a configuration, whatever the cards are and answer. -/
def Loads (config : KeyLoadConfig) (desired : List CachedKey) : Prop :=
  ∃ authenticate tokens, (buildCachedKeys config authenticate tokens).1 = desired

/-- All keys are of one card. -/
def OneCard (keys : List CachedKey) : Prop := ∀ k ∈ keys, ∀ k' ∈ keys, k.guid = k'.guid

theorem guid_of_mem_tokenKeys {config : KeyLoadConfig} {token : PivToken} {k : CachedKey}
    (h : k ∈ tokenKeys config token) : k.guid = token.guid := by
  obtain ⟨_, _, rfl⟩ := List.mem_map.mp h
  rfl

/-- Only the keys of one card are loaded unless all cards are asked for. -/
theorem Loads.oneCard {config : KeyLoadConfig} {desired : List CachedKey}
    (h : Loads config desired) (hone : config.allCards = false) : OneCard desired := by
  obtain ⟨authenticate, tokens, rfl⟩ := h
  induction tokens with
  | nil =>
    intro k hk
    cases hk
  | cons token tokens ih =>
    rw [buildCachedKeys]
    split
    · exact ih
    · split
      · exact ih
      · rw [hone]
        intro k hk k' hk'
        rw [guid_of_mem_tokenKeys hk, guid_of_mem_tokenKeys hk']

/-! ## Passes -/

/-- What happens to the served keys: requests change the PINs, and passes are made. -/
inductive PassEvent where
  | requested (pin : PinCache)
  | passed (immediateReaders : List String) (p : Pass)

namespace PassEvent

/-- A pass that was not skipped. -/
def isLook : PassEvent → Bool
  | passed _ (.looked ..) => true
  | _ => false

/-- A pass finds the given keys, and every card of them can be used. -/
def Settled (desired : List CachedKey) : PassEvent → Prop
  | passed _ (.looked found _ verify) => found = desired ∧ ∀ g ∈ cardsOf desired, verify g
  | _ => True

end PassEvent

/-- One step of the loop or of a request. The loop may have been told of readers that changed. -/
inductive PassStep (config : KeyLoadConfig) (failLimit : Nat) :
    AgentState → PassEvent → AgentState → Prop where
  | request {s : AgentState} (pin : PinCache) :
      PassStep config failLimit s (.requested pin) { s with pin }
  | skip {s : AgentState} (immediateReaders : List String) :
      PassStep config failLimit s (.passed immediateReaders .skipped) s
  | look {s : AgentState} (immediateReaders : List String) {desired : List CachedKey}
      {order : List Guid} {verify : Guid → Bool} (hloads : Loads config desired)
      (hwalks : (Pass.looked desired order verify).Walks s) :
      PassStep config failLimit s (.passed immediateReaders (.looked desired order verify))
        (reconcileOnce failLimit immediateReaders s (.looked desired order verify))

/-- The runs from a state. -/
abbrev RunsFrom (config : KeyLoadConfig) (failLimit : Nat) (s : AgentState) :
    List PassEvent → AgentState → Prop :=
  Run (· = s) (PassStep config failLimit) anyStep

/-- The agent at its launch: it serves what was loaded then, and no pass was missed. -/
def Launched (config : KeyLoadConfig) (s : AgentState) : Prop :=
  Loads config s.keys ∧ ∀ g, s.misses g = 0

/-- The same keys of every card, in the order of its slots. -/
def Serves (keys desired : List CachedKey) : Prop :=
  ∀ g, keys.filter (fun k => k.guid = g) = desired.filter fun k => k.guid = g

/-- From a state on, passes that all find the same keys lead to serving them, as soon as there
are as many of them as the limit says. -/
def Converges (config : KeyLoadConfig) (failLimit : Nat) (s : AgentState)
    (desired : List CachedKey) : Prop :=
  ∀ log s', RunsFrom config failLimit s log s' → (∀ e ∈ log, e.Settled desired) →
    failLimit ≤ log.countP (·.isLook) → Serves s'.keys desired

/-- The cards that are served and there are served with the keys that are there. -/
def Fresh (keys desired : List CachedKey) : Prop :=
  ∀ g ∈ cardsOf keys, g ∈ cardsOf desired →
    keys.filter (fun k => k.guid = g) = desired.filter fun k => k.guid = g

/-! ## Convergence -/

section

variable {config : KeyLoadConfig} {failLimit : Nat} {immediateReaders : List String}
  {s s' : AgentState} {desired : List CachedKey} {order : List Guid} {verify : Guid → Bool}
  {log : List PassEvent}

/-- A card that is there is not dropped. -/
private theorem notDropped_of_mem {g : Guid} (hg : g ∈ cardsOf desired) :
    g ∉ (countMisses (cardsOf desired) failLimit immediateReaders s.served s.misses).2 :=
  fun hdrop => (mem_countMisses_snd_iff.mp hdrop).1 hg

/-- The keys of a card that is there and served stay as they are. -/
private theorem filter_keys_of_present (h : RunsFrom config failLimit s log s')
    (hsettled : ∀ e ∈ log, e.Settled desired) {g : Guid} (hg : g ∈ cardsOf desired)
    (hserved : g ∈ cardsOf s.keys) :
    s'.keys.filter (fun k => k.guid = g) = s.keys.filter fun k => k.guid = g := by
  induction h with
  | start h => rw [h]
  | @step log before after e _ hstep _ ih =>
    have hsame := ih fun e he => hsettled e (List.mem_cons_of_mem _ he)
    have he := hsettled e List.mem_cons_self
    cases hstep with
    | request pin => exact hsame
    | skip immediateReaders => exact hsame
    | look immediateReaders hloads hwalks =>
      obtain ⟨rfl, -⟩ := he
      have hstill : g ∈ cardsOf before.keys := by
        rw [mem_cardsOf, hsame]
        exact mem_cardsOf.mp hserved
      rw [filter_keys_reconcileOnce hwalks, if_neg (notDropped_of_mem hg), if_pos hstill, hsame]

/-- How far passes that all find the same keys have come: served cards have the keys that are
there, every card that is there is served after the first look, and each look is counted for a
card that is served though it is missing. -/
private structure Settling (failLimit : Nat) (desired : List CachedKey) (looks : Nat)
    (s : AgentState) : Prop where
  fresh : Fresh s.keys desired
  adopted : 0 < looks → ∀ g ∈ cardsOf desired, g ∈ cardsOf s.keys
  counted : ∀ g ∈ cardsOf s.keys, g ∉ cardsOf desired →
    looks ≤ s.misses g ∧ (0 < looks → s.misses g < failLimit)

/-- A look goes on. -/
private theorem Settling.look {looks : Nat} (h : Settling failLimit desired looks s)
    (hwalks : (Pass.looked desired order verify).Walks s) (hverify : ∀ g ∈ cardsOf desired, verify g) :
    Settling failLimit desired (looks + 1)
      (reconcileOnce failLimit immediateReaders s (.looked desired order verify)) := by
  have hkeys := @filter_keys_reconcileOnce failLimit immediateReaders s desired order verify hwalks
  -- A card that is there has the keys that are there, whether it was served before or not.
  have hpresent : ∀ g ∈ cardsOf desired,
      (reconcileOnce failLimit immediateReaders s (.looked desired order verify)).keys.filter
        (fun k => k.guid = g) = desired.filter fun k => k.guid = g := by
    intro g hg
    rw [hkeys, if_neg (notDropped_of_mem hg)]
    split
    · next hserved => exact h.fresh g hserved hg
    · rw [if_pos (hverify g hg)]
  refine ⟨fun g _ hg => hpresent g hg, ?_, ?_⟩
  · intro _ g hg
    rw [mem_cardsOf, hpresent g hg]
    exact mem_cardsOf.mp hg
  · intro g hserved hg
    rw [mem_cardsOf, hkeys] at hserved
    have hnone : desired.filter (fun k => k.guid = g) = [] := not_not.mp (mt mem_cardsOf.mpr hg)
    have hkept : g ∉ (countMisses (cardsOf desired) failLimit immediateReaders s.served
        s.misses).2 := by
      intro hdrop
      rw [if_pos hdrop] at hserved
      exact hserved rfl
    have hbefore : g ∈ cardsOf s.keys := by
      rw [if_neg hkept, hnone, ite_self] at hserved
      by_contra hbefore
      rw [if_neg hbefore] at hserved
      exact hserved rfl
    have hcount := List.count_pos_iff.mpr hbefore
    have hlooks := (h.counted g hbefore hg).1
    have hlt : ¬ failLimit ≤ s.misses g + (cardsOf s.keys).count g := by
      intro hle
      refine hkept (mem_countMisses_snd_iff.mpr ⟨hg, .inr ?_⟩)
      rw [s.map_fst_served]
      exact ⟨hbefore, hle⟩
    rw [misses_reconcileOnce, if_neg hkept, if_neg hg]
    omega

/-- Passes that all find the same keys come forward. -/
private theorem settling (h : RunsFrom config failLimit s log s')
    (hsettled : ∀ e ∈ log, e.Settled desired) (hfresh : Fresh s.keys desired) :
    Settling failLimit desired (log.countP (·.isLook)) s' := by
  induction h with
  | start h =>
    subst h
    exact ⟨hfresh, fun h => absurd h (Nat.lt_irrefl 0),
      fun _ _ _ => ⟨Nat.zero_le _, fun h => absurd h (Nat.lt_irrefl 0)⟩⟩
  | @step log before after e _ hstep _ ih =>
    have hbefore := ih fun e he => hsettled e (List.mem_cons_of_mem _ he)
    have he := hsettled e List.mem_cons_self
    cases hstep with
    | request pin => exact ⟨hbefore.fresh, hbefore.adopted, hbefore.counted⟩
    | skip immediateReaders => exact hbefore
    | look immediateReaders hloads hwalks =>
      obtain ⟨rfl, hverify⟩ := he
      rw [List.countP_cons_of_pos rfl]
      exact hbefore.look hwalks hverify

/-- A look can be made in every state. -/
private theorem exists_looks (hloads : Loads config desired) (s : AgentState) (n : Nat) :
    ∃ log s', RunsFrom config failLimit s log s' ∧ (∀ e ∈ log, e.Settled desired) ∧
      log.countP (·.isLook) = n := by
  induction n with
  | zero => exact ⟨[], s, .start rfl, nofun, rfl⟩
  | succ n ih =>
    obtain ⟨log, s', hrun, hsettled, hcount⟩ := ih
    have hlook : PassStep config failLimit s' (.passed [] (.looked desired _ fun _ => true)) _ :=
      .look [] hloads (List.Perm.refl _)
    refine ⟨_, _, hrun.step hlook trivial, ?_, ?_⟩
    · intro e he
      rcases List.mem_cons.mp he with rfl | he
      · exact ⟨rfl, fun _ _ => rfl⟩
      · exact hsettled e he
    · rw [List.countP_cons_of_pos (by rfl), hcount]

/-- Passes that all find the same keys lead to serving them exactly when no card that is there
is served with other keys. -/
private theorem converges_iff (hlimit : 0 < failLimit) (hloads : Loads config desired) :
    Converges config failLimit s desired ↔ Fresh s.keys desired := by
  constructor
  · intro h g hserved hg
    obtain ⟨log, s', hrun, hsettled, hcount⟩ := exists_looks hloads s failLimit
    rw [← filter_keys_of_present hrun hsettled hg hserved]
    exact h log s' hrun hsettled (Nat.le_of_eq hcount.symm) g
  · intro hfresh log s' hrun hsettled hlooks g
    have hsettling := settling hrun hsettled hfresh
    by_cases hg : g ∈ cardsOf desired
    · exact hsettling.fresh g (hsettling.adopted (by omega) g hg) hg
    · have hnone : desired.filter (fun k => k.guid = g) = [] := not_not.mp (mt mem_cardsOf.mpr hg)
      rw [hnone]
      by_contra hserved
      obtain ⟨hle, hlt⟩ := hsettling.counted g (mem_cardsOf.mpr hserved) hg
      have := hlt (by omega)
      omega

/-! ## One card at a time -/

/-- The condition on a pass: when it adopts a card, it drops every card that is served. -/
def SwapsAtOnce (failLimit : Nat) (_ : List PassEvent) (s : AgentState) : PassEvent → Prop
  | .passed immediateReaders (.looked desired _ verify) =>
    ∀ g ∈ cardsOf desired, g ∉ cardsOf s.keys → verify g →
      ∀ h ∈ cardsOf s.keys, Due failLimit immediateReaders s.served s.misses h
  | _ => True

theorem oneCard_iff {keys : List CachedKey} :
    OneCard keys ↔ ∀ g ∈ cardsOf keys, ∀ h ∈ cardsOf keys, g = h := by
  simp only [OneCard, cardsOf, List.forall_mem_map]

/-- The cards that are served after a pass: those that were served and are not dropped, and
those that are adopted. -/
private theorem mem_cards_reconcileOnce (hwalks : (Pass.looked desired order verify).Walks s)
    {g : Guid} :
    g ∈ cardsOf (reconcileOnce failLimit immediateReaders s (.looked desired order verify)).keys ↔
      g ∈ cardsOf s.keys ∧
          (g ∈ cardsOf desired ∨ ¬ Due failLimit immediateReaders s.served s.misses g) ∨
        g ∉ cardsOf s.keys ∧ g ∈ cardsOf desired ∧ verify g := by
  rw [mem_cardsOf, filter_keys_reconcileOnce hwalks]
  by_cases hg : g ∈ cardsOf desired
  · rw [if_neg (notDropped_of_mem hg)]
    by_cases hserved : g ∈ cardsOf s.keys
    · simpa [hg, hserved] using mem_cardsOf.mp hserved
    · by_cases hverify : verify g = true
      · simpa [hg, hserved, hverify] using mem_cardsOf.mp hg
      · simp [hserved, hverify]
  · have hnone : desired.filter (fun k => k.guid = g) = [] := not_not.mp (mt mem_cardsOf.mpr hg)
    by_cases hdue : Due failLimit immediateReaders s.served s.misses g
    · rw [if_pos (mem_countMisses_snd_iff.mpr ⟨hg, hdue⟩)]
      simp [hg, hdue]
    · rw [if_neg fun hdrop => hdue (mem_countMisses_snd_iff.mp hdrop).2, hnone, ite_self]
      by_cases hserved : g ∈ cardsOf s.keys
      · simpa [hserved, hdue] using mem_cardsOf.mp hserved
      · simp [hg, hserved]

/-- A pass that meets the condition leaves one card when one card was served and one is there. -/
private theorem OneCard.look (hkeys : OneCard s.keys) (hdesired : OneCard desired)
    (hwalks : (Pass.looked desired order verify).Walks s)
    (hswaps : SwapsAtOnce failLimit log s
      (.passed immediateReaders (.looked desired order verify))) :
    OneCard (reconcileOnce failLimit immediateReaders s (.looked desired order verify)).keys := by
  rw [oneCard_iff] at hkeys hdesired ⊢
  intro g hg h hh
  rw [mem_cards_reconcileOnce hwalks] at hg hh
  -- A card that was served is not kept beside one that is adopted.
  have hapart : ∀ {g h : Guid}, g ∈ cardsOf s.keys →
      (g ∈ cardsOf desired ∨ ¬ Due failLimit immediateReaders s.served s.misses g) →
      h ∉ cardsOf s.keys → h ∈ cardsOf desired → verify h → g = h := by
    intro g h hg hkept hh hnew hverify
    rcases hkept with hpresent | hdue
    · exact hdesired g hpresent h hnew
    · exact absurd (hswaps h hnew hh hverify g hg) hdue
  rcases hg with ⟨hg, hkept⟩ | ⟨hg, hnew, hverify⟩
  · rcases hh with ⟨hh, -⟩ | ⟨hh, hnew, hverify⟩
    · exact hkeys g hg h hh
    · exact hapart hg hkept hh hnew hverify
  · rcases hh with ⟨hh, hkept⟩ | ⟨-, hnew', -⟩
    · exact (hapart hh hkept hg hnew hverify).symm
    · exact hdesired g hnew h hnew'

/-- One card is served in every run whose passes meet the condition. -/
private theorem oneCard_of_swapsAtOnce (hone : config.allCards = false)
    (h : Run (Launched config) (PassStep config failLimit) (SwapsAtOnce failLimit) log s) :
    OneCard s.keys := by
  induction h with
  | start h => exact h.1.oneCard hone
  | step _ hstep hswaps ih =>
    cases hstep with
    | request pin => exact ih
    | skip immediateReaders => exact ih
    | look immediateReaders hloads hwalks => exact ih.look (hloads.oneCard hone) hwalks hswaps

end

/-- Passes that find the same keys lead to serving exactly these, from every state in which no
card that is there is served with other keys and from no other; and only one card is served,
unless all cards are asked for, in every run that drops the old card when it adopts a new one. -/
theorem selects_of_swapsAtOnce (config : KeyLoadConfig) {failLimit : Nat} (hlimit : 0 < failLimit) :
    (∀ s desired, Loads config desired →
      (Converges config failLimit s desired ↔ Fresh s.keys desired)) ∧
    (config.allCards = false → ∀ log s,
      Run (Launched config) (PassStep config failLimit) (SwapsAtOnce failLimit) log s →
        OneCard s.keys) :=
  ⟨fun _ _ hloads => converges_iff hlimit hloads,
    fun hone _ _ hrun => oneCard_of_swapsAtOnce hone hrun⟩

/-! ## A card whose key was made again, and a card that takes the place of another -/

/-- One card is served, with all its slots. -/
def sampleConfig : KeyLoadConfig := ⟨none, false, none, none⟩

/-- A card with one key. -/
def sampleToken (card key : UInt8) : PivToken :=
  ⟨⟨List.replicate 16 card, rfl⟩, "MockReader", some [(0x9a, [key])]⟩

/-- What the agent serves after it has found the card. -/
def sampleServed (card key : UInt8) : AgentState :=
  ⟨tokenKeys sampleConfig (sampleToken card key), samplePin, fun _ => 0⟩

theorem loads_sample (card key : UInt8) :
    Loads sampleConfig (tokenKeys sampleConfig (sampleToken card key)) :=
  ⟨fun _ _ => true, [sampleToken card key], rfl⟩

/-- A card whose key was made again is served with the old key for ever, and a card that is
put in the place of another is served beside it. -/
theorem not_selects_samples :
    (¬ ∀ s desired, Loads sampleConfig desired → Converges sampleConfig 3 s desired) ∧
    ¬ ∀ log s, Run (Launched sampleConfig) (PassStep sampleConfig 3) anyStep log s →
      OneCard s.keys := by
  constructor
  · intro h
    have hfresh := (converges_iff (by decide) (loads_sample 7 2)).mp
      (h (sampleServed 7 1) _ (loads_sample 7 2))
    exact absurd (hfresh _ List.mem_cons_self List.mem_cons_self) (by decide)
  · intro h
    have hlaunch : Run (Launched sampleConfig) (PassStep sampleConfig 3) anyStep []
        (sampleServed 7 1) := .start ⟨loads_sample 7 1, fun _ => rfl⟩
    have hwalks : (Pass.looked (tokenKeys sampleConfig (sampleToken 8 1)) [(sampleToken 8 1).guid]
        fun _ => true).Walks (sampleServed 7 1) := by
      unfold Pass.Walks
      decide
    have hpass := hlaunch.step (.look [] (loads_sample 8 1) hwalks) trivial
    exact absurd (h _ _ hpass) (by unfold OneCard; decide)

/-- The pass that finds no card. -/
def emptyPass : Pass := .looked [] [] fun _ => true

/-- The pass that finds a card and adopts it. -/
def samplePass (card key : UInt8) : Pass :=
  .looked (tokenKeys sampleConfig (sampleToken card key)) [(sampleToken card key).guid] fun _ => true

/-- An agent without cards serves a card that is put in after three passes; and a card that two
passes have missed is swapped at once when the third one finds another. -/
theorem selects_of_swapsAtOnce_sample :
    Converges sampleConfig 3 ⟨[], samplePin, fun _ => 0⟩
        (tokenKeys sampleConfig (sampleToken 7 1)) ∧
      ∃ s, Run (Launched sampleConfig) (PassStep sampleConfig 3) (SwapsAtOnce 3)
          [.passed [] (samplePass 8 1), .passed [] emptyPass, .passed [] emptyPass] s ∧
        s.keys = (sampleServed 8 1).keys ∧ OneCard s.keys := by
  obtain ⟨hconverges, hone⟩ := selects_of_swapsAtOnce sampleConfig (by decide : 0 < 3)
  have hlaunch : Run (Launched sampleConfig) (PassStep sampleConfig 3) (SwapsAtOnce 3) []
      (sampleServed 7 1) := .start ⟨loads_sample 7 1, fun _ => rfl⟩
  have hnone : Loads sampleConfig [] := ⟨fun _ _ => true, [], rfl⟩
  have hempty : ∀ s, emptyPass.Walks s := fun _ => List.Perm.refl []
  have hfirst := hlaunch.step (.look [] hnone (hempty _)) nofun
  have hsecond := hfirst.step (.look [] hnone (hempty _)) nofun
  have hwalks : (samplePass 8 1).Walks (reconcileOnce 3 [] (reconcileOnce 3 [] (sampleServed 7 1)
      emptyPass) emptyPass) := by
    unfold samplePass Pass.Walks
    decide
  have hthird := hsecond.step (.look [] (loads_sample 8 1) hwalks) (by
    -- The card 7 is in its third pass without an answer.
    intro g _ _ _ h hserved
    rw [List.mem_singleton.mp hserved]
    exact .inr ⟨by decide, by decide⟩)
  exact ⟨(hconverges _ _ (loads_sample 7 1)).mpr nofun, _, hthird, by decide, hone rfl _ _ hthird⟩

end Piggy.Agent
