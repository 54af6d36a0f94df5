import Piggy.Box.Shares
import Piggy.Core.Runs
import Mathlib.Data.Finset.Card

/-!
# Opening parts and recovering in any order

The parts of an ebox are opened one at a time, and recovering may be tried in between. As long
as no try takes shares in vain, what was opened stays opened, and the try that finds enough
shares sets the key that was sealed.
-/

namespace Piggy.Box

open Piggy.Core

/-! ## An ebox on its way to being recovered -/

/-- A part with the sealed box of another one, whose contents are hidden or the same. -/
structure EboxPart.Shows (part shown : EboxPart) : Prop where
  box : shown.pivBox.iv = part.pivBox.iv ∧ shown.pivBox.nonce = part.pivBox.nonce ∧
    shown.pivBox.ciphertext = part.pivBox.ciphertext
  contents : shown.pivBox.plaintext = none ∨ shown.pivBox.plaintext = part.pivBox.plaintext

/-- A config whose parts show the parts of another one. -/
structure EboxConfig.Shows (config shown : EboxConfig) : Prop where
  configType : shown.configType = config.configType
  n : shown.n = config.n
  nonce : shown.nonce = config.nonce
  parts : List.Forall₂ EboxPart.Shows config.parts shown.parts

/-- An ebox whose configs show the configs of another one. -/
structure Ebox.Shows (e shown : Ebox) : Prop where
  recoveryIv : shown.recoveryIv = e.recoveryIv
  recoveryEnc : shown.recoveryEnc = e.recoveryEnc
  configs : List.Forall₂ EboxConfig.Shows e.configs shown.configs

theorem EboxPart.Shows.refl (part : EboxPart) : part.Shows part := ⟨⟨rfl, rfl, rfl⟩, .inr rfl⟩

theorem Ebox.Shows.refl (e : Ebox) : e.Shows e :=
  ⟨rfl, rfl, List.forall₂_same.mpr fun _ _ =>
    ⟨rfl, rfl, rfl, List.forall₂_same.mpr fun part _ => .refl part⟩⟩

/-- What is read back from the serialization of an ebox shows it, with all contents hidden. -/
theorem Ebox.shows_asRead (e : Ebox) : e.Shows e.asRead := by
  refine ⟨rfl, rfl, List.forall₂_map_right_iff.mpr (List.forall₂_same.mpr ?_)⟩
  intro config _
  refine ⟨rfl, rfl, rfl, List.forall₂_map_right_iff.mpr (List.forall₂_same.mpr ?_)⟩
  intro part _
  exact ⟨⟨rfl, rfl, rfl⟩, .inl rfl⟩

/-- The part at a place of an ebox. -/
def Ebox.partAt? (e : Ebox) (i j : Nat) : Option EboxPart :=
  e.configs[i]?.bind fun config => config.parts[j]?

/-- Puts a part in its place. -/
def Ebox.setPart (e : Ebox) (i : Nat) (config : EboxConfig) (j : Nat) (part : EboxPart) : Ebox :=
  { e with configs := e.configs.set i { config with parts := config.parts.set j part } }

/-- A part that holds its contents. -/
def OpenedAt (e : Ebox) (i j : Nat) : Prop :=
  ∃ part, e.partAt? i j = some part ∧ part.pivBox.plaintext.isSome = true

/-! ## Steps -/

/-- What is done with an ebox on the way. -/
inductive ShareEvent where
  | opens (config part : Nat)
  | recovers (config : Nat)
  deriving DecidableEq

section

variable {Scalar Point Rng Share : Type} (ssl : OpenSsl Scalar Point Rng) (sharks : Sharks Share)

/-- A part is opened with the true secret of its sealed box, or recovering with a RECOVERY
config is tried. -/
inductive ShareStep (e : Ebox) : Ebox → ShareEvent → Ebox → Prop where
  | opens {s : Ebox} {i j : Nat} {created part : EboxPart} {config : EboxConfig} {secret : Bytes}
      {box : PivBox} (hcreated : e.partAt? i j = some created)
      (hconfig : s.configs[i]? = some config) (hpart : config.parts[j]? = some part)
      (hsecret : TrueSecret ssl created.pivBox secret)
      (hopen : openWithSecret ssl part.pivBox secret = .ok box) :
      ShareStep e s (.opens i j) (s.setPart i config j { part with pivBox := box })
  | recovers {s : Ebox} {i : Nat} {config : EboxConfig} (hconfig : s.configs[i]? = some config)
      (htype : config.configType = .recovery) :
      ShareStep e s (.recovers i) (s.recover ssl sharks i).2

/-- No try takes shares in vain. -/
def SparesShares (_ : List ShareEvent) (s : Ebox) : ShareEvent → Prop
  | .opens _ _ => True
  | .recovers i => ∀ config, s.configs[i]? = some config → Spares ssl sharks s config

end

/-! ## Enough shares -/

section

variable {Scalar Point Rng Share : Type} {ssl : OpenSsl Scalar Point Rng} {dealer : Dealer Rng}
  {sharks : Sharks Share}

/-- The contents of the opened parts. -/
def contentsOf (parts : List EboxPart) : List Bytes :=
  parts.filterMap fun part => part.pivBox.plaintext

theorem sharesOf_eq (parts : List EboxPart) :
    sharesOf sharks parts =
      (contentsOf parts).filterMap fun data => (sharks.tryFrom data).toOption := by
  rw [contentsOf, List.filterMap_filterMap]
  rfl

theorem length_sharesOf_le (parts : List EboxPart) :
    (sharesOf sharks parts).length ≤ (contentsOf parts).length := by
  rw [sharesOf_eq]
  exact List.length_filterMap_le _ _

/-- What is opened is among what was sealed, in the same order. -/
theorem contentsOf_sublist {plains : List Bytes} {parts shown : List EboxPart}
    (hsealed : SealedParts ssl plains parts) (hshown : List.Forall₂ EboxPart.Shows parts shown) :
    (contentsOf shown).Sublist plains := by
  induction hsealed generalizing shown with
  | nil =>
    cases hshown
    exact .refl _
  | @cons plain part plains parts hplain _ ih =>
    cases hshown with
    | @cons _ part' _ shown hpart hshown =>
      rw [contentsOf, List.filterMap_cons]
      rcases hpart.contents with hnone | hsome
      · rw [hnone]
        exact (ih hshown).cons _
      · rw [hsome, hplain.1]
        exact (ih hshown).cons_cons _

/-- As many contents as there are opened parts. -/
theorem card_le_length_contentsOf {parts : List EboxPart} {js : Finset Nat}
    (h : ∀ j ∈ js, ∃ part, parts[j]? = some part ∧ part.pivBox.plaintext.isSome = true) :
    js.card ≤ (contentsOf parts).length := by
  have hopened : js.toList ⊆ ((parts.zipIdx.filter fun x => x.1.pivBox.plaintext.isSome).map
      (·.2)) := by
    intro j hj
    obtain ⟨part, hpart, hsome⟩ := h j (Finset.mem_toList.mp hj)
    refine List.mem_map.mpr ⟨(part, j), List.mem_filter.mpr ⟨?_, hsome⟩, rfl⟩
    rw [List.mem_zipIdx_iff_getElem?]
    exact hpart
  have hle := (js.nodup_toList).length_le_of_subset hopened
  rw [Finset.length_toList, List.length_map, ← List.countP_eq_length_filter] at hle
  have hcount : parts.zipIdx.countP (fun x => x.1.pivBox.plaintext.isSome) =
      (parts.zipIdx.map Prod.fst).countP fun part => part.pivBox.plaintext.isSome := by
    rw [List.countP_map]
    rfl
  rw [hcount, List.zipIdx_map_fst] at hle
  rw [contentsOf, List.length_filterMap_eq_countP]
  exact hle

theorem zipWith_xor_cancel {nonce key : Bytes} (h : nonce.length = key.length) :
    List.zipWith (· ^^^ ·) (List.zipWith (· ^^^ ·) nonce key) nonce = key := by
  induction nonce generalizing key with
  | nil => exact (List.length_eq_zero_iff.mp h.symm).symm
  | cons b nonce ih =>
    cases key with
    | nil => cases h
    | cons c key =>
      have hbyte : b ^^^ c ^^^ b = c := by
        rw [UInt8.xor_comm b c, UInt8.xor_assoc, UInt8.xor_self, UInt8.xor_zero]
      rw [List.zipWith_cons_cons, List.zipWith_cons_cons, ih (Nat.succ.inj h), hbyte]

/-- Shares that all read give their number of shares. -/
theorem filterMap_toOption {given : List Bytes} {shares : List Share}
    (h : List.Forall₂ (fun data share => sharks.tryFrom data = .ok share) given shares) :
    given.filterMap (fun data => (sharks.tryFrom data).toOption) = shares := by
  induction h with
  | nil => rfl
  | cons hread _ ih =>
    rw [List.filterMap_cons, hread, ih]
    rfl

variable {key : Bytes} {e s : Ebox}

/-- The config that a config shows. -/
theorem Ebox.Shows.config {i : Nat} {config : EboxConfig} (h : e.Shows s)
    (hconfig : s.configs[i]? = some config) :
    ∃ created, e.configs[i]? = some created ∧ created.Shows config := by
  obtain ⟨hi, hget⟩ := List.getElem?_eq_some_iff.mp hconfig
  have hi' : i < e.configs.length := by
    rw [h.configs.length_eq]
    exact hi
  refine ⟨_, List.getElem?_eq_getElem hi', ?_⟩
  have hat := h.configs.get hi' hi
  rwa [List.get_eq_getElem, List.get_eq_getElem, hget] at hat

/-- As many opened parts of a RECOVERY config as its threshold recover the key. -/
theorem recoversTo_of_opened (hsharks : sharks.Lawful dealer) (hshares : SharesKey ssl dealer key e)
    (hshows : e.Shows s) {i : Nat} {config : EboxConfig} (hconfig : s.configs[i]? = some config)
    (htype : config.configType = .recovery) (hsome : contentsOf config.parts ≠ [])
    (hn : config.n.toNat ≤ (contentsOf config.parts).length) :
    RecoversTo ssl sharks s config key := by
  obtain ⟨recoveryKey, hlen, ⟨plain, hdec, hkey⟩, hdealt⟩ := hshares.box
  obtain ⟨created, hcreated, hshown⟩ := hshows.config hconfig
  obtain ⟨m, rng, dealt, hm, hnonce, hdealer, hsealed⟩ :=
    hdealt _ (List.mem_of_getElem? hcreated) (hshown.configType.symm.trans htype)
  have hnonce' : created.nonce.length = recoveryKey.length := hnonce.trans hlen.symm
  have hsecret : List.zipWith (· ^^^ ·) created.nonce recoveryKey ≠ [] := by
    intro hnil
    have hzero := congrArg List.length hnil
    rw [List.length_zipWith, hnonce, hlen] at hzero
    cases hzero
  have hgiven := contentsOf_sublist hsealed hshown.parts
  have hnodup := (hdealer.sublist.nodup (hsharks.nodup _ _ m rng hsecret hm)).sublist hgiven
  rw [hshown.n] at hn
  obtain ⟨shares, hread, hcombine⟩ := hsharks.recover_dealt _ _ m rng hsecret hm _ hsome hn hnodup
    fun _ hmem => hdealer.subset (hgiven.subset hmem)
  have hshares : sharesOf sharks config.parts = shares := by
    rw [sharesOf_eq]
    exact filterMap_toOption hread
  rw [RecoversTo, hshares, hshown.n, hshown.nonce, hshows.recoveryIv, hshows.recoveryEnc]
  refine ⟨hread.length_eq ▸ hn, _, plain, hcombine, ?_, ?_, hkey⟩
  · rw [List.length_zipWith, hnonce, hlen]
    rfl
  · rw [zipWith_xor_cancel hnonce']
    exact hdec

/-- Nothing but the sealed key is recovered. -/
theorem eq_of_recoversTo (hsharks : sharks.Lawful dealer) (hshares : SharesKey ssl dealer key e)
    (hshows : e.Shows s) {i : Nat} {config : EboxConfig} (hconfig : s.configs[i]? = some config)
    (htype : config.configType = .recovery) {k : Bytes}
    (h : RecoversTo ssl sharks s config k) : k = key := by
  have hsome : contentsOf config.parts ≠ [] := by
    intro hnil
    obtain ⟨e, hfails⟩ := hsharks.recover_nil config.n
    obtain ⟨-, configKey, -, hcombine, -⟩ := h
    rw [sharesOf_eq, hnil, List.filterMap_nil, hfails] at hcombine
    cases hcombine
  have hrecovers := recoversTo_of_opened hsharks hshares hshows hconfig htype hsome
    (h.1.trans (length_sharesOf_le _))
  have hok := openRecoveryBox_ok.mpr hrecovers
  rw [openRecoveryBox_ok.mpr h] at hok
  exact Except.ok.inj hok

/-! ## One step -/

theorem partAt?_setPart {i j : Nat} {config : EboxConfig} {part part' : EboxPart}
    (hconfig : s.configs[i]? = some config) (hpart : config.parts[j]? = some part) (i' j' : Nat) :
    (s.setPart i config j part').partAt? i' j' =
      if i' = i ∧ j' = j then some part' else s.partAt? i' j' := by
  rw [Ebox.partAt?, Ebox.partAt?, Ebox.setPart]
  by_cases hi : i = i'
  · subst hi
    rw [List.getElem?_set_self (List.getElem?_eq_some_iff.mp hconfig).1, hconfig]
    dsimp only [Option.bind_some]
    by_cases hj : j = j'
    · subst hj
      rw [if_pos ⟨rfl, rfl⟩, List.getElem?_set_self (List.getElem?_eq_some_iff.mp hpart).1]
    · rw [if_neg fun h => hj h.2.symm, List.getElem?_set_ne hj]
  · rw [if_neg fun h => hi h.1.symm, List.getElem?_set_ne hi]

/-- A place of two related lists is overwritten by something related. -/
theorem forall₂_set {α β : Type} {R : α → β → Prop} {l : List α} {l' : List β}
    (h : List.Forall₂ R l l') {j : Nat} {b : β} (hb : ∀ a, l[j]? = some a → R a b) :
    List.Forall₂ R l (l'.set j b) := by
  induction h generalizing j with
  | nil => exact .nil
  | cons hab h ih =>
    cases j with
    | zero => exact .cons (hb _ rfl) h
    | succ j => exact .cons hab (ih hb)

theorem SealedParts.getElem? {plains : List Bytes} {parts : List EboxPart}
    (h : SealedParts ssl plains parts) {j : Nat} {part : EboxPart} (hpart : parts[j]? = some part) :
    ∃ plain d tplPart, part.pivBox.plaintext = some plain ∧
      SealedPart ssl plain d tplPart part := by
  induction h generalizing j with
  | nil => cases hpart
  | @cons plain _ _ _ hhead _ ih =>
    cases j with
    | zero =>
      cases hpart
      obtain ⟨hplain, d, tplPart, hsealed⟩ := hhead
      exact ⟨plain, d, tplPart, hplain, hsealed⟩
    | succ j => exact ih hpart

/-- Opening a part with its true secret shows the contents it was created with. -/
theorem shows_opened (hssl : ssl.Lawful) (hshares : SharesKey ssl dealer key e) {i j : Nat}
    {created part : EboxPart} {secret : Bytes} {box : PivBox}
    (hcreated : e.partAt? i j = some created) (hshown : created.Shows part)
    (hsecret : TrueSecret ssl created.pivBox secret)
    (hopen : openWithSecret ssl part.pivBox secret = .ok box) :
    created.Shows { part with pivBox := box } ∧ box.plaintext.isSome = true := by
  obtain ⟨config, hconfig, hpart⟩ := Option.bind_eq_some_iff.mp hcreated
  obtain ⟨plains, hall⟩ := hshares.contents config (List.mem_of_getElem? hconfig)
  obtain ⟨plain, d, tplPart, hplain, hsealed⟩ := hall.getElem? hpart
  obtain ⟨-, padded, hdec, hpad⟩ := hsealed.opensTo_true hssl hsecret
  obtain ⟨hiv, hnonce, hct⟩ := hshown.box
  obtain ⟨plain', ⟨-, padded', hdec', hpad'⟩, rfl⟩ := openWithSecret_ok.mp hopen
  rw [hiv, hnonce, hct, hdec] at hdec'
  cases hdec'
  rw [hpad] at hpad'
  cases hpad'
  exact ⟨⟨⟨hiv, hnonce, hct⟩, .inr hplain.symm⟩, rfl⟩

theorem Ebox.Shows.setPart {i j : Nat} {config : EboxConfig} {part' : EboxPart}
    (h : e.Shows s) (hconfig : s.configs[i]? = some config)
    (hpart : ∀ created, e.partAt? i j = some created → created.Shows part') :
    e.Shows (s.setPart i config j part') := by
  obtain ⟨created, hcreated, hshown⟩ := h.config hconfig
  refine ⟨h.recoveryIv, h.recoveryEnc, forall₂_set h.configs ?_⟩
  intro created' hcreated'
  obtain rfl := Option.some.inj (hcreated.symm.trans hcreated')
  refine ⟨hshown.configType, hshown.n, hshown.nonce, forall₂_set hshown.parts ?_⟩
  intro sealed hsealed
  exact hpart sealed (Option.bind_eq_some_iff.mpr ⟨created, hcreated, hsealed⟩)

/-- Emptying a config keeps what an ebox shows. -/
theorem Ebox.Shows.emptied {i : Nat} {config : EboxConfig} (h : e.Shows s)
    (hconfig : s.configs[i]? = some config) : e.Shows (s.emptied i config) := by
  obtain ⟨created, hcreated, hshown⟩ := h.config hconfig
  refine ⟨h.recoveryIv, h.recoveryEnc, forall₂_set h.configs ?_⟩
  intro created' hcreated'
  obtain rfl := Option.some.inj (hcreated.symm.trans hcreated')
  refine ⟨hshown.configType, hshown.n, hshown.nonce, List.forall₂_map_right_iff.mpr ?_⟩
  exact hshown.parts.imp fun _ _ hpart => ⟨hpart.box, .inl rfl⟩

/-- A try that takes no shares in vain changes nothing or sets the key. -/
theorem recover_of_spares {i : Nat} {config : EboxConfig} (hconfig : s.configs[i]? = some config)
    (hspares : Spares ssl sharks s config) :
    (s.recover ssl sharks i).2 = s ∨
      ∃ k, RecoversTo ssl sharks s config k ∧
        (s.recover ssl sharks i).2 = { s.emptied i config with key := some k } := by
  generalize hcall : s.recover ssl sharks i = call
  obtain ⟨result, after⟩ := call
  cases result with
  | error fault => exact .inl ((recoverAtomic_iff hconfig).mpr hspares fault after hcall)
  | ok =>
    right
    have hkey : s.key = none := by
      by_contra hkey
      rw [Ebox.recover, if_pos (Option.isSome_iff_ne_none.mpr hkey)] at hcall
      cases hcall
    by_cases hrecovers : ∃ k, RecoversTo ssl sharks s config k
    · obtain ⟨k, hk⟩ := hrecovers
      rw [recover_of_recoversTo hkey hconfig hk] at hcall
      cases hcall
      exact ⟨k, hk, rfl⟩
    · obtain ⟨error, hfails⟩ := recover_of_not_recoversTo hkey hconfig hrecovers
      rw [hfails] at hcall
      cases hcall

/-! ## Runs -/

/-- What is so after a run: the boxes are those that were created, the key is the sealed one,
and while there is none, what was opened is open. -/
structure OnTheWay (key : Bytes) (e s₀ : Ebox) (log : List ShareEvent) (s : Ebox) : Prop where
  shows : e.Shows s
  key_eq : ∀ k, s.key = some k → k = key
  opened : s.key = none → ∀ i j, OpenedAt s₀ i j ∨ .opens i j ∈ log → OpenedAt s i j

/-- A step that takes no shares in vain keeps it. -/
theorem OnTheWay.step (hssl : ssl.Lawful) (hsharks : sharks.Lawful dealer)
    (hshares : SharesKey ssl dealer key e) {s₀ s' : Ebox} {log : List ShareEvent}
    {event : ShareEvent} (h : OnTheWay key e s₀ log s) (hstep : ShareStep ssl sharks e s event s')
    (hspares : SparesShares ssl sharks log s event) : OnTheWay key e s₀ (event :: log) s' := by
  cases hstep with
  | @opens i j created part config secret box hcreated hconfig hpart hsecret hopen =>
    obtain ⟨config', hconfig', hshown⟩ := h.shows.config hconfig
    obtain ⟨config'', hconfig'', hpart'⟩ := Option.bind_eq_some_iff.mp hcreated
    obtain rfl := Option.some.inj (hconfig'.symm.trans hconfig'')
    have hpartShown : created.Shows part := by
      obtain ⟨hj, rfl⟩ := List.getElem?_eq_some_iff.mp hpart
      obtain ⟨hj', rfl⟩ := List.getElem?_eq_some_iff.mp hpart'
      exact hshown.parts.get hj' hj
    obtain ⟨hopened, hsome⟩ := shows_opened hssl hshares hcreated hpartShown hsecret hopen
    refine ⟨h.shows.setPart hconfig ?_, h.key_eq, ?_⟩
    · intro created' hcreated'
      obtain rfl := Option.some.inj (hcreated.symm.trans hcreated')
      exact hopened
    · intro hkey i' j' hwas
      rw [OpenedAt, partAt?_setPart hconfig hpart]
      by_cases hat : i' = i ∧ j' = j
      · rw [if_pos hat]
        exact ⟨_, rfl, hsome⟩
      · rw [if_neg hat]
        refine h.opened hkey i' j' (hwas.imp_right fun hmem => ?_)
        rcases List.mem_cons.mp hmem with heq | hmem
        · cases heq
          exact absurd ⟨rfl, rfl⟩ hat
        · exact hmem
  | @recovers i config hconfig htype =>
    rcases recover_of_spares hconfig (hspares config hconfig) with hsame | ⟨k, hk, hset⟩
    · rw [hsame]
      refine ⟨h.shows, h.key_eq, ?_⟩
      intro hkey i' j' hwas
      refine h.opened hkey i' j' (hwas.imp_right fun hmem => ?_)
      rcases List.mem_cons.mp hmem with heq | hmem
      · cases heq
      · exact hmem
    · rw [hset]
      have hshown := h.shows.emptied hconfig
      obtain rfl := eq_of_recoversTo hsharks hshares h.shows hconfig htype hk
      exact ⟨⟨hshown.recoveryIv, hshown.recoveryEnc, hshown.configs⟩,
        fun k' hk' => (Option.some.inj hk').symm, nofun⟩

/-- A failing call leaves the ebox as it was exactly when there is a key already, no part of the
config is opened, or the opened ones are enough. As long as every call is such, the key that was
sealed is the only one there can be, and while there is none, the next call with a config of
which as many parts were opened as its threshold says sets it. -/
theorem recover_spares (hssl : ssl.Lawful) (hsharks : sharks.Lawful dealer) :
    (∀ (ebox : Ebox) i config, ebox.configs[i]? = some config → config.configType = .recovery →
      (RecoverAtomic ssl sharks ebox i ↔ Spares ssl sharks ebox config)) ∧
    ∀ tpl key ty rng rng' e, Ebox.create ssl dealer tpl key ty rng = .ok (e, rng') →
      ∀ s₀, e.Shows s₀ → s₀.key = none → ∀ log s,
        Run (· = s₀) (ShareStep ssl sharks e) (SparesShares ssl sharks) log s →
        (∀ k, s.key = some k → k = key) ∧
        ∀ i config, s.configs[i]? = some config → config.configType = .recovery →
          ∀ js : Finset Nat, js.Nonempty → config.n.toNat ≤ js.card →
            (∀ j ∈ js, OpenedAt s₀ i j ∨ .opens i j ∈ log) → s.key = none →
            (s.recover ssl sharks i).1 = .ok () ∧ (s.recover ssl sharks i).2.key = some key := by
  refine ⟨fun ebox i config hconfig _ => recoverAtomic_iff hconfig, ?_⟩
  intro tpl key ty rng rng' e hcreate s₀ hshows hkey₀ log s hrun
  have hshares := sharesKey_of_create hssl hcreate
  have hway : OnTheWay key e s₀ log s := by
    refine hrun.invariant ?_ ?_
    · rintro s rfl
      refine ⟨hshows, ?_, fun _ i j hwas => hwas.resolve_right List.not_mem_nil⟩
      intro k hk
      rw [hkey₀] at hk
      cases hk
    · intro log s event s' _ hway hstep hspares
      exact hway.step hssl hsharks hshares hstep hspares
  refine ⟨hway.key_eq, ?_⟩
  intro i config hconfig htype js hne hn hopened hkey
  have hparts : ∀ j ∈ js, ∃ part, config.parts[j]? = some part ∧
      part.pivBox.plaintext.isSome = true := by
    intro j hj
    obtain ⟨part, hpart, hsome⟩ := hway.opened hkey i j (hopened j hj)
    rw [Ebox.partAt?, hconfig, Option.bind_some] at hpart
    exact ⟨part, hpart, hsome⟩
  have hcard := card_le_length_contentsOf hparts
  have hsome : contentsOf config.parts ≠ [] := by
    intro hnil
    rw [hnil] at hcard
    exact absurd (Finset.card_pos.mpr hne) (Nat.not_lt.mpr hcard)
  have hrecovers := recoversTo_of_opened hsharks hshares hway.shows hconfig htype hsome
    (hn.trans hcard)
  rw [recover_of_recoversTo hkey hconfig hrecovers]
  exact ⟨rfl, rfl⟩

end

/-! ## Two shares of three -/

/-- A dealer that numbers copies of the secret. -/
def numberedDealer : Dealer Nat := fun _ secret m rng =>
  ((List.range m).map fun x => UInt8.ofNat (x + 1) :: secret, rng)

/-- Numbered copies of a secret are combined once there are enough of them. -/
def numberedSharks : Sharks Bytes where
  tryFrom data := if data.length < 2 then .error "not enough length for share" else .ok data
  recover n shares :=
    match shares with
    | [] => .error "not enough shares to recover original secret"
    | share :: _ =>
      if shares.length < n.toNat then .error "not enough shares to recover original secret"
      else .ok share.tail

theorem numberedSharks_lawful : numberedSharks.Lawful numberedDealer where
  nodup n secret m rng _ hm := by
    refine List.Nodup.map_on ?_ List.nodup_range
    intro x hx y hy heq
    have hbyte := congrArg UInt8.toNat (List.cons.inj heq).1
    rw [List.mem_range] at hx hy
    rw [UInt8.toNat_ofNat_of_lt' (Nat.lt_succ_of_le (hx.trans_le hm)),
      UInt8.toNat_ofNat_of_lt' (Nat.lt_succ_of_le (hy.trans_le hm))] at hbyte
    exact Nat.succ.inj hbyte
  recover_dealt n secret m rng hsecret _ given hne hn _ hdealt := by
    have hshare : ∀ data ∈ given, ∃ x, data = x :: secret := by
      intro data hdata
      obtain ⟨x, -, rfl⟩ := List.mem_map.mp (hdealt hdata)
      exact ⟨_, rfl⟩
    refine ⟨given, List.forall₂_same.mpr ?_, ?_⟩
    · intro data hdata
      obtain ⟨x, rfl⟩ := hshare data hdata
      refine if_neg (Nat.not_lt.mpr ?_)
      exact Nat.succ_le_succ (List.length_pos_iff.mpr hsecret)
    · cases given with
      | nil => exact absurd rfl hne
      | cons data given =>
        obtain ⟨x, rfl⟩ := hshare data List.mem_cons_self
        exact if_neg (Nat.not_lt.mpr hn)
  recover_nil n := ⟨_, rfl⟩

/-- A part for a point of the sample library. -/
def sampleTplPart (p : UInt8) : EboxTplPart where
  guid := none
  slot := defaultSlot
  name := none
  pubkey := OpenSsl.samplePoint .compressed p
  pubkeyCurve := .nistP256
  cak := none

/-- A RECOVERY config of which two parts of three are needed. -/
def twoOfThree : EboxTemplate where
  version := 1
  configs := [{ configType := .recovery, n := 2, parts := [5, 6, 7].map sampleTplPart }]

/-- The box of a part of the sample ebox: its point, its random bytes and its share. -/
def twoOfThreeBox (p random : UInt8) (share : Bytes) : PivBox :=
  { PivBox.new .nistP256 with
    nonce := List.replicate 16 random
    recipientPubkey := OpenSsl.samplePoint .compressed p
    ephemeralPubkey := OpenSsl.samplePoint .compressed 3
    iv := List.replicate 12 (random + 1)
    ciphertext := pkcs7Pad share 16 ++
      OpenSsl.sampleTag (kdfSha512 OpenSsl.sample [3 * p] (List.replicate 16 random))
    plaintext := some share }

/-- The part for a point, with the number of its share. -/
def twoOfThreePart (p random x : UInt8) : EboxPart where
  guid := none
  slot := defaultSlot
  name := none
  pubkey := some (OpenSsl.samplePoint .compressed p)
  pubkeyCurve := some .nistP256
  cak := none
  pivBox := twoOfThreeBox p random (x :: List.replicate 32 2)

/-- What sealing the key 7 to the template gives. -/
def twoOfThreeEbox : Ebox where
  version := eboxVersion
  eboxType := .key
  recoveryCipher := recoveryCipherName
  recoveryIv := List.replicate 12 1
  recoveryEnc := record recovKey [7] ++ OpenSsl.sampleTag (List.replicate 32 0)
  ephemeralKeys := [{ curve := .nistP256, pubkey := OpenSsl.samplePoint .compressed 3 }]
  configs := [{ configType := .recovery, n := 2, nonce := List.replicate 32 2, parts :=
    [twoOfThreePart 5 4 1, twoOfThreePart 6 6 2, twoOfThreePart 7 8 3] }]
  key := none

theorem create_twoOfThree :
    Ebox.create OpenSsl.sample numberedDealer twoOfThree [7] .key 0 =
      .ok (twoOfThreeEbox, 10) := by
  decide +kernel

/-- A part that was read back and opened. -/
def openedPart (p random x : UInt8) : EboxPart :=
  let part := (twoOfThreePart p random x).asRead
  { part with pivBox := { part.pivBox with plaintext := some (x :: List.replicate 32 2) } }

/-- The config that was read back, with some parts opened. -/
def shownConfig (first second : Bool) : EboxConfig where
  configType := .recovery
  n := 2
  nonce := List.replicate 32 2
  parts :=
    [if first then openedPart 5 4 1 else (twoOfThreePart 5 4 1).asRead,
      if second then openedPart 6 6 2 else (twoOfThreePart 6 6 2).asRead,
      (twoOfThreePart 7 8 3).asRead]

/-- The ebox that was read back, with some parts opened. -/
def twoOfThreeShown (first second : Bool) : Ebox :=
  { twoOfThreeEbox.asRead with configs := [shownConfig first second] }

/-- The second part is opened. -/
theorem opens_second (first : Bool) : ShareStep OpenSsl.sample numberedSharks twoOfThreeEbox
    (twoOfThreeShown first false) (.opens 0 1) (twoOfThreeShown first true) := by
  have hsecret : TrueSecret OpenSsl.sample (twoOfThreePart 6 6 2).pivBox [18] :=
    ⟨6, 3, rfl, rfl, rfl⟩
  have hopen : openWithSecret OpenSsl.sample (twoOfThreePart 6 6 2).asRead.pivBox [18] =
      .ok (openedPart 6 6 2).pivBox := rfl
  have hconfig : (twoOfThreeShown first false).configs[0]? = some (shownConfig first false) := rfl
  exact .opens rfl hconfig rfl hsecret hopen

/-- The first part is opened. -/
theorem opens_first (second : Bool) : ShareStep OpenSsl.sample numberedSharks twoOfThreeEbox
    (twoOfThreeShown false second) (.opens 0 0) (twoOfThreeShown true second) := by
  have hsecret : TrueSecret OpenSsl.sample (twoOfThreePart 5 4 1).pivBox [15] :=
    ⟨5, 3, rfl, rfl, rfl⟩
  have hopen : openWithSecret OpenSsl.sample (twoOfThreePart 5 4 1).asRead.pivBox [15] =
      .ok (openedPart 5 4 1).pivBox := rfl
  have hconfig : (twoOfThreeShown false second).configs[0]? = some (shownConfig false second) := rfl
  exact .opens rfl hconfig rfl hsecret hopen

/-- Two of three parts are opened, and the key is recovered. -/
theorem recover_spares_twoOfThree :
    Run (· = twoOfThreeEbox.asRead) (ShareStep OpenSsl.sample numberedSharks twoOfThreeEbox)
      (SparesShares OpenSsl.sample numberedSharks) [.opens 0 0, .opens 0 1]
      (twoOfThreeShown true true) ∧
    ((twoOfThreeShown true true).recover OpenSsl.sample numberedSharks 0).1 = .ok () ∧
    ((twoOfThreeShown true true).recover OpenSsl.sample numberedSharks 0).2.key = some [7] := by
  have hrun : Run (· = twoOfThreeEbox.asRead)
      (ShareStep OpenSsl.sample numberedSharks twoOfThreeEbox)
      (SparesShares OpenSsl.sample numberedSharks) [.opens 0 0, .opens 0 1]
      (twoOfThreeShown true true) :=
    .step (.step (.start rfl) (opens_second false) trivial) (opens_first true) trivial
  refine ⟨hrun, ?_⟩
  refine ((recover_spares OpenSsl.sample_lawful numberedSharks_lawful).2 _ _ _ _ _ _
    create_twoOfThree _ (Ebox.shows_asRead _) rfl _ _ hrun).2 0 _ rfl rfl {0, 1} ⟨0, by decide⟩
    (Nat.le_refl 2) ?_ rfl
  intro j hj
  right
  rcases Finset.mem_insert.mp hj with rfl | hj
  · exact .head _
  · obtain rfl := Finset.mem_singleton.mp hj
    exact .tail _ (.head _)

/-- A try with one share of two fails and takes the share. After it the other part does not
help any more. -/
theorem recover_wastes_share :
    Run (· = twoOfThreeEbox.asRead) (ShareStep OpenSsl.sample numberedSharks twoOfThreeEbox) anyStep
      [.opens 0 1] (twoOfThreeShown false true) ∧
    (twoOfThreeShown false true).recover OpenSsl.sample numberedSharks 0 =
      (.error (.error (.thresholdNotMet 1 2)), twoOfThreeShown false false) ∧
    twoOfThreeShown false false ≠ twoOfThreeShown false true ∧
    Run (· = twoOfThreeEbox.asRead) (ShareStep OpenSsl.sample numberedSharks twoOfThreeEbox) anyStep
      [.opens 0 0, .recovers 0, .opens 0 1] (twoOfThreeShown true false) ∧
    (twoOfThreeShown true false).recover OpenSsl.sample numberedSharks 0 =
      (.error (.error (.thresholdNotMet 1 2)), twoOfThreeShown false false) := by
  have hrun : Run (· = twoOfThreeEbox.asRead)
      (ShareStep OpenSsl.sample numberedSharks twoOfThreeEbox) anyStep
      [.opens 0 1] (twoOfThreeShown false true) :=
    .step (.start rfl) (opens_second false) trivial
  have hfails : (twoOfThreeShown false true).recover OpenSsl.sample numberedSharks 0 =
      (.error (.error (.thresholdNotMet 1 2)), twoOfThreeShown false false) := by
    decide +kernel
  have hstep : ShareStep OpenSsl.sample numberedSharks twoOfThreeEbox (twoOfThreeShown false true)
      (.recovers 0) (twoOfThreeShown false false) := by
    have hafter := congrArg Prod.snd hfails
    dsimp only at hafter
    rw [← hafter]
    exact .recovers rfl rfl
  exact ⟨hrun, hfails, by decide +kernel,
    .step (.step hrun hstep trivial) (opens_first false) trivial, by decide +kernel⟩

end Piggy.Box
