import Piggy.Provision.Commands
import Piggy.Provision.MgmtKey

/-!
# What provisioning may write

A run is the calls it has made, the newest first. Every write of a run follows a rule that looks
at the calls before it: the operator agreed, and the card and the slot are the ones that were
named.
-/

namespace Piggy.Provision

open Piggy.Core Piggy.Box Piggy.Card Piggy.Markl
open Piggy.Piv (slotToCertTag slotCert)

/-! ## Writes of a run -/

/-- The calls of a run with their answers. -/
abbrev Calls := List (Σ op : ProvOp, ProvAns op)

/-- Whether an operation changes what a card stores. -/
def CardOp.writes : CardOp → Bool
  | .writeChuid _ | .generateKey _ _ _ | .putCert _ _ | .changePin _ _ | .changePuk _ _
  | .setManagementKey3des _ => true
  | _ => false

/-- A rule for every write, given the calls before it. -/
def EveryWrite (calls : Calls) (rule : Calls → CardMeta → CardOp → Prop) : Prop :=
  ∀ newer older card op ans, calls = newer ++ ⟨.onCard card op, ans⟩ :: older → op.writes = true →
    rule older card op

/-- The rule as a guard. -/
def WriteGuard (rule : Calls → CardMeta → CardOp → Prop) (calls : Calls) : ProvOp → Prop
  | .onCard card op => op.writes = true → rule calls card op
  | _ => True

/-- The operations that write nothing. -/
def Harmless : ProvOp → Prop
  | .onCard _ op => op.writes = false
  | _ => True

variable {rule : Calls → CardMeta → CardOp → Prop} {certs : CertBuilder} {reader : KeyReader}
  {card : CardMeta} {slot : UInt8}

theorem Harmless.guard {op : ProvOp} (h : Harmless op) (calls : Calls) :
    WriteGuard rule calls op := by
  cases op with
  | onCard card op =>
    intro hwrites
    rw [Harmless, hwrites] at h
    cases h
  | _ => trivial

theorem everyWrite_of_guards {α : Type} {p q : ProvProg α} {calls : Calls} (h : p.Leads calls q)
    (hp : p.Guards (WriteGuard rule) (fun _ _ => True) []) : EveryWrite calls rule := by
  intro newer older card op ans hcalls hwrites
  subst hcalls
  exact h.guard_of_append hp hwrites

/-- A program that writes nothing. -/
theorem guards_harmless {α : Type} {p : ProvProg α} (hp : p.Only Harmless)
    {known : Calls → Prop}
    (hknown : ∀ op ans calls, Harmless op → known calls → known (⟨op, ans⟩ :: calls)) {calls : Calls}
    (hcalls : known calls) : p.Guards (WriteGuard rule) (fun _ calls => known calls) calls :=
  hp.guards_of_kept (fun calls _ h _ => h.guard calls) hknown hcalls

/-- A program that writes nothing goes on with another one. -/
theorem guards_harmless_bind {α β : Type} {p : ProvProg α} {f : α → ProvProg β}
    {post : β → Calls → Prop} (hp : p.Only Harmless) {known : Calls → Prop}
    (hknown : ∀ op ans calls, Harmless op → known calls → known (⟨op, ans⟩ :: calls)) {calls : Calls}
    (hcalls : known calls)
    (hf : ∀ a calls, known calls → (f a).Guards (WriteGuard rule) post calls) :
    (p >>= f).Guards (WriteGuard rule) post calls :=
  Prog.guards_bind.mpr ((guards_harmless hp hknown hcalls).mono hf)

/-! ## The key of one slot -/

/-- The certificates of the slots of a card, after some calls. Others may write them as well. -/
abbrev Held := Calls → CardMeta → UInt8 → Option Bytes

/-- The name of a card in a question. -/
def CardMeta.label (card : CardMeta) : String :=
  (⟨hexEncodeUpper card.guid.bytes, card.serial, none⟩ : CardId).shortLabel

/-- The operator agreed to destroy the key of a slot. -/
def ReplaceAgreed (calls : Calls) (card : CardMeta) (slot : UInt8) : Prop :=
  ∃ policy, (⟨.confirm ⟨replaceMessage slot card.label policy, some false⟩, .ok true⟩ :
    Σ op, ProvAns op) ∈ calls

/-- What `add-key` may write: the key and the certificate of its slot, and the key of a slot that
holds a certificate only if that was asked for and agreed to. -/
def AddKeyRule (held : Held) (selector : CardSelector) (args : AddKeyArgs) (calls : Calls)
    (card : CardMeta) (op : CardOp) : Prop :=
  selector.names card = true ∧ ∃ slot policy, args.slotAndPolicy = .ok (slot, policy) ∧
    slot ≠ slotKeyMgmt ∧
    ((∃ alg policy', op = .generateKey slot alg policy' ∧
        ((held calls card slot).isSome → args.replace = true ∧ ReplaceAgreed calls card slot)) ∨
      ∃ cert, op = .putCert slot cert)

/-- A slot was read as empty, and nothing was written since. -/
def ReadEmpty (card : CardMeta) (slot : UInt8) (calls : Calls) : Prop :=
  ∃ newer older tag e ans, calls = newer ++ ⟨.onCard card (.getData tag), ans⟩ :: older ∧
    slotToCertTag slot = some tag ∧ slotCert slot ans = .error (.slotEmpty e) ∧
    ∀ call ∈ newer, Harmless call.1

/-- What is read as empty is empty, and nobody else puts a certificate there. -/
structure TrueReads (held : Held) (calls : Calls) : Prop where
  empty : ∀ newer older card slot tag e ans,
    calls = newer ++ ⟨.onCard card (.getData tag), ans⟩ :: older → slotToCertTag slot = some tag →
    slotCert slot ans = .error (.slotEmpty e) → held older card slot = none
  alone : ∀ newer older call card slot, calls = newer ++ call :: older → Harmless call.1 →
    held older card slot = none → held (call :: older) card slot = none

/-- The rule as the calls alone show it. -/
def AddKeyShown (selector : CardSelector) (args : AddKeyArgs) (calls : Calls) (card : CardMeta)
    (op : CardOp) : Prop :=
  selector.names card = true ∧ ∃ slot policy, args.slotAndPolicy = .ok (slot, policy) ∧
    slot ≠ slotKeyMgmt ∧
    ((∃ alg policy', op = .generateKey slot alg policy' ∧
        (ReadEmpty card slot calls ∨ args.replace = true ∧ ReplaceAgreed calls card slot)) ∨
      ∃ cert, op = .putCert slot cert)

theorem ReadEmpty.harmless {op : ProvOp} {ans : ProvAns op} {calls : Calls} (hop : Harmless op)
    (h : ReadEmpty card slot calls) : ReadEmpty card slot (⟨op, ans⟩ :: calls) := by
  obtain ⟨newer, older, tag, e, ans', rfl, htag, hread, hnewer⟩ := h
  refine ⟨⟨op, ans⟩ :: newer, older, tag, e, ans', rfl, htag, hread, ?_⟩
  intro call hmem
  rcases List.mem_cons.mp hmem with rfl | hmem
  · exact hop
  · exact hnewer call hmem

/-- A slot that was truly read as empty still is. -/
theorem ReadEmpty.held_eq_none {held : Held} {calls later : Calls} (h : ReadEmpty card slot calls)
    (hreads : TrueReads held (later ++ calls)) : held calls card slot = none := by
  obtain ⟨newer, older, tag, e, ans, rfl, htag, hread, hnewer⟩ := h
  -- the calls since the read, from the oldest to the newest
  induction newer generalizing later with
  | nil =>
    refine hreads.alone later older _ card slot rfl rfl ?_
    exact hreads.empty later older card slot tag e ans rfl htag hread
  | cons call newer ih =>
    have hbefore : later ++ (call :: newer ++ ⟨.onCard card (.getData tag), ans⟩ :: older) =
        later ++ [call] ++ (newer ++ ⟨.onCard card (.getData tag), ans⟩ :: older) := by simp
    refine hreads.alone later _ call card slot rfl (hnewer call List.mem_cons_self) ?_
    exact ih (hbefore ▸ hreads) fun call' hmem => hnewer call' (List.mem_cons_of_mem _ hmem)

theorem AddKeyShown.addKeyRule {held : Held} {selector : CardSelector} {args : AddKeyArgs}
    {calls later : Calls} {op : CardOp} (h : AddKeyShown selector args calls card op)
    (hreads : TrueReads held (later ++ calls)) : AddKeyRule held selector args calls card op := by
  obtain ⟨hcard, slot, policy, hargs, hslot, hop⟩ := h
  refine ⟨hcard, slot, policy, hargs, hslot, ?_⟩
  rcases hop with ⟨alg, policy', rfl, hempty | hagreed⟩ | hcert
  · refine .inl ⟨alg, policy', rfl, fun hheld => ?_⟩
    rw [hempty.held_eq_none hreads] at hheld
    cases hheld
  · exact .inl ⟨alg, policy', rfl, fun _ => hagreed⟩
  · exact .inr hcert

/-! ## Adding a key -/

theorem addKeySlot_ok {name : String} {policy : KeyPolicy} (h : addKeySlot name = .ok (slot, policy)) :
    slot = slotPivAuth ∨ slot = slotSignature := by
  rw [addKeySlot] at h
  split at h
  · split at h
    · cases h
      exact .inr rfl
    · split at h
      · cases h
        exact .inl rfl
      · cases h
  · cases h

theorem slotAndPolicy_ok {args : AddKeyArgs} {policy : KeyPolicy}
    (h : args.slotAndPolicy = .ok (slot, policy)) : slot = slotPivAuth ∨ slot = slotSignature := by
  rw [AddKeyArgs.slotAndPolicy, bind_ok] at h
  obtain ⟨⟨slot', base⟩, hslot, h⟩ := h
  obtain ⟨policy', hpolicy, h⟩ := bind_ok.mp h
  cases h
  exact addKeySlot_ok hslot

/-- A card that was picked is the one that was named. -/
theorem selectCardForProvision_names {cards : List CardMeta} {selector : CardSelector}
    {allowReprovision : Bool}
    (h : selectCardForProvision cards selector allowReprovision = .ok card) :
    selector.names card = true := by
  have hmatch : ∀ what noun candidates eligible,
      resolveMatch (List.filter selector.names eligible) what noun candidates = .ok card →
        selector.names card = true := by
    intro what noun candidates eligible hresolve
    rcases hcards : List.filter selector.names eligible with _ | ⟨only, _ | ⟨second, others⟩⟩
    · rw [hcards] at hresolve
      cases hresolve
    · rw [hcards] at hresolve
      cases hresolve
      have hmem : card ∈ List.filter selector.names eligible := by
        rw [hcards]
        exact List.mem_singleton_self card
      exact (List.mem_filter.mp hmem).2
    · rw [hcards] at hresolve
      cases hresolve
  cases selector with
  | auto => rfl
  | serial n => exact hmatch _ _ _ _ h
  | guid g => exact hmatch _ _ _ _ h
  | reader name => exact hmatch _ _ _ _ h

/-- A library that reads keys never says that a slot is empty. -/
def KeyReader.NeverEmpty (reader : KeyReader) : Prop :=
  ∀ cert slot, reader.publicKey cert ≠ .error (.slotEmpty slot)

theorem guards_selectProvisionedCard (selector : CardSelector) (calls : Calls) :
    (selectProvisionedCard selector).Guards (WriteGuard rule)
      (fun result _ => ∀ card, result = .ok card → selector.names card = true) calls := by
  refine ⟨trivial, ?_⟩
  rintro (e | cards)
  · exact fun _ herror => nomatch herror
  · show Prog.Guards _ (if cards = [] then _ else _) _ _
    split
    · exact fun _ herror => nomatch herror
    · split
      · exact fun _ herror => nomatch herror
      · next card hselect =>
        rintro _ ⟨⟩
        exact selectCardForProvision_names hselect

theorem occupiedOf_eq_false {read : Except PivError (Bytes × Bytes)}
    (h : occupiedOf slot read = .ok false) : ∃ e, read = .error (.slotEmpty e) := by
  unfold occupiedOf at h
  split at h
  · cases h
  · next e => exact ⟨e, rfl⟩
  · cases h

theorem guards_readSlot (hreader : reader.NeverEmpty) {tag : Nat} (htag : slotToCertTag slot = some tag)
    (calls : Calls) :
    (readSlot reader card slot).Guards (WriteGuard rule)
      (fun read calls => occupiedOf slot read = .ok false → ReadEmpty card slot calls) calls := by
  simp only [readSlot, htag, Prog.op_bind]
  refine ⟨nofun, fun answer => ?_⟩
  dsimp only
  split
  · next e hread =>
    intro hempty
    obtain ⟨e', heq⟩ := occupiedOf_eq_false hempty
    cases heq
    exact ⟨[], calls, tag, e', answer, rfl, htag, hread, fun _ hmem => nomatch hmem⟩
  · next cert hread =>
    split
    · next e hkey =>
      intro hempty
      obtain ⟨e', heq⟩ := occupiedOf_eq_false hempty
      cases heq
      exact absurd hkey (hreader cert e')
    · exact fun hempty => nomatch hempty

/-- A key may be generated: the slot was read as empty, or the operator agreed to replace what it
holds. -/
def Permit (replace : Bool) (card : CardMeta) (slot : UInt8) (calls : Calls) : Prop :=
  ReadEmpty card slot calls ∨ replace = true ∧ ReplaceAgreed calls card slot

theorem Permit.harmless {replace : Bool} {op : ProvOp} {ans : ProvAns op} {calls : Calls}
    (hop : Harmless op) (h : Permit replace card slot calls) :
    Permit replace card slot (⟨op, ans⟩ :: calls) := by
  rcases h with hempty | ⟨hreplace, policy, hagreed⟩
  · exact .inl (hempty.harmless hop)
  · exact .inr ⟨hreplace, policy, List.mem_cons_of_mem _ hagreed⟩

/-- Planning writes nothing, and a plan has a permit. -/
theorem guards_planAddKey {cfg : AddKeyConfig} {calls : Calls}
    (hguid : cfg.guid = hexEncodeUpper card.guid.bytes)
    (hread : cfg.occupied = false → ReadEmpty card cfg.slot calls) :
    (planAddKey card.serial cfg).Guards (WriteGuard rule) (fun result calls => ∀ plan,
      result = .ok plan → plan.slot = cfg.slot ∧ Permit cfg.replace card cfg.slot calls) calls := by
  have hlabel : cfg.label card.serial = card.label := by
    rw [AddKeyConfig.label, CardMeta.label, hguid]
  rw [planAddKey]
  split
  · exact fun _ herror => nomatch herror
  next hrefuse =>
  have hconfirm : Prog.Guards (WriteGuard rule) (Prog.op (ProvOp.confirm ⟨if cfg.occupied = true then
      replaceMessage cfg.slot (cfg.label card.serial) cfg.effective
      else addMessage cfg.slot (cfg.label card.serial) cfg.effective, some false⟩))
      (fun result calls => result = .ok true → Permit cfg.replace card cfg.slot calls) calls := by
    refine ⟨trivial, ?_⟩
    rintro ans rfl
    rcases hoccupied : cfg.occupied with _ | _
    · exact .inl ((hread hoccupied).harmless trivial)
    · refine .inr ⟨?_, cfg.effective, ?_⟩
      · rcases hreplace : cfg.replace with _ | _
        · exact absurd ⟨hoccupied, by rw [hreplace]; rfl⟩ hrefuse
        · rfl
      · rw [if_pos rfl, hlabel]
        exact List.mem_cons_self
  refine hconfirm.orFail_andThen (fun _ _ _ _ herror => nomatch herror) ?_
  rintro (_ | _) calls hpermit
  · exact fun _ herror => nomatch herror
  have hkept : ∀ op ans calls, Harmless op → Permit cfg.replace card cfg.slot calls →
      Permit cfg.replace card cfg.slot (⟨op, ans⟩ :: calls) := fun _ _ _ hop h => h.harmless hop
  refine Prog.Guards.andThen (guards_harmless ?_ hkept (hpermit rfl))
    (fun _ _ _ _ herror => nomatch herror) ?_
  · split
    · exact (Prog.only_op trivial).orFail _
    · exact (Prog.only_op trivial).orFail _
  · intro text calls hpermit
    split
    · exact fun _ herror => nomatch herror
    · have hask : ∀ request, Harmless (.requestSecret request) := fun _ => trivial
      refine Prog.Guards.orFail_andThen (guards_harmless (Prog.only_op (hask _)) hkept hpermit)
        (fun _ _ _ _ herror => nomatch herror) ?_
      rintro pin calls hpermit _ ⟨⟩
      exact ⟨rfl, hpermit⟩

/-- The writes of one slot: its key, and then its certificate. -/
theorem guards_provisionSlot {policy : KeyPolicy} {cn pin recovery : String} {calls : Calls}
    (hkey : rule calls card (.generateKey slot .ecP256 policy))
    (hcert : ∀ calls cert, rule calls card (.putCert slot cert)) :
    (provisionSlot certs card slot cn policy pin recovery).Guards (WriteGuard rule)
      (fun _ _ => True) calls := by
  have hafter : ∀ calls op, CertOps card slot op → WriteGuard rule calls op := by
    intro calls op hop
    cases op with
    | onCard card' op =>
      cases op with
      | putCert slot' cert =>
        obtain ⟨rfl, rfl⟩ := hop
        exact fun _ => hcert calls cert
      | generateKey slot' alg policy => exact hop.elim
      | writeChuid guid => exact hop.elim
      | changePin old new => exact hop.elim
      | changePuk old new => exact hop.elim
      | setManagementKey3des key => exact hop.elim
      | _ => exact nofun
    | _ => trivial
  have hgenerate : Prog.Guards (WriteGuard rule)
      (Prog.op (ProvOp.onCard card (.generateKey slot .ecP256 policy))) (fun _ _ => True) calls :=
    ⟨fun _ => hkey, fun _ => trivial⟩
  refine hgenerate.orFail_andThen (fun _ _ _ => trivial) fun point calls _ => ?_
  refine Prog.Guards.free_bind (certify_only certs card slot cn policy pin point) hafter
    Prog.lasting_true trivial ?_
  rintro ⟨e | ⟨⟩, refusedAfter⟩ calls -
  · trivial
  · trivial

theorem guards_applyAddKey {plan : AddKeyPlan} {calls : Calls} {replace : Bool}
    (hpermit : Permit replace card plan.slot calls)
    (hkey : ∀ calls, Permit replace card plan.slot calls →
      rule calls card (.generateKey plan.slot .ecP256 plan.policy))
    (hcert : ∀ calls cert, rule calls card (.putCert plan.slot cert)) :
    (applyAddKey certs card plan).Guards (WriteGuard rule) (fun _ _ => True) calls := by
  have hkept : ∀ op ans calls, Harmless op → Permit replace card plan.slot calls →
      Permit replace card plan.slot (⟨op, ans⟩ :: calls) := fun _ _ _ hop h => h.harmless hop
  have hadmin : Harmless (.onCard card (.authenticateAdmin plan.mgmtKey)) := rfl
  have hpin : Harmless (.onCard card (.verifyPin plan.pin)) := rfl
  refine (guards_harmless (Prog.only_op hadmin) hkept hpermit).orFail_andThen
    (fun _ _ _ => trivial) fun _ calls hpermit => ?_
  refine (guards_harmless (Prog.only_op hpin) hkept hpermit).orFail_andThen
    (fun _ _ _ => trivial) fun _ calls hpermit => ?_
  have hprogress : ∀ event, Harmless (.progress event) := fun _ => trivial
  refine guards_harmless_bind (Prog.only_op (hprogress _)) hkept hpermit fun _ calls hpermit => ?_
  refine (guards_provisionSlot (hkey _ hpermit) hcert).andThen
    (fun _ _ _ => trivial) fun point calls _ => ?_
  have hattest : Harmless (.onCard card (.attestedPolicy slotSignature)) := rfl
  split
  · refine Prog.Guards.free_bind (checkOperatorActs_only hattest fun _ => trivial)
      (fun calls _ h => h.guard calls) Prog.lasting_true trivial ?_
    exact fun _ _ _ => trivial
  · trivial

/-- Every write of `add-key` is shown to be allowed by the calls before it. -/
theorem guards_addKeyWithFrontend (hreader : reader.NeverEmpty) (selector : CardSelector)
    (args : AddKeyArgs) :
    (addKeyWithFrontend certs reader selector args).Guards
      (WriteGuard (AddKeyShown selector args)) (fun _ _ => True) [] := by
  rw [addKeyWithFrontend]
  split
  · trivial
  next slot policy hargs =>
  have hslot : slot ≠ slotKeyMgmt ∧ ∃ tag, slotToCertTag slot = some tag := by
    rcases slotAndPolicy_ok hargs with rfl | rfl
    · exact ⟨by decide, _, rfl⟩
    · exact ⟨by decide, _, rfl⟩
  obtain ⟨hslot, tag, htag⟩ := hslot
  refine (guards_selectProvisionedCard selector []).andThen (fun _ _ _ => trivial) fun card calls hcard => ?_
  have hcard := hcard card rfl
  have hversion : Harmless (.onCard card .readYkpivVersion) := rfl
  refine Prog.Guards.free_bind (Prog.only_op hversion) (fun calls _ h => h.guard calls)
    Prog.lasting_true trivial fun version calls _ => ?_
  refine Prog.guards_bind.mpr ((guards_readSlot hreader htag calls).mono fun read calls hread => ?_)
  split
  · trivial
  next occupied hoccupied =>
  have hwrite : (planAndApply certs card ⟨hexEncodeUpper card.guid.bytes, slot, policy, version.isSome,
      occupied, args.replace, args.managementKeyFromStore.map fun name =>
        if name = "" then defaultPassName (hexEncodeUpper card.guid.bytes) else name,
      args.binding⟩).Guards (WriteGuard (AddKeyShown selector args)) (fun _ _ => True) calls := by
    refine Prog.Guards.andThen (guards_planAddKey rfl ?_) (fun _ _ _ => trivial) fun plan calls hplan => ?_
    · rintro rfl
      exact hread hoccupied
    obtain ⟨hsame, hpermit⟩ := hplan plan rfl
    have hsession : Harmless (.onCard card .beginPinSession) := rfl
    refine (guards_harmless (Prog.only_op hsession) (fun _ _ _ hop h => h.harmless hop)
      hpermit).orFail_andThen (fun _ _ _ => trivial) fun _ calls hpermit => ?_
    rw [← hsame] at hpermit
    refine guards_applyAddKey hpermit (fun calls hpermit => ?_) fun calls cert => ?_
    · refine ⟨hcard, slot, policy, hargs, hslot, .inl ⟨_, _, by rw [hsame], ?_⟩⟩
      rwa [hsame] at hpermit
    · exact ⟨hcard, slot, policy, hargs, hslot, .inr ⟨cert, by rw [hsame]⟩⟩
  refine Prog.guards_bind.mpr (hwrite.mono fun result calls _ => ?_)
  cases result with
  | error e => exact ⟨trivial, fun _ => trivial⟩
  | ok outcome => exact ⟨trivial, fun _ => trivial⟩

/-! ## Setting up a card -/

/-- The operations that are on one card, if on any. -/
def OfCard (card : CardMeta) : ProvOp → Prop
  | .onCard card' _ => card' = card
  | _ => True

theorem KeyOps.ofCard {op : ProvOp} (h : KeyOps card op) : OfCard card op := by
  cases op with
  | onCard card' op =>
    cases op with
    | authenticateAdmin key => exact h
    | writeChuid guid => exact h
    | attestedPolicy slot => exact h
    | verifyPin pin =>
      obtain ⟨slot, h⟩ := h
      exact h
    | generateKey slot alg policy =>
      obtain ⟨slot, h⟩ := h
      exact h.1
    | signPrehash slot alg digest =>
      obtain ⟨slot, h⟩ := h
      exact h.1
    | putCert slot cert =>
      obtain ⟨slot, h⟩ := h
      exact h.1
    | _ =>
      obtain ⟨slot, h⟩ := h
      exact h.elim
  | _ => trivial

theorem rotateMgmtKey_ofCard (id : CardId) (escrow : Option Escrow) :
    (rotateMgmtKey card id escrow).Only (OfCard card) := by
  have hset : ∀ key, OfCard card (.onCard card (.setManagementKey3des key)) := fun _ => rfl
  have hnote : (noteUnsealed escrow).Only (OfCard card) := noteUnsealed_only (fun _ => trivial) escrow
  have hchoose : (chooseEscrow id escrow).Only (OfCard card) :=
    chooseEscrow_only (fun _ => trivial) id escrow
  refine Prog.Only.andThen ((Prog.only_op trivial).orFail _) fun choice => ?_
  cases choice with
  | default => exact hnote.bind fun _ => trivial
  | hex key =>
    dsimp only
    split
    · trivial
    · exact ((Prog.only_op (hset _)).orFail _).andThen fun _ => hnote.bind fun _ => trivial
  | random =>
    refine Prog.Only.andThen ((Prog.only_op trivial).orFail _) fun key => hchoose.bind ?_
    rintro (_ | escrow)
    · exact ((Prog.only_op (hset _)).orFail _).andThen fun _ => trivial
    · exact (sealThenRotate_only hset (fun _ => trivial) (fun _ => trivial) escrow key).andThen
        fun _ => trivial

theorem run_ofCard (certs : CertBuilder) (card : CardMeta) (cfg : ProvisionConfig)
    (escrow : Option Escrow) : (run certs card cfg escrow).Only (OfCard card) := by
  have hstep : ∀ n token message, (progressStep n token message).Only (OfCard card) :=
    fun _ _ _ => Prog.only_op trivial
  have hpin : ∀ old new, OfCard card (.onCard card (.changePin old new)) := fun _ _ => rfl
  have hpuk : ∀ old new, OfCard card (.onCard card (.changePuk old new)) := fun _ _ => rfl
  have hinner : (runInner certs card cfg escrow).Only (OfCard card) := by
    refine ((writeKeys_only certs card cfg).mono fun _ => KeyOps.ofCard).andThen fun serves => ?_
    refine Prog.Only.andThen ?_ fun _ => trivial
    refine (hstep ..).bind fun _ => ?_
    refine (collectNewSecret_only (fun _ => trivial) ..).andThen fun newPin => ?_
    refine ((Prog.only_op (hpin _ _)).orFail _).andThen fun _ => ?_
    refine (collectNewSecret_only (fun _ => trivial) ..).andThen fun newPuk => ?_
    refine ((Prog.only_op (hpuk _ _)).orFail _).andThen fun _ => ?_
    exact (hstep ..).bind fun _ => rotateMgmtKey_ofCard _ escrow
  exact hinner.bind fun result => (reportResult_only (fun _ => trivial) _ result).bind fun _ => trivial

/-- The question before a card is set up. -/
def provisionMessage (card : CardMeta) (cfg : ProvisionConfig) : String :=
  let label := (cfg.cardId card).shortLabel
  if cfg.reprovision then
    s!"Card {label} is ALREADY PROVISIONED — reprovisioning DESTROYS its existing 9A + 9C + 9D keys " ++
      "and overwrites their certs (and resets PIN/PUK/management key). Proceed?"
  else
    s!"Provision card {label} — this generates new 9A + 9C + 9D keys and overwrites their certs. " ++
      "Proceed?"

/-- The operator agreed to set up a card, and knew whether it is set up already. -/
def InitAgreed (calls : Calls) (card : CardMeta) : Prop :=
  ∃ cfg : ProvisionConfig, cfg.reprovision = card.initialized ∧
    (⟨.confirm ⟨provisionMessage card cfg, some false⟩, .ok true⟩ : Σ op, ProvAns op) ∈ calls

/-- What `card init` may write. -/
def InitRule (selector : CardSelector) (calls : Calls) (card : CardMeta) (_ : CardOp) : Prop :=
  selector.names card = true ∧ InitAgreed calls card

theorem guards_run {cfg : ProvisionConfig} {escrow : Option Escrow}
    (hcfg : cfg.reprovision = card.initialized)
    (hrule : ∀ calls op, InitAgreed calls card → rule calls card op) (calls : Calls) :
    (run certs card cfg escrow).Guards (WriteGuard rule) (fun _ _ => True) calls := by
  have hafter : ∀ calls op, OfCard card op → InitAgreed calls card → WriteGuard rule calls op := by
    intro calls op hop hagreed
    cases op with
    | onCard card' op =>
      obtain rfl : card' = card := hop
      exact fun _ => hrule calls op hagreed
    | _ => trivial
  -- the first call is the question, and the rest depends on its answer
  refine ⟨trivial, ?_⟩
  rintro (e | _ | _)
  · exact ⟨trivial, fun _ => trivial⟩
  · exact ⟨trivial, fun _ => trivial⟩
  · have hagreed : InitAgreed (⟨.confirm ⟨provisionMessage card cfg, some false⟩, .ok true⟩ :: calls) card :=
      ⟨cfg, hcfg, List.mem_cons_self⟩
    have hlasting : ∀ op ans calls, OfCard card op → InitAgreed calls card →
        InitAgreed (⟨op, ans⟩ :: calls) card :=
      fun _ _ _ _ ⟨cfg, hcfg, hmem⟩ => ⟨cfg, hcfg, List.mem_cons_of_mem _ hmem⟩
    have hrest := (run_ofCard certs card cfg escrow).2 (.ok true)
    exact (hrest.guards_of_kept hafter hlasting hagreed).mono fun _ _ _ => trivial

theorem readSlot_only {kind : ProvOp → Prop} (hread : ∀ tag, kind (.onCard card (.getData tag))) :
    (readSlot reader card slot).Only kind := by
  rw [readSlot]
  split
  · trivial
  next tag htag =>
  rw [Prog.op_bind]
  refine ⟨hread tag, fun answer => ?_⟩
  dsimp only
  split
  · trivial
  · split <;> trivial

theorem prepareEscrow_only {kind : ProvOp → Prop} (hread : ∀ tag, kind (.onCard card (.getData tag)))
    (hprepare : ∀ passName, kind (.prepare passName)) (hwarn : ∀ event, kind (.progress event))
    (mode : SealMode) (guidHex : String) : (prepareEscrow reader card mode guidHex).Only kind := by
  have hcurrent : (current9dRecipient reader card).Only kind := by
    rw [current9dRecipient]
    split
    · refine (readSlot_only hread).bind ?_
      rintro (e | ⟨cert, key⟩) <;> trivial
    · trivial
  have hrecipients : ∀ passName, (prepareRecipients reader card passName).Only kind := by
    intro passName
    refine Prog.Only.andThen (Prog.only_op (hprepare passName)) fun recipients => ?_
    refine hcurrent.bind fun destroyed => ?_
    split <;> trivial
  cases mode with
  | never => trivial
  | offer | always passName =>
    refine (hrecipients _).bind ?_
    rintro (e | ⟨recipients, _ | message⟩)
    · exact trivial
    · exact trivial
    · exact ⟨hwarn _, fun _ => trivial⟩

/-- What is done to draw a GUID. -/
theorem drawGuid_only {kind : ProvOp → Prop} (hdraw : kind (.randBytes 16)) : drawGuid.Only kind := by
  refine ⟨hdraw, ?_⟩
  rintro (e | bytes)
  · trivial
  · show Prog.Only _ (if h : bytes.length = 16 then _ else _)
    split <;> trivial

/-- Every write of `card init` was agreed to. -/
theorem guards_provisionWithFrontend (selector : CardSelector) (allowReprovision : Bool)
    (policies : SlotPolicies) (mode : SealMode) :
    (provisionWithFrontend certs reader selector allowReprovision policies mode).Guards
      (WriteGuard (InitRule selector)) (fun _ _ => True) [] := by
  have htrue : ∀ (op : ProvOp) (_ : ProvAns op) (_ : Calls), Harmless op → True → True :=
    fun _ _ _ _ h => h
  have hcards : Harmless (.enumerateTokens true) := trivial
  refine (guards_harmless (Prog.only_op hcards) htrue trivial).orFail_andThen
    (fun _ _ _ => trivial) fun cards calls _ => ?_
  split
  · trivial
  next card hselect =>
  have hcard := selectCardForProvision_names hselect
  have hversion : Harmless (.onCard card .readYkpivVersion) := rfl
  have hsession : Harmless (.onCard card .beginPinSession) := rfl
  refine guards_harmless_bind (Prog.only_op hversion) htrue trivial fun version calls _ => ?_
  refine Prog.Guards.andThen (guards_harmless (drawGuid_only trivial) htrue trivial)
    (fun _ _ _ => trivial) fun guid calls _ => ?_
  have hescrow : (prepareEscrow reader card mode (hexEncodeUpper guid.bytes)).Only Harmless :=
    prepareEscrow_only (fun _ => rfl) (fun _ => trivial) (fun _ => trivial) mode _
  refine Prog.Guards.andThen (guards_harmless hescrow htrue trivial) (fun _ _ _ => trivial)
    fun escrow calls _ => ?_
  refine (guards_harmless (Prog.only_op hsession) htrue trivial).orFail_andThen
    (fun _ _ _ => trivial) fun _ calls _ => ?_
  exact guards_run rfl (fun calls op hagreed => ⟨hcard, hagreed⟩) calls

/-! ## Selectors of a request -/

/-- A card is the one that the serial of a request names. -/
def HonoursSerial (params : Json) (card : CardMeta) : Prop :=
  match params.get "serial" with
  | none | some .null => True
  | some (.number (some n)) => card.serial.map UInt32.toNat = some n
  | some _ => False

/-- A text of a request holds of a card. -/
def HonoursText (params : Json) (key : String) (holds : String → Prop) : Prop :=
  match params.get key with
  | none | some .null => True
  | some (.string s) => holds s
  | some _ => False

/-- A card is the one that a request names, by each of the selectors that are present. -/
structure Honours (params : Json) (card : CardMeta) : Prop where
  serial : HonoursSerial params card
  guid : HonoursText params "guid" fun s => guidFromHex (trimStr s) = .ok card.guid
  reader : HonoursText params "reader" fun s => card.reader = s

/-- A selector is a text where it is present. -/
def TextParam (params : Json) (key : String) : Prop :=
  match params.get key with
  | none | some .null | some (.string _) => True
  | some _ => False

/-- What the flags name. -/
theorem fromFlags_names {serial : Option UInt32} {guid reader : Option String}
    {binding : RequestBinding} {selector : CardSelector}
    (h : CardSelector.fromFlags serial guid reader binding = .ok selector)
    (hcard : selector.names card = true) :
    (∀ n, serial = some n → card.serial = some n) ∧
      (∀ g, guid = some g → guidFromHex (trimStr g) = .ok card.guid) ∧
      ∀ name, reader = some name → card.reader = name := by
  unfold CardSelector.fromFlags at h
  split at h
  · exact ⟨nofun, nofun, nofun⟩
  · cases h
    refine ⟨?_, nofun, nofun⟩
    rintro n ⟨⟩
    exact of_decide_eq_true hcard
  · next g =>
    rcases hguid : guidFromHex (trimStr g) with e | guid
    · rw [hguid] at h
      cases h
    · rw [hguid] at h
      cases h
      refine ⟨nofun, ?_, nofun⟩
      rintro g' ⟨⟩
      have hsame : card.guid = guid := of_decide_eq_true hcard
      rw [hguid, hsame]
  · cases h
    refine ⟨nofun, nofun, ?_⟩
    rintro name ⟨⟩
    exact of_decide_eq_true hcard
  · cases h

theorem honoursSerial_of_serialParam {method : String} {params : Json} {serial : Option UInt32}
    (h : serialParam method params = .ok serial) (hcard : ∀ n, serial = some n → card.serial = some n) :
    HonoursSerial params card := by
  unfold serialParam at h
  unfold HonoursSerial
  generalize params.get "serial" = param at h ⊢
  rcases param with _ | value
  · trivial
  cases value with
  | null => trivial
  | number asU64 =>
    cases asU64 with
    | none => cases h
    | some n =>
      dsimp only at h
      split at h
      · next hn =>
        cases h
        dsimp only
        rw [hcard _ rfl, Option.map_some, UInt32.toNat_ofNat_of_lt' hn]
      · cases h
  | _ => cases h

theorem honoursText_of_optionalStr {method key : String} {params : Json} {text : Option String}
    {holds : String → Prop} (h : optionalStr method params key = .ok text)
    (htext : ∀ s, text = some s → holds s) : HonoursText params key holds := by
  unfold optionalStr at h
  unfold HonoursText
  generalize params.get key = param at h ⊢
  rcases param with _ | value
  · trivial
  cases value with
  | null => trivial
  | string s =>
    cases h
    exact htext s rfl
  | _ => cases h

/-- A text that is taken as it comes is honoured only where it is one. -/
theorem honoursText_of_asStr {key : String} {params : Json} {holds : String → Prop}
    (hparam : TextParam params key)
    (htext : ∀ s, (params.get key).bind Json.asStr = some s → holds s) :
    HonoursText params key holds := by
  unfold TextParam at hparam
  unfold HonoursText
  generalize params.get key = param at hparam htext ⊢
  rcases param with _ | value
  · trivial
  cases value with
  | null => trivial
  | string s => exact htext s rfl
  | _ => exact hparam.elim

theorem textParam_of_honoursText {key : String} {params : Json} {holds : String → Prop}
    (h : HonoursText params key holds) : TextParam params key := by
  unfold HonoursText at h
  unfold TextParam
  generalize params.get key = param at h ⊢
  rcases param with _ | value
  · trivial
  cases value with
  | null => trivial
  | string s => trivial
  | _ => exact h.elim

theorem honours_of_addKeyRequest {params : Json} {selector : CardSelector} {args : AddKeyArgs}
    (h : addKeyRequest params = .ok (selector, args)) (hcard : selector.names card = true) :
    Honours params card := by
  simp only [addKeyRequest, bind_ok] at h
  obtain ⟨slot, -, h⟩ := h
  cases slot with
  | none => cases h
  | some slot =>
    simp only [ok_bind, bind_ok] at h
    obtain ⟨pinPolicy, -, touchPolicy, -, serial, hserial, guid, hguid, name, hname, selector', hselector,
      stored, -, h⟩ := h
    have hsame : selector' = selector := by
      split at h
      · cases h
      · cases h
        rfl
    subst hsame
    obtain ⟨hserial', hguid', hname'⟩ := fromFlags_names (mapError_ok.mp hselector) hcard
    exact ⟨honoursSerial_of_serialParam hserial hserial', honoursText_of_optionalStr hguid hguid',
      honoursText_of_optionalStr hname fun s hs => hname' s hs⟩

theorem honours_of_initRequest {params : Json} {request : InitRequest}
    (h : initRequest params = .ok request) (hguid : TextParam params "guid")
    (hname : TextParam params "reader") (hcard : request.selector.names card = true) :
    Honours params card := by
  simp only [initRequest, bind_ok] at h
  obtain ⟨serial, hserial, selector, hselector, policies, -, mode, -, h⟩ := h
  cases h
  obtain ⟨hserial', hguid', hname'⟩ := fromFlags_names (mapError_ok.mp hselector) hcard
  exact ⟨honoursSerial_of_serialParam hserial hserial', honoursText_of_asStr hguid hguid',
    honoursText_of_asStr hname hname'⟩

/-! ## A request that names no card -/

/-- A card that a selector names. -/
def cardNamed : CardSelector → CardMeta
  | .serial n => ⟨some n, .ofByte 0, "", false⟩
  | .guid g => ⟨none, g, "", false⟩
  | .reader name => ⟨none, .ofByte 0, name, false⟩
  | .auto => ⟨none, .ofByte 0, "", false⟩

theorem selectCardForProvision_cardNamed (selector : CardSelector) (allowReprovision : Bool) :
    selectCardForProvision [cardNamed selector] selector allowReprovision = .ok (cardNamed selector) := by
  cases selector with
  | auto => simp [selectCardForProvision, cardNamed]
  | serial n => simp [selectCardForProvision, cardNamed, CardSelector.names, resolveMatch]
  | guid g => simp [selectCardForProvision, cardNamed, CardSelector.names, resolveMatch]
  | reader name => simp [selectCardForProvision, cardNamed, CardSelector.names, resolveMatch]

theorem reaches_run (cfg : ProvisionConfig) (escrow : Option Escrow) :
    (run certs card cfg escrow).Reaches (.onCard card (.writeChuid cfg.guid)) := by
  refine Prog.Reaches.bind ?_ _
  refine Prog.Reaches.bind ?_ _
  refine Prog.reaches_call (.ok true) ?_
  refine Prog.reaches_call () ?_
  refine Prog.reaches_call (.ok ()) ?_
  refine Prog.reaches_call (.ok ()) ?_
  refine Prog.reaches_call () ?_
  exact Prog.reaches_here _ _

/-- An escrow that is asked for can be prepared for a blank card. -/
theorem reaches_prepareEscrow {α : Type} (hblank : card.initialized = false) (mode : SealMode)
    (guidHex : String) {f : Option Escrow → ProvProg (Result α)} {op : ProvOp}
    (h : ∀ escrow, (f escrow).Reaches op) :
    ((prepareEscrow reader card mode guidHex).andThen f).Reaches op := by
  have hcurrent : current9dRecipient reader card = pure none := by
    rw [current9dRecipient, hblank]
    rfl
  have hcheck : checkEscrowRecipients [[1]] none = .ok none := rfl
  cases mode with
  | never => exact h none
  | offer =>
    simp only [prepareEscrow, prepareRecipients, hcurrent]
    exact Prog.reaches_call (.ok [[1]]) (h _)
  | always passName =>
    simp only [prepareEscrow, prepareRecipients, hcurrent]
    exact Prog.reaches_call (.ok [[1]]) (h _)

theorem reaches_provisionWithFrontend (selector : CardSelector) (allowReprovision : Bool)
    (policies : SlotPolicies) (mode : SealMode) :
    (provisionWithFrontend certs reader selector allowReprovision policies mode).Reaches
      (.onCard (cardNamed selector) (.writeChuid ⟨List.replicate 16 0, rfl⟩)) := by
  have hblank : (cardNamed selector).initialized = false := by cases selector <;> rfl
  refine Prog.reaches_call (.ok [cardNamed selector]) ?_
  dsimp only [Prog.bind, Except.mapError]
  rw [selectCardForProvision_cardNamed]
  refine Prog.reaches_call none ?_
  refine Prog.reaches_call (.ok (List.replicate 16 0)) ?_
  refine reaches_prepareEscrow hblank mode _ fun escrow => ?_
  refine Prog.reaches_call (.ok ()) ?_
  exact reaches_run _ escrow

/-- A request whose selectors are refused or are texts. -/
def SoundSelectors (params : Json) : Prop :=
  (TextParam params "guid" ∧ TextParam params "reader") ∨ ∃ e, initRequest params = .error e

theorem cardInit_guards {params : Json} (h : SoundSelectors params) :
    (cardInit certs reader params).Guards
      (WriteGuard fun _ card _ => Honours params card) (fun _ _ => True) [] := by
  rw [cardInit]
  split
  · trivial
  next request hrequest =>
  obtain ⟨hguid, hname⟩ : TextParam params "guid" ∧ TextParam params "reader" := by
    rcases h with h | ⟨e, herror⟩
    · exact h
    · rw [hrequest] at herror
      cases herror
  have hhonours : ∀ calls op, WriteGuard (InitRule request.selector) calls op →
      WriteGuard (fun _ card _ => Honours params card) calls op := by
    intro calls op hguard
    cases op with
    | onCard card op =>
      intro hwrites
      exact honours_of_initRequest hrequest hguid hname (hguard hwrites).1
    | _ => trivial
  refine Prog.guards_bind.mpr (((guards_provisionWithFrontend ..).weaken hhonours).mono ?_)
  rintro (e | outcome) calls - <;> trivial

theorem cardAddKey_guards (hreader : reader.NeverEmpty) (params : Json) :
    (cardAddKey certs reader params).Guards
      (WriteGuard fun _ card _ => Honours params card) (fun _ _ => True) [] := by
  rw [cardAddKey]
  split
  · trivial
  next selector args hrequest =>
  have hhonours : ∀ calls op, WriteGuard (AddKeyShown selector args) calls op →
      WriteGuard (fun _ card _ => Honours params card) calls op := by
    intro calls op hguard
    cases op with
    | onCard card op =>
      intro hwrites
      exact honours_of_addKeyRequest hrequest (hguard hwrites).1
    | _ => trivial
  refine Prog.guards_bind.mpr (((guards_addKeyWithFrontend hreader ..).weaken hhonours).mono ?_)
  rintro (e | outcome) calls -
  · trivial
  · dsimp only
    split <;> trivial

/-- Every write of `card.init` is to a card that the request names, exactly when its selectors are
texts or it is refused. -/
theorem cardInit_honours_iff {params : Json} :
    (∀ calls q, (cardInit certs reader params).Leads calls q →
      EveryWrite calls fun _ card _ => Honours params card) ↔ SoundSelectors params := by
  constructor
  · intro h
    rcases hrequest : initRequest params with e | request
    · exact .inr ⟨e, hrequest⟩
    · have hreach : (cardInit certs reader params).Reaches
          (.onCard (cardNamed request.selector) (.writeChuid ⟨List.replicate 16 0, rfl⟩)) := by
        simp only [cardInit, hrequest]
        exact (reaches_provisionWithFrontend ..).bind _
      obtain ⟨calls, next, hleads⟩ := hreach
      have hhonours := h _ _ (hleads.call (.ok ())) [] calls _ _ _ rfl rfl
      exact .inl ⟨textParam_of_honoursText hhonours.guid, textParam_of_honoursText hhonours.reader⟩
  · intro h calls q hleads
    exact everyWrite_of_guards hleads (cardInit_guards h)

/-- Provisioning destroys only what was named and agreed to. A slot that holds a certificate may
be read as empty, and a selector of `card.init` that is no text is ignored; else every write
follows its rule. -/
theorem writes_agreed (certs : CertBuilder) {reader : KeyReader} (hreader : reader.NeverEmpty) :
    (∀ held selector args calls q, (addKeyWithFrontend certs reader selector args).Leads calls q →
      TrueReads held calls → EveryWrite calls (AddKeyRule held selector args)) ∧
    (∀ selector allowReprovision policies mode calls q,
      (provisionWithFrontend certs reader selector allowReprovision policies mode).Leads calls q →
      EveryWrite calls (InitRule selector)) ∧
    (∀ params calls q, (cardAddKey certs reader params).Leads calls q →
      EveryWrite calls fun _ card _ => Honours params card) ∧
    ∀ params, (∀ calls q, (cardInit certs reader params).Leads calls q →
      EveryWrite calls fun _ card _ => Honours params card) ↔ SoundSelectors params := by
  refine ⟨?_, ?_, ?_, fun params => cardInit_honours_iff⟩
  · intro held selector args calls q hleads hreads newer older card op ans hcalls hwrites
    have hshown := everyWrite_of_guards hleads (guards_addKeyWithFrontend hreader selector args)
      newer older card op ans hcalls hwrites
    subst hcalls
    have hreads : TrueReads held (newer ++ [⟨.onCard card op, ans⟩] ++ older) := by
      rwa [List.append_assoc]
    exact hshown.addKeyRule hreads
  · intro selector allowReprovision policies mode calls q hleads
    exact everyWrite_of_guards hleads (guards_provisionWithFrontend ..)
  · intro params calls q hleads
    exact everyWrite_of_guards hleads (cardAddKey_guards hreader params)

/-! ## A slot that holds a certificate -/

/-- An operator who agrees to everything, and a card that answers reads in a given way. -/
def obliging (read : Except PivError (Bytes × StatusWord)) : (op : ProvOp) → ProvAns op
  | .onCard _ (.getData _) => read
  | .enumerateTokens _ => .ok [sampleCard]
  | .requestSecret _ => .ok "default"
  | op => agreeing (.ok ()) factoryWorld op

def sampleReader : KeyReader := ⟨fun _ => .ok [], fun _ => none, fun _ _ _ => .ok ""⟩

/-- A request for a key in slot 9C. -/
def sampleArgs (replace : Bool) : AddKeyArgs := ⟨"9c", none, none, replace, none, .cli⟩

/-- The calls of that request. -/
def sampleCalls (read : Except PivError (Bytes × StatusWord)) (replace : Bool) : Calls :=
  (Prog.runWith (fun op calls => (obliging read op, ⟨op, obliging read op⟩ :: calls))
    (addKeyWithFrontend sampleCerts sampleReader .auto (sampleArgs replace)) ([] : Calls)).2

/-- The object of a slot with a certificate of two bytes. -/
def sampleObject : Except PivError (Bytes × StatusWord) :=
  .ok ([0x53, 0x04, 0x70, 0x02, 0xAA, 0xBB], ⟨0x90, 0x00⟩)

/-- Every slot holds that certificate. -/
def sampleHeld : Held := fun _ _ _ => some [0xAA, 0xBB]

theorem trueReads_sample : TrueReads sampleHeld (sampleCalls sampleObject true) := by
  refine ⟨?_, fun _ _ _ _ _ _ _ hheld => nomatch hheld⟩
  intro newer older card slot tag e ans hcalls _ hread
  have hmem : (⟨.onCard card (.getData tag), ans⟩ : Σ op, ProvAns op) ∈ sampleCalls sampleObject true := by
    rw [hcalls]
    exact List.mem_append_right _ List.mem_cons_self
  have hnone : ∀ c ∈ ([] : Calls), c.2 = obliging sampleObject c.1 := fun _ h => nomatch h
  have hans : ans = sampleObject := Prog.mem_runWith (obliging sampleObject) _ hnone hmem
  have hcert : slotCert slot sampleObject = .ok [0xAA, 0xBB] := rfl
  rw [hans, hcert] at hread
  cases hread

/-- The key of a slot with a certificate is replaced after the operator agreed. -/
theorem writes_agreed_sample :
    (∃ ans, (⟨.onCard sampleCard (.generateKey slotSignature .ecP256 .operatorAct), ans⟩ :
      Σ op, ProvAns op) ∈ sampleCalls sampleObject true) ∧
    TrueReads sampleHeld (sampleCalls sampleObject true) ∧
    EveryWrite (sampleCalls sampleObject true)
      (AddKeyRule sampleHeld .auto (sampleArgs true)) := by
  have hreader : sampleReader.NeverEmpty := fun _ _ => nofun
  refine ⟨⟨.ok [], ?_⟩, trueReads_sample, ?_⟩
  · have hcall : (sampleCalls sampleObject true).reverse[10]? =
        some ⟨.onCard sampleCard (.generateKey slotSignature .ecP256 .operatorAct), .ok []⟩ := rfl
    exact List.mem_reverse.mp (List.mem_of_getElem? hcall)
  · exact (writes_agreed sampleCerts hreader).1 sampleHeld .auto (sampleArgs true) _ _
      (Prog.leads_runWith (obliging sampleObject) (.refl _)) trueReads_sample

/-- A card that refuses to give the certificate of a slot: the slot counts as empty, and its key is
destroyed although nobody asked for that. And a GUID that is a number: it is ignored, and the only
card is set up. -/
theorem not_writes_agreed :
    (∃ calls q, (addKeyWithFrontend sampleCerts sampleReader .auto (sampleArgs false)).Leads calls q ∧
      (⟨.onCard sampleCard (.getData 0x5FC10A), .ok ([], ⟨0x69, 0x82⟩)⟩ : Σ op, ProvAns op) ∈ calls ∧
      ¬ EveryWrite calls (AddKeyRule sampleHeld .auto (sampleArgs false))) ∧
    ∃ calls q, (cardInit sampleCerts sampleReader
      (.object [("guid", .number (some 5))])).Leads calls q ∧
      ¬ EveryWrite calls fun _ card _ => Honours (.object [("guid", .number (some 5))]) card := by
  constructor
  · let refused : Except PivError (Bytes × StatusWord) := .ok ([], ⟨0x69, 0x82⟩)
    refine ⟨sampleCalls refused false, _, Prog.leads_runWith (obliging refused) (.refl _), ?_, ?_⟩
    · have hcall : (sampleCalls refused false).reverse[2]? =
          some ⟨.onCard sampleCard (.getData 0x5FC10A), .ok ([], ⟨0x69, 0x82⟩)⟩ := rfl
      exact List.mem_reverse.mp (List.mem_of_getElem? hcall)
    · intro hrule
      have hcall : (sampleCalls refused false).reverse[10]? =
          some ⟨.onCard sampleCard (.generateKey slotSignature .ecP256 .operatorAct), .ok []⟩ := rfl
      obtain ⟨newer, older, hcalls⟩ :=
        List.append_of_mem (List.mem_reverse.mp (List.mem_of_getElem? hcall))
      obtain ⟨-, slot, policy, -, -, hop⟩ := hrule newer older _ _ _ hcalls rfl
      rcases hop with ⟨alg, policy', -, hagreed⟩ | ⟨cert, hcert⟩
      · exact absurd (hagreed rfl).1 (by decide)
      · cases hcert
  · obtain ⟨calls, next, hleads⟩ : (cardInit sampleCerts sampleReader
        (.object [("guid", .number (some 5))])).Reaches
        (.onCard (cardNamed .auto) (.writeChuid ⟨List.replicate 16 0, rfl⟩)) :=
      (reaches_provisionWithFrontend .auto false .initial .never).bind _
    refine ⟨_, _, hleads.call (.ok ()), fun hrule => ?_⟩
    exact (hrule [] calls _ _ _ rfl rfl).guid

end Piggy.Provision
