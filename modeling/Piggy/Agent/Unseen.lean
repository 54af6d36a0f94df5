import Piggy.Agent.Dispatch

/-!
# Operator acts are not signed unseen

A signature that the card makes for data of an operator act was asked for by an operator act
whose text was shown, as long as the slots that sign requests read have the algorithms that
their keys are served with. A sign request prepares its data for the algorithm of the served
key and lets the card sign with the one of the slot.
-/

namespace Piggy.Agent

open Piggy.Core Piggy.Box Piggy.Card Piggy.Markl

/-! ## Programs that do not sign -/

/-- An operation other than a signature. -/
def AgentOp.Free (op : AgentOp) : Prop := ∀ g slot alg input, op ≠ .sign g slot alg input

theorem acquirePin_only (op : String) (g : Guid) (slotId : UInt8) :
    (acquirePin op g slotId).Only AgentOp.Free := by
  rw [acquirePin]
  split
  · refine ⟨nofun, ?_⟩
    rintro (e | acquired) <;> trivial
  · trivial

theorem offerTooRisky_only (g : Guid) (acquired : AcquiredPin) :
    (offerTooRisky g acquired).Only AgentOp.Free := by
  rw [offerTooRisky]
  split
  · exact ⟨nofun, fun _ => trivial⟩
  · trivial

section Guards

variable {ok : List AgentCall → AgentOp → Prop} (hok : ∀ calls op, op.Free → ok calls op)

include hok

/-- What runs on the card comes after the slot was read. -/
theorem guards_withPin {α : Type} {op : String} {g : Guid} {slotId : UInt8}
    {run : SlotInfo → AgentProg (Except String α)} {known : List AgentCall → Prop}
    (hknown : Prog.Lasting known)
    (hrun : ∀ slot calls, Prog.Since ⟨.readSlot g slotId, .ok slot⟩ known calls →
      (run slot).Guards ok (fun _ _ => True) calls)
    (rounds attempt : Nat) (calls : List AgentCall) (hcalls : known calls) :
    (withPin op g slotId run rounds attempt).Guards ok (fun _ _ => True) calls := by
  have hrun' : ∀ slot calls, Prog.Since ⟨.readSlot g slotId, .ok slot⟩ known calls →
      (run slot >>= fun result => pure (some result)).Guards ok (fun _ _ => True) calls := by
    intro slot calls hsince
    exact Prog.guards_bind.mpr ((hrun slot calls hsince).mono fun _ _ _ => trivial)
  induction rounds generalizing attempt calls with
  | zero => trivial
  | succ rounds ih =>
    rw [withPin]
    refine Prog.Guards.free_bind (acquirePin_only op g slotId) hok hknown hcalls ?_
    rintro (e | acquired) calls hcalls
    · trivial
    refine ⟨hok _ _ nofun, ?_⟩
    rintro (e | ⟨⟩)
    · trivial
    refine ⟨hok _ _ nofun, ?_⟩
    rintro (e | ⟨⟩)
    · trivial
    refine ⟨hok _ _ nofun, ?_⟩
    rintro (e | slot)
    · trivial
    have hsince : Prog.Since ⟨.readSlot g slotId, .ok slot⟩ known
        ((⟨.readSlot g slotId, .ok slot⟩ : AgentCall) :: ⟨.beginPinSession g, .ok ()⟩ ::
          ⟨.reconnectToToken g, .ok ()⟩ :: calls) :=
      .now (hknown _ _ (hknown _ _ hcalls))
    have hagain : ∀ calls, Prog.Since ⟨.readSlot g slotId, .ok slot⟩ known calls → known calls := by
      rintro calls ⟨newer, older, rfl, h⟩
      induction newer with
      | nil => exact hknown _ _ h
      | cons call newer ih => exact hknown _ _ ih
    rcases acquired with _ | acquired
    · exact hrun' slot _ hsince
    · refine Prog.Guards.free_bind (offerTooRisky_only g acquired) hok
        (Prog.lasting_since ⟨.readSlot g slotId, .ok slot⟩ known) hsince ?_
      rintro risky calls hsince
      rcases risky with _ | _
      · refine ⟨hok _ _ nofun, ?_⟩
        rintro (e | ⟨⟩)
        · cases e with
          | pinIncorrect retries =>
            by_cases hlimit : attempt < pinRetryLimit
            · simp only [hlimit, if_true]
              refine ⟨hok _ _ nofun, fun _ => ?_⟩
              exact ih (attempt + 1) _ (hknown _ _ (hknown _ _ (hagain _ hsince)))
            · simp only [hlimit, if_false]
              trivial
          | _ => trivial
        · refine ⟨hok _ _ nofun, fun _ => ?_⟩
          exact hrun' slot _ (Prog.lasting_since _ _ _ _ (Prog.lasting_since _ _ _ _ hsince))
      · refine ⟨hok _ _ nofun, fun _ => ?_⟩
        exact ih attempt _ (hknown _ _ (hagain _ hsince))

end Guards

/-! ## What comes before a signature -/

section

variable (setup : AgentSetup)

/-- The card signs for a sign request: the data is no act's, the agent serves the key, and the
slot of the key was read. -/
def Requested (publicKey data : Bytes) (flags : UInt32) (g : Guid) (slot alg : UInt8)
    (input : Bytes) (calls : List AgentCall) : Prop :=
  refuseOperatorActSignedData data = .ok () ∧ ∃ key info,
    key.guid = g ∧ key.slotId = slot ∧ alg = info.algorithm.toByte ∧
    prepareSignData setup.crates.sha key.algorithm data flags = .ok input ∧
    Prog.Since ⟨.readSlot g slot, .ok info⟩
      (fun calls => ⟨.findCachedKey publicKey, some key⟩ ∈ calls) calls

/-- The text of an act was shown on a prompt, and its PIN taken there. -/
def askedFor (act : JudgedAct) (g : Guid) (slot : UInt8) (pin : String) : AgentCall :=
  ⟨.askpass s!"PIN for card {guidShortId g} to sign this operator act"
    (promptContext act.cls (guidShortId g) slot act.request.namespaceName act.text) act.cls.asStr,
    .ok pin⟩

/-- The card attests that a slot holds a key that needs the PIN and a touch at every use. -/
def attested (publicKey : Bytes) (g : Guid) (slot : UInt8) (calls : List AgentCall) : Prop :=
  ∃ attestation, (⟨.ykAttest g slot, .ok attestation⟩ : AgentCall) ∈ calls ∧
    setup.crates.parsePolicy attestation = .ok ⟨.always, .always⟩ ∧
    setup.crates.extractPublicKey attestation = .ok publicKey

/-- The card signs for an act: its text was shown before, and after that the card attested the
key and took the PIN. -/
def ShownAct (details : Bytes) (g : Guid) (slot alg : UInt8) (input : Bytes)
    (calls : List AgentCall) : Prop :=
  ∃ act key publicKey pin after before,
    judge details = .ok act ∧ key.guid = g ∧ key.slotId = slot ∧ alg = key.algorithm.toByte ∧
    prepareSignData setup.crates.sha key.algorithm (signedData setup.crates.sha
      act.request.namespaceName act.hash act.request.text) 0 = .ok input ∧
    calls = after ++ askedFor act g slot pin :: before ∧
    ⟨.findCachedKey publicKey, some key⟩ ∈ before ∧ attested setup publicKey g slot after ∧
    ⟨.verifyPin g pin, .ok ()⟩ ∈ after

/-- What comes before an operation of a request. -/
def SignGuard (r : AgentRequest) (calls : List AgentCall) : AgentOp → Prop
  | .sign g slot alg input =>
    (∃ publicKey data flags, r = .sign publicKey data flags ∧
      Requested setup publicKey data flags g slot alg input calls) ∨
    ∃ details, r = .extension operatorActExtension details ∧
      ShownAct setup details g slot alg input calls
  | _ => True

theorem signGuard_of_free (r : AgentRequest) (calls : List AgentCall) (op : AgentOp)
    (h : op.Free) : SignGuard setup r calls op := by
  cases op with
  | sign g slot alg input => exact absurd rfl (h g slot alg input)
  | _ => trivial

/-- A program that does not sign is guarded. -/
theorem guards_of_only {r : AgentRequest} {α : Type} {p : AgentProg α} (h : p.Only AgentOp.Free)
    (calls : List AgentCall) : p.Guards (SignGuard setup r) (fun _ _ => True) calls :=
  h.guards (signGuard_of_free setup r) Prog.lasting_true trivial

theorem guards_signInner (rounds : Nat) (publicKey data : Bytes) (flags : UInt32) :
    (signInner setup rounds publicKey data flags).Guards
      (SignGuard setup (.sign publicKey data flags)) (fun _ _ => True) [] := by
  have hfree := signGuard_of_free setup (.sign publicKey data flags)
  rw [signInner]
  rcases hgate : refuseOperatorActSignedData data with e | ⟨⟩
  · trivial
  simp only [Prog.op_bind]
  refine ⟨hfree _ _ nofun, ?_⟩
  rintro (_ | key)
  · dsimp only
    split
    · refine ⟨hfree _ _ nofun, ?_⟩
      rintro (e | ⟨algorithm, data⟩) <;> trivial
    · trivial
  dsimp only
  rcases hinput : prepareSignData setup.crates.sha key.algorithm data flags with e | input
  · trivial
  have hsign : ∀ slot calls, Prog.Since ⟨.readSlot key.guid key.slotId, .ok slot⟩
      (fun calls => ⟨.findCachedKey publicKey, some key⟩ ∈ calls) calls →
      (signPrehash key.guid key.slotId input slot).Guards
        (SignGuard setup (.sign publicKey data flags)) (fun _ _ => True) calls := by
    intro slot calls hsince
    refine ⟨.inl ⟨publicKey, data, flags, rfl, hgate, key, slot, rfl, rfl, rfl, hinput, hsince⟩, ?_⟩
    rintro (e | signature) <;> trivial
  refine Prog.guards_bind.mpr ((guards_withPin hfree (Prog.lasting_mem _) hsign rounds 0 _
    List.mem_cons_self).mono ?_)
  rintro (_ | e | signature) calls -
  · trivial
  · trivial
  · dsimp only
    split <;> trivial

theorem guards_sign (rounds : Nat) (publicKey data : Bytes) (flags : UInt32) :
    (sign setup rounds publicKey data flags).Guards
      (SignGuard setup (.sign publicKey data flags)) (fun _ _ => True) [] := by
  refine Prog.guards_bind.mpr ((guards_signInner setup rounds publicKey data flags).mono ?_)
  rintro answer calls -
  cases answer with
  | failure e => exact ⟨trivial, fun _ => trivial⟩
  | _ => trivial

/-! ## Acts -/

/-- An attestation that was accepted is one of an operator act key. -/
theorem guards_checkOperatorActAttestation (r : AgentRequest) (g : Guid) (slot : UInt8)
    (requested : Bytes) (calls : List AgentCall) :
    (checkOperatorActAttestation setup.crates g slot requested).Guards (SignGuard setup r)
      (fun result calls' => result = .ok () → ∃ newer, calls' = newer ++ calls ∧
        attested setup requested g slot newer) calls := by
  simp only [checkOperatorActAttestation, Prog.op_bind]
  refine ⟨trivial, ?_⟩
  rintro (e | attestation)
  · exact nofun
  dsimp only
  rcases hpolicy : setup.crates.parsePolicy attestation with e | policy
  · exact nofun
  by_cases hserves : policy.servesOperatorActs
  swap
  · simp only [hserves, Bool.not_false, if_true]
    exact nofun
  simp only [hserves, Bool.not_true, Bool.false_eq_true, if_false]
  rcases hkey : setup.crates.extractPublicKey attestation with e | attestedKey
  · exact nofun
  by_cases hsame : attestedKey = requested
  swap
  · simp only [ne_eq, hsame, not_false_eq_true, if_true]
    exact nofun
  simp only [ne_eq, hsame, not_true_eq_false, if_false]
  refine ⟨trivial, ?_⟩
  rintro (e | intermediate)
  · exact nofun
  dsimp only
  rcases setup.crates.verifies attestation intermediate.certDer with e | _ | _
  · exact nofun
  · exact nofun
  · intro _
    have hpolicy' : policy = ⟨.always, .always⟩ := of_decide_eq_true hserves
    refine ⟨[⟨.readSlot g 0xF9, .ok intermediate⟩, ⟨.ykAttest g slot, .ok attestation⟩], rfl,
      attestation, ?_, ?_, ?_⟩
    · exact List.mem_cons_of_mem _ List.mem_cons_self
    · rw [hpolicy, hpolicy']
    · rw [hkey, hsame]

/-- The card signs an act after it attested the key and took the PIN. -/
theorem guards_signAct {details : Bytes} {act : JudgedAct} {key : NativeKey} {publicKey : Bytes}
    {input : Bytes} {pin : String} {before : List AgentCall} (hjudge : judge details = .ok act)
    (hinput : prepareSignData setup.crates.sha key.algorithm (signedData setup.crates.sha
      act.request.namespaceName act.hash act.request.text) 0 = .ok input)
    (hfind : ⟨.findCachedKey publicKey, some key⟩ ∈ before) :
    (signAct setup.crates key publicKey act.cls input pin).Guards
      (SignGuard setup (.extension operatorActExtension details)) (fun _ _ => True)
      (askedFor act key.guid key.slotId pin :: before) := by
  simp only [signAct, Prog.op_bind]
  refine ⟨trivial, ?_⟩
  rintro (e | ⟨⟩)
  · trivial
  refine Prog.guards_bind.mpr
    ((guards_checkOperatorActAttestation setup _ key.guid key.slotId publicKey _).mono ?_)
  rintro (e | ⟨⟩) calls hattested
  · trivial
  obtain ⟨newer, rfl, attestation, hmem, hrest⟩ := hattested rfl
  refine ⟨trivial, ?_⟩
  rintro (e | ⟨⟩)
  · trivial
  refine ⟨trivial, ?_⟩
  rintro (e | ⟨⟩)
  · trivial
  refine ⟨trivial, fun noted => ⟨?_, ?_⟩⟩
  · have hshape : ∀ noted verified begun connected asked : AgentCall,
        noted :: verified :: begun :: (newer ++ connected :: asked :: before) =
          (noted :: verified :: begun :: (newer ++ [connected])) ++ asked :: before := by
      intro noted verified begun connected asked
      simp only [List.cons_append, List.append_assoc, List.nil_append]
    refine .inr ⟨details, rfl, act, key, publicKey, pin, _, before, hjudge, rfl, rfl, rfl, hinput,
      hshape _ _ _ _ _, hfind, ?_, List.mem_cons_of_mem _ List.mem_cons_self⟩
    refine ⟨attestation, ?_, hrest⟩
    simp only [List.mem_cons, List.mem_append]
    exact .inr (.inr (.inr (.inl hmem)))
  · rintro (e | signature)
    · cases e with
      | pinRequired => exact ⟨trivial, fun _ => trivial⟩
      | _ => trivial
    · trivial

theorem guards_serveOperatorAct {details : Bytes} {key : NativeKey} {publicKey : Bytes}
    {calls : List AgentCall} (hfind : ⟨.findCachedKey publicKey, some key⟩ ∈ calls) :
    (serveOperatorAct setup.crates key publicKey details).Guards
      (SignGuard setup (.extension operatorActExtension details)) (fun _ _ => True) calls := by
  rw [serveOperatorAct]
  rcases hjudge : judge details with response | act
  · trivial
  simp only [Prog.op_bind]
  refine ⟨trivial, ?_⟩
  rintro (e | ⟨⟩)
  · trivial
  refine Prog.guards_bind.mpr
    ((guards_checkOperatorActAttestation setup _ key.guid key.slotId publicKey _).mono ?_)
  rintro (e | ⟨⟩) calls' hattested
  · trivial
  obtain ⟨newer, rfl, -⟩ := hattested rfl
  refine ⟨trivial, ?_⟩
  rintro (e | pin)
  · trivial
  dsimp only
  rcases hinput : prepareSignData setup.crates.sha key.algorithm (signedData setup.crates.sha
    act.request.namespaceName act.hash act.request.text) 0 with e | input
  · trivial
  have hfind' : (⟨.findCachedKey publicKey, some key⟩ : AgentCall) ∈
      newer ++ ⟨.reconnectToToken key.guid, .ok ()⟩ :: calls :=
    List.mem_append_right _ (List.mem_cons_of_mem _ hfind)
  refine Prog.guards_bind.mpr ((guards_signAct setup hjudge hinput hfind').mono ?_)
  rintro (response | signature) _ -
  · trivial
  · dsimp only
    split <;> trivial

/-- An act that is well formed can be signed. -/
theorem reaches_serveOperatorAct {details : Bytes} {act : JudgedAct} {key : NativeKey}
    {publicKey input attestation certificate : Bytes} (hjudge : judge details = .ok act)
    (hpolicy : setup.crates.parsePolicy attestation = .ok .operatorAct)
    (hkey : setup.crates.extractPublicKey attestation = .ok publicKey)
    (hverifies : setup.crates.verifies attestation certificate = .ok true)
    (hinput : prepareSignData setup.crates.sha key.algorithm (signedData setup.crates.sha
      act.request.namespaceName act.hash act.request.text) 0 = .ok input) :
    (serveOperatorAct setup.crates key publicKey details).Reaches
      (.sign key.guid key.slotId key.algorithm.toByte input) := by
  have hserves : KeyPolicy.operatorAct.servesOperatorActs = true := rfl
  have hcheck : ∀ {β : Type} {f : Except String Unit → AgentProg β},
      (f (.ok ())).Reaches (.sign key.guid key.slotId key.algorithm.toByte input) →
      (checkOperatorActAttestation setup.crates key.guid key.slotId publicKey >>= f).Reaches
        (.sign key.guid key.slotId key.algorithm.toByte input) := by
    intro β f hf
    simp only [checkOperatorActAttestation, Prog.op_bind, Prog.call_bind]
    refine Prog.reaches_call (.ok attestation) ?_
    simp only [hpolicy, hserves, hkey, Bool.not_true, Bool.false_eq_true, if_false, ne_eq,
      not_true_eq_false, Prog.call_bind]
    refine Prog.reaches_call (.ok ⟨.ecP256, certificate⟩) ?_
    simp only [hverifies, Prog.pure_eq, Prog.ret_bind]
    exact hf
  simp only [serveOperatorAct, hjudge, Prog.op_bind]
  refine Prog.reaches_call (.ok ()) (hcheck ?_)
  refine Prog.reaches_call (.ok "123456") ?_
  simp only [hinput]
  refine Prog.Reaches.bind ?_ _
  simp only [signAct, Prog.op_bind]
  refine Prog.reaches_call (.ok ()) (hcheck ?_)
  exact Prog.reaches_call (.ok ()) (Prog.reaches_call (.ok ()) (Prog.reaches_call true
    (Prog.reaches_here _ _)))

theorem guards_handleOperatorAct (details : Bytes) :
    (handleOperatorAct setup.crates details).Guards
      (SignGuard setup (.extension operatorActExtension details)) (fun _ _ => True) [] := by
  rw [handleOperatorAct]
  rcases (requestKey details).bind fun key => (setup.crates.publicKeyFromBytes key).toOption
    with _ | publicKey
  · trivial
  simp only [Prog.op_bind]
  refine ⟨trivial, ?_⟩
  rintro (_ | key)
  · refine ⟨trivial, ?_⟩
    rintro (_ | e | e | answer) <;> trivial
  · exact Prog.guards_bind.mpr ((guards_serveOperatorAct setup List.mem_cons_self).mono
      fun _ _ _ => trivial)

/-! ## Other requests -/

theorem withPin_only {α : Type} (op : String) (g : Guid) (slotId : UInt8)
    {run : SlotInfo → AgentProg (Except String α)} (hrun : ∀ slot, (run slot).Only AgentOp.Free)
    (rounds attempt : Nat) : (withPin op g slotId run rounds attempt).Only AgentOp.Free := by
  refine Prog.only_of_guards (guards_withPin (fun _ _ h => h) Prog.lasting_true ?_
    rounds attempt [] trivial)
  intro slot calls _
  exact (hrun slot).guards (fun _ _ h => h) Prog.lasting_true trivial

theorem ecdhDerive_only (g : Guid) (slotId : UInt8) (point : Bytes) (slot : SlotInfo) :
    (ecdhDerive g slotId point slot).Only AgentOp.Free := by
  refine ⟨nofun, ?_⟩
  rintro (e | secret) <;> trivial

theorem handleEcdh_only (crates : SignCrates) (rounds : Nat) (name : String) (details : Bytes) :
    (handleEcdh crates rounds name details).Only AgentOp.Free := by
  rw [handleEcdh]
  rcases ecdhRequest crates details with e | ⟨publicKey, partnerBlob⟩
  · trivial
  simp only [Prog.op_bind]
  refine ⟨nofun, ?_⟩
  rintro (_ | key)
  · trivial
  dsimp only
  rcases crates.ecPoint partnerBlob with e | point
  · trivial
  dsimp only
  split
  · refine (withPin_only _ _ _ (ecdhDerive_only _ _ point) rounds 0).bind ?_
    rintro (_ | e | secret) <;> trivial
  · trivial

theorem handleAttest_only (crates : SignCrates) (details : Bytes) :
    (handleAttest crates details).Only AgentOp.Free := by
  simp only [handleAttest, Prog.op_bind]
  split
  · trivial
  refine ⟨nofun, ?_⟩
  rintro (_ | key)
  · trivial
  refine ⟨nofun, ?_⟩
  rintro (e | ⟨⟩)
  · trivial
  refine ⟨nofun, ?_⟩
  rintro (e | attestCert)
  · trivial
  refine ⟨nofun, ?_⟩
  rintro (e | f9Slot) <;> trivial

theorem boxKey_only (parts : BoxParts) : (boxKey parts).Only AgentOp.Free := by
  simp only [boxKey, Prog.op_bind]
  split
  · refine ⟨nofun, ?_⟩
    rintro (_ | key) <;> trivial
  · refine ⟨nofun, ?_⟩
    rintro (_ | key) <;> trivial

theorem handleEcdhRebox_only (crates : SignCrates) (rounds : Nat) (details : Bytes) :
    (handleEcdhRebox crates rounds details).Only AgentOp.Free := by
  rw [handleEcdhRebox]
  rcases reboxRequest crates details with e | request
  · trivial
  refine (boxKey_only request.parts).bind ?_
  rintro (e | ⟨key, slot⟩)
  · trivial
  dsimp only
  rcases request.parts.ephemeral with e | point
  · trivial
  refine (withPin_only _ _ _ (ecdhDerive_only _ _ point) rounds 0).bind ?_
  rintro (_ | e | secret)
  · trivial
  · trivial
  · dsimp only
    split <;> trivial

theorem cardExtension_only (setup : AgentSetup) (name : String) (details : Bytes)
    (native : NativeExt) : (cardExtension setup name details native).Only AgentOp.Free := by
  rcases native with _ | (e | e) | reply
  · trivial
  · rw [cardExtension]
    split
    · refine ⟨nofun, ?_⟩
      rintro (e | reply)
      · dsimp only
        split
        · exact ⟨nofun, fun _ => trivial⟩
        · trivial
      · trivial
    · trivial
  · trivial
  · trivial

theorem handleQuery_only (setup : AgentSetup) : (handleQuery setup).Only AgentOp.Free := by
  rw [handleQuery]
  split
  · exact ⟨nofun, fun _ => trivial⟩
  · trivial

theorem extension_only (rounds : Nat) (name : String) (details : Bytes)
    (hname : name ≠ operatorActExtension) :
    (extension setup rounds name details).Only AgentOp.Free := by
  rw [extension]
  split_ifs
  · exact handleQuery_only setup
  · exact ⟨nofun, fun _ => trivial⟩
  · trivial
  · exact ⟨nofun, fun _ => ⟨nofun, fun _ => trivial⟩⟩
  · exact (handleEcdh_only ..).bind fun native => cardExtension_only setup name details native
  · exact (handleEcdhRebox_only ..).bind fun native => cardExtension_only setup name details native
  · exact (handleAttest_only ..).bind fun native => cardExtension_only setup name details native
  · exact ⟨nofun, fun _ => trivial⟩
  · exact ⟨nofun, fun _ => trivial⟩
  · exact ⟨nofun, fun _ => trivial⟩
  · trivial

theorem extension_operatorAct (rounds : Nat) (details : Bytes) :
    extension setup rounds operatorActExtension details = handleOperatorAct setup.crates details := by
  simp [extension, operatorActExtension, isEcdh, ecdhCanonical, ecdhLegacy]

theorem requestIdentities_only : (requestIdentities setup).Only AgentOp.Free := by
  simp only [requestIdentities, Prog.op_bind]
  refine ⟨nofun, fun keys => ?_⟩
  split
  · refine ⟨nofun, ?_⟩
    rintro (e | others) <;> trivial
  · trivial

theorem lock_only (key : String) : (lock setup key).Only AgentOp.Free := by
  simp only [lock, Prog.op_bind]
  refine ⟨nofun, fun _ => ?_⟩
  split
  · exact ⟨nofun, fun _ => trivial⟩
  · trivial

theorem unlock_only (key : String) : (unlock setup key).Only AgentOp.Free := by
  simp only [unlock, Prog.op_bind]
  refine ⟨nofun, fun _ => ?_⟩
  split
  · exact ⟨nofun, fun _ => trivial⟩
  · trivial

theorem addIdentity_only (identity : Bytes) : (addIdentity identity).Only AgentOp.Free := by
  refine ⟨nofun, ?_⟩
  rintro (e | ⟨⟩) <;> trivial

/-- Every request signs only after what comes before a signature. -/
theorem guards_program (rounds : Nat) (r : AgentRequest) :
    (program setup rounds r).Guards (SignGuard setup r) (fun _ _ => True) [] := by
  cases r with
  | requestIdentities => exact guards_of_only setup (requestIdentities_only setup) []
  | sign publicKey data flags => exact guards_sign setup rounds publicKey data flags
  | lock key => exact guards_of_only setup (lock_only setup key) []
  | unlock key => exact guards_of_only setup (unlock_only setup key) []
  | addIdentity identity => exact guards_of_only setup (addIdentity_only identity) []
  | addIdentityConstrained identity => exact guards_of_only setup (addIdentity_only identity) []
  | extension name details =>
    by_cases hname : name = operatorActExtension
    · subst hname
      rw [program, extension_operatorAct]
      exact guards_handleOperatorAct setup details
    · exact guards_of_only setup (extension_only setup rounds name details hname) []

end

/-! ## What the card is given determines the data -/

/-- The hashes tell two pieces of data apart. -/
def Sha2.Tells (sha : Sha2) (d d' : Bytes) : Prop :=
  (sha.sha256 d = sha.sha256 d' → d = d') ∧ (sha.sha384 d = sha.sha384 d' → d = d') ∧
    (sha.sha512 d = sha.sha512 d' → d = d')

/-- The digest information after the padding. -/
theorem pkcs1V15Pad_inj {hash info hash' info' : Bytes} {size : Nat} {input : Bytes}
    (h : pkcs1V15Pad hash info size = .ok input) (h' : pkcs1V15Pad hash' info' size = .ok input) :
    info ++ hash = info' ++ hash' := by
  rw [pkcs1V15Pad] at h h'
  split at h
  · cases h
  split at h'
  · cases h'
  have hsame := (Except.ok.inj h).trans (Except.ok.inj h').symm
  have hpad : ∀ n, (0x00 : UInt8) ∉ List.replicate n 0xFF := by
    intro n hmem
    exact absurd (List.eq_of_mem_replicate hmem) (by decide)
  simp only [List.append_assoc, List.cons_append, List.nil_append, List.cons.injEq, true_and]
    at hsame
  exact (append_cons_inj (hpad _) (hpad _) hsame).2

theorem prepareSignData_inj {sha : Sha2} {alg : PivAlgorithm} {d d' : Bytes} {flags flags' : UInt32}
    {input : Bytes} (h : prepareSignData sha alg d flags = .ok input)
    (h' : prepareSignData sha alg d' flags' = .ok input) (hsha : sha.Tells d d') : d = d' := by
  obtain ⟨h256, h384, h512⟩ := hsha
  have hrsa : ∀ size,
      (if flags &&& rsaSha2512 ≠ 0 then pkcs1V15Pad (sha.sha512 d) rsaDigestPrefixes.2 size
        else pkcs1V15Pad (sha.sha256 d) rsaDigestPrefixes.1 size) = .ok input →
      (if flags' &&& rsaSha2512 ≠ 0 then pkcs1V15Pad (sha.sha512 d') rsaDigestPrefixes.2 size
        else pkcs1V15Pad (sha.sha256 d') rsaDigestPrefixes.1 size) = .ok input → d = d' := by
    intro size h h'
    split at h <;> split at h'
    · exact h512 (List.append_cancel_left (pkcs1V15Pad_inj h h'))
    · exact absurd (List.cons.inj (List.cons.inj (pkcs1V15Pad_inj h h')).2).1 (by decide)
    · exact absurd (List.cons.inj (List.cons.inj (pkcs1V15Pad_inj h h')).2).1 (by decide)
    · exact h256 (List.append_cancel_left (pkcs1V15Pad_inj h h'))
  cases alg with
  | rsa1024 => exact hrsa 128 h h'
  | rsa2048 => exact hrsa 256 h h'
  | ecP256 => exact h256 ((Except.ok.inj h).trans (Except.ok.inj h').symm)
  | ecP384 => exact h384 ((Except.ok.inj h).trans (Except.ok.inj h').symm)
  | ed25519 => exact (Except.ok.inj h).trans (Except.ok.inj h').symm

/-- The fields of a request that was judged. -/
theorem judge_ok {details : Bytes} {act : JudgedAct} (h : judge details = .ok act) :
    ActRequest.decode details = some act.request ∧
      HashAlgorithm.parse act.request.hashAlgorithm = some act.hash ∧
      displayClass act.request.namespaceName = some act.cls ∧
      displayableText act.request.text = some act.text := by
  rw [judge] at h
  rcases hdecode : ActRequest.decode details with _ | request
  · rw [hdecode] at h
    cases h
  rw [hdecode] at h
  dsimp only at h
  rcases hhash : HashAlgorithm.parse request.hashAlgorithm with _ | hash
  · rw [hhash] at h
    cases h
  rw [hhash] at h
  dsimp only at h
  rcases hcls : displayClass request.namespaceName with _ | cls
  · rw [hcls] at h
    cases h
  rw [hcls] at h
  dsimp only at h
  rcases htext : displayableText request.text with _ | text
  · rw [htext] at h
    cases h
  rw [htext] at h
  cases h
  exact ⟨rfl, hhash, hcls, htext⟩

/-! ## Runs -/

/-- What is seen of the agent's jobs. -/
abbrev AgentEvent := JobEvent AgentOp AgentAns AgentRequest

/-- Runs of the agent. -/
abbrev AgentRuns (setup : AgentSetup) (rounds : Nat)
    (condition : List AgentEvent → (Nat → Option (AgentProg Answer)) → AgentEvent → Prop) :=
  JobRuns (program setup rounds) condition

/-- The slot that a sign request reads has the algorithm that its key is served with. -/
def SameAlgorithm (log : List AgentEvent) (_ : Nat → Option (AgentProg Answer)) (e : AgentEvent) :
    Prop :=
  ∀ job g slot info, e = .called job ⟨.readSlot g slot, .ok info⟩ →
    ∀ publicKey data flags key, .began job (.sign publicKey data flags) ∈ log →
      ⟨.findCachedKey publicKey, some key⟩ ∈ callsOf job log → key.guid = g → key.slotId = slot →
        info.algorithm = key.algorithm

/-- The data that the requests of a run have signed. -/
def RunData (sha : Sha2) (log : List AgentEvent) (d : Bytes) : Prop :=
  (∃ job publicKey flags, .began job (.sign publicKey d flags) ∈ log) ∨
  ∃ job details act, .began job (.extension operatorActExtension details) ∈ log ∧
    judge details = .ok act ∧
    d = signedData sha act.request.namespaceName act.hash act.request.text

/-- Some data is signed for an operator act that was shown: the act asked for it, its text can be
shown and is what is signed, the prompt with the text came before the PIN, and after the prompt
the card attested that the key needs the PIN and a touch at every use. -/
def SignedAct (setup : AgentSetup) (log : List AgentEvent) (job : Nat) (g : Guid) (slot : UInt8)
    (name : String) (d : Bytes) : Prop :=
  ∃ details act key publicKey pin after before,
    .began job (.extension operatorActExtension details) ∈ log ∧
    ActRequest.decode details = some act.request ∧ act.request.namespaceName = name ∧
    displayClass name = some act.cls ∧ displayableText act.request.text = some act.text ∧
    d = signedData setup.crates.sha name act.hash act.request.text ∧
    key.guid = g ∧ key.slotId = slot ∧
    callsOf job log = after ++ askedFor act g slot pin :: before ∧
    ⟨.findCachedKey publicKey, some key⟩ ∈ before ∧ attested setup publicKey g slot after ∧
    ⟨.verifyPin g pin, .ok ()⟩ ∈ after

section

variable {setup : AgentSetup} {rounds : Nat} {newer older : List AgentEvent}
  {s : Nat → Option (AgentProg Answer)} {job : Nat} {g : Guid} {slot : UInt8} {a : PivAlgorithm}
  {input d : Bytes} {flags : UInt32} {name : String} {answer : Except PivError Bytes}

/-- Operator acts are not signed unseen: in every run in which the slots that sign requests read
have the algorithms of their keys. What is shown determines the act, and the gate of sign requests
takes all other data. -/
theorem operatorAct_seen
    (h : AgentRuns setup rounds SameAlgorithm
      (newer ++ .called job ⟨.sign g slot a.toByte input, answer⟩ :: older) s)
    (hinput : prepareSignData setup.crates.sha a d flags = .ok input) (hact : ActData name d)
    (hsha : ∀ d', RunData setup.crates.sha older d' → setup.crates.sha.Tells d d') :
    SignedAct setup older job g slot name d ∧
      (∀ cls cls' g g' slot slot' name name' text text', name ∈ namespaces → name' ∈ namespaces →
        promptContext cls (guidShortId g) slot name text =
          promptContext cls' (guidShortId g') slot' name' text' →
        cls = cls' ∧ guidShortId g = guidShortId g' ∧ slot = slot' ∧ name = name' ∧ text = text') ∧
      ∀ data, (∀ name, ¬ ActData name data) → refuseOperatorActSignedData data = .ok () := by
  refine ⟨?_, fun _ _ _ _ _ _ _ _ _ _ => promptContext_inj, fun _ => refuseOperatorActSignedData_ok.mpr⟩
  obtain ⟨request, hbegan, hguard⟩ := guard_of_called (guards_program setup rounds) h
  rcases hguard with ⟨publicKey, data, flags', rfl, hgate, key, info, hg, hslot, halg, hprepared,
    newer', older', hcalls, hfind⟩ | ⟨details, rfl, act, key, publicKey, pin, after, before, hjudge,
    hg, hslot, halg, hprepared, hcalls, hfind, hattested, hpin⟩
  · -- the slot was read at a step of the run, so it has the algorithm of the key
    exfalso
    obtain ⟨between, earlier, rfl, rfl⟩ := exists_called hcalls
    obtain ⟨_, _, hrun, -, -⟩ := h.step_of_append
    obtain ⟨_, _, -, -, hcond⟩ := hrun.step_of_append
    have hsame : info.algorithm = key.algorithm :=
      hcond job g slot info rfl publicKey data flags' key (began_of_called hrun hbegan) hfind hg hslot
    have halgorithm : a = key.algorithm := (PivAlgorithm.toByte_inj halg).trans hsame
    subst halgorithm
    have hd : d = data := prepareSignData_inj hinput hprepared
      (hsha data (.inl ⟨job, publicKey, flags', hbegan⟩))
    exact refuseOperatorActSignedData_ok.mp hgate name (hd ▸ hact)
  · obtain ⟨hdecode, -, hcls, htext⟩ := judge_ok hjudge
    have hsame := PivAlgorithm.toByte_inj halg
    subst hsame
    have hd : d = signedData setup.crates.sha act.request.namespaceName act.hash act.request.text :=
      prepareSignData_inj hinput hprepared
        (hsha _ (.inr ⟨job, details, act, hbegan, hjudge, rfl⟩))
    have hname : act.request.namespaceName = name := by
      have hmem := displayClass_isSome.mp (Option.isSome_of_mem hcls)
      exact (actData_signedData hmem act.hash act.request.text).unique (hd ▸ hact)
    subst hname
    exact ⟨details, act, key, publicKey, pin, after, before, hbegan, hdecode, rfl, hcls, htext, hd,
      hg, hslot, hcalls, hfind, hattested, hpin⟩

end

/-- An agent with the libraries that a run needs. -/
def agentOf (sha : Sha2) (publicKey : Bytes) : AgentSetup where
  crates :=
    { sha := sha
      publicKeyFromBytes := .ok
      parsePolicy := fun _ => .ok ⟨.always, .always⟩
      extractPublicKey := fun _ => .ok publicKey
      verifies := fun _ _ => .ok true
      toSshSignature := fun _ signature _ => .ok ("ecdsa-sha2-nistp256", signature)
      ecPoint := .ok
      parseBox := fun _ => .error "truncated"
      rebox := fun _ _ _ _ _ => .error "truncated" }
  hasUpstreams := false
  proxyOnly := false

def quoteRequest : ActRequest := ⟨[1], "piggy-quote-v1", "sha256", strBytes "hi"⟩

def quoteDigest : Bytes :=
  [0x8f, 0x43, 0x43, 0x46, 0x64, 0x8f, 0x6b, 0x96, 0xdf, 0x89, 0xdd, 0xa9, 0x01, 0xc5, 0x17, 0x6b,
    0x10, 0xa6, 0xd8, 0x39, 0x61, 0xdd, 0x3c, 0x1a, 0xc8, 0x8b, 0x59, 0xb2, 0xdc, 0x32, 0x7a, 0xa4]

def quoteInput : Bytes :=
  [0x41, 0x97, 0xd7, 0xd3, 0xd0, 0x98, 0x45, 0x01, 0x8e, 0xf4, 0xd8, 0x54, 0xca, 0xaf, 0x1b, 0x97,
    0xbf, 0x97, 0x31, 0xbd, 0xf0, 0xae, 0x43, 0x2d, 0xa5, 0xb4, 0xc9, 0xd5, 0x07, 0x2a, 0x2d, 0x4b]

def quoteData : Bytes :=
  signedData ⟨fun _ => quoteDigest, fun _ => [], fun _ => []⟩ "piggy-quote-v1" .sha256 (strBytes "hi")

def quoteSha256 (data : Bytes) : Bytes :=
  if data = strBytes "hi" then quoteDigest else if data = quoteData then quoteInput else []

def quoteSha : Sha2 := ⟨quoteSha256, fun _ => [], fun _ => []⟩

def quoteGuid : Guid := ⟨List.replicate 16 0x0A, rfl⟩

def quoteKey (g : Guid) : NativeKey := ⟨g, 0x9C, .ecP256, [1], "operator"⟩

def quoteAct : JudgedAct := ⟨quoteRequest, .sha256, .quote, "hi"⟩

/-- The request is not long, nor is its text, which is not the data that is signed. -/
private theorem quoteRequest_fits : quoteRequest.encode.length < 2 ^ 32 ∧
    ¬ (strBytes "hi" = [] ∨ maxTextBytes < (strBytes "hi").length) ∧ quoteData ≠ strBytes "hi" := by
  decide +kernel

private theorem judge_quoteRequest : judge quoteRequest.encode = .ok quoteAct := by
  obtain ⟨hlength, hshort, -⟩ := quoteRequest_fits
  have hchars : "hi".toList.all (fun c => c = '\n' || c = '\t' || !isControl c) := by decide
  have htext : displayableText quoteRequest.text = some "hi" := by
    show displayableText (strBytes "hi") = _
    rw [displayableText, if_neg hshort, fromUtf8_ok.mpr rfl]
    exact if_pos hchars
  rw [judge, ActRequest.decode_encode hlength]
  have hhash : HashAlgorithm.parse quoteRequest.hashAlgorithm = some .sha256 := rfl
  have hcls : displayClass quoteRequest.namespaceName = some .quote := rfl
  dsimp only
  rw [hhash, hcls, htext]
  rfl

private theorem signedData_quoteAct :
    signedData quoteSha "piggy-quote-v1" .sha256 (strBytes "hi") = quoteData := by
  have hdigest : quoteSha.sha256 (strBytes "hi") = quoteDigest := by
    show quoteSha256 (strBytes "hi") = quoteDigest
    rw [quoteSha256, if_pos rfl]
  simp only [signedData, quoteData, HashAlgorithm.digest, hdigest]

private theorem prepareSignData_quoteAct :
    prepareSignData quoteSha .ecP256 quoteData 0 = .ok quoteInput := by
  obtain ⟨-, -, hne⟩ := quoteRequest_fits
  show Except.ok (quoteSha256 quoteData) = _
  rw [quoteSha256, if_neg hne, if_pos rfl]

private theorem reaches_quoteAct (g : Guid) :
    (program (agentOf quoteSha [1]) 1 (.extension operatorActExtension quoteRequest.encode)).Reaches
      (.sign g 0x9C PivAlgorithm.ecP256.toByte quoteInput) := by
  have hkey : ((requestKey quoteRequest.encode).bind fun key =>
      ((agentOf quoteSha [1]).crates.publicKeyFromBytes key).toOption) = some [1] := by
    rw [ActRequest.requestKey_encode quoteRequest_fits.1]
    rfl
  have hinput : prepareSignData (agentOf quoteSha [1]).crates.sha (quoteKey g).algorithm
      (signedData (agentOf quoteSha [1]).crates.sha quoteAct.request.namespaceName quoteAct.hash
        quoteAct.request.text) 0 = .ok quoteInput := by
    show prepareSignData quoteSha .ecP256
      (signedData quoteSha "piggy-quote-v1" .sha256 (strBytes "hi")) 0 = .ok quoteInput
    rw [signedData_quoteAct, prepareSignData_quoteAct]
  rw [program, extension_operatorAct, handleOperatorAct, hkey]
  simp only [Prog.op_bind]
  refine Prog.reaches_call (some (quoteKey g)) (Prog.Reaches.bind ?_ _)
  have hpolicy : (agentOf quoteSha [1]).crates.parsePolicy [2] = .ok .operatorAct := rfl
  have hextract : (agentOf quoteSha [1]).crates.extractPublicKey [2] = .ok [1] := rfl
  have hverifies : (agentOf quoteSha [1]).crates.verifies [2] [3] = .ok true := rfl
  exact reaches_serveOperatorAct (agentOf quoteSha [1]) judge_quoteRequest hpolicy hextract hverifies
    hinput

/-- An act that is signed after it was shown. -/
theorem operatorAct_seen_quote : ∃ older s,
    AgentRuns (agentOf quoteSha [1]) 1 SameAlgorithm
      ([] ++ .called 0 ⟨.sign quoteGuid 0x9C PivAlgorithm.ecP256.toByte quoteInput, .ok [4]⟩ :: older)
      s ∧
    SignedAct (agentOf quoteSha [1]) older 0 quoteGuid 0x9C "piggy-quote-v1" quoteData := by
  obtain ⟨calls, next, hleads⟩ := reaches_quoteAct quoteGuid
  have hcond : ∀ log s e, (∀ job other, .began job other ∈ log →
      other = .extension operatorActExtension quoteRequest.encode) → SameAlgorithm log s e := by
    intro log s e honly job g slot info _ publicKey data flags key hbegan
    cases honly job _ hbegan
  have hrun : AgentRuns (agentOf quoteSha [1]) 1 SameAlgorithm
      ([] ++ .called 0 ⟨.sign quoteGuid 0x9C PivAlgorithm.ecP256.toByte quoteInput, .ok [4]⟩ ::
        (calls.map (JobEvent.called 0) ++ [.began 0 _])) _ :=
    run_of_leads hcond (hleads.call (.ok [4]))
  have hact : ActData "piggy-quote-v1" quoteData := actData_signedData (by decide) _ _
  refine ⟨_, _, hrun, (operatorAct_seen hrun prepareSignData_quoteAct hact ?_).1⟩
  rintro d' (⟨job, publicKey, flags, hbegan⟩ | ⟨job, details, act, hbegan, hjudge, rfl⟩)
  · simp at hbegan
  · have hsame : job = 0 ∧ details = quoteRequest.encode := by simpa using hbegan
    rw [hsame.2, judge_quoteRequest] at hjudge
    cases hjudge
    have hsame : quoteData = signedData (agentOf quoteSha [1]).crates.sha
        quoteAct.request.namespaceName quoteAct.hash quoteAct.request.text := signedData_quoteAct.symm
    exact ⟨fun _ => hsame, fun _ => hsame, fun _ => hsame⟩

/-! ## A slot whose key was replaced -/

def rootDigest : Bytes :=
  [0x48, 0x13, 0x49, 0x4d, 0x13, 0x7e, 0x16, 0x31, 0xbb, 0xa3, 0x01, 0xd5, 0xac, 0xab, 0x6e, 0x7b,
    0xb7, 0xaa, 0x74, 0xce, 0x11, 0x85, 0xd4, 0x56, 0x56, 0x5e, 0xf5, 0x1d, 0x73, 0x76, 0x77, 0xb2]

/-- The data of an act that asks for more rights. -/
def rootData : Bytes :=
  signedData ⟨fun _ => rootDigest, fun _ => [], fun _ => []⟩ "piggy-escalation-v1" .sha256
    (strBytes "root")

def rootInput : Bytes :=
  [0x61, 0xd0, 0xda, 0x89, 0x74, 0x61, 0x88, 0x82, 0x98, 0xe8, 0x8d, 0xb2, 0x11, 0x4c, 0xce, 0xf2,
    0xa7, 0xc5, 0xff, 0x53, 0xc3, 0xa5, 0xa9, 0x54, 0x41, 0xae, 0x33, 0xd4, 0x45, 0xf0, 0x81, 0x0c]

def rootSha256 (data : Bytes) : Bytes :=
  if data = rootData then rootInput
  else if data = strBytes "root" then rootDigest
  else
    [0xf0, 0x9d, 0x9c, 0x28, 0x5f, 0x3f, 0x88, 0x1d, 0x5c, 0x1d, 0x83, 0x21, 0xe4, 0xad, 0x9a, 0x85,
      0x35, 0xaf, 0xf8, 0xcb, 0x6e, 0xcb, 0x1a, 0xd7, 0x3f, 0x8d, 0x4d, 0x15, 0x56, 0x5f, 0x90, 0x9f]

def rootSha384 (data : Bytes) : Bytes :=
  if data = rootData then
    [0xff, 0x07, 0xdf, 0x06, 0x15, 0xb6, 0xee, 0x81, 0xe1, 0x48, 0xbb, 0x7a, 0x74, 0xb0, 0x6e, 0x0c,
      0x3a, 0x0a, 0x77, 0x6c, 0x74, 0x7d, 0xef, 0x13, 0x19, 0x7f, 0x0f, 0xa3, 0x62, 0xb9, 0x39, 0x83,
      0xda, 0xcc, 0xcd, 0xca, 0xd5, 0x64, 0x63, 0x8a, 0x01, 0xb8, 0xf5, 0x1e, 0x91, 0x90, 0xc2, 0x07]
  else
    [0x00, 0x2b, 0x9c, 0x7b, 0x4d, 0x9e, 0xa8, 0x0d, 0x83, 0x43, 0x31, 0x3b, 0x80, 0x52, 0xaf, 0xf2,
      0x6e, 0xba, 0xf8, 0xc1, 0xc9, 0xf0, 0xf9, 0xad, 0x3a, 0xea, 0x7a, 0xa4, 0x31, 0x94, 0x30, 0xd3,
      0x8e, 0x55, 0xc9, 0x0d, 0x61, 0xdb, 0x02, 0x5c, 0x61, 0xcb, 0x24, 0xd5, 0x46, 0xb5, 0x41, 0x1d]

def rootSha512 (data : Bytes) : Bytes :=
  if data = rootData then
    [0xde, 0x43, 0x96, 0xb7, 0x0b, 0x03, 0xc0, 0x54, 0x45, 0xf7, 0x30, 0x6c, 0x3c, 0x44, 0x1d, 0x91,
      0x0a, 0x6a, 0x69, 0xa1, 0xe0, 0xd8, 0x77, 0x50, 0xfa, 0x89, 0xbf, 0x40, 0x69, 0xa7, 0x5c, 0x90,
      0xea, 0xee, 0xf9, 0x91, 0x7c, 0x7e, 0x23, 0x07, 0x50, 0x21, 0xc3, 0x28, 0x9c, 0xf1, 0x54, 0xdf,
      0x93, 0xf6, 0x6f, 0x31, 0x58, 0xd6, 0xaa, 0x1c, 0xa0, 0xcd, 0x0d, 0xae, 0xdd, 0xc4, 0x55, 0xdc]
  else
    [0x14, 0xe5, 0x51, 0x0d, 0xf9, 0xf9, 0xff, 0x6b, 0xf8, 0x01, 0xc4, 0xb7, 0x48, 0x84, 0x4f, 0xba,
      0x32, 0x88, 0x92, 0x9c, 0x01, 0x7f, 0xe2, 0xbc, 0xe4, 0x20, 0x0a, 0x78, 0x58, 0xa5, 0x29, 0x13,
      0xdc, 0x59, 0xea, 0x31, 0x86, 0xf7, 0xd2, 0xcf, 0x83, 0x5f, 0x53, 0xac, 0x02, 0xd9, 0x0e, 0xe3,
      0x10, 0xb8, 0x3b, 0xfd, 0x3b, 0x67, 0x75, 0x68, 0xe1, 0x07, 0x0d, 0xa6, 0xfc, 0x47, 0x0a, 0xad]

def rootSha : Sha2 := ⟨rootSha256, rootSha384, rootSha512⟩

theorem rootSha_tells : rootSha.Tells rootData rootInput := by
  obtain ⟨hne, hroot⟩ : rootInput ≠ rootData ∧ rootInput ≠ strBytes "root" := by decide +kernel
  refine ⟨fun h => ?_, fun h => ?_, fun h => ?_⟩
  · change rootSha256 rootData = rootSha256 rootInput at h
    rw [rootSha256, if_pos rfl, rootSha256, if_neg hne, if_neg hroot] at h
    exact absurd h (by decide)
  · change rootSha384 rootData = rootSha384 rootInput at h
    rw [rootSha384, if_pos rfl, rootSha384, if_neg hne] at h
    exact absurd h (by decide)
  · change rootSha512 rootData = rootSha512 rootInput at h
    rw [rootSha512, if_pos rfl, rootSha512, if_neg hne] at h
    exact absurd h (by decide)

/-- The key as the agent knows it. -/
def rootKey : NativeKey := ⟨quoteGuid, 0x9C, .ed25519, [1], "operator"⟩

theorem reaches_rootInput :
    (program (agentOf rootSha [1]) 1 (.sign [1] rootInput 0)).Reaches
      (.sign quoteGuid 0x9C PivAlgorithm.ecP256.toByte rootInput) := by
  have hgate : refuseOperatorActSignedData rootInput = .ok () := rfl
  have hinput : prepareSignData (agentOf rootSha [1]).crates.sha rootKey.algorithm rootInput 0 =
      .ok rootInput := rfl
  rw [program, sign]
  refine Prog.Reaches.bind ?_ _
  simp only [signInner, hgate, Prog.op_bind]
  refine Prog.reaches_call (some rootKey) ?_
  simp only [hinput]
  refine Prog.Reaches.bind ?_ _
  have hslot : rootKey.slotId ≠ 0x9E := by decide
  simp only [withPin, acquirePin, if_pos hslot, Prog.op_bind, Prog.call_bind]
  refine Prog.reaches_call (.ok ⟨"123456", true, false⟩) ?_
  refine Prog.reaches_call (.ok ()) ?_
  refine Prog.reaches_call (.ok ()) ?_
  refine Prog.reaches_call (.ok ⟨.ecP256, []⟩) ?_
  refine Prog.reaches_call (.ok ()) ?_
  refine Prog.reaches_call () ?_
  exact Prog.reaches_here _ _

/-- The agent serves an Ed25519 key, but the slot has an operator act key by now: the digest of
an act's data is signed as data of its own, and nobody saw the act. -/
theorem not_operatorAct_seen : ¬ ∀ (setup : AgentSetup) (rounds : Nat) (newer older : List AgentEvent)
    (s : Nat → Option (AgentProg Answer)) (job : Nat) (g : Guid) (slot : UInt8) (a : PivAlgorithm)
    (input d : Bytes) (flags : UInt32) (name : String) (answer : Except PivError Bytes),
    AgentRuns setup rounds anyStep
      (newer ++ .called job ⟨.sign g slot a.toByte input, answer⟩ :: older) s →
    prepareSignData setup.crates.sha a d flags = .ok input → ActData name d →
    (∀ d', RunData setup.crates.sha older d' → setup.crates.sha.Tells d d') →
    SignedAct setup older job g slot name d := by
  intro h
  obtain ⟨calls, next, hleads⟩ := reaches_rootInput
  have hrun : AgentRuns (agentOf rootSha [1]) 1 anyStep
      ([] ++ .called 0 ⟨.sign quoteGuid 0x9C PivAlgorithm.ecP256.toByte rootInput, .ok [4]⟩ ::
        (calls.map (JobEvent.called 0) ++ [.began 0 _])) _ :=
    run_of_leads (fun _ _ _ _ => trivial) (hleads.call (.ok [4]))
  have hinput : prepareSignData rootSha .ecP256 rootData 0 = .ok rootInput := by
    show Except.ok (rootSha256 rootData) = .ok rootInput
    rw [rootSha256, if_pos rfl]
  have hact : ActData "piggy-escalation-v1" rootData := actData_signedData (by decide) _ _
  have htells : ∀ d', RunData rootSha (calls.map (JobEvent.called 0) ++
      [.began 0 (.sign [1] rootInput 0)]) d' → rootSha.Tells rootData d' := by
    rintro d' (⟨job, publicKey, flags, hbegan⟩ | ⟨job, details, act, hbegan, -⟩)
    · have hsame : job = 0 ∧ publicKey = [1] ∧ d' = rootInput ∧ flags = 0 := by simpa using hbegan
      rw [hsame.2.2.1]
      exact rootSha_tells
    · simp at hbegan
  obtain ⟨details, -, -, -, -, -, -, hbegan, -⟩ :=
    h _ _ _ _ _ _ _ _ _ _ _ _ _ _ hrun hinput hact htells
  simp at hbegan

end Piggy.Agent
