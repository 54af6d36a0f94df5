import Piggy.Fibby.PinAlways
import Piggy.Core.Lists

/-!
# Injected faults

A fault answers a command in place of the card, which should not notice. It notices in one way:
the command counts as one that came since the VERIFY. How many commands each fault answers, and
in which order, is kept in a ledger beside the run.
-/

namespace Piggy.Fibby

open Piggy.Core Piggy.Box

/-! ## The queue -/

/-- Whether a fault answers commands of an instruction. -/
def Fault.Matches (f : Fault) (ins : UInt8) : Prop :=
  0 < f.remaining ∧ (f.ins = none ∨ f.ins = some ins)

instance (f : Fault) (ins : UInt8) : Decidable (f.Matches ins) :=
  inferInstanceAs (Decidable (0 < f.remaining ∧ (f.ins = none ∨ f.ins = some ins)))

/-- What is left of a fault in the queue when it has answered once more. -/
def Fault.used (f : Fault) : List Fault :=
  if f.remaining = 1 then [] else [{ f with remaining := f.remaining - 1 }]

namespace VirtualCard

variable {crypto : CardCrypto} {around : Surroundings} {c : VirtualCard} {apdu : Bytes}
  {ins : UInt8} {faults : List Fault}

/-- The first fault that matches is used. -/
theorem takeFault_of_matches {before after : List Fault} {f : Fault} (hf : f.Matches ins)
    (hbefore : ∀ g ∈ before, ¬ g.Matches ins) :
    takeFault ins (before ++ f :: after) = some (f.sw, before ++ (f.used ++ after)) := by
  induction before with
  | nil =>
    have hfirst : takeFault ins (f :: after) = some (f.sw,
        if f.remaining = 1 then after
        else { f with remaining := f.remaining - 1 } :: after) := if_pos hf
    rw [List.nil_append, List.nil_append, hfirst, Fault.used]
    split
    · rfl
    · rfl
  | cons g before ih =>
    have hlater : takeFault ins (g :: (before ++ f :: after)) =
        (takeFault ins (before ++ f :: after)).map fun taken => (taken.1, g :: taken.2) :=
      if_neg (hbefore g List.mem_cons_self)
    rw [List.cons_append, hlater, ih fun x hx => hbefore x (List.mem_cons_of_mem _ hx)]
    rfl

theorem takeFault_eq_none (h : ∀ g ∈ faults, ¬ g.Matches ins) : takeFault ins faults = none := by
  induction faults with
  | nil => rfl
  | cons g faults ih =>
    have hlater : takeFault ins (g :: faults) =
        (takeFault ins faults).map fun taken => (taken.1, g :: taken.2) :=
      if_neg (h g List.mem_cons_self)
    rw [hlater, ih fun x hx => h x (List.mem_cons_of_mem _ hx)]
    rfl

/-- A command that a fault answers. -/
def Faulted (c : VirtualCard) (apdu : Bytes) : Prop :=
  ∃ ins, c.heard apdu = some ins ∧ ∃ f ∈ c.faults, f.Matches ins

/-- The status word of a fault, in bytes. -/
def faultResponse (fault : UInt16) : Bytes :=
  sw (UInt8.ofNat (fault.toNat / 256)) (UInt8.ofNat fault.toNat)

/-- A fault takes the command. -/
theorem dispatch_faulted {fault : UInt16} (hheard : c.heard apdu = some ins)
    (htake : takeFault ins c.faults = some (fault, faults)) :
    c.dispatch crypto around apdu =
      finish apdu (faultResponse fault, { c with touchBlocked := none, faults := faults }) := by
  obtain ⟨hin, -, cla, p1, p2, rest, rfl⟩ := heard_eq_some hheard
  rw [dispatch_letIn crypto around hin, dispatchCommand]
  simp only [htake]
  rfl

/-- A command that a fault answers changes nothing but the fault, and what comes later is
answered as if it had not been sent. -/
def LeavesUntouched (crypto : CardCrypto) (around : Surroundings) (c : VirtualCard) (apdu : Bytes) :
    Prop :=
  ∃ ins before f after, apdu[1]? = some ins ∧ c.faults = before ++ f :: after ∧
    (∀ g ∈ before, ¬ g.Matches ins) ∧ f.Matches ins ∧
    (c.transmit crypto around apdu).1 = faultResponse f.sw ∧
    (c.transmit crypto around apdu).2 =
      { c with touchBlocked := none, faults := before ++ (f.used ++ after) } ∧
    ∀ later, responses crypto (c.transmit crypto around apdu).2 later =
      responses crypto { c with faults := before ++ (f.used ++ after) } later

theorem leavesUntouched_iff (crypto : CardCrypto) (around : Surroundings) (h : c.Faulted apdu) :
    LeavesUntouched crypto around c apdu ↔
      apdu[1]? = some 0x20 ∨ c.commandSinceVerify = true := by
  obtain ⟨ins, hheard, f₀, hmem, hmatch⟩ := h
  rcases exists_first (·.Matches ins) c.faults with ⟨before, f, after, hfaults, hf, hbefore⟩ |
    hnone
  swap
  · exact absurd hmatch (hnone f₀ hmem)
  have htake : takeFault ins c.faults = some (f.sw, before ++ (f.used ++ after)) := by
    rw [hfaults]
    exact takeFault_of_matches hf hbefore
  have hdispatch : c.dispatch crypto around apdu = finish apdu (faultResponse f.sw,
      { c with touchBlocked := none, faults := before ++ (f.used ++ after) }) :=
    dispatch_faulted hheard htake
  have hresponse : (c.transmit crypto around apdu).1 = faultResponse f.sw := by
    rw [transmit, hdispatch]
    exact finish_fst _ _
  have hafter : (c.transmit crypto around apdu).2 = { (finish apdu (faultResponse f.sw,
      { c with touchBlocked := none, faults := before ++ (f.used ++ after) })).2 with
      touchBlocked := none } := by
    rw [transmit, hdispatch]
  constructor
  · rintro ⟨_, _, _, _, -, -, -, -, -, hcard, -⟩
    by_contra hneither
    obtain ⟨hins, hsince⟩ := not_or.mp hneither
    rw [hafter, finish_of_ne hins rfl] at hcard
    have hflag := congrArg commandSinceVerify hcard
    exact hsince hflag.symm
  · intro hquiet
    have hcard : (c.transmit crypto around apdu).2 =
        { c with touchBlocked := none, faults := before ++ (f.used ++ after) } := by
      rw [hafter]
      by_cases hins : apdu[1]? = some 0x20
      · rw [finish_of_verify hins]
      · rw [finish_of_ne hins rfl, ← hquiet.resolve_left hins]
    refine ⟨ins, before, f, after, (heard_eq_some hheard).2.1, hfaults, hbefore, hf, hresponse,
      hcard, fun later => ?_⟩
    rw [hcard]
    exact responses_touchBlocked crypto { c with faults := before ++ (f.used ++ after) } later

end VirtualCard

/-! ## The ledger -/

/-- An injected fault, and how many commands it has answered. -/
structure Charge where
  fault : Fault
  answered : Nat

namespace Charge

/-- A fault that has still to answer commands of an instruction. -/
def Owes (x : Charge) (ins : UInt8) : Prop :=
  x.answered < x.fault.remaining ∧ (x.fault.ins = none ∨ x.fault.ins = some ins)

instance (x : Charge) (ins : UInt8) : Decidable (x.Owes ins) :=
  inferInstanceAs (Decidable (x.answered < x.fault.remaining ∧
    (x.fault.ins = none ∨ x.fault.ins = some ins)))

/-- One more command is answered by the fault. -/
def charged (x : Charge) : Charge := { x with answered := x.answered + 1 }

/-- One more command: it is charged to the first fault that owes an answer. -/
def charge (ins : UInt8) : List Charge → List Charge
  | [] => []
  | x :: xs => if x.Owes ins then x.charged :: xs else x :: charge ins xs

/-- What stands in the queue for a fault. -/
def queued (x : Charge) : List Fault :=
  if x.answered < x.fault.remaining then
    [{ x.fault with remaining := x.fault.remaining - x.answered }] else []

/-- The queue. -/
def queue (xs : List Charge) : List Fault := xs.flatMap queued

end Charge

/-- The faults injected so far, the first one first, and how many commands each has answered. -/
def ledger : List Entry → List Charge
  | [] => []
  | e :: log =>
    match e.event with
    | .injectFault f => if f.remaining = 0 then ledger log else ledger log ++ [⟨f, 0⟩]
    | .clearFaults => []
    | .transmit apdu _ =>
      match e.card.heard apdu with
      | some ins => Charge.charge ins (ledger log)
      | none => ledger log
    | _ => ledger log

/-- What becomes of a command that is looked at: the first fault that owes an answer gives its
status word and is charged with it, or there is none, and no fault takes the command. -/
structure Attributed (crypto : CardCrypto) (e : Entry) (older : List Entry) (apdu : Bytes)
    (around : VirtualCard.Surroundings) (ins : UInt8) : Prop where
  owed : ∀ before x after, ledger older = before ++ x :: after → x.Owes ins →
    (∀ y ∈ before, ¬ y.Owes ins) →
    (e.card.dispatch crypto around apdu).1 = VirtualCard.faultResponse x.fault.sw ∧
      ledger (e :: older) = before ++ x.charged :: after
  notOwed : (∀ y ∈ ledger older, ¬ y.Owes ins) →
    VirtualCard.takeFault ins e.card.faults = none ∧ ledger (e :: older) = ledger older

/-- No fault has answered more commands than it was injected for, and those it answered came to
it in the order of the queue. -/
structure ExactlyAnswered (crypto : CardCrypto) (log : List Entry) : Prop where
  bounded : ∀ x ∈ ledger log, x.answered ≤ x.fault.remaining
  attributed : ∀ newer e older apdu around ins, log = newer ++ e :: older →
    e.event = .transmit apdu around → e.card.heard apdu = some ins →
    Attributed crypto e older apdu around ins

section Runs

variable {crypto : CardCrypto} {log : List Entry} {c : VirtualCard} {ins : UInt8}

namespace Charge

theorem charge_of_owes {before after : List Charge} {x : Charge} (hx : x.Owes ins)
    (hbefore : ∀ y ∈ before, ¬ y.Owes ins) :
    charge ins (before ++ x :: after) = before ++ x.charged :: after := by
  induction before with
  | nil => exact if_pos hx
  | cons y before ih =>
    have hy : charge ins (y :: (before ++ x :: after)) = y :: charge ins (before ++ x :: after) :=
      if_neg (hbefore y List.mem_cons_self)
    rw [List.cons_append, hy, ih fun z hz => hbefore z (List.mem_cons_of_mem _ hz)]
    rfl

theorem charge_of_not_owes {xs : List Charge} (h : ∀ y ∈ xs, ¬ y.Owes ins) :
    charge ins xs = xs := by
  induction xs with
  | nil => rfl
  | cons y xs ih =>
    have hy : charge ins (y :: xs) = y :: charge ins xs := if_neg (h y List.mem_cons_self)
    rw [hy, ih fun z hz => h z (List.mem_cons_of_mem _ hz)]

/-- A fault in the queue matches a command exactly if it owes an answer to it. -/
theorem queued_of_owes {x : Charge} (h : x.Owes ins) :
    ∃ f, x.queued = [f] ∧ f.Matches ins ∧ f.sw = x.fault.sw ∧ f.used = x.charged.queued := by
  obtain ⟨hlt, hins⟩ := h
  refine ⟨_, if_pos hlt, ⟨by simpa using Nat.sub_pos_of_lt hlt, hins⟩, rfl, ?_⟩
  rw [Fault.used, queued, charged]
  dsimp only
  by_cases hlast : x.fault.remaining - x.answered = 1
  · rw [if_pos hlast, if_neg (by omega)]
  · rw [if_neg hlast, if_pos (by omega)]
    rfl

theorem not_matches_of_not_owes {x : Charge} (h : ¬ x.Owes ins) {f : Fault} (hf : f ∈ x.queued) :
    ¬ f.Matches ins := by
  rw [queued] at hf
  split at hf
  · next hlt =>
    obtain rfl := List.mem_singleton.mp hf
    exact fun hmatch => h ⟨hlt, hmatch.2⟩
  · exact absurd hf List.not_mem_nil

theorem not_matches_queue {xs : List Charge} (h : ∀ y ∈ xs, ¬ y.Owes ins) :
    ∀ f ∈ queue xs, ¬ f.Matches ins := by
  intro f hf
  obtain ⟨y, hy, hfy⟩ := List.mem_flatMap.mp hf
  exact not_matches_of_not_owes (h y hy) hfy

theorem queue_append (xs ys : List Charge) : queue (xs ++ ys) = queue xs ++ queue ys :=
  List.flatMap_append

theorem queue_cons (x : Charge) (xs : List Charge) : queue (x :: xs) = x.queued ++ queue xs :=
  List.flatMap_cons

/-- The queue gives a command to the fault that it is charged to. -/
theorem takeFault_queue {before after : List Charge} {x : Charge} (hx : x.Owes ins)
    (hbefore : ∀ y ∈ before, ¬ y.Owes ins) :
    VirtualCard.takeFault ins (queue (before ++ x :: after)) =
      some (x.fault.sw, queue (before ++ x.charged :: after)) := by
  obtain ⟨f, hqueued, hf, hsw, hused⟩ := queued_of_owes hx
  have hqueue : queue (before ++ x :: after) = queue before ++ f :: queue after := by
    rw [queue_append, queue_cons, hqueued]
    rfl
  rw [hqueue, queue_append, queue_cons, ← hused, ← hsw]
  exact VirtualCard.takeFault_of_matches hf (not_matches_queue hbefore)

end Charge

theorem faults_after (crypto : CardCrypto) (c : VirtualCard) (apdu : Bytes)
    (around : VirtualCard.Surroundings) :
    (c.dispatch crypto around apdu).2.faults = match c.heard apdu with
      | some ins => ((VirtualCard.takeFault ins c.faults).map Prod.snd).getD c.faults
      | none => c.faults := by
  cases hheard : c.heard apdu with
  | none =>
    rcases (VirtualCard.faults_dispatch c apdu :
        (c.dispatch crypto around apdu).2.faults = c.faults ∨ _) with hfaults |
      ⟨ins, fault, hsome, -⟩
    · exact hfaults
    · exact absurd (hheard.symm.trans hsome) nofun
  | some ins =>
    cases htake : VirtualCard.takeFault ins c.faults with
    | some taken =>
      rw [VirtualCard.dispatch_faulted hheard htake, VirtualCard.faults_finish]
      simp only [htake, Option.map_some, Option.getD_some]
    | none =>
      rcases (VirtualCard.faults_dispatch c apdu :
          (c.dispatch crypto around apdu).2.faults = c.faults ∨ _) with hfaults |
        ⟨ins', fault, hsome, hfault⟩
      · simpa only [htake, Option.map_none, Option.getD_none] using hfaults
      · obtain rfl : ins = ins' := Option.some.inj (hheard.symm.trans hsome)
        exact absurd (htake.symm.trans hfault) nofun

/-- The queue after one more event. -/
theorem queue_step (crypto : CardCrypto) (e : Entry)
    (h : e.card.faults = Charge.queue (ledger log)) :
    (e.card.after crypto e.event).faults = Charge.queue (ledger (e :: log)) := by
  obtain ⟨card, event⟩ := e
  cases event with
  | connect => exact h
  | disconnect disposition => exact h
  | endTransaction disposition =>
    simp only [VirtualCard.after, VirtualCard.endTransaction]
    split
    · exact h
    · exact h
  | setPresent present =>
    simp only [VirtualCard.after, VirtualCard.setPresent]
    split
    · exact h
    · exact h
  | injectFault fault =>
    simp only [VirtualCard.after, VirtualCard.injectFault, ledger]
    by_cases hzero : fault.remaining = 0
    · rw [if_pos hzero, if_pos hzero]
      exact h
    · have hqueued : Charge.queued ⟨fault, 0⟩ = [fault] := if_pos (Nat.pos_of_ne_zero hzero)
      rw [if_neg hzero, if_neg hzero, Charge.queue_append, ← h, Charge.queue_cons, hqueued]
      rfl
  | clearFaults => rfl
  | grantTouch => exact h
  | transmit apdu around =>
    simp only [VirtualCard.after, ledger]
    rw [faults_after]
    cases card.heard apdu with
    | none => exact h
    | some ins =>
      simp only
      rw [h]
      rcases exists_first (·.Owes ins) (ledger log) with ⟨before, x, after, hlog, hx, hbefore⟩ |
        hnone
      · rw [hlog, Charge.takeFault_queue hx hbefore, Charge.charge_of_owes hx hbefore]
        rfl
      · rw [VirtualCard.takeFault_eq_none (Charge.not_matches_queue hnone), Charge.charge_of_not_owes hnone]
        rfl

/-- The queue is what the ledger still owes. -/
theorem faults_eq_queue (h : Run (·.faults = []) (Entry.Step crypto) anyStep log c) :
    c.faults = Charge.queue (ledger log) := by
  induction h with
  | start hempty => exact hempty
  | step hrun hstep _ ih =>
    obtain ⟨rfl, rfl⟩ := hstep
    exact queue_step crypto _ ih

theorem charge_bounded {xs : List Charge} (h : ∀ x ∈ xs, x.answered ≤ x.fault.remaining) :
    ∀ x ∈ Charge.charge ins xs, x.answered ≤ x.fault.remaining := by
  rcases exists_first (·.Owes ins) xs with ⟨before, x, after, rfl, hx, hbefore⟩ | hnone
  · rw [Charge.charge_of_owes hx hbefore]
    intro y hy
    rcases List.mem_append.mp hy with hy | hy
    · exact h y (by simp [hy])
    · rcases List.mem_cons.mp hy with rfl | hy
      · exact hx.1
      · exact h y (by simp [hy])
  · rw [Charge.charge_of_not_owes hnone]
    exact h

theorem ledger_bounded (log : List Entry) :
    ∀ x ∈ ledger log, x.answered ≤ x.fault.remaining := by
  induction log with
  | nil => exact fun x hx => absurd hx List.not_mem_nil
  | cons e log ih =>
    obtain ⟨card, event⟩ := e
    cases event with
    | injectFault fault =>
      simp only [ledger]
      split
      · exact ih
      · intro x hx
        rcases List.mem_append.mp hx with hx | hx
        · exact ih x hx
        · obtain rfl := List.mem_singleton.mp hx
          exact Nat.zero_le _
    | clearFaults => exact fun x hx => absurd hx List.not_mem_nil
    | transmit apdu around =>
      simp only [ledger]
      split
      · exact charge_bounded ih
      · exact ih
    | connect | disconnect | endTransaction | setPresent | grantTouch => exact ih

theorem exactlyAnswered (h : Run (·.faults = []) (Entry.Step crypto) anyStep log c) :
    ExactlyAnswered crypto log := by
  refine ⟨ledger_bounded log, ?_⟩
  rintro newer ⟨card, event⟩ older apdu around ins rfl rfl hheard
  obtain ⟨before, after, hrun, ⟨rfl, -⟩, -⟩ := h.step_of_append
  have hqueue : card.faults = Charge.queue (ledger older) := faults_eq_queue hrun
  have hledger : ledger (⟨card, .transmit apdu around⟩ :: older) =
      Charge.charge ins (ledger older) := by
    simp only [ledger, hheard]
  constructor
  · intro front x back hlog hx hfront
    have htake : VirtualCard.takeFault ins card.faults =
        some (x.fault.sw, Charge.queue (front ++ x.charged :: back)) := by
      rw [hqueue, hlog]
      exact Charge.takeFault_queue hx hfront
    refine ⟨?_, ?_⟩
    · rw [VirtualCard.dispatch_faulted hheard htake]
      exact VirtualCard.finish_fst _ _
    · rw [hledger, hlog]
      exact Charge.charge_of_owes hx hfront
  · intro hnone
    refine ⟨?_, ?_⟩
    · rw [hqueue]
      exact VirtualCard.takeFault_eq_none (Charge.not_matches_queue hnone)
    · rw [hledger]
      exact Charge.charge_of_not_owes hnone

/-- A fault leaves the card untouched exactly if it answers a VERIFY, or if a command came since
the last one anyway; and faults answer as many commands as they are injected for, in the order
of the queue. -/
theorem faults_untouched_iff (crypto : CardCrypto) :
    (∀ (c : VirtualCard) (around : VirtualCard.Surroundings) (apdu : Bytes), c.Faulted apdu →
      (VirtualCard.LeavesUntouched crypto around c apdu ↔
        apdu[1]? = some 0x20 ∨ c.commandSinceVerify = true)) ∧
    ∀ (log : List Entry) (c : VirtualCard),
      Run (·.faults = []) (Entry.Step crypto) anyStep log c → ExactlyAnswered crypto log :=
  ⟨fun _ around _ h => VirtualCard.leavesUntouched_iff crypto around h,
    fun _ _ h => exactlyAnswered h⟩

end Runs

/-- The PIN is verified, and the next GET DATA is to find no object. -/
def faultyCard : VirtualCard := verifiedSignatureCard.injectFault ⟨some 0xCB, 0x6A82, 1⟩

/-- Behind the fault the card refuses to sign, as if the command had been sent. -/
theorem not_leavesUntouched_beforeSignature :
    ¬ ∀ (c : VirtualCard) (around : VirtualCard.Surroundings) (apdu : Bytes), c.Faulted apdu →
      VirtualCard.LeavesUntouched sampleCrypto around c apdu := by
  intro h
  have hfaulted : faultyCard.Faulted [0x00, 0xCB, 0x3F, 0xFF, 0x00] :=
    ⟨0xCB, rfl, ⟨some 0xCB, 0x6A82, 1⟩, List.mem_singleton_self _, by decide⟩
  obtain ⟨ins, before, f, after, -, hfaults, -, -, -, -, hlater⟩ := h _ ⟨0, []⟩ _ hfaulted
  have hqueue : ([⟨some 0xCB, 0x6A82, 1⟩] : List Fault) = before ++ f :: after := hfaults
  cases before with
  | nil =>
    obtain ⟨rfl, rfl⟩ := List.cons.inj hqueue
    have hlengths := congrArg (List.map List.length) (hlater [(signatureApdu, ⟨0, []⟩)])
    have hrefused : (VirtualCard.responses sampleCrypto
        (faultyCard.transmit sampleCrypto ⟨0, []⟩ [0x00, 0xCB, 0x3F, 0xFF, 0x00]).2
        [(signatureApdu, ⟨0, []⟩)]).map List.length = [2] := rfl
    have hsigned : (VirtualCard.responses sampleCrypto verifiedSignatureCard
        [(signatureApdu, ⟨0, []⟩)]).map List.length = [78] := rfl
    rw [hrefused] at hlengths
    exact absurd (hlengths.trans hsigned) (by decide)
  | cons g before =>
    obtain ⟨-, hnil⟩ := List.cons.inj hqueue
    exact absurd hnil.symm (by simp)

end Piggy.Fibby
