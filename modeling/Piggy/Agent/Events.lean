import Piggy.Agent.Presence
import Piggy.Core.Runs

/-!
# Reader events

A thread watches the readers. It puts the names of those that changed into a set and notifies
the loop, which wakes up at a notification or when its time is up. At a notification the loop
takes the set and makes a pass in which a card that is missing from one of these readers is
dropped at once; the set is empty afterwards, whether the pass is made or skipped because a
request has the card. When its time is up the loop leaves the set where it is.
-/

namespace Piggy.Agent

open Piggy.Box Piggy.Core

/-- Where the loop is: about to make a pass, waiting for a notification or its time, or woken by
a notification and about to take the set. -/
inductive LoopPhase where
  | awake
  | waiting
  | draining
  deriving DecidableEq

/-- The loop with the thread that watches and the requests that use the card. -/
structure EventLoop where
  agent : AgentState
  /-- Readers that were reported and not taken. -/
  changed : List String
  /-- A notification that nobody has taken. Several are one. -/
  permit : Bool
  /-- The watching thread has put names into the set and has not notified yet. -/
  announcing : Bool
  /-- Readers whose missing cards the next pass drops at once. -/
  immediate : List String
  phase : LoopPhase
  /-- A request has the card. -/
  held : Bool

/-- What the loop sees and what happens around it. -/
inductive LoopEvent where
  | reported (readers : List String)
  | notified
  | requested (pin : PinCache)
  | acquired
  | released
  | timedOut
  | woken
  | drained
  | passed (p : Pass)

/-- One step of the loop, of the watching thread or of a request. -/
inductive LoopStep (failLimit : Nat) : EventLoop → LoopEvent → EventLoop → Prop where
  | report {s : EventLoop} (readers : List String) (hready : s.announcing = false) :
      LoopStep failLimit s (.reported readers)
        { s with changed := readers ++ s.changed, announcing := true }
  | notify {s : EventLoop} (hready : s.announcing = true) :
      LoopStep failLimit s .notified { s with permit := true, announcing := false }
  | request {s : EventLoop} (pin : PinCache) :
      LoopStep failLimit s (.requested pin) { s with agent := { s.agent with pin } }
  | acquire {s : EventLoop} (hfree : s.held = false) :
      LoopStep failLimit s .acquired { s with held := true }
  | release {s : EventLoop} (hheld : s.held = true) :
      LoopStep failLimit s .released { s with held := false }
  | timeOut {s : EventLoop} (hphase : s.phase = .waiting) :
      LoopStep failLimit s .timedOut { s with immediate := [], phase := .awake }
  | wake {s : EventLoop} (hphase : s.phase = .waiting) (hpermit : s.permit = true) :
      LoopStep failLimit s .woken { s with permit := false, phase := .draining }
  | drain {s : EventLoop} (hphase : s.phase = .draining) :
      LoopStep failLimit s .drained
        { s with immediate := s.changed, changed := [], phase := .awake }
  | skip {s : EventLoop} (hphase : s.phase = .awake) (hheld : s.held = true) :
      LoopStep failLimit s (.passed .skipped) { s with phase := .waiting }
  | look {s : EventLoop} {desired : List CachedKey} {order : List Guid} {verify : Guid → Bool}
      (hphase : s.phase = .awake) (hfree : s.held = false)
      (hwalks : (Pass.looked desired order verify).Walks s.agent) :
      LoopStep failLimit s (.passed (.looked desired order verify))
        { s with
          agent := reconcileOnce failLimit s.immediate s.agent (.looked desired order verify)
          phase := .waiting }

/-- The loop at its launch: the opening pass is next. -/
def EventLoop.Launched (s : EventLoop) : Prop :=
  (∀ g, s.agent.misses g = 0) ∧ s.changed = [] ∧ s.permit = false ∧ s.announcing = false ∧
    s.immediate = [] ∧ s.phase = .awake ∧ s.held = false

/-- Runs of the loop. -/
abbrev LoopRuns (failLimit : Nat) (condition : List LoopEvent → EventLoop → LoopEvent → Prop) :
    List LoopEvent → EventLoop → Prop :=
  Run EventLoop.Launched (LoopStep failLimit) condition

/-- The readers reported since the last pass that was not skipped. -/
def reportedReaders : List LoopEvent → List String
  | [] => []
  | .passed (.looked ..) :: _ => []
  | .reported readers :: log => readers ++ reportedReaders log
  | _ :: log => reportedReaders log

/-- A pass that looks drops every served card that is missing and whose reader was reported
since the pass before it, and forgets its PIN. -/
def Heard (log : List LoopEvent) (s : EventLoop) (desired : List CachedKey) (s' : EventLoop) :
    Prop :=
  ∀ k ∈ s.agent.keys, k.readerName ∈ reportedReaders log → k.guid ∉ cardsOf desired →
    k.guid ∉ cardsOf s'.agent.keys ∧ s'.agent.pin.verified k.guid = none

/-- Some of the readers have a served card in them. -/
def EventLoop.Concerned (s : EventLoop) (readers : List String) : Prop :=
  ∃ k ∈ s.agent.keys, k.readerName ∈ readers

/-- The condition on the steps, about readers with a served card: none is reported between the
wake-up and its pass, the time is not up while one waits to be taken, and the pass for which
one was taken is not skipped. -/
def Attended (_ : List LoopEvent) (s : EventLoop) : LoopEvent → Prop
  | .reported readers => s.phase = .awake → ¬ s.Concerned readers
  | .timedOut => ¬ s.Concerned s.changed
  | .passed .skipped => ¬ s.Concerned s.immediate
  | _ => True

/-! ## No report is lost -/

section

variable {failLimit : Nat} {log : List LoopEvent} {s s' : EventLoop}

/-- Where the reports are that no pass has looked at yet, for the readers of served cards. -/
private def EventLoop.Carries (s : EventLoop) (readers : List String) : Prop :=
  ∀ k ∈ s.agent.keys, k.readerName ∈ readers →
    k.readerName ∈ if s.phase = .awake then s.immediate else s.changed

/-- A step carries the reports on. -/
private theorem EventLoop.Carries.step (h : s.Carries (reportedReaders log)) {e : LoopEvent}
    (hstep : LoopStep failLimit s e s') (hattended : Attended log s e) :
    s'.Carries (reportedReaders (e :: log)) := by
  cases hstep with
  | report readers hready =>
    intro k hk hreader
    rcases List.mem_append.mp hreader with hnew | hold
    · have hphase : s.phase ≠ .awake := fun hawake => hattended hawake ⟨k, hk, hnew⟩
      rw [if_neg hphase]
      exact List.mem_append_left _ hnew
    · have hcarried := h k hk hold
      by_cases hphase : s.phase = .awake
      · rw [if_pos hphase] at hcarried ⊢
        exact hcarried
      · rw [if_neg hphase] at hcarried ⊢
        exact List.mem_append_right _ hcarried
  | notify hready => exact h
  | request pin => exact h
  | acquire hfree => exact h
  | release hheld => exact h
  | timeOut hphase =>
    intro k hk hreader
    have hcarried := h k hk hreader
    rw [hphase] at hcarried
    exact absurd ⟨k, hk, hcarried⟩ hattended
  | wake hphase hpermit =>
    intro k hk hreader
    have hcarried := h k hk hreader
    rw [hphase] at hcarried
    exact hcarried
  | drain hphase =>
    intro k hk hreader
    have hcarried := h k hk hreader
    rw [hphase] at hcarried
    exact hcarried
  | skip hphase hheld =>
    intro k hk hreader
    have hcarried := h k hk hreader
    rw [if_pos hphase] at hcarried
    exact absurd ⟨k, hk, hcarried⟩ hattended
  | look hphase hfree hwalks =>
    intro k _ hreader
    cases hreader

/-- No report is lost in a run that meets the condition. -/
private theorem carries (h : LoopRuns failLimit Attended log s) : s.Carries (reportedReaders log) := by
  induction h with
  | start h =>
    intro k _ hreader
    cases hreader
  | step _ hstep hattended ih => exact ih.step hstep hattended

/-- A card that is dropped has no PIN left. -/
private theorem verified_forgetDropped_of_mem {toDrop : List Guid} {g : Guid} (hg : g ∈ toDrop)
    (misses : Guid → Nat) (pin : PinCache) : (forgetDropped toDrop misses pin).2.verified g = none := by
  induction toDrop generalizing misses pin with
  | nil => cases hg
  | cons g' toDrop ih =>
    rw [forgetDropped]
    by_cases hmem : g ∈ toDrop
    · exact ih hmem _ _
    · obtain rfl := (List.mem_cons.mp hg).resolve_right hmem
      rw [verified_forgetDropped hmem]
      exact Function.update_self ..

/-- In every run in which each report about a served card waits for its pass and the pass is
made, the first pass after a report drops the card if it is missing, and forgets its PIN. -/
theorem heard_of_attended (h : LoopRuns failLimit Attended log s) {desired : List CachedKey}
    {order : List Guid} {verify : Guid → Bool}
    (hstep : LoopStep failLimit s (.passed (.looked desired order verify)) s') :
    Heard log s desired s' := by
  have hcarries := carries h
  cases hstep with
  | look hphase hfree hwalks =>
    intro k hk hreader habsent
    have himmediate := hcarries k hk hreader
    rw [if_pos hphase] at himmediate
    have hserved : (k.guid, k.readerName) ∈ s.agent.served := List.mem_map_of_mem hk
    have hdue : Due failLimit s.immediate s.agent.served s.agent.misses k.guid :=
      .inl ⟨_, hserved, himmediate⟩
    have hdropped := mem_countMisses_snd_iff.mpr ⟨habsent, hdue⟩
    refine ⟨?_, verified_forgetDropped_of_mem hdropped _ _⟩
    rw [mem_cardsOf, filter_keys_reconcileOnce hwalks, if_pos hdropped]
    exact not_not.mpr rfl

end

/-! ## A pass that is skipped -/

/-- The loop at its launch, with one card. -/
def sampleLoop : EventLoop :=
  ⟨⟨sampleKeys [0x9d], samplePin, fun _ => 0⟩, [], false, false, [], .awake, false⟩

/-- The opening pass finds the card. -/
theorem run_sampleLoop (condition : List LoopEvent → EventLoop → LoopEvent → Prop)
    (hcond : ∀ log s desired order verify, condition log s (.passed (.looked desired order verify))) :
    LoopRuns 3 condition [.passed (.looked (sampleKeys [0x9d]) [] fun _ => true)]
      { sampleLoop with
        agent := reconcileOnce 3 [] sampleLoop.agent (.looked (sampleKeys [0x9d]) [] fun _ => true)
        phase := .waiting } := by
  have hlaunch : LoopRuns 3 condition [] sampleLoop := .start ⟨fun _ => rfl, rfl, rfl, rfl, rfl, rfl, rfl⟩
  refine hlaunch.step (.look rfl rfl ?_) (hcond _ _ _ _ _)
  unfold Pass.Walks
  decide

/-- A card is pulled and its reader reported while a request has the card: the pass is skipped,
and the next one, made when the time is up, finds the card missing and keeps it. -/
theorem not_heard_skipped :
    ¬ ∀ log s s' desired order verify, LoopRuns 3 anyStep log s →
      LoopStep 3 s (.passed (.looked desired order verify)) s' → Heard log s desired s' := by
  intro h
  have h₁ := run_sampleLoop anyStep fun _ _ _ _ _ => trivial
  have h₂ := h₁.step (.acquire rfl) trivial
  have h₃ := h₂.step (.report ["MockReader"] rfl) trivial
  have h₄ := h₃.step (.notify rfl) trivial
  have h₅ := h₄.step (.wake rfl rfl) trivial
  have h₆ := h₅.step (.drain rfl) trivial
  have h₇ := h₆.step (.skip rfl rfl) trivial
  have h₈ := h₇.step (.release rfl) trivial
  have h₉ := h₈.step (.timeOut rfl) trivial
  have hlook := h _ _ _ [] [] (fun _ => true) h₉ (.look rfl rfl (List.Perm.refl []))
  have hlost := (hlook _ List.mem_cons_self (by decide) (by decide)).1
  exact absurd hlost (by decide)

/-- A card that is pulled while nobody uses it is dropped in the pass that the report leads to. -/
theorem heard_of_attended_sample :
    ∃ log s s' desired order verify, LoopRuns 3 Attended log s ∧ s.agent.keys ≠ [] ∧
      reportedReaders log ≠ [] ∧ LoopStep 3 s (.passed (.looked desired order verify)) s' ∧
      Heard log s desired s' ∧ s'.agent.keys = [] := by
  have h₁ := run_sampleLoop Attended fun _ _ _ _ _ => trivial
  have h₂ := h₁.step (.report ["MockReader"] rfl) nofun
  have h₃ := h₂.step (.notify rfl) trivial
  have h₄ := h₃.step (.wake rfl rfl) trivial
  have h₅ := h₄.step (.drain rfl) trivial
  refine ⟨_, _, _, [], [], fun _ => true, h₅, by decide, by decide, .look rfl rfl (List.Perm.refl []),
    ?_, by decide⟩
  exact heard_of_attended h₅ (.look rfl rfl (List.Perm.refl []))

end Piggy.Agent
