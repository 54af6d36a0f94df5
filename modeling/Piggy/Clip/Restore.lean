import Piggy.Clip.Plan
import Piggy.Core.Runs

/-!
# Commands and restore workers on one clipboard

A command kills the workers of earlier commands, takes what is in the clipboard, puts its
secret there and starts a worker that holds both. When its time is up the worker looks whether
the secret is still there, and puts the old content back. A worker that is killed does nothing
any more: the next command takes the secret for the old content.
-/

namespace Piggy.Clip

open Piggy.Core Piggy.Box

/-- How far a command has come: it has been started, has killed the workers, has taken the
content of the clipboard, or has put its secret there. -/
inductive CopyPhase where
  | started
  | killed
  | snapped (before : Bytes)
  | pushed (before : Bytes)
  deriving DecidableEq

/-- A command that copies a text. -/
structure Command where
  text : Bytes
  name : String
  clipTime : UInt64
  phase : CopyPhase
  deriving DecidableEq

/-- The plan of a command for its worker. -/
def Command.plan (tool : ClipperTool) (c : Command) (before : Bytes) : ClipPlan where
  copy := tool.copy
  paste := tool.paste
  sleepArgv0 := tool.sleepArgv0
  clipTime := c.clipTime
  pushedBytes := c.text
  restoreBytes := before
  userMessage := s!"Copied {c.name} to clipboard. Will clear in {c.clipTime} seconds."

/-- A worker sleeps, or has seen its secret in the clipboard and is about to put the old
content back. -/
structure Worker where
  plan : ClipPlan
  restoring : Bool
  deriving DecidableEq

/-- A display with its clipboard, the command under way and the workers. -/
structure Display where
  clipboard : Bytes
  command : Option Command
  workers : List Worker

/-- What happens to the commands and to their workers. -/
inductive ClipEvent where
  | started (text : Bytes)
  | killed
  | snapped
  | pushed
  | spawned
  /-- A tool of the command or the start of its worker failed, and the command ends. -/
  | failed
  | expired
  | restored
  /-- A tool of a worker failed, and the worker ends. -/
  | gaveUp (plan : ClipPlan)

/-- One step of a command or of a worker. -/
inductive ClipStep (tool : ClipperTool) : Display → ClipEvent → Display → Prop where
  | start {s : Display} (text : Bytes) (name : String) (clipTime : UInt64)
      (hidle : s.command = none) :
      ClipStep tool s (.started text) { s with command := some ⟨text, name, clipTime, .started⟩ }
  | kill {s : Display} {c : Command} (hcommand : s.command = some c) (hphase : c.phase = .started) :
      ClipStep tool s .killed { s with command := some { c with phase := .killed }, workers := [] }
  | snapshot {s : Display} {c : Command} (hcommand : s.command = some c)
      (hphase : c.phase = .killed) :
      ClipStep tool s .snapped { s with command := some { c with phase := .snapped s.clipboard } }
  | push {s : Display} {c : Command} {before : Bytes} (hcommand : s.command = some c)
      (hphase : c.phase = .snapped before) :
      ClipStep tool s .pushed
        { s with clipboard := c.text, command := some { c with phase := .pushed before } }
  | spawn {s : Display} {c : Command} {before : Bytes} {plan : ClipPlan}
      (hcommand : s.command = some c) (hphase : c.phase = .pushed before)
      (hread : deserializePlan (serializePlan (c.plan tool before)) = .ok plan) :
      ClipStep tool s .spawned
        { s with command := none, workers := s.workers ++ [⟨plan, false⟩] }
  | refuse {s : Display} {c : Command} {before : Bytes} {error : String}
      (hcommand : s.command = some c) (hphase : c.phase = .pushed before)
      (hread : deserializePlan (serializePlan (c.plan tool before)) = .error error) :
      ClipStep tool s .spawned { s with command := none }
  | fail {s : Display} {c : Command} (hcommand : s.command = some c) :
      ClipStep tool s .failed { s with command := none }
  | expire {s : Display} {w : Worker} {others others' : List Worker}
      (hworkers : s.workers = others ++ w :: others') (hphase : w.restoring = false) :
      ClipStep tool s .expired
        { s with workers := if s.clipboard = w.plan.pushedBytes
            then others ++ { w with restoring := true } :: others' else others ++ others' }
  | restore {s : Display} {w : Worker} {others others' : List Worker}
      (hworkers : s.workers = others ++ w :: others') (hphase : w.restoring = true) :
      ClipStep tool s .restored
        { s with clipboard := w.plan.restoreBytes, workers := others ++ others' }
  | giveUp {s : Display} {w : Worker} {others others' : List Worker}
      (hworkers : s.workers = others ++ w :: others') :
      ClipStep tool s (.gaveUp w.plan) { s with workers := others ++ others' }

/-- The runs on a display whose clipboard holds something at first. -/
abbrev ClipRuns (tool : ClipperTool) (content : Bytes)
    (condition : List ClipEvent → Display → ClipEvent → Prop) : List ClipEvent → Display → Prop :=
  Run (· = ⟨content, none, []⟩) (ClipStep tool) condition

/-- When no worker is left and no command is under way, the clipboard holds what it held at
first, and none of the texts that were copied. -/
def Cleared (content : Bytes) (log : List ClipEvent) (s : Display) : Prop :=
  s.command = none → s.workers = [] →
    s.clipboard = content ∧ ∀ text, .started text ∈ log → text ≠ content → s.clipboard ≠ text

/-- A plan whose worker would change nothing. -/
def ClipPlan.Idle (plan : ClipPlan) : Prop := plan.pushedBytes = plan.restoreBytes

/-- The condition on the steps: no worker is killed or gives up before it has put back what it
holds, a command whose secret is in the clipboard gets its worker, and the plan of the worker
fits the frames it is sent in. -/
def LeftAlone (tool : ClipperTool) (_ : List ClipEvent) (s : Display) : ClipEvent → Prop
  | .killed => ∀ w ∈ s.workers, w.plan.Idle
  | .gaveUp plan => plan.Idle
  | .failed => ∀ c before, s.command = some c → c.phase = .pushed before → c.text = before
  | .spawned => ∀ c before, s.command = some c → c.phase = .pushed before →
    (c.plan tool before).Fits
  | _ => True

/-! ## What the clipboard holds -/

/-- The clipboard holds the first content, or a secret with its only worker. -/
private def Kept (content : Bytes) (s : Display) : Prop :=
  s.workers = [] ∧ s.clipboard = content ∨
    ∃ w, s.workers = [w] ∧ w.plan.restoreBytes = content ∧ s.clipboard = w.plan.pushedBytes

/-- What is known of the clipboard at each point of a command. -/
private structure Tracked (content : Bytes) (s : Display) : Prop where
  kept : (∀ c ∈ s.command, c.phase = .started) → Kept content s
  killed : ∀ c ∈ s.command, c.phase = .killed → s.workers = [] ∧ s.clipboard = content
  snapped : ∀ c ∈ s.command, ∀ before, c.phase = .snapped before →
    s.workers = [] ∧ s.clipboard = content ∧ before = content
  pushed : ∀ c ∈ s.command, ∀ before, c.phase = .pushed before →
    s.workers = [] ∧ s.clipboard = c.text ∧ before = content

section

variable {tool : ClipperTool} {content : Bytes} {log : List ClipEvent} {s s' : Display}

/-- As long as no command has done anything, only the workers count. -/
private theorem Tracked.of_kept (h : Kept content s) (hphase : ∀ c ∈ s.command, c.phase = .started) :
    Tracked content s where
  kept _ := h
  killed c hc hkilled := by
    rw [hphase c hc] at hkilled
    cases hkilled
  snapped c hc before hsnapped := by
    rw [hphase c hc] at hsnapped
    cases hsnapped
  pushed c hc before hpushed := by
    rw [hphase c hc] at hpushed
    cases hpushed

/-- While there is a worker no command has done anything, the worker is the only one and holds
the first content, and its secret is in the clipboard. -/
private theorem Tracked.worker (h : Tracked content s) {w : Worker} {others others' : List Worker}
    (hworkers : s.workers = others ++ w :: others') :
    (∀ c ∈ s.command, c.phase = .started) ∧ others = [] ∧ others' = [] ∧
      w.plan.restoreBytes = content ∧ s.clipboard = w.plan.pushedBytes := by
  have hne : s.workers ≠ [] := by
    rw [hworkers]
    simp
  have hphase : ∀ c ∈ s.command, c.phase = .started := by
    intro c hc
    rcases hphase : c.phase with _ | _ | before | before
    · rfl
    · exact absurd (h.killed c hc hphase).1 hne
    · exact absurd (h.snapped c hc before hphase).1 hne
    · exact absurd (h.pushed c hc before hphase).1 hne
  refine ⟨hphase, ?_⟩
  rcases h.kept hphase with ⟨hnone, -⟩ | ⟨w', hone, hrestore, hclipboard⟩
  · exact absurd hnone hne
  · rw [hworkers] at hone
    obtain ⟨rfl, hone⟩ := (List.append_eq_singleton_iff.mp hone).resolve_right (by simp)
    obtain ⟨rfl, rfl⟩ := List.cons.inj hone
    exact ⟨rfl, rfl, hrestore, hclipboard⟩

/-- Each step that meets the condition keeps track of the clipboard. -/
private theorem Tracked.step (h : Tracked content s) {e : ClipEvent} (hstep : ClipStep tool s e s')
    (hcond : LeftAlone tool log s e) : Tracked content s' := by
  cases hstep with
  | start text name clipTime hidle =>
    refine .of_kept (h.kept ?_) ?_
    · rw [hidle]
      exact nofun
    · rintro _ ⟨⟩
      rfl
  | @kill c hcommand hphase =>
    have hkept := h.kept fun c' hc' => by
      rw [hcommand] at hc'
      cases hc'
      exact hphase
    have hclipboard : s.clipboard = content := by
      rcases hkept with ⟨-, hclipboard⟩ | ⟨w, hworkers, hrestore, hclipboard⟩
      · exact hclipboard
      · have hidle : w.plan.Idle := hcond w (by rw [hworkers]; exact List.mem_singleton_self w)
        rw [hclipboard, hidle, hrestore]
    refine ⟨fun hstarted => ?_, fun _ _ _ => ⟨rfl, hclipboard⟩, ?_, ?_⟩
    · cases hstarted _ rfl
    · rintro _ ⟨⟩ before ⟨⟩
    · rintro _ ⟨⟩ before ⟨⟩
  | @snapshot c hcommand hphase =>
    obtain ⟨hworkers, hclipboard⟩ := h.killed c hcommand hphase
    refine ⟨fun hstarted => ?_, ?_, ?_, ?_⟩
    · cases hstarted _ rfl
    · rintro _ ⟨⟩ ⟨⟩
    · rintro _ ⟨⟩ before ⟨⟩
      exact ⟨hworkers, hclipboard, hclipboard⟩
    · rintro _ ⟨⟩ before ⟨⟩
  | @push c before hcommand hphase =>
    obtain ⟨hworkers, -, hbefore⟩ := h.snapped c hcommand before hphase
    refine ⟨fun hstarted => ?_, ?_, ?_, ?_⟩
    · cases hstarted _ rfl
    · rintro _ ⟨⟩ ⟨⟩
    · rintro _ ⟨⟩ before ⟨⟩
    · rintro _ ⟨⟩ _ ⟨⟩
      exact ⟨hworkers, rfl, hbefore⟩
  | @spawn c before plan hcommand hphase hread =>
    obtain ⟨hworkers, hclipboard, hbefore⟩ := h.pushed c hcommand before hphase
    rw [deserializePlan_serializePlan (hcond c before hcommand hphase)] at hread
    cases hread
    have hone : s.workers ++ [⟨{ c.plan tool before with userMessage := "" }, false⟩] =
        [⟨{ c.plan tool before with userMessage := "" }, false⟩] := by
      rw [hworkers, List.nil_append]
    exact .of_kept (.inr ⟨_, hone, hbefore, hclipboard⟩) nofun
  | refuse hcommand hphase hread =>
    rw [deserializePlan_serializePlan (hcond _ _ hcommand hphase)] at hread
    cases hread
  | @fail c hcommand =>
    refine .of_kept ?_ nofun
    rcases hphase : c.phase with _ | _ | before | before
    · refine h.kept fun c' hc' => ?_
      rw [hcommand] at hc'
      cases hc'
      exact hphase
    · exact .inl (h.killed c hcommand hphase)
    · exact .inl ⟨(h.snapped c hcommand before hphase).1, (h.snapped c hcommand before hphase).2.1⟩
    · obtain ⟨hworkers, hclipboard, hbefore⟩ := h.pushed c hcommand before hphase
      exact .inl ⟨hworkers, hclipboard.trans ((hcond c before hcommand hphase).trans hbefore)⟩
  | @expire w _ _ hworkers hphase =>
    obtain ⟨hstarted, rfl, rfl, hrestore, hclipboard⟩ := h.worker hworkers
    exact .of_kept (.inr ⟨{ w with restoring := true }, if_pos hclipboard, hrestore, hclipboard⟩)
      hstarted
  | restore hworkers hphase =>
    obtain ⟨hstarted, rfl, rfl, hrestore, -⟩ := h.worker hworkers
    exact .of_kept (.inl ⟨rfl, hrestore⟩) hstarted
  | @giveUp w _ _ hworkers =>
    obtain ⟨hstarted, rfl, rfl, hrestore, hclipboard⟩ := h.worker hworkers
    have hidle : w.plan.Idle := hcond
    exact .of_kept (.inl ⟨rfl, hclipboard.trans (hidle.trans hrestore)⟩) hstarted

/-- The clipboard is kept track of in every run that meets the condition. -/
private theorem tracked (h : ClipRuns tool content (LeftAlone tool) log s) : Tracked content s := by
  induction h with
  | start h =>
    subst h
    exact .of_kept (.inl ⟨rfl, rfl⟩) nofun
  | step _ hstep hcond ih => exact ih.step hstep hcond

end

/-- A worker reads the plan that was written for it; and in every run in which workers are left
alone until they have put back what they hold, the secrets leave the clipboard. -/
theorem cleared_of_leftAlone (tool : ClipperTool) (content : Bytes) :
    (∀ plan : ClipPlan, plan.Fits →
      deserializePlan (serializePlan plan) = .ok { plan with userMessage := "" }) ∧
    ∀ log s, ClipRuns tool content (LeftAlone tool) log s → Cleared content log s := by
  refine ⟨fun plan hfits => deserializePlan_serializePlan hfits, fun log s hrun hidle hnone => ?_⟩
  have hkept := (tracked hrun).kept fun c hc => by
    rw [hidle] at hc
    cases hc
  have hclipboard : s.clipboard = content := by
    rcases hkept with ⟨-, hclipboard⟩ | ⟨w, hworkers, -, -⟩
    · exact hclipboard
    · rw [hnone] at hworkers
      cases hworkers
  refine ⟨hclipboard, fun text _ hne => ?_⟩
  rw [hclipboard]
  exact hne.symm

/-! ## Two secrets one after the other -/

/-- A tool with short names. -/
def sampleTool : ClipperTool := ⟨⟨[0x63], []⟩, ⟨[0x70], [[0x2D]]⟩, [0x30], "w"⟩

/-- The plan of a command that copies a short text. -/
def samplePlan (text before : Bytes) : ClipPlan :=
  { Command.plan sampleTool ⟨text, "s", 45, .started⟩ before with userMessage := "" }

theorem fits_sample {text before : Bytes} (htext : FitsField text) (hbefore : FitsField before)
    (name : String) (phase : CopyPhase) :
    (Command.plan sampleTool ⟨text, name, 45, phase⟩ before).Fits := by
  have hcopy : sampleTool.copy.Fits := ⟨by decide, by decide, by decide⟩
  have hpaste : sampleTool.paste.Fits := ⟨by decide, by decide, by decide⟩
  have hargv0 : FitsField (strBytes sampleTool.sleepArgv0) := by decide +kernel
  exact ⟨hcopy, hpaste, hargv0, htext, hbefore⟩

/-- A command runs from its start to its worker. -/
theorem run_sampleCommand {condition : List ClipEvent → Display → ClipEvent → Prop}
    {content before : Bytes} {workers : List Worker} {log : List ClipEvent}
    (h : ClipRuns sampleTool content condition log ⟨before, none, workers⟩) (text : Bytes)
    (htext : FitsField text) (hbefore : FitsField before)
    (hkill : ∀ log c, condition log ⟨before, c, workers⟩ .killed)
    (hcond : ∀ log s e, e = .started text ∨ e = .snapped ∨ e = .pushed → condition log s e)
    (hspawn : ∀ log, condition log ⟨text, some ⟨text, "s", 45, .pushed before⟩, []⟩ .spawned) :
    ClipRuns sampleTool content condition
      (.spawned :: .pushed :: .snapped :: .killed :: .started text :: log)
      ⟨text, none, [⟨samplePlan text before, false⟩]⟩ := by
  have h₁ := h.step (.start text "s" 45 rfl) (hcond _ _ _ (.inl rfl))
  have h₂ := h₁.step (.kill rfl rfl) (hkill _ _)
  have h₃ := h₂.step (.snapshot rfl rfl) (hcond _ _ _ (.inr (.inl rfl)))
  have h₄ := h₃.step (.push rfl rfl) (hcond _ _ _ (.inr (.inr rfl)))
  exact h₄.step (.spawn rfl rfl (deserializePlan_serializePlan (fits_sample htext hbefore _ _)))
    (hspawn _)

/-- A worker puts back what it holds. -/
theorem run_sampleWorker {condition : List ClipEvent → Display → ClipEvent → Prop}
    {content text before : Bytes} {log : List ClipEvent}
    (h : ClipRuns sampleTool content condition log
      ⟨text, none, [⟨samplePlan text before, false⟩]⟩)
    (hcond : ∀ log s e, e = .expired ∨ e = .restored → condition log s e) :
    ClipRuns sampleTool content condition (.restored :: .expired :: log) ⟨before, none, []⟩ := by
  have hexpire : ClipStep sampleTool ⟨text, none, [⟨samplePlan text before, false⟩]⟩ .expired
      ⟨text, none, if text = (samplePlan text before).pushedBytes then
        [⟨samplePlan text before, true⟩] else []⟩ :=
    @ClipStep.expire _ _ ⟨samplePlan text before, false⟩ [] [] rfl rfl
  have hsame : text = (samplePlan text before).pushedBytes := rfl
  rw [if_pos hsame] at hexpire
  have hrestore : ClipStep sampleTool ⟨text, none, [⟨samplePlan text before, true⟩]⟩ .restored
      ⟨before, none, []⟩ := @ClipStep.restore _ _ ⟨samplePlan text before, true⟩ [] [] rfl rfl
  exact (h.step hexpire (hcond _ _ _ (.inl rfl))).step hrestore (hcond _ _ _ (.inr rfl))

/-- When a second secret is copied before the first one is gone, the worker of the second puts
the first one back, and it stays in the clipboard. -/
theorem not_cleared_twoSecrets :
    ¬ ∀ content log s, ClipRuns sampleTool content anyStep log s → Cleared content log s := by
  intro h
  have h₀ : ClipRuns sampleTool [0] anyStep [] ⟨[0], none, []⟩ := .start rfl
  have h₁ := run_sampleCommand h₀ [1] (by decide) (by decide) (fun _ _ => trivial)
    (fun _ _ _ _ => trivial) fun _ => trivial
  have h₂ := run_sampleCommand h₁ [2] (by decide) (by decide) (fun _ _ => trivial)
    (fun _ _ _ _ => trivial) fun _ => trivial
  have h₃ := run_sampleWorker h₂ fun _ _ _ _ => trivial
  exact absurd (h _ _ _ h₃ rfl rfl).1 (by decide)

/-- A secret that is copied when the one before it is gone leaves the clipboard too. -/
theorem cleared_of_leftAlone_sample :
    (∃ log s, ClipRuns sampleTool [0] (LeftAlone sampleTool) log s ∧
      .started [1] ∈ log ∧ .started [2] ∈ log ∧ s.clipboard = [0]) ∧
    deserializePlan (serializePlan (samplePlan [1] [0])) = .ok (samplePlan [1] [0]) := by
  obtain ⟨hread, hcleared⟩ := cleared_of_leftAlone sampleTool [0]
  have hcopied : ∀ text log, FitsField text →
      ClipRuns sampleTool [0] (LeftAlone sampleTool) log ⟨[0], none, []⟩ →
      ClipRuns sampleTool [0] (LeftAlone sampleTool) (.restored :: .expired :: .spawned :: .pushed ::
        .snapped :: .killed :: .started text :: log) ⟨[0], none, []⟩ := by
    intro text log htext hrun
    refine run_sampleWorker (run_sampleCommand hrun text htext (by decide) ?_ ?_ ?_) ?_
    · exact fun _ _ => nofun
    · rintro _ _ _ (rfl | rfl | rfl) <;> trivial
    · rintro _ c before ⟨⟩ ⟨⟩
      exact fits_sample htext (by decide) _ _
    · rintro _ _ _ (rfl | rfl) <;> trivial
  have hrun := hcopied [2] _ (by decide) (hcopied [1] [] (by decide) (.start rfl))
  have hfits : (samplePlan [1] [0]).Fits := by
    have hplan := @fits_sample [1] [0] (by decide) (by decide) "s" .started
    exact ⟨hplan.copy, hplan.paste, hplan.sleepArgv0, hplan.pushedBytes, hplan.restoreBytes⟩
  exact ⟨⟨_, _, hrun, by simp, by simp, (hcleared _ _ hrun rfl rfl).1⟩, hread _ hfits⟩

end Piggy.Clip
