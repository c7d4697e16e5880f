import RustyCore.Theorems.Pairing
import RustyCore.Theorems.Transition

/-! Cancelling a run: nothing that was still under way can move the agent afterwards, and whether the next
    run starts depends on the transcript the cancellation leaves. -/

namespace RustyCore

open List

section

variable [Externals]

namespace AgentCommand

def isLate : AgentCommand → Bool
  | .backendEvent _ _ | .toolCompleted _ _ | .toolFailed _ _ | .permissionResolved _ _ | .completionEvaluated _ _ _ _
  | .pause | .resume => true
  | _ => false

end AgentCommand

namespace Agent

structure Cancelled (a : Agent) : Prop where
  status : a.state.status = .cancelled
  activeRun : a.state.activeRun = none
  tools : ∀ callId, a.state.pendingTools.lookup callId = none
  permissions : ∀ id, a.state.pendingPermissions.lookup id = none

theorem Cancelled.of_control {a b : Agent} (h : a.Cancelled) (hcontrol : b.control = a.control) : b.Cancelled where
  status := (congrArg Control.status hcontrol).trans h.status
  activeRun := (congrArg Control.activeRun hcontrol).trans h.activeRun
  tools callId := by
    rw [show b.state.pendingTools = a.state.pendingTools from congrArg Control.pendingTools hcontrol]
    exact h.tools callId
  permissions id := by
    rw [show b.state.pendingPermissions = a.state.pendingPermissions from congrArg Control.pendingPermissions hcontrol]
    exact h.permissions id

theorem cancelled_cancel {a : Agent} (hlive : a.nothingToCancel = false) : a.cancel.1.Cancelled := by
  rw [cancel_fst hlive]
  exact ⟨rfl, rfl, fun _ => rfl, fun _ => rfl⟩

/-- An agent whose status is `cancelled` has nothing left under way. -/
def CancelledClean (a : Agent) : Prop := a.state.status = .cancelled → a.Cancelled

theorem CancelledClean.transition {a b : Agent} {c : AgentCommand} {es : List AgentEffect} (h : a.CancelledClean)
    (htransition : Transition a c es b) : b.CancelledClean := by
  -- a step that leaves the status `cancelled` is a cancellation, or it found the agent so
  have hidle : ∀ {runId}, a.state.activeRun = some runId → a.state.status ≠ .cancelled := by
    intro runId hrun hstatus
    rw [(h hstatus).activeRun] at hrun
    cases hrun
  intro hstatus
  cases htransition with
  | quiet hquiet => exact (h (hquiet.status.symm.trans hstatus)).of_control hquiet.control
  | queue hnone hrun => exact absurd (h hstatus).activeRun hrun
  | reject hstart hinvalid hfail =>
    rw [hfail.status] at hstatus
    cases hstatus
  | stop hstart hvalid hstop hfail =>
    rw [hfail.status] at hstatus
    cases hstatus
  | start hstart hvalid hgo hquiet => cases hquiet.status.symm.trans hstatus
  | @stream _ event to_ _ _ hrun hevent hkept =>
    rw [show to_ = .cancelled from hkept.status.symm.trans hstatus] at hevent
    cases event <;> cases hevent
  | refuse hrun hrefuses =>
    rcases hrefuses.status with hsame | hfailed | hwaiting
    · exact absurd (hsame.symm.trans hstatus) (hidle hrun)
    · cases hfailed.symm.trans hstatus
    · cases hwaiting.symm.trans hstatus
  | execute | ask => cases hstatus
  | cutOff hrun hreason hfail =>
    rw [hfail.status] at hstatus
    cases hstatus
  | toolUse hrun hreason hgoes =>
    rcases hgoes.moves.status with hsame | hfailed | hwaiting
    · exact absurd (hsame.symm.trans hstatus) (hidle hrun)
    · cases hfailed.symm.trans hstatus
    · cases hwaiting.symm.trans hstatus
  | propose hrun hreason hdecides =>
    have hmem := hdecides.status
    rw [hstatus] at hmem
    simp at hmem
  | error hrun hfail =>
    rw [hfail.status] at hstatus
    cases hstatus
  | halt houtcome hpending hends hfail =>
    rw [hfail.status] at hstatus
    cases hstatus
  | outcome houtcome hpending hgo hgoes =>
    rcases hgoes.moves.status with hsame | hfailed | hwaiting
    · exact absurd ((h (hsame.symm.trans hstatus)).tools _) hpending
    · cases hfailed.symm.trans hstatus
    · cases hwaiting.symm.trans hstatus
  | drop hasked hgone =>
    rw [(h hstatus).permissions] at hasked
    cases hasked
  | approve => cases hstatus
  | deny hasked hpending hgoes =>
    rcases hgoes.moves.status with hsame | hfailed | hwaiting
    · exact absurd ((h (hsame.symm.trans hstatus)).tools _) hpending
    · cases hfailed.symm.trans hstatus
    · cases hwaiting.symm.trans hstatus
  | children hchild hto hkept =>
    have hto' := hkept.status.symm.trans hstatus
    rcases hto with rfl | rfl | ⟨rfl, -⟩
    · have hclean := h hto'
      exact ⟨hstatus, hkept.activeRun.trans hclean.activeRun, fun callId => by rw [hkept.pendingTools]; exact hclean.tools callId,
        fun id => by rw [hkept.pendingPermissions]; exact hclean.permissions id⟩
    · cases hto'
    · cases hto'
  | cancel hlive => exact cancelled_cancel hlive
  | pause | reissue | wake => cases hstatus
  | evaluated hverifying hrun hdecides =>
    have hmem := hdecides.status
    rw [hstatus] at hmem
    simp at hmem

theorem Reachable.cancelledClean {a : Agent} (hr : a.Reachable) : a.CancelledClean := by
  refine Machine.Reachable.invariant ?_ (fun s c h => h.transition (s.apply_transition c)) hr
  rintro a ⟨id, sessionId, parentId, depth, systemPrompt, capabilities, profile, library, trusted, params, rfl⟩ hstatus
  cases hstatus

theorem completionEvaluated_messages {a : Agent} (hstatus : a.state.status ≠ .verifying) (runId : RunId)
    (attempt : Nat) (verdicts : List CheckVerdict) (usage : List UsageRecord) :
    (a.completionEvaluated runId attempt verdicts usage).1.state.messages = a.state.messages := by
  simp only [completionEvaluated, ne_eq, hstatus, not_false_eq_true, true_or, if_true]
  split <;> rfl

theorem Cancelled.late {a : Agent} (h : a.Cancelled) {c : AgentCommand} (hlate : c.isLate = true) :
    Quiet a (a.apply c).2 (a.apply c).1 ∧ (a.apply c).1.state.messages = a.state.messages := by
  cases c with
  | backendEvent runId event =>
    simp only [apply, backendEvent, h.activeRun, reduceCtorEq, ne_eq, not_false_eq_true, if_true]
    exact ⟨Quiet.refl a, trivial⟩
  | toolCompleted callId result =>
    simp only [apply, toolCompleted, h.tools]
    exact ⟨Quiet.refl a, trivial⟩
  | toolFailed callId error =>
    simp only [apply, toolFailed, h.tools]
    exact ⟨Quiet.refl a, trivial⟩
  | permissionResolved id decision =>
    simp only [apply, permissionResolved, h.permissions]
    exact ⟨Quiet.refl a, trivial⟩
  | completionEvaluated runId attempt verdicts usage =>
    have hstatus : a.state.status ≠ .verifying := by simp [h.status]
    refine ⟨?_, completionEvaluated_messages hstatus runId attempt verdicts usage⟩
    rcases a.completionEvaluated_cases runId attempt verdicts usage with hquiet | ⟨hverifying, -⟩
    · exact hquiet
    · exact absurd hverifying hstatus
  | pause =>
    simp only [apply, pause, h.status]
    exact ⟨Quiet.refl a, trivial⟩
  | resume =>
    simp only [apply, resume, h.status, reduceCtorEq, ne_eq, not_false_eq_true, if_true]
    exact ⟨Quiet.refl a, trivial⟩
  | _ => cases hlate

theorem Cancelled.run {a : Agent} (h : a.Cancelled) {cs : List AgentCommand} (hlate : ∀ c ∈ cs, c.isLate = true) :
    (machine.run a cs).Cancelled ∧ (machine.run a cs).state.messages = a.state.messages ∧
      Notices (machine.output a cs) := by
  induction cs generalizing a with
  | nil => exact ⟨h, rfl, Notices.nil⟩
  | cons c cs ih =>
    obtain ⟨hquiet, hmessages⟩ := h.late (hlate c mem_cons_self)
    obtain ⟨hrun, hrest, hnotices⟩ := ih (h.of_control hquiet.control) fun c hc => hlate c (mem_cons_of_mem _ hc)
    exact ⟨hrun, hrest.trans hmessages, hquiet.notices.append hnotices⟩

/-- Whatever comes late after a cancellation of `a` yields no request, no tool and no result, and leaves the transcript
    and the status `cancelled` alone. -/
def CancelsForGood (a : Agent) : Prop :=
  ∀ cs : List AgentCommand, (∀ c ∈ cs, c.isLate = true) →
    (machine.run a (.cancel :: cs)).state.status = .cancelled ∧
      (machine.run a (.cancel :: cs)).state.messages = a.state.messages ∧
      backendRequests (machine.output a (.cancel :: cs)) = [] ∧ toolRequests (machine.output a (.cancel :: cs)) = [] ∧
      runResults (machine.output a (.cancel :: cs)) = []

theorem cancelsForGood_of_live {a : Agent} (hr : a.Reachable)
    (hlive : ¬ (a.state.activeRun = none ∧ (a.state.status = .idle ∨ a.state.status = .failed))) : a.CancelsForGood := by
  intro cs hlate
  have hcancelled : a.cancel.1.Cancelled ∧ a.cancel.1.state.messages = a.state.messages ∧
      backendRequests a.cancel.2 = [] ∧ toolRequests a.cancel.2 = [] ∧ runResults a.cancel.2 = [] := by
    cases hnothing : a.nothingToCancel with
    | false =>
      obtain ⟨ns, hns, heffects⟩ := cancel_effects hnothing
      rw [heffects, cancel_fst hnothing, backendRequests_append, toolRequests_append, runResults_append,
        hns.backendRequests_eq, hns.toolRequests_eq, hns.runResults_eq]
      exact ⟨⟨rfl, rfl, fun _ => rfl, fun _ => rfl⟩, rfl, rfl, rfl, rfl⟩
    | true =>
      have hcancel : a.cancel = (a, []) := by simp [cancel, hnothing]
      rw [hcancel]
      refine ⟨hr.cancelledClean ?_, rfl, rfl, rfl, rfl⟩
      simp only [nothingToCancel, Bool.and_eq_true, Bool.or_eq_true, beq_iff_eq, Option.isNone_iff_eq_none] at hnothing
      rcases hnothing with ⟨(hidle | hdone) | hfailed, hrun⟩
      · exact absurd ⟨hrun, .inl hidle⟩ hlive
      · exact hdone
      · exact absurd ⟨hrun, .inr hfailed⟩ hlive
  obtain ⟨hclean, hmessages, hbackend, htools, hresults⟩ := hcancelled
  obtain ⟨hrun, hrest, hnotices⟩ := hclean.run hlate
  have houtput : machine.output a (.cancel :: cs) = a.cancel.2 ++ machine.output a.cancel.1 cs := rfl
  rw [houtput, backendRequests_append, toolRequests_append, runResults_append, hbackend, htools, hresults,
    hnotices.backendRequests_eq, hnotices.toolRequests_eq, hnotices.runResults_eq]
  exact ⟨hrun.status, hrest.trans hmessages, rfl, rfl, rfl⟩

/-- Cancelling is final unless the guard of `cancel` finds nothing to cancel: a failed run leaves its calls and the
    questions about them behind, and the guard returns before they are cleared. -/
theorem cancel_is_final_iff {a : Agent} (hr : a.Reachable) :
    a.CancelsForGood ↔ ¬ (a.state.activeRun = none ∧ (a.state.status = .idle ∨ a.state.status = .failed)) := by
  refine ⟨?_, cancelsForGood_of_live hr⟩
  rintro hfinal ⟨hrun, hstatus⟩
  have hnothing : a.nothingToCancel = true := by
    rcases hstatus with hstatus | hstatus <;> simp [nothingToCancel, hstatus, hrun]
  have hkept : a.cancel = (a, []) := by simp [cancel, hnothing]
  have hcancelled : a.cancel.1.state.status = .cancelled := (hfinal [] fun _ hc => absurd hc not_mem_nil).1
  rw [hkept] at hcancelled
  rcases hstatus with hstatus | hstatus
  · exact absurd (hstatus.symm.trans hcancelled) (by decide)
  · exact absurd (hstatus.symm.trans hcancelled) (by decide)

section

variable {a : Agent}

theorem evaluate_of_no_rules {b : BehaviorState} (h : b.profile.profile.rules = []) (event : RuleEvent)
    (tool : Option ToolEvent) : b.evaluate event tool = (b, {}) := by
  simp [BehaviorState.evaluate, h, BehaviorState.evaluateRules]

theorem runRules_of_no_rules (h : a.state.behavior.profile.profile.rules = []) (event : RuleEvent)
    (tool : Option ToolEvent) (callId : Option ToolCallId) : a.runRules event tool callId = (a, [], {}) := by
  simp only [runRules, evaluate_of_no_rules h]
  rfl

/-- `b` is under the profile of `a`, and on its final turn if `a` is. -/
def SameLimits (a b : Agent) : Prop :=
  b.state.behavior.profile = a.state.behavior.profile ∧
    b.state.behavior.run.finalTurn = a.state.behavior.run.finalTurn

theorem enteredRules_of_no_rules (h : a.state.behavior.profile.profile.rules = []) (from_ : ProfileRef) :
    ∃ b es, a.enteredRules from_ = (b, .ok es) ∧ a.SameLimits b := by
  have heval : a.state.behavior.evaluateEntered from_.id =
      ({ a.state.behavior with run.enteredFrom := none }, {}) := by
    simp only [BehaviorState.evaluateEntered, BehaviorState.evaluate, h, filter_nil, BehaviorState.evaluateRules]
  refine ⟨a.withBehavior { a.state.behavior with run.enteredFrom := none }, [], ?_, rfl, rfl⟩
  rw [enteredRules, heval]
  rfl

theorem announceProfile_of_no_rules (h : a.state.behavior.profile.profile.rules = []) :
    ∃ b es, a.announceProfile = (b, .ok es) ∧ a.SameLimits b := by
  unfold announceProfile
  split
  · rename_i from_ hfrom
    generalize hm : a.withBehavior { a.state.behavior with enteredFrom := none } = m
    have hrules : m.state.behavior.profile.profile.rules = [] := by
      rw [← hm]
      exact h
    have hsame : ∀ b, m.SameLimits b → a.SameLimits b := by
      rw [← hm]
      exact fun b hb => hb
    unfold enterProfile
    dsimp only
    split
    · generalize Rules.systemReminder _ (m.modeReminder from_) = text
      obtain ⟨b, es, hb, hlimits⟩ := enteredRules_of_no_rules
        (show (m.queueRequestText text).state.behavior.profile.profile.rules = [] from hrules) from_.profile
      exact ⟨b, _, by rw [hb]; rfl, hsame b hlimits⟩
    · obtain ⟨b, es, hb, hlimits⟩ := enteredRules_of_no_rules hrules from_.profile
      exact ⟨b, es, hb, hsame b hlimits⟩
  · exact ⟨a, [], rfl, rfl, rfl⟩

theorem turnBegins_of_plain (hrules : a.state.behavior.profile.profile.rules = [])
    (hlimits : a.state.behavior.profile.profile.limits.maxTurns = none ∧
      a.state.behavior.profile.profile.limits.maxToolCalls = none)
    (hswitch : a.state.pendingProfile = none) (hfinal : a.state.behavior.run.finalTurn = false) :
    a.turnBegins = true := by
  obtain ⟨b, es, hb, hprofile, hsame⟩ := announceProfile_of_no_rules hrules
  have hplan : ∃ behavior, b.state.behavior.beginTurn = (behavior, .normal) ∧ behavior.profile = b.state.behavior.profile := by
    simp [BehaviorState.beginTurn, hsame, hfinal, hprofile, hlimits.1, hlimits.2]
  obtain ⟨behavior, hbehavior, hkept⟩ := hplan
  have hquiet : (b.withBehavior behavior).runRules .beforeModelRequest none none = (b.withBehavior behavior, [], {}) := by
    refine runRules_of_no_rules ?_ _ _ _
    rw [← hrules, ← hprofile, ← hkept]
    rfl
  have hbegin : a.beginTurn = (b.withBehavior behavior, .ok es) := by
    simp [beginTurn, takePendingSwitch, hswitch, hb, hbehavior, hquiet]
  rw [turnBegins, hbegin]
  rfl

theorem not_stoppedAtStart_of_plain (hrules : a.state.behavior.profile.profile.rules = [])
    (hlimits : a.state.behavior.profile.profile.limits.maxTurns = none ∧
      a.state.behavior.profile.profile.limits.maxToolCalls = none)
    (hswitch : a.state.pendingProfile = none) (input : UserInput) : a.stoppedAtStart input = false := by
  have hquiet : (a.openRun input).1.runRules .runStart none none = ((a.openRun input).1, [], {}) :=
    runRules_of_no_rules (show (a.openRun input).1.state.behavior.profile.profile.rules = [] from hrules) _ _ _
  have hturn : (a.openRun input).1.turnBegins = true := turnBegins_of_plain hrules hlimits hswitch rfl
  simp [stoppedAtStart, hquiet, hturn]

theorem backendRequests_startRun_of_plain (hrules : a.state.behavior.profile.profile.rules = [])
    (hlimits : a.state.behavior.profile.profile.limits.maxTurns = none ∧
      a.state.behavior.profile.profile.limits.maxToolCalls = none)
    (hswitch : a.state.pendingProfile = none) {input : UserInput}
    (hattachments : validateAttachments 0 input.attachments = .ok ()) :
    (backendRequests (a.startRun input).2).length = 1 ↔ Transcript.Paired a.state.messages := by
  rw [← validateTranscript_ok_iff]
  cases hvalid : validateTranscript a.state.messages with
  | error e => simp [startRun, hvalid]
  | ok _ =>
    have haccepts : a.acceptsRun input = true := by
      simp [acceptsRun, hvalid, hattachments, Except.isOk, Except.toBool]
    have htaken : a.takePendingSwitch = (a, []) := by simp [takePendingSwitch, hswitch]
    rw [startRun_of_acceptsRun haccepts, htaken]
    rcases a.beginRun_cases input with ⟨hstop, -⟩ | ⟨-, b, es, hquiet, hbegin⟩
    · rw [not_stoppedAtStart_of_plain hrules hlimits hswitch] at hstop
      cases hstop
    · simp only [andThen, hbegin, nil_append, backendRequests_append, hquiet.notices.backendRequests_eq]
      exact ⟨fun _ => trivial, fun _ => rfl⟩

end

/-- After a cancellation under the default profile, a run with attachments within the limit starts with
    exactly one request if and only if every tool call of the transcript had been answered. -/
theorem start_after_cancel_iff {a : Agent} (hprofile : a.state.behavior.profile = defaultProfile)
    (hswitch : a.state.pendingProfile = none) {input : UserInput}
    (hattachments : validateAttachments 0 input.attachments = .ok ()) :
    (backendRequests ((a.apply .cancel).1.apply (.startRun input)).2).length = 1 ↔
      Transcript.Paired a.state.messages := by
  obtain ⟨hmessages, hbehavior, hpending, hidle⟩ := a.cancel_frame
  have happly : (a.apply .cancel).1.apply (.startRun input) = a.cancel.1.startRun input := by
    simp [apply, startOrQueue, hidle]
  rw [happly, ← hmessages]
  have hdefault : a.cancel.1.state.behavior.profile = defaultProfile := by rw [hbehavior, hprofile]
  exact backendRequests_startRun_of_plain (by rw [hdefault]; rfl) (by rw [hdefault]; exact ⟨rfl, rfl⟩)
    (hpending.trans hswitch) hattachments

end Agent

end

section

open Sample Agent

/-- A run with a tool under way, cancelled; its result and a pause come late. -/
theorem cancel_is_final_iff_executing :
    (machine.run (machine.run (agent .allow defaultProfile) [prompt, requests 5])
      [.cancel, .toolCompleted ⟨5⟩ ⟨⟨5⟩, .null, false⟩, .pause]).state.status = .cancelled :=
  ((cancel_is_final_iff (.run (.start (fresh_agent .allow defaultProfile)) [prompt, requests 5])).mpr (by decide)
    [.toolCompleted ⟨5⟩ ⟨⟨5⟩, .null, false⟩, .pause] (by decide)).1

set_option maxRecDepth 4096 in
/-- The backend fails while the user is asked, and the agent is cancelled; the late approval still executes the tool. -/
theorem cancel_leaves_question_open : ¬ ∀ a : Agent, a.Reachable → a.CancelsForGood := by
  intro h
  have hr : (machine.run (agent .ask defaultProfile) [prompt, requests 5, fromBackend (.error ⟨0⟩ .timeout)]).Reachable :=
    .run (.start (fresh_agent .ask defaultProfile)) _
  obtain ⟨-, -, -, htools, -⟩ := h _ hr [.permissionResolved (.derived 7 7 4) .approved] (by decide)
  have hexecuted : (toolRequests (machine.output
      (machine.run (agent .ask defaultProfile) [prompt, requests 5, fromBackend (.error ⟨0⟩ .timeout)])
      [.cancel, .permissionResolved (.derived 7 7 4) .approved])).isEmpty = false := by decide
  rw [htools] at hexecuted
  cases hexecuted

theorem start_after_cancel_iff_streaming :
    (backendRequests (((machine.run (agent .allow defaultProfile) [prompt]).apply .cancel).1.apply
      (.startRun ⟨"again", []⟩)).2).length = 1 ↔
        Transcript.Paired (machine.run (agent .allow defaultProfile) [prompt]).state.messages :=
  start_after_cancel_iff rfl rfl rfl

set_option maxRecDepth 4096 in
/-- The cancelled call stays unanswered in the transcript, and the next run is refused. -/
theorem cancel_leaves_dangling_call : (agent .allow defaultProfile).Fresh ∧
    (backendRequests ((machine.run (agent .allow defaultProfile) [prompt, requests 5, .cancel]).apply
      (.startRun ⟨"again", []⟩)).2).length = 0 :=
  ⟨fresh_agent .allow defaultProfile, by decide⟩

end

end RustyCore
