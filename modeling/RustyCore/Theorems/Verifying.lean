import RustyCore.Theorems.Transition

/-! While the evaluators judge an answer, the agent waits in `verifying`: under the profile, and for the
    attempt, the answer was proposed under. -/

namespace RustyCore

variable [Externals]

/-- If `b` waits for verdicts, it waits for those `a` was waiting for. -/
def Waits (a b : Agent) : Prop :=
  b.state.status = .verifying → a.state.status = .verifying ∧ b.state.activeRun = a.state.activeRun ∧
    Steady a.state.behavior b.state.behavior

namespace Waits

variable {a b c : Agent}

theorem of_status (h : b.state.status ≠ .verifying) : Waits a b := fun hverifying => absurd hverifying h

theorem of_kept (h : Kept a b) (hsteady : Steady a.state.behavior b.state.behavior) : Waits a b :=
  fun hverifying => ⟨h.status.symm.trans hverifying, h.activeRun, hsteady⟩

theorem refl (a : Agent) : Waits a a := of_kept (Kept.refl a) (Steady.refl _)

theorem trans (h : Waits a b) (h' : Waits b c) : Waits a c := by
  intro hverifying
  obtain ⟨hb, hrun, hsteady⟩ := h' hverifying
  obtain ⟨ha, hrun', hsteady'⟩ := h hb
  exact ⟨ha, hrun.trans hrun', hsteady'.trans hsteady⟩

theorem of_failed (h : b.state.status = .failed) : Waits a b := of_status (by simp [h])

end Waits

namespace Agent

theorem waits_continueAfterTools (a : Agent) : Waits a a.continueAfterTools.1 := by
  unfold continueAfterTools
  split
  · split
    · exact .refl a
    · split
      · rename_i b failure hb
        exact .of_failed (beginTurn_error hb).2
      · exact .of_status (by simp [executionRequest, buildRequest, nextRequestId, takeSequence, withBehavior,
          withInFlight, withStatus])
  · exact .refl a

theorem waits_nextAfterResult (a : Agent) (stop : Option RuleStop) : Waits a (a.nextAfterResult stop).1 := by
  unfold nextAfterResult
  split
  · exact .of_failed rfl
  · split
    · exact .of_failed rfl
    · exact a.waits_continueAfterTools

theorem waits_runPostToolRules (a : Agent) (call : ToolCall) (hasError : Bool) (preview : String) :
    Waits a (a.runPostToolRules call hasError preview).1 := by
  have hnoted : Steady a.state.behavior (a.state.behavior.noteExecutedWith call.name hasError) :=
    ⟨rfl, rfl, rfl, rfl, rfl⟩
  have hrules := steady_runRules (a.withBehavior (a.state.behavior.noteExecutedWith call.name hasError))
    (if hasError then .postToolUseFailure else .postToolUse) (some ⟨call, some preview⟩) (some call.id)
  exact .of_kept (a.quiet_runPostToolRules call hasError preview).toKept (hnoted.trans hrules)

theorem waits_recordToolResult (a : Agent) (call : ToolCall) (executed hasError : Bool) (preview : String) :
    Waits a (a.recordToolResult call executed hasError preview).1 := by
  unfold recordToolResult
  generalize hrules : (if executed = true then a.runPostToolRules call hasError preview else (a, [], preview, none)) = r
  obtain ⟨b, effects, preview', stop⟩ := r
  have hb : Waits a b := by
    split at hrules
    · have hwaits := a.waits_runPostToolRules call hasError preview
      rw [hrules] at hwaits
      exact hwaits
    · cases hrules
      exact .refl a
  have hnotes : Waits b (b.appendPendingNotes call.id preview').1 :=
    .of_kept (b.kept_appendPendingNotes call.id preview') ⟨rfl, rfl, rfl, rfl, rfl⟩
  refine (hb.trans hnotes).trans (Waits.trans ?_ (waits_nextAfterResult _ stop))
  exact .of_kept ((kept_usage _ _).trans (kept_pushMessage _ _ _)) ⟨rfl, rfl, rfl, rfl, rfl⟩

theorem waits_forgetCall (a : Agent) (callId : ToolCallId) (n : Nat) : Waits a ((a.forgetCall callId).withTimeouts n) :=
  fun hverifying => ⟨hverifying, rfl, Steady.refl _⟩

theorem waits_toolCompleted (a : Agent) (callId : ToolCallId) (result : ToolResult) :
    Waits a (a.toolCompleted callId result).1 := by
  unfold toolCompleted
  split
  · exact .refl a
  · exact (a.waits_forgetCall callId 0).trans (waits_recordToolResult _ _ _ _ _)

theorem waits_toolFailed (a : Agent) (callId : ToolCallId) (error : ToolError) :
    Waits a (a.toolFailed callId error).1 := by
  unfold toolFailed
  split
  · exact .refl a
  · exact (a.waits_forgetCall callId _).trans (waits_recordToolResult _ _ _ _ _)

theorem waits_denyTool (a : Agent) (callId : ToolCallId) (ruleId : Option String) (reason : String) :
    Waits a (a.denyTool callId ruleId reason).1 := a.waits_toolFailed callId _

theorem waits_evaluateRequestRules (a : Agent) (call : ToolCall) : Waits a (a.evaluateRequestRules call).1 := by
  rcases hrules : a.evaluateRequestRules call with ⟨b, es, refusal | outcome⟩
  · -- a rule that stops the run fails it
    unfold evaluateRequestRules at hrules
    dsimp only at hrules
    split at hrules
    · simp at hrules
    · simp only [Prod.mk.injEq] at hrules
      obtain ⟨rfl, -⟩ := hrules
      exact .of_failed rfl
  · obtain ⟨hquiet, hsteady, -⟩ := evaluateRequestRules_ok hrules
    exact .of_kept hquiet.toKept hsteady

theorem waits_approvalFor (a : Agent) (call : ToolCall) (mode : PermissionMode) (outcome : RuleOutcome) :
    Waits a (a.approvalFor call mode outcome).1 := by
  unfold approvalFor
  dsimp only
  split
  · exact a.waits_denyTool _ _ _
  · split
    · exact .refl a
    · exact .refl a
    · split
      · exact a.waits_toolFailed _ _
      · exact a.waits_denyTool _ _ _

theorem waits_rewriteArguments (a : Agent) (call : ToolCall) (outcome : RuleOutcome) :
    Waits a (a.rewriteArguments call outcome).1 := by
  unfold rewriteArguments patchPending
  split
  · exact .refl a
  · dsimp only
    split
    · exact fun hverifying => ⟨hverifying, rfl, rfl, rfl, rfl, rfl, rfl⟩
    · exact fun hverifying => ⟨hverifying, rfl, rfl, rfl, rfl, rfl, rfl⟩

theorem waits_sessionPermission (a : Agent) (call : ToolCall) : Waits a (a.sessionPermission call).1 := by
  unfold sessionPermission
  split
  · exact .refl a
  · exact a.waits_toolFailed _ _

theorem waits_requireProfileScope (a : Agent) (call : ToolCall) : Waits a (a.requireProfileScope call).1 := by
  unfold requireProfileScope
  dsimp only
  split
  · exact .refl a
  · exact a.waits_denyTool _ _ _

theorem waits_requireToolBudget {a b : Agent} {callId : ToolCallId} {refusal : List AgentEffect}
    (h : a.requireToolBudget callId = (b, .error refusal)) : Waits a b := by
  unfold requireToolBudget at h
  split at h
  · simp at h
  · rename_i behavior hadmit
    simp only [Prod.mk.injEq] at h
    obtain ⟨rfl, -⟩ := h
    have hbehavior : behavior = a.state.behavior := by
      unfold BehaviorState.admitToolCall at hadmit
      split at hadmit
      · exact (Prod.mk.inj hadmit).1.symm
      · simp at hadmit
    refine Waits.trans (.of_kept (a.kept_behavior behavior) ?_) (waits_denyTool _ _ _ _)
    rw [hbehavior]
    exact Steady.refl _

theorem waits_admitToolCall {a b : Agent} {call : ToolCall} {es refusal : List AgentEffect}
    (h : a.admitToolCall call = (b, es, .error refusal)) : Waits a b := by
  unfold admitToolCall at h
  have hsession := a.waits_sessionPermission call
  split at h
  · rename_i m refusal' hm
    rw [hm] at hsession
    simp only [Prod.mk.injEq] at h
    exact h.1 ▸ hsession
  · rename_i m mode hm
    rw [hm] at hsession
    have hscope := m.waits_requireProfileScope call
    split at h
    · rename_i n refusal' hn
      rw [hn] at hscope
      simp only [Prod.mk.injEq] at h
      exact h.1 ▸ hsession.trans hscope
    · rename_i n hn
      rw [hn] at hscope
      have hrules := n.waits_evaluateRequestRules call
      split at h
      · rename_i k effects refusal' hk
        rw [hk] at hrules
        simp only [Prod.mk.injEq] at h
        exact h.1 ▸ (hsession.trans hscope).trans hrules
      · rename_i k effects outcome hk
        rw [hk] at hrules
        have happroval := k.waits_approvalFor call mode outcome
        split at h
        · rename_i l refusal' hl
          rw [hl] at happroval
          simp only [Prod.mk.injEq] at h
          exact h.1 ▸ ((hsession.trans hscope).trans hrules).trans happroval
        · rename_i l approval hl
          rw [hl] at happroval
          have hrewritten := l.waits_rewriteArguments call outcome
          dsimp only at h
          split at h
          · rename_i j refusal' hj
            simp only [Prod.mk.injEq] at h
            exact h.1 ▸ ((((hsession.trans hscope).trans hrules).trans happroval).trans hrewritten).trans
              (waits_requireToolBudget hj)
          · simp at h

theorem waits_toolRequested (a : Agent) (call : ToolCall) : Waits a (a.toolRequested call).1 := by
  have hrecorded : Waits a (a.recordToolRequest call).1 := by
    obtain ⟨-, startedAt, hcontrol⟩ := a.recordToolRequest_spec call
    intro hverifying
    refine ⟨(congrArg Control.status hcontrol).symm.trans hverifying, congrArg Control.activeRun hcontrol, ?_⟩
    rw [a.recordToolRequest_behavior call]
    exact Steady.refl _
  unfold toolRequested
  dsimp only [andThen]
  split
  · rename_i b effects call' approval hadmit
    cases approval with
    | allow => exact .of_status (by simp [startAdmittedCall, executeNow, withStatus])
    | ask => exact .of_status (by simp [startAdmittedCall, askPermission, nextPermissionId, takeSequence, withStatus,
        withPendingPermissions])
  · rename_i b effects refusal hadmit
    exact hrecorded.trans (waits_admitToolCall hadmit)

end Agent

def ExecutionResult.proposes (result : ExecutionResult) : Bool :=
  !Agent.outputLimitReasons.contains result.finishReason && result.finishReason != "tool_use"

def evaluations (es : List AgentEffect) : List CompletionEvaluationRequest :=
  es.filterMap fun e => match e with
    | .evaluateCompletion request => some request
    | _ => none

namespace Agent

def landed (a : Agent) (result : ExecutionResult) : Agent :=
  let a := (a.withInFlight false).discardTrailingEmptyAssistantMessage
  a.withUsage { a.usage with records := a.usage.records ++ [⟨result.usage, result.cost, none⟩] }

/-- The agent an answer is proposed in, with the attempt noted: its behavior is what declarative checks
    see. -/
def proposed (a : Agent) : AgentCommand → Option Agent
  | .backendEvent runId (.completed _ result) =>
    if a.state.activeRun = some runId ∧ result.proposes = true then some (a.landed result).noteGateAttempt else none
  | _ => none

def gate (a : Agent) : Option CompletionGate := a.state.behavior.profile.profile.completionGate

theorem kept_landed (a : Agent) (result : ExecutionResult) : Kept (a.withInFlight false) (a.landed result) :=
  (kept_discardTrailing _).trans (kept_usage _ _)

theorem landed_behavior (a : Agent) (result : ExecutionResult) : (a.landed result).state.behavior = a.state.behavior := by
  unfold landed discardTrailingEmptyAssistantMessage
  dsimp only
  split <;> rfl

theorem completed_of_proposes {a : Agent} {runId : RunId} {result : ExecutionResult} (h : result.proposes = true) :
    a.completed runId result =
      (a.landed result).proposeCompletion runId ("Run completed: " ++ result.finishReason) := by
  simp only [ExecutionResult.proposes, Bool.and_eq_true, Bool.not_eq_true', bne_iff_ne] at h
  unfold completed
  dsimp only
  rw [if_neg (by rw [h.1]; decide), if_neg h.2]
  rfl

/-- Where a proposed answer comes from. -/
theorem proposed_spec {a m : Agent} {c : AgentCommand} (h : a.proposed c = some m) :
    ∃ runId summary result, m = (a.landed result).noteGateAttempt ∧ a.state.activeRun = some runId ∧
      m.state.activeRun = some runId ∧ m.state.behavior.profile = a.state.behavior.profile ∧
      a.apply c = (a.landed result).proposeCompletion runId summary := by
  unfold proposed at h
  split at h
  · rename_i runId requestId result
    split at h
    · rename_i hproposes
      cases h
      refine ⟨runId, "Run completed: " ++ result.finishReason, result, rfl, hproposes.1, ?_, ?_, ?_⟩
      · exact (a.kept_landed result).activeRun.trans hproposes.1
      · have hnoted : (a.landed result).noteGateAttempt.state.behavior.profile = (a.landed result).state.behavior.profile :=
          rfl
        rw [hnoted, a.landed_behavior result]
      · simp only [apply, backendEvent, hproposes.1, ne_eq, not_true, if_false, handleBackendEvent]
        exact completed_of_proposes hproposes.2
    · cases h
  · cases h

omit [Externals] in
theorem evaluatorSpecs_unpreparable (checks : List GateCheck) : (evaluatorSpecs checks).2 = [] := by
  induction checks with
  | nil => rfl
  | cons check rest ih =>
    simp only [evaluatorSpecs]
    split
    · exact ih
    · rename_i evaluator hevaluator
      cases evaluator <;> exact ih

omit [Externals] in
theorem evaluatorSpecs_isEmpty (checks : List GateCheck) :
    (evaluatorSpecs checks).1.isEmpty = checks.all (·.evaluator.isNone) := by
  induction checks with
  | nil => rfl
  | cons check rest ih =>
    simp only [evaluatorSpecs, List.all_cons]
    split
    · rename_i hevaluator
      simpa [hevaluator] using ih
    · rename_i evaluator hevaluator
      cases evaluator <;> simp [EvaluatorSpec.toValue, hevaluator]

/-- A proposed answer goes to the evaluators of its gate, or is decided at once when there are none. -/
theorem apply_of_proposed {a m : Agent} {c : AgentCommand} {gate : CompletionGate} (h : a.proposed c = some m)
    (hgate : m.gate = some gate) : ∃ runId summary, m.state.activeRun = some runId ∧
      a.apply c = if !(m.failedDeclarativeChecks gate).isEmpty || gate.checks.all (·.evaluator.isNone) then
          m.gateDecided runId (m.failedDeclarativeChecks gate) summary
        else m.startVerifying runId gate (evaluatorSpecs gate.checks).1 := by
  obtain ⟨runId, summary, result, rfl, -, hrun, -, happly⟩ := proposed_spec h
  refine ⟨runId, summary, hrun, ?_⟩
  have hgate' : (a.landed result).state.behavior.profile.profile.completionGate = some gate := hgate
  rw [happly, proposeCompletion, hgate']
  dsimp only
  rw [evaluatorSpecs_unpreparable, List.append_nil, evaluatorSpecs_isEmpty]

theorem gateDecided_status (a : Agent) (runId : RunId) (failures : List CheckFailure) (summary : String) :
    (a.gateDecided runId failures summary).1.state.status ≠ .verifying := by
  unfold gateDecided
  dsimp only
  split
  · simp [finishSuccess]
  · dsimp only [andThen]
    split
    · simp [finishSuccess]
    · unfold endExhaustedGate
      split <;> simp [finishSuccess]
    · unfold sendAnswerBack
      dsimp only
      split
      · rename_i b failure hb
        simp [(beginTurn_error hb).2]
      · simp [executionRequest, buildRequest, nextRequestId, takeSequence, withBehavior, withInFlight, withStatus]

theorem startRun_status (a : Agent) (input : UserInput) : (a.startRun input).1.state.status ≠ .verifying := by
  unfold startRun
  split
  · simp
  · split
    · simp
    · dsimp only [andThen]
      rcases a.takePendingSwitch.1.beginRun_cases input with ⟨-, hfail⟩ | ⟨-, b, es, hquiet, hbegin⟩
      · simp [hfail.status]
      · have hstatus : (b.executionRequest (a.takePendingSwitch.1.openRun input).2).1.state.status = .preparingContext :=
          hquiet.status
        simp [hbegin, hstatus]

theorem waits_completed {a : Agent} {runId : RunId} {result : ExecutionResult} (h : result.proposes = false) :
    Waits a (a.completed runId result).1 := by
  unfold completed
  dsimp only
  split
  · exact .of_failed rfl
  · rename_i hlimit
    split
    · have hlanded : Waits a (a.landed result) := by
        intro hverifying
        have hkept := a.kept_landed result
        refine ⟨hkept.status.symm.trans hverifying, hkept.activeRun, ?_⟩
        rw [a.landed_behavior result]
        exact Steady.refl _
      exact hlanded.trans (waits_continueAfterTools _)
    · rename_i htool
      simp only [ExecutionResult.proposes, Bool.and_eq_false_iff, Bool.not_eq_false', bne_eq_false_iff_eq] at h
      rcases h with h | h
      · exact absurd h hlimit
      · exact absurd h htool

theorem waits_permissionResolved (a : Agent) (id : PermissionId) (decision : PermissionDecision) :
    Waits a (a.permissionResolved id decision).1 := by
  have hanswered : Waits a (a.withPendingPermissions (a.state.pendingPermissions.erase id)) :=
    fun hverifying => ⟨hverifying, rfl, Steady.refl _⟩
  unfold permissionResolved
  split
  · exact .refl a
  · dsimp only
    split
    · exact hanswered
    · split
      · exact .of_status (by simp [withStatus])
      · exact hanswered.trans (waits_toolFailed _ _ _)

theorem waits_childSpawned (a : Agent) (agentId : AgentId) (awaiting : Bool) :
    Waits a (a.childSpawned agentId awaiting).1 := by
  unfold childSpawned
  generalize hadded : (if a.state.children.contains agentId then a
    else a.withChildren (a.state.children ++ [agentId])) = b
  have hb : Waits a b := by
    split at hadded
    · exact hadded ▸ Waits.refl a
    · subst hadded
      exact fun hverifying => ⟨hverifying, rfl, Steady.refl _⟩
  dsimp only
  split
  · exact hb
  · exact .of_status (by simp [withStatus])

theorem waits_childDone (a : Agent) (agentId : AgentId) (outcome : AgentOutcome) :
    Waits a (a.childDone agentId outcome).1 := by
  unfold childDone
  dsimp only
  split
  · exact .of_status (by simp [withStatus])
  · exact fun hverifying => ⟨hverifying, rfl, Steady.refl _⟩

theorem waits_setBehaviorProfile {a : Agent} (profile : Value) (library : List Value) (allowCommands : Bool)
    (hrun : a.state.status = .verifying → a.state.activeRun ≠ none) :
    Waits a (a.setBehaviorProfile profile library allowCommands).1 := by
  unfold setBehaviorProfile
  dsimp only
  split
  · exact fun hverifying => ⟨hverifying, rfl, rfl, rfl, rfl, rfl, rfl⟩
  · rename_i compiled library' hbundle
    split
    · exact fun hverifying => ⟨hverifying, rfl, rfl, rfl, rfl, rfl, rfl⟩
    · -- an agent that waits for verdicts has a run, so it does not switch here
      rename_i hidle
      have hnone : a.state.activeRun = none := Option.not_isSome_iff_eq_none.mp hidle
      intro hverifying
      have hquiet := quiet_applySwitch (a := a.withBehavior (a.state.behavior.withCommandsTrusted allowCommands))
        compiled library' hnone
      exact absurd hnone (hrun (hquiet.status.symm.trans hverifying))

theorem waits_completionEvaluated (a : Agent) (runId : RunId) (attempt : Nat) (verdicts : List CheckVerdict)
    (usage : List UsageRecord) : Waits a (a.completionEvaluated runId attempt verdicts usage).1 := by
  unfold completionEvaluated
  dsimp only
  generalize hcounted : (if usage.isEmpty = true then (a, []) else _ : Agent × List AgentEffect) = counted
  have hwaits : Waits a counted.1 := by
    split at hcounted
    · rw [← hcounted]
      exact .refl a
    · rw [← hcounted]
      exact .of_kept ((a.kept_usage _).trans (kept_nextTimestamp _)) ⟨rfl, rfl, rfl, rfl, rfl⟩
  split
  · exact hwaits
  · split
    · exact hwaits
    · exact .of_status (gateDecided_status _ _ _ _)

theorem waits_backendEvent {a : Agent} {runId : RunId} {event : ExecutionEvent}
    (h : a.proposed (.backendEvent runId event) = none) : Waits a (a.backendEvent runId event).1 := by
  unfold backendEvent
  split
  · exact .refl a
  · rename_i hrun
    cases event with
    | textDelta _ delta =>
      have hstatus : (a.textDelta delta).1.state.status = .streaming := (kept_appendAssistantText _ delta).status
      exact .of_status (by simp [handleBackendEvent, hstatus])
    | reasoningDelta _ delta =>
      refine .of_kept a.kept_assistantMessageId ?_
      simp only [handleBackendEvent, reasoningDelta, assistantMessageId]
      split <;> exact Steady.refl _
    | toolCallRequested _ call => exact a.waits_toolRequested call
    | toolCallStarted _ call =>
      have hstatus : (a.backendToolStarted call).1.state.status = .executing := (kept_pushToolUse _ call).status
      exact .of_status (by simp [handleBackendEvent, hstatus])
    | toolCallCompleted _ callId result =>
      have hstatus : (a.backendToolCompleted callId result).1.state.status = .streaming := rfl
      exact .of_status (by simp [handleBackendEvent, hstatus])
    | usageUpdate _ usage => exact .of_kept a.kept_nextTimestamp (Steady.refl _)
    | completed _ result =>
      refine waits_completed ?_
      simpa [proposed, not_not.mp hrun] using h
    | error _ failure => exact .of_failed rfl

/-- Only a proposed answer makes an agent wait for verdicts. -/
theorem waits_apply {a : Agent} (c : AgentCommand) (hrun : a.state.status = .verifying → a.state.activeRun ≠ none) :
    Waits a (a.apply c).1 ∨ ∃ m gate runId, a.proposed c = some m ∧ m.gate = some gate ∧
      m.failedDeclarativeChecks gate = [] ∧ m.state.activeRun = some runId ∧
      a.apply c = m.startVerifying runId gate (evaluatorSpecs gate.checks).1 := by
  have hstart : ∀ input, Waits a (a.startOrQueue input).1 := by
    intro input
    unfold startOrQueue
    split
    · exact fun hverifying => ⟨hverifying, rfl, Steady.refl _⟩
    · exact .of_status (a.startRun_status input)
  cases hproposed : a.proposed c with
  | some m =>
    cases hgate : m.gate with
    | none =>
      obtain ⟨runId, summary, result, rfl, -, -, -, happly⟩ := proposed_spec hproposed
      have hgate' : (a.landed result).state.behavior.profile.profile.completionGate = none := hgate
      rw [happly, proposeCompletion, hgate']
      exact .inl (.of_status (by simp [finishSuccess]))
    | some gate =>
      obtain ⟨runId, summary, hactive, happly⟩ := apply_of_proposed hproposed hgate
      split at happly
      · rw [happly]
        exact .inl (.of_status (gateDecided_status _ _ _ _))
      · rename_i hverify
        simp only [Bool.or_eq_true, Bool.not_eq_true', not_or, Bool.not_eq_false, List.isEmpty_iff] at hverify
        exact .inr ⟨m, gate, runId, rfl, hgate, hverify.1, hactive, happly⟩
  | none =>
    left
    cases c with
    | startRun input | steer input | followUp input => exact hstart input
    | startNextQueuedRun =>
      simp only [apply, startNextQueuedRun]
      split
      · exact .refl a
      · exact .of_status (startRun_status _ _)
    | backendEvent runId event => exact waits_backendEvent hproposed
    | toolCompleted callId result => exact a.waits_toolCompleted callId result
    | toolFailed callId error => exact a.waits_toolFailed callId error
    | permissionResolved id decision => exact a.waits_permissionResolved id decision
    | spawnChild spec => exact .refl a
    | childSpawned agentId awaiting => exact a.waits_childSpawned agentId awaiting
    | childCompleted agentId result =>
      refine Waits.trans ?_ (waits_childDone _ agentId .success)
      exact fun hverifying => ⟨hverifying, rfl, Steady.refl _⟩
    | childFailed agentId error =>
      refine Waits.trans ?_ (waits_childDone _ agentId .failed)
      exact fun hverifying => ⟨hverifying, rfl, Steady.refl _⟩
    | cancel =>
      cases hnothing : a.nothingToCancel with
      | false =>
        rw [show a.apply .cancel = a.cancel from rfl, cancel_fst hnothing]
        exact .of_status (by simp)
      | true =>
        rw [show a.apply .cancel = (a, []) by simp [apply, cancel, hnothing]]
        exact .refl a
    | pause =>
      simp only [apply, pause]
      split
      · exact .refl a
      · exact .refl a
      · exact .refl a
      · exact .refl a
      · exact .of_status (by simp [withStatus])
    | resume =>
      simp only [apply, resume]
      split
      · exact .refl a
      · split
        · exact .of_status (by simp [buildRequest, nextRequestId, takeSequence, withBehavior, withInFlight, withStatus])
        · exact .of_status (by simp [withStatus])
    | configureExecution params => exact fun hverifying => ⟨hverifying, rfl, Steady.refl _⟩
    | setBehaviorProfile profile library allowCommands => exact waits_setBehaviorProfile profile library allowCommands hrun
    | completionEvaluated runId attempt verdicts usage => exact a.waits_completionEvaluated runId attempt verdicts usage

end Agent

end RustyCore
