import RustyCore.Theorems.Allowance
import RustyCore.Theorems.Transition

/-! A run is bounded: what it spends on model requests, admitted calls and answers sent back stays within the
    limits of its profile, and it switches profiles only so often. -/

namespace RustyCore

open List

section

variable [Externals]

namespace Agent

variable {a b : Agent} {es fs : List AgentEffect}

omit [Externals] in
theorem free_changedTo (from_ to_ : AgentStatus) : ∀ e ∈ changedTo from_ to_, e.isFree = true := by
  intro e he
  unfold changedTo at he
  split at he
  · rw [mem_singleton.mp he]
    rfl
  · cases he

theorem free_buildRequest (a : Agent) (runId : RunId) (reissue : Bool) : Free a [] (a.buildRequest runId reissue).1 := by
  refine .same ?_ rfl
  unfold buildRequest meter BehaviorState.meter
  dsimp only
  split <;> split <;> rfl

theorem pays_request (h : Pays a (charges es + { requests := 1 }) b) {m : Agent} {fs : List AgentEffect}
    {request : ExecutionRequest} (hfs : ∀ e ∈ fs, e.isFree = true) (hm : Free b [] m) :
    Pays a (charges (es ++ fs ++ [.executeBackend request])) m := by
  have hsum := h.trans hm.pays
  rw [charges_of_free hm.free, Spending.add_nothing] at hsum
  rw [charges_append, charges_append, charges_of_free hfs, Spending.add_nothing]
  exact hsum

theorem pays_continueAfterTools (a : Agent) : Pays a (charges a.continueAfterTools.2) a.continueAfterTools.1 := by
  unfold continueAfterTools
  split
  · split
    · exact (Free.refl a).pays
    · rename_i runId hrun
      have hprepares := prepares_beginTurn (a := a) (by simp [hrun])
      split
      · rename_i b failure hb
        rw [hb] at hprepares
        exact hprepares.error failure rfl
      · rename_i b effects hb
        rw [hb] at hprepares
        have hwaiting : Free b [] (b.withStatus .waitingForBackend) := .same rfl rfl
        exact pays_request (hprepares.ok effects rfl) (free_changedTo _ _) (hwaiting.trans (free_buildRequest _ runId false))
  · exact (Free.refl a).pays

theorem pays_nextAfterResult (a : Agent) (stop : Option RuleStop) :
    Pays a (charges (a.nextAfterResult stop).2) (a.nextAfterResult stop).1 := by
  unfold nextAfterResult
  split
  · exact (free_behaviorStop a _).pays
  · split
    · have hcleared : Free a [] (a.withTimeouts 0) := .same rfl rfl
      exact (hcleared.trans (free_fail _ _ _)).pays
    · exact a.pays_continueAfterTools

theorem pays_recordToolResult (a : Agent) (call : ToolCall) (executed hasError : Bool) (preview : String) :
    Pays a (charges (a.recordToolResult call executed hasError preview).2)
      (a.recordToolResult call executed hasError preview).1 := by
  unfold recordToolResult
  generalize hrules : (if executed = true then a.runPostToolRules call hasError preview else (a, [], preview, none)) = r
  have hfree : Free a r.2.1 r.1 := by
    split at hrules
    · rw [← hrules]
      have hnoted : Free a [] (a.withBehavior (a.state.behavior.noteExecutedWith call.name hasError)) := .same rfl rfl
      exact hnoted.trans (free_runRules _ (if hasError then .postToolUseFailure else .postToolUse)
        (some ⟨call, some preview⟩) (some call.id))
    · rw [← hrules]
      exact .refl a
  obtain ⟨m, effects, preview', stop⟩ := r
  dsimp only [andThen]
  refine Free.then_ (hfree.trans ?_) (pays_nextAfterResult _ stop)
  exact .single rfl rfl rfl

theorem free_forgetCall (a : Agent) (callId : ToolCallId) (timeouts : Nat) :
    Free a [] ((a.forgetCall callId).withTimeouts timeouts) := .same rfl rfl

theorem pays_toolFailed (a : Agent) (callId : ToolCallId) (error : ToolError) :
    Pays a (charges (a.toolFailed callId error).2) (a.toolFailed callId error).1 := by
  unfold toolFailed
  split
  · exact (Free.refl a).pays
  · exact (a.free_forgetCall callId _).thenPays (pays_recordToolResult _ _ _ _ _)

theorem pays_toolCompleted (a : Agent) (callId : ToolCallId) (result : ToolResult) :
    Pays a (charges (a.toolCompleted callId result).2) (a.toolCompleted callId result).1 := by
  unfold toolCompleted
  split
  · exact (Free.refl a).pays
  · exact (a.free_forgetCall callId 0).thenPays (pays_recordToolResult _ _ _ _ _)

theorem pays_denyTool (a : Agent) (callId : ToolCallId) (ruleId : Option String) (reason : String) :
    Pays a (charges (a.denyTool callId ruleId reason).2) (a.denyTool callId ruleId reason).1 := by
  have hdenied : Free a [.emit (.toolCallDenied callId ruleId reason)] a := .single rfl rfl rfl
  exact hdenied.then_ (a.pays_toolFailed callId (.denied reason))

/-- A check that a call passes pays `spent`, and a refusal pays for what was done. -/
structure Passes {α : Type} (a b : Agent) (spent : Spending) (r : Except (List AgentEffect) α) : Prop where
  ok : ∀ x, r = .ok x → Pays a spent b
  error : ∀ es, r = .error es → Pays a (charges es) b

section

variable {α : Type}

theorem Passes.passed (x : α) : Passes a a {} (.ok x) := ⟨fun _ _ => (Free.refl a).pays, by simp⟩

theorem Passes.refused {spent : Spending} (h : Pays a (charges es) b) :
    Passes a b spent (.error es : Except (List AgentEffect) α) := by
  refine ⟨by simp, ?_⟩
  rintro _ ⟨⟩
  exact h

theorem Passes.after {m : Agent} {spent : Spending} {r : Except (List AgentEffect) α} (h : Passes m b spent r)
    (hm : Pays a {} m) : Passes a b spent r := by
  refine ⟨fun x hx => ?_, fun es hes => ?_⟩
  · have hsum := hm.trans (h.ok x hx)
    rwa [Spending.nothing_add] at hsum
  · have hsum := hm.trans (h.error es hes)
    rwa [Spending.nothing_add] at hsum

end

theorem passes_sessionPermission (a : Agent) (call : ToolCall) :
    Passes a (a.sessionPermission call).1 {} (a.sessionPermission call).2 := by
  unfold sessionPermission
  split
  · exact .passed _
  · exact .refused (a.pays_toolFailed _ _)

theorem passes_requireProfileScope (a : Agent) (call : ToolCall) :
    Passes a (a.requireProfileScope call).1 {} (a.requireProfileScope call).2 := by
  unfold requireProfileScope
  dsimp only
  split
  · exact .passed _
  · exact .refused (a.pays_denyTool _ _ _)

theorem passes_evaluateRequestRules (a : Agent) (call : ToolCall) :
    (∀ e ∈ (a.evaluateRequestRules call).2.1, e.isFree = true) ∧
      Passes a (a.evaluateRequestRules call).1 {} (a.evaluateRequestRules call).2.2 := by
  have hnoted : Free a [] (a.withBehavior (a.state.behavior.noteToolRequest call)) := .same rfl rfl
  have hrules := hnoted.trans (free_runRules _ .preToolUse (some ⟨call, none⟩) (some call.id))
  have hseen : Free a [] (runRules (a.withBehavior (a.state.behavior.noteToolRequest call)) .preToolUse
      (some ⟨call, none⟩) (some call.id)).1 := ⟨hrules.meter, hrules.run, fun _ h => absurd h not_mem_nil⟩
  unfold evaluateRequestRules
  dsimp only
  split
  · exact ⟨hrules.free, ⟨fun _ _ => hseen.pays, by simp⟩⟩
  · refine ⟨hrules.free, .refused (hseen.thenPays ?_)⟩
    exact (pays_denyTool _ _ _ _).append (free_behaviorStop _ _).pays

theorem passes_approvalFor (a : Agent) (call : ToolCall) (mode : PermissionMode) (outcome : RuleOutcome) :
    Passes a (a.approvalFor call mode outcome).1 {} (a.approvalFor call mode outcome).2 := by
  unfold approvalFor
  dsimp only
  split
  · exact .refused (a.pays_denyTool _ _ _)
  · split
    · exact .passed _
    · exact .passed _
    · refine .refused ?_
      split
      · exact a.pays_toolFailed _ _
      · exact a.pays_denyTool _ _ _

theorem free_rewriteArguments (a : Agent) (call : ToolCall) (outcome : RuleOutcome) :
    Free a [] (a.rewriteArguments call outcome).1 := by
  unfold rewriteArguments
  split
  · exact .refl a
  · dsimp only
    unfold patchPending
    split <;> exact .same rfl rfl

theorem passes_requireToolBudget (a : Agent) (callId : ToolCallId) :
    Passes a (a.requireToolBudget callId).1 { admissions := 1 } (a.requireToolBudget callId).2 := by
  unfold requireToolBudget
  split
  · rename_i behavior hbehavior
    unfold BehaviorState.admitToolCall at hbehavior
    split at hbehavior
    · cases hbehavior
    · rename_i hbudget
      cases hbehavior
      refine ⟨fun _ _ => ⟨by simp [meter, BehaviorState.meter, withBehavior], fun h => h, fun _ => ?_⟩, by simp⟩
      refine ⟨rfl, ?_, fun _ _ h => h, ?_, ?_, ?_, fun _ _ h => h⟩
      · simp [meter, BehaviorState.meter, withBehavior]
      · exact le_of_eq (Nat.add_comm 1 _)
      · intro limit hlimit hfit
        have hlimit' : a.state.behavior.profile.profile.limits.maxToolCalls = some limit := hlimit
        simp only [BehaviorState.overBudget, hlimit', Option.any_some, Bool.or_eq_true, decide_eq_true_eq, not_or,
          not_le] at hbudget
        exact hbudget.2
      · simp [meter, BehaviorState.meter, withBehavior]
  · rename_i behavior hbehavior
    have hsame : Free a [] (a.withBehavior behavior) := by
      unfold BehaviorState.admitToolCall at hbehavior
      split at hbehavior <;> cases hbehavior
      exact .refl a
    exact .refused (hsame.thenPays (pays_denyTool _ _ _ _))

theorem passes_admitToolCall (a : Agent) (call : ToolCall) :
    (∀ e ∈ (a.admitToolCall call).2.1, e.isFree = true) ∧
      Passes a (a.admitToolCall call).1 { admissions := 1 } (a.admitToolCall call).2.2 := by
  have hnone : ∀ e ∈ ([] : List AgentEffect), e.isFree = true := fun _ h => absurd h not_mem_nil
  have hpermission := a.passes_sessionPermission call
  unfold admitToolCall
  split
  · rename_i b refusal hb
    rw [hb] at hpermission
    exact ⟨hnone, .refused (hpermission.error refusal rfl)⟩
  · rename_i b mode hb
    rw [hb] at hpermission
    have hpb := hpermission.ok mode rfl
    have hscope := (b.passes_requireProfileScope call).after hpb
    split
    · rename_i d refusal hd
      rw [hd] at hscope
      exact ⟨hnone, .refused (hscope.error refusal rfl)⟩
    · rename_i d hd
      rw [hd] at hscope
      have hpd := hscope.ok () rfl
      obtain ⟨hfree, hrules⟩ := d.passes_evaluateRequestRules call
      have hrules := hrules.after hpd
      split
      · rename_i f effects refusal hf
        rw [hf] at hfree hrules
        exact ⟨hfree, .refused (hrules.error refusal rfl)⟩
      · rename_i f effects outcome hf
        rw [hf] at hfree hrules
        have happroval := (f.passes_approvalFor call mode outcome).after (hrules.ok outcome rfl)
        split
        · rename_i g refusal hg
          rw [hg] at happroval
          exact ⟨hfree, .refused (happroval.error refusal rfl)⟩
        · rename_i g approval hg
          rw [hg] at happroval
          have hbefore := (happroval.ok approval rfl).trans (g.free_rewriteArguments call outcome).pays
          rw [charges_of_free (g.free_rewriteArguments call outcome).free, Spending.add_nothing] at hbefore
          dsimp only
          have hbudget := (passes_requireToolBudget _ (g.rewriteArguments call outcome).2.id).after hbefore
          split
          · rename_i k refusal hk
            rw [hk] at hbudget
            exact ⟨hfree, .refused (hbudget.error refusal rfl)⟩
          · rename_i k hk
            rw [hk] at hbudget
            exact ⟨hfree, ⟨fun _ _ => hbudget.ok () rfl, by simp⟩⟩

theorem pays_start (h : Pays a { admissions := 1 } b) (from_ : AgentStatus) (call : ToolCall) (approval : Approval) :
    Pays a (charges (b.startAdmittedCall from_ call approval).2) (b.startAdmittedCall from_ call approval).1 := by
  have hcharges : charges (b.startAdmittedCall from_ call approval).2 = { admissions := 1 } := by
    cases approval <;> rfl
  have hstarted : Free b [] (b.startAdmittedCall from_ call approval).1 := by
    cases approval <;> exact .same rfl rfl
  have hsum := h.trans hstarted.pays
  rw [charges_of_free hstarted.free, Spending.add_nothing] at hsum
  rwa [hcharges]

theorem pays_toolRequested (a : Agent) (call : ToolCall) :
    Pays a (charges (a.toolRequested call).2) (a.toolRequested call).1 := by
  have hrecorded : Free a (a.recordToolRequest call).2 (a.recordToolRequest call).1 := by
    have hpushed : (a.recordToolRequest call).1.meter = a.meter :=
      congrArg BehaviorState.meter (a.recordToolRequest_behavior call)
    refine .single hpushed ?_ rfl
    exact (a.kept_pushToolUse call).activeRun
  obtain ⟨hfree, hpasses⟩ := (a.recordToolRequest call).1.passes_admitToolCall call
  unfold toolRequested
  dsimp only [andThen]
  generalize (a.recordToolRequest call).1.admitToolCall call = r at hfree hpasses ⊢
  obtain ⟨m, effects, r⟩ := r
  refine hrecorded.then_ ?_
  cases r with
  | error refusal =>
    dsimp only
    rw [charges_append, charges_of_free hfree, Spending.nothing_add]
    exact hpasses.error refusal rfl
  | ok admitted =>
    obtain ⟨call', approval⟩ := admitted
    dsimp only
    rw [charges_append, charges_of_free hfree, Spending.nothing_add]
    exact pays_start (hpasses.ok _ rfl) a.state.status call' approval

theorem free_finishSuccess (a : Agent) (summary : String) (passed : Option Bool) :
    Free a (a.finishSuccess summary passed).2 (a.finishSuccess summary passed).1 := by
  refine ⟨rfl, fun h => absurd rfl h, ?_⟩
  intro e he
  simp only [finishSuccess, mem_cons, not_mem_nil, or_false] at he
  rcases he with rfl | rfl | rfl <;> rfl

theorem pays_sendAnswerBack (hactive : a.state.activeRun ≠ none) (runId : RunId) (reference : ProfileRef)
    (failures : List CheckFailure)
    (hfit : ∀ gate, a.state.behavior.profile.profile.completionGate = some gate →
      a.state.behavior.run.gateContinuations < gate.maxContinuations) :
    Pays a ({ sendBacks := 1 } + charges (a.sendAnswerBack runId reference failures).2)
      (a.sendAnswerBack runId reference failures).1 := by
  unfold sendAnswerBack
  dsimp only
  generalize hm : (a.withRun { a.state.behavior.run with
    gateContinuations := a.state.behavior.run.gateContinuations + 1 }).pushGateRejection reference failures = m
  have hcounted : Pays a { sendBacks := 1 } m := by
    rw [← hm]
    refine ⟨by simp [meter, BehaviorState.meter, withRun, withBehavior, pushGateRejection, pushMessage, withMessages,
      nextMessageId, nextTimestamp, takeSequence], fun h => h, fun _ => ?_⟩
    refine ⟨rfl, ?_, fun _ _ h => h, ?_, fun _ _ h => h, ?_, ?_⟩
    · exact le_of_eq (Nat.zero_add _)
    · exact le_of_eq (Nat.zero_add _)
    · exact le_of_eq (Nat.add_comm 1 _)
    · intro gate hgate _
      exact Nat.succ_le_of_lt (hfit gate hgate)
  have hm' : m.state.activeRun ≠ none := by
    rw [← hm]
    exact hactive
  have hprepares := prepares_beginTurn hm'
  refine hcounted.trans ?_
  split
  · rename_i b failure hb
    rw [hb] at hprepares
    exact hprepares.error failure rfl
  · rename_i b effects hb
    rw [hb] at hprepares
    have hwaiting : Free b [] (b.withStatus .waitingForBackend) := .same rfl rfl
    have hchange : ∀ e ∈ [stateChanged b.state.status .waitingForBackend], e.isFree = true := by
      intro e he
      rw [mem_singleton.mp he]
      rfl
    have hpaid : Pays m (charges (effects ++ [stateChanged b.state.status .waitingForBackend] ++
        [.executeBackend ((b.withStatus .waitingForBackend).executionRequest runId).2]))
        ((b.withStatus .waitingForBackend).executionRequest runId).1 :=
      pays_request (hprepares.ok effects rfl) hchange (hwaiting.trans (free_buildRequest _ runId false))
    rwa [append_assoc] at hpaid

theorem pays_gateDecided (hactive : a.state.activeRun ≠ none) (runId : RunId) (failures : List CheckFailure)
    (summary : String) :
    Pays a (charges (a.gateDecided runId failures summary).2) (a.gateDecided runId failures summary).1 := by
  unfold gateDecided
  dsimp only
  split
  · exact (a.free_finishSuccess _ _).pays
  · rename_i gate hgate
    dsimp only [andThen]
    rw [charges_append]
    cases hstep : a.gateStep gate (failures.map (·.1)) with
    | accept =>
      have hevaluated : Free a [a.gateEvaluated .accept (failures.map (·.1))] a := .single rfl rfl rfl
      exact hevaluated.pays.trans (a.free_finishSuccess _ _).pays
    | exhausted =>
      have hevaluated : Free a [a.gateEvaluated .exhausted (failures.map (·.1))] a := .single rfl rfl rfl
      refine hevaluated.pays.trans ?_
      dsimp only
      unfold endExhaustedGate
      split
      · exact (a.free_finishSuccess _ _).pays
      · exact (a.free_fail _ _).pays
    | sendBack =>
      refine pays_sendAnswerBack hactive _ _ _ fun gate' hgate' => ?_
      obtain rfl := Option.some.inj (hgate.symm.trans hgate')
      unfold gateStep at hstep
      dsimp only at hstep
      split at hstep
      · cases hstep
      · split at hstep
        · rename_i hmore
          simp only [Bool.and_eq_true, decide_eq_true_eq] at hmore
          exact hmore.1
        · split at hstep <;> cases hstep

theorem pays_proposeCompletion (hactive : a.state.activeRun ≠ none) (runId : RunId) (summary : String) :
    Pays a (charges (a.proposeCompletion runId summary).2) (a.proposeCompletion runId summary).1 := by
  unfold proposeCompletion
  split
  · exact (a.free_finishSuccess _ _).pays
  · dsimp only
    have hnoted : Free a [] a.noteGateAttempt := .same rfl rfl
    have hactive' : a.noteGateAttempt.state.activeRun ≠ none := hactive
    split
    · exact hnoted.thenPays (pays_gateDecided hactive' _ _ _)
    · refine Free.pays ⟨rfl, fun h => h, ?_⟩
      intro e he
      simp only [startVerifying, mem_cons, not_mem_nil, or_false] at he
      rcases he with rfl | rfl <;> rfl

theorem pays_completionEvaluated (hactive : a.state.activeRun ≠ none) (runId : RunId) (attempt : Nat)
    (verdicts : List CheckVerdict) (usage : List UsageRecord) :
    Pays a (charges (a.completionEvaluated runId attempt verdicts usage).2)
      (a.completionEvaluated runId attempt verdicts usage).1 := by
  unfold completionEvaluated
  dsimp only
  generalize hcounted : (if usage.isEmpty = true then (a, []) else _ : Agent × List AgentEffect) = counted
  have hfree : Free a counted.2 counted.1 ∧ counted.1.state.activeRun = a.state.activeRun := by
    rw [← hcounted]
    split
    · exact ⟨.refl a, rfl⟩
    · exact ⟨.single rfl rfl rfl, rfl⟩
  split
  · exact hfree.1.pays
  · split
    · exact Free.pays ⟨hfree.1.meter, hfree.1.run, fun _ h => absurd h not_mem_nil⟩
    · exact hfree.1.then_ (pays_gateDecided (by rw [hfree.2]; exact hactive) _ _ _)

theorem pays_completed (hactive : a.state.activeRun ≠ none) (runId : RunId) (result : ExecutionResult) :
    Pays a (charges (a.completed runId result).2) (a.completed runId result).1 := by
  unfold completed
  dsimp only
  generalize hm : ((a.withInFlight false).discardTrailingEmptyAssistantMessage.withUsage _) = m
  have hdone : Free a [] m ∧ m.state.activeRun = a.state.activeRun := by
    rw [← hm]
    unfold discardTrailingEmptyAssistantMessage
    split <;> exact ⟨.same rfl rfl, rfl⟩
  refine hdone.1.thenPays ?_
  split
  · exact (m.free_fail _ _).pays
  · split
    · exact m.pays_continueAfterTools
    · exact pays_proposeCompletion (by rw [hdone.2]; exact hactive) _ _

theorem meter_appendAssistantText (a : Agent) (delta : String) : (a.appendAssistantText delta).1.meter = a.meter := by
  unfold appendAssistantText
  dsimp only
  split
  · rfl
  · split
    · rfl
    · split <;> rfl

theorem pays_backendEvent (a : Agent) (runId : RunId) (event : ExecutionEvent) :
    Pays a (charges (a.backendEvent runId event).2) (a.backendEvent runId event).1 := by
  unfold backendEvent
  split
  · exact (Free.refl a).pays
  · rename_i hrun
    have hactive : a.state.activeRun ≠ none := by simp [not_not.mp hrun]
    cases event with
    | textDelta _ delta =>
      refine Free.pays ⟨meter_appendAssistantText _ delta, fun _ => hactive, ?_⟩
      exact forall_mem_append.mpr ⟨free_changedTo _ _, forall_mem_singleton.mpr rfl⟩
    | reasoningDelta _ delta =>
      refine (Free.single ?_ a.kept_assistantMessageId.activeRun rfl).pays
      unfold assistantMessageId
      split <;> rfl
    | toolCallRequested _ call => exact a.pays_toolRequested call
    | toolCallStarted _ call =>
      refine Free.pays ⟨congrArg BehaviorState.meter (pushToolUse_behavior _ call), fun _ => hactive, ?_⟩
      exact forall_mem_append.mpr ⟨free_changedTo _ _, forall_mem_cons.mpr ⟨rfl, forall_mem_singleton.mpr rfl⟩⟩
    | toolCallCompleted _ callId result =>
      refine Free.pays ⟨rfl, fun h => h, ?_⟩
      exact forall_mem_append.mpr ⟨free_changedTo _ _, forall_mem_singleton.mpr rfl⟩
    | usageUpdate _ usage =>
      have hreported : Free a (a.usageUpdate usage).2 (a.usageUpdate usage).1 := .single rfl rfl rfl
      exact hreported.pays
    | completed _ result => exact pays_completed hactive runId result
    | error _ error => exact (a.free_fail _ _).pays

/-- The effects of a command that count. A resumption issues the request of the turn again, and an answer to a
    question runs a call that was admitted when it was asked for. -/
def countedEffects : AgentCommand → List AgentEffect → List AgentEffect
  | .resume, es => es.filter fun e => !e.isRequest
  | .permissionResolved _ .approved, es => es.filter fun e => !e.isAdmission
  | _, es => es

theorem free_childDone {m : Agent} (agentId : AgentId) (outcome : AgentOutcome) (hm : Free a [] m) :
    Free a (m.childDone agentId outcome).2 (m.childDone agentId outcome).1 := by
  have hdone : ∀ es, (∀ e ∈ es, e.isFree = true) → ∀ b, b.meter = m.meter → b.state.activeRun = m.state.activeRun →
      Free a es b := by
    intro es hes b hmeter hrun
    exact ⟨hmeter.trans hm.meter, fun hb => hm.run (hrun ▸ hb), hes⟩
  unfold childDone
  dsimp only
  split
  · refine hdone _ ?_ _ rfl rfl
    simp [AgentEffect.isFree, AgentEffect.isSwitch, AgentEffect.isRequest, AgentEffect.isAdmission,
      AgentEffect.isSendBack]
  · refine hdone _ ?_ _ rfl rfl
    simp [AgentEffect.isFree, AgentEffect.isSwitch, AgentEffect.isRequest, AgentEffect.isAdmission,
      AgentEffect.isSendBack]

theorem free_cancel (a : Agent) : Free a a.cancel.2 a.cancel.1 := by
  cases hlive : a.nothingToCancel with
  | true =>
    simp only [cancel, hlive, if_true]
    exact .refl a
  | false =>
    refine ⟨congrArg BehaviorState.meter a.cancel_frame.2.1, fun h => absurd a.cancel_frame.2.2.2 h, ?_⟩
    simp only [cancel, hlive, Bool.false_eq_true, if_false]
    intro e he
    simp only [mem_append, mem_map, mem_cons, not_mem_nil, or_false] at he
    rcases he with ((he | ⟨callId, -, rfl⟩) | ⟨agentId, -, rfl⟩) | rfl | rfl
    · cases hrun : a.state.activeRun with
      | none => simp [hrun] at he
      | some runId =>
        simp only [hrun, mem_cons] at he
        rcases he with rfl | he
        · rfl
        · split at he
          · rw [mem_singleton.mp he]
            rfl
          · cases he
    · rfl
    · rfl
    · rfl
    · rfl

theorem pays_permissionResolved (a : Agent) (id : PermissionId) (decision : PermissionDecision) :
    Pays a (charges (countedEffects (.permissionResolved id decision) (a.permissionResolved id decision).2))
      (a.permissionResolved id decision).1 := by
  cases hasked : a.state.pendingPermissions.lookup id with
  | none =>
    simp only [permissionResolved, hasked]
    cases decision <;> exact (Free.refl a).pays
  | some callId =>
    have herased : Free a [] (a.withPendingPermissions (a.state.pendingPermissions.erase id)) := .same rfl rfl
    simp only [permissionResolved, hasked]
    split
    · cases decision <;> exact herased.pays
    · cases decision with
      | approved =>
        refine Free.pays ⟨rfl, fun h => h, ?_⟩
        simp [countedEffects, stateChanged, AgentEffect.isFree, AgentEffect.isSwitch, AgentEffect.isRequest,
          AgentEffect.isAdmission, AgentEffect.isSendBack]
      | denied => exact herased.thenPays (pays_toolFailed _ _ _)

theorem free_childSpawned (a : Agent) (agentId : AgentId) (awaiting : Bool) :
    Free a (a.childSpawned agentId awaiting).2 (a.childSpawned agentId awaiting).1 := by
  unfold childSpawned
  dsimp only
  generalize hm : (if a.state.children.contains agentId = true then a
    else a.withChildren (a.state.children ++ [agentId])) = m
  have hadded : m.meter = a.meter ∧ m.state.activeRun = a.state.activeRun := by
    rw [← hm]
    split <;> exact ⟨rfl, rfl⟩
  split
  · exact .same hadded.1 hadded.2
  · exact .single hadded.1 hadded.2 rfl

theorem free_pause (a : Agent) : Free a a.pause.2 a.pause.1 := by
  unfold pause
  split
  · exact .refl a
  · exact .refl a
  · exact .refl a
  · exact .refl a
  · exact .single rfl rfl rfl

theorem free_resume (a : Agent) : Free a (countedEffects .resume a.resume.2) a.resume.1 := by
  unfold resume
  split
  · exact .refl a
  · split
    · rename_i runId hrun
      have hwaiting : Free a [] (a.withStatus .waitingForBackend) := .same rfl rfl
      have hreissued := hwaiting.trans (free_buildRequest _ runId true)
      refine ⟨hreissued.meter, hreissued.run, ?_⟩
      simp [countedEffects, stateChanged, AgentEffect.isFree, AgentEffect.isSwitch, AgentEffect.isRequest,
        AgentEffect.isAdmission, AgentEffect.isSendBack]
    · exact .single rfl rfl rfl

theorem pays_apply (hactive : a.state.activeRun ≠ none) {c : AgentCommand} (hsame : a.startInput c = none) :
    Pays a (charges (countedEffects c (a.apply c).2)) (a.apply c).1 := by
  cases c with
  | startRun input | steer input | followUp input =>
    simp only [apply, startOrQueue, Option.isSome_iff_ne_none.mpr hactive, if_true, countedEffects]
    exact Free.pays (.same rfl rfl)
  | startNextQueuedRun =>
    have hempty : a.state.queuedInputs = [] := by
      cases hqueue : a.state.queuedInputs with
      | nil => rfl
      | cons input rest => simp [startInput, hqueue] at hsame
    simp only [apply, startNextQueuedRun, hempty, countedEffects]
    exact (Free.refl a).pays
  | backendEvent runId event => exact a.pays_backendEvent runId event
  | toolCompleted callId result => exact a.pays_toolCompleted callId result
  | toolFailed callId error => exact a.pays_toolFailed callId error
  | permissionResolved id decision => exact a.pays_permissionResolved id decision
  | spawnChild spec => exact Free.pays (.single rfl rfl rfl)
  | childSpawned agentId awaiting => exact (a.free_childSpawned agentId awaiting).pays
  | childCompleted agentId result =>
    have hcounted : Free a [] (a.withUsage { a.usage with
      childUsage := a.usage.childUsage.insert agentId result.usage }) := .same rfl rfl
    exact (free_childDone agentId .success hcounted).pays
  | childFailed agentId error =>
    have hnoted : Free a [] (a.withLastError (some error)) := .same rfl rfl
    exact (free_childDone agentId .failed hnoted).pays
  | cancel => exact a.free_cancel.pays
  | pause => exact a.free_pause.pays
  | resume => exact a.free_resume.pays
  | configureExecution params => exact Free.pays (.same rfl rfl)
  | setBehaviorProfile profile library allowCommands =>
    have hactive' : (a.withBehavior (a.state.behavior.withCommandsTrusted allowCommands)).state.activeRun.isSome = true :=
      Option.isSome_iff_ne_none.mpr hactive
    simp only [apply, setBehaviorProfile, countedEffects]
    split
    · exact Free.pays (.same rfl rfl)
    · rw [if_pos hactive']
      exact Free.pays (.same rfl rfl)
  | completionEvaluated runId attempt verdicts usage => exact pays_completionEvaluated hactive runId attempt verdicts usage

def countedOutput (a : Agent) (cs : List AgentCommand) : List AgentEffect :=
  (machine.trace a cs).flatMap fun st => countedEffects st.input st.out

def WithinRun (a : Agent) (cs : List AgentCommand) : Prop :=
  ∀ st ∈ machine.trace a cs, st.pre.state.activeRun ≠ none ∧ st.pre.startInput st.input = none

theorem pays_run {cs : List AgentCommand} (hwithin : a.WithinRun cs) :
    Pays a (charges (a.countedOutput cs)) (machine.run a cs) := by
  induction cs generalizing a with
  | nil => exact (Free.refl a).pays
  | cons c cs ih =>
    unfold WithinRun at hwithin
    rw [Machine.trace_cons, forall_mem_cons] at hwithin
    obtain ⟨⟨hactive, hsame⟩, hrest⟩ := hwithin
    exact (pays_apply hactive hsame).append (ih hrest)

theorem pays_beginRun (a : Agent) (input : UserInput) :
    Pays (a.openRun input).1 (charges (a.beginRun input).2) (a.beginRun input).1 := by
  have hrules := free_runRules (a.openRun input).1 .runStart none none
  have hactive : ((a.openRun input).1.runRules .runStart none none).1.state.activeRun ≠ none := by
    have hkept := ((a.openRun input).1.quiet_runRules .runStart none none).activeRun
    have hopened : (a.openRun input).1.state.activeRun = some (a.openRun input).2 := rfl
    simp [hkept, hopened]
  have hprepares := prepares_beginTurn hactive
  unfold beginRun
  dsimp only
  split
  · rename_i stop hstop
    exact (hrules.trans (free_behaviorStop _ stop)).pays
  · split
    · rename_i b failure hb
      rw [hb] at hprepares
      exact hrules.then_ (hprepares.error failure rfl)
    · rename_i b turnEffects hb
      rw [hb] at hprepares
      have hturn := hrules.pays.trans (hprepares.ok turnEffects rfl)
      have hissued := hturn.trans (free_buildRequest b (a.openRun input).2 false).pays
      rw [charges_of_free (free_buildRequest b (a.openRun input).2 false).free, Spending.add_nothing] at hissued
      rw [charges_append, charges_append, Spending.add_assoc]
      exact hissued

theorem meter_openRun (a : Agent) (input : UserInput) :
    (a.openRun input).1.meter = ⟨a.state.behavior.profile, 0, 0, false, 0, 0, 0⟩ := rfl

/-- What counts of the run that a command starts: the effects of the command once the run is open, and of the
    commands after it. -/
def runEffects (m : Agent) (input : UserInput) (cs : List AgentCommand) : List AgentEffect :=
  (m.takePendingSwitch.1.beginRun input).2 ++ (m.startRun input).1.countedOutput cs

/-- Every run is bounded. It switches profiles at most `maxSwitchesPerRun + 1` times, the switch that the start
    of another run makes before the run is given up included. As long as it does not switch, it makes at most as
    many model requests as its profile allows turns, and the grace of the final turn; it admits at most as many
    tool calls as its profile allows; and the gate sends no more answers back than it has continuations. -/
theorem run_is_bounded {a m : Agent} {c : AgentCommand} {input : UserInput}
    (hstart : a.startInput c = some (m, input)) (hvalid : m.acceptsRun input = true) {cs : List AgentCommand}
    (hwithin : (a.apply c).1.WithinRun cs) :
    switchCount (m.runEffects input cs) ≤ maxSwitchesPerRun + 1 ∧
      ((machine.run (a.apply c).1 cs).state.activeRun ≠ none →
        switchCount (m.runEffects input cs ++ (machine.run (a.apply c).1 cs).takePendingSwitch.2) ≤
          maxSwitchesPerRun + 1) ∧
      (switchCount (m.runEffects input cs) = 0 →
        let profile := m.takePendingSwitch.1.state.behavior.profile.profile
        (∀ limit, profile.limits.maxTurns = some limit →
          requestCount (m.runEffects input cs) ≤ limit + finalTurnGrace) ∧
        (∀ limit, profile.limits.maxToolCalls = some limit → admissionCount (m.runEffects input cs) ≤ limit) ∧
        ∀ gate, profile.completionGate = some gate →
          sendBackCount (m.runEffects input cs) ≤ gate.maxContinuations ∧
            (machine.run (a.apply c).1 cs).state.behavior.run.gateContinuations ≤ gate.maxContinuations) := by
  have happly : a.apply c = m.startRun input := apply_of_startInput hstart
  have hbegin : (m.startRun input).1 = (m.takePendingSwitch.1.beginRun input).1 := by
    rw [startRun_of_acceptsRun hvalid]
    rfl
  rw [happly] at hwithin ⊢
  have hpays : Pays (m.takePendingSwitch.1.openRun input).1 (charges (m.runEffects input cs))
      (machine.run (m.startRun input).1 cs) := by
    have hfirst := m.takePendingSwitch.1.pays_beginRun input
    rw [← hbegin] at hfirst
    exact hfirst.append (pays_run hwithin)
  have hopened := m.takePendingSwitch.1.meter_openRun input
  have hfit : (m.takePendingSwitch.1.openRun input).1.SwitchesFit := by
    unfold SwitchesFit
    rw [hopened]
    exact ⟨Nat.zero_le _, fun _ => Nat.zero_le _⟩
  refine ⟨?_, fun hactive => ?_, fun hnone => ?_⟩
  · have hswitches := hpays.switches
    rw [hopened] at hswitches
    exact hswitches.trans (hpays.switchesFit hfit).1
  · have hclosed := hpays.append (pays_takePendingSwitch hactive)
    have hswitches := hclosed.switches
    rw [hopened] at hswitches
    exact hswitches.trans (hclosed.switchesFit hfit).1
  · have hmoved := hpays.moved hnone
    rw [hopened] at hmoved
    refine ⟨fun limit hlimit => ?_, fun limit hlimit => ?_, fun gate hgate => ⟨?_, ?_⟩⟩
    · have hrequests := hmoved.requests
      have hpos := CompiledProfile.maxTurns_pos _ hlimit
      obtain ⟨hturns, -, hgrace⟩ := hmoved.turnsFit limit hlimit ⟨Nat.zero_le _, fun _ => hpos, Nat.zero_le _⟩
      simp only [charges] at hrequests
      omega
    · have hadmissions := hmoved.admissions
      exact hadmissions.trans (hmoved.callsFit limit hlimit (Nat.zero_le _))
    · have hsent := hmoved.sendBacks
      exact hsent.trans (hmoved.gateFit gate hgate (Nat.zero_le _))
    · exact hmoved.gateFit gate hgate (Nat.zero_le _)

end Agent

end

namespace Sample

def limitedDefinition : BehaviorProfile where
  schemaVersion := behaviorSchemaVersion
  id := "limited"
  revision := 1
  name := "Limited"
  limits := { maxTurns := some 4, maxToolCalls := some 2 }
  completionGate := some {
    checks := [{ id := "worked", require := some (.turn { gte := some 5 }), feedback := some "Keep working." }]
    maxContinuations := 1 }

def limited : CompiledProfile := ⟨limitedDefinition, contentHash limitedDefinition, by decide, rfl⟩

/-- A tool is called and done, and the answer after it is sent back. -/
def limitedRun : List AgentCommand := [requests 5, fromBackend (.completed ⟨0⟩ ⟨⟨0⟩, {}, {}, "tool_use"⟩),
  .toolCompleted ⟨5⟩ ⟨⟨5⟩, .null, false⟩, fromBackend (.completed ⟨0⟩ ⟨⟨0⟩, {}, {}, "end_turn"⟩)]

end Sample

section

open Sample Agent

set_option maxRecDepth 4096 in
theorem run_is_bounded_prompt : (agent .allow limited).startInput prompt = some (agent .allow limited, ⟨"hello", []⟩) ∧
    (agent .allow limited).acceptsRun ⟨"hello", []⟩ = true ∧ ((agent .allow limited).apply prompt).1.WithinRun limitedRun ∧
    charges ((agent .allow limited).runEffects ⟨"hello", []⟩ limitedRun) = ⟨0, 3, 1, 1⟩ ∧
    switchCount ((agent .allow limited).runEffects ⟨"hello", []⟩ limitedRun) ≤ maxSwitchesPerRun + 1 ∧
    requestCount ((agent .allow limited).runEffects ⟨"hello", []⟩ limitedRun) ≤ 4 + finalTurnGrace ∧
    admissionCount ((agent .allow limited).runEffects ⟨"hello", []⟩ limitedRun) ≤ 2 ∧
    sendBackCount ((agent .allow limited).runEffects ⟨"hello", []⟩ limitedRun) ≤ 1 := by
  have hwithin : ((agent .allow limited).apply prompt).1.WithinRun limitedRun := by
    intro st hst
    simp only [limitedRun, Machine.trace_cons, Machine.trace_nil, mem_cons, not_mem_nil, or_false] at hst
    rcases hst with rfl | rfl | rfl | rfl <;> exact ⟨by decide, rfl⟩
  have hstart : (agent .allow limited).startInput prompt = some (agent .allow limited, ⟨"hello", []⟩) := rfl
  have hspent : charges ((agent .allow limited).runEffects ⟨"hello", []⟩ limitedRun) = ⟨0, 3, 1, 1⟩ := rfl
  obtain ⟨hswitches, -, hrest⟩ := run_is_bounded hstart (by decide) hwithin
  obtain ⟨hturns, hcalls, hgate⟩ := hrest (congrArg Spending.switches hspent)
  exact ⟨hstart, by decide, hwithin, hspent, hswitches, hturns 4 rfl, hcalls 2 rfl, (hgate _ rfl).1⟩

end

end RustyCore
