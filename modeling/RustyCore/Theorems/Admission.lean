import RustyCore.Theorems.Moves

/-! Admitting a tool call: what the checks establish about a call that gets through, and that a refused
    one leaves the pending set again. -/

namespace RustyCore

open Table List

/-- A denial or a stop is the last word of an evaluation. -/
def RuleOutcome.DenialDecides (outcome : RuleOutcome) : Prop :=
  ∀ fired ∈ outcome.fired, fired.action = "deny" → ∃ ruleId reason, outcome.decision = some (.deny ruleId reason)

theorem RuleOutcome.DenialDecides.applyAction {outcome : RuleOutcome} {rule : Rule} (event : RuleEvent) (reference : ProfileRef)
    (h : outcome.DenialDecides) (hopen : outcome.alreadyDecided rule = false) :
    (({ outcome with fired := outcome.fired ++ [⟨rule.id, event, rule.action.name⟩] } : RuleOutcome).applyAction rule event
      reference).DenialDecides := by
  -- the rule that fires now decides itself when it denies; an earlier denial keeps the decision taken
  have hlast : ∀ {fired : FiredRule}, fired ∈ outcome.fired ++ [⟨rule.id, event, rule.action.name⟩] →
      fired.action = "deny" → fired ∈ outcome.fired ∨ rule.action.name = "deny" := by
    intro fired hmem hdeny
    rcases mem_append.mp hmem with hmem | hmem
    · exact .inl hmem
    · rw [mem_singleton.mp hmem] at hdeny
      exact .inr hdeny
  intro fired hmem hdeny
  cases haction : rule.action with
  | deny reason => exact ⟨rule.id, reason, by simp [RuleOutcome.applyAction, haction]⟩
  | ask _ | allow =>
    exfalso
    simp only [RuleOutcome.applyAction, haction] at hmem
    rw [← haction] at hmem
    rcases hlast hmem hdeny with hin | hname
    · obtain ⟨ruleId, reason', hdec⟩ := h fired hin hdeny
      simp [RuleOutcome.alreadyDecided, haction, hdec] at hopen
    · simp [haction, Action.name] at hname
  | rewriteResult replace append =>
    have hname : rule.action.name ≠ "deny" := by simp [haction, Action.name]
    cases replace <;> cases append <;> simp only [RuleOutcome.applyAction, haction] at hmem ⊢ <;>
      (rw [← haction] at hmem; exact h fired ((hlast hmem hdeny).resolve_right hname) hdeny)
  | _ =>
    simp only [RuleOutcome.applyAction, haction] at hmem ⊢
    rw [← haction] at hmem
    rcases hlast hmem hdeny with hin | hname
    · exact h fired hin hdeny
    · simp [haction, Action.name] at hname

variable [Externals]

namespace BehaviorState

theorem evaluateRules_frame (event : RuleEvent) (tool : Option ToolEvent) (reference : ProfileRef) (rules : List Rule)
    (b : BehaviorState) (outcome : RuleOutcome) :
    ∃ fired, (evaluateRules event tool reference rules b outcome).1 = { b with run.fired := fired } := by
  induction rules generalizing b outcome with
  | nil => exact ⟨b.run.fired, rfl⟩
  | cons rule rest ih =>
    simp only [evaluateRules]
    split
    · split
      · exact ⟨_, rfl⟩
      · obtain ⟨fired, h⟩ := ih (b.noteFired rule.id) _
        exact ⟨fired, h⟩
    · exact ih b outcome

/-- An evaluation changes nothing but the counts of its rules. -/
theorem evaluate_frame (b : BehaviorState) (event : RuleEvent) (tool : Option ToolEvent) :
    ∃ fired, (b.evaluate event tool).1 = { b with run.fired := fired } := evaluateRules_frame ..

theorem evaluateRules_denialDecides (event : RuleEvent) (tool : Option ToolEvent) (reference : ProfileRef)
    (rules : List Rule) (b : BehaviorState) (outcome : RuleOutcome) (h : outcome.DenialDecides) :
    (evaluateRules event tool reference rules b outcome).2.DenialDecides := by
  induction rules generalizing b outcome with
  | nil => exact h
  | cons rule rest ih =>
    simp only [evaluateRules]
    split
    · rename_i hfire
      have hopen : outcome.alreadyDecided rule = false := by
        simp only [ruleMayFire, Bool.and_eq_true, Bool.not_eq_true'] at hfire
        exact hfire.2
      have hnext := h.applyAction event reference hopen
      split
      · exact hnext
      · exact ih _ _ hnext
    · exact ih b outcome h

theorem evaluate_denialDecides (b : BehaviorState) (event : RuleEvent) (tool : Option ToolEvent) :
    (b.evaluate event tool).2.DenialDecides :=
  evaluateRules_denialDecides _ _ _ _ _ _ fun _ hmem => by cases hmem

end BehaviorState

/-- The profile and the counters that admission and the gate read are the same. -/
structure Steady (b b' : BehaviorState) : Prop where
  profile : b'.profile = b.profile
  toolCalls : b'.run.toolCalls = b.run.toolCalls
  finalTurn : b'.run.finalTurn = b.run.finalTurn
  gateAttempts : b'.run.gateAttempts = b.run.gateAttempts
  gateContinuations : b'.run.gateContinuations = b.run.gateContinuations

namespace Steady

variable {b b' b'' : BehaviorState}

theorem refl (b : BehaviorState) : Steady b b := ⟨rfl, rfl, rfl, rfl, rfl⟩

theorem trans (h : Steady b b') (h' : Steady b' b'') : Steady b b'' :=
  ⟨h'.profile.trans h.profile, h'.toolCalls.trans h.toolCalls, h'.finalTurn.trans h.finalTurn,
    h'.gateAttempts.trans h.gateAttempts, h'.gateContinuations.trans h.gateContinuations⟩

theorem overBudget (h : Steady b b') : b'.overBudget = b.overBudget := by
  simp only [BehaviorState.overBudget, h.profile, h.toolCalls]

end Steady

namespace Agent

theorem steady_placeInjections (injections : List Injection) (callId : Option ToolCallId) (a : Agent) :
    Steady a.state.behavior
      (injections.foldl (fun a injection => a.placeInjection injection callId) a).state.behavior := by
  induction injections generalizing a with
  | nil => exact Steady.refl _
  | cons injection rest ih =>
    refine Steady.trans ?_ (ih (a.placeInjection injection callId))
    unfold placeInjection
    split
    · exact ⟨rfl, rfl, rfl, rfl, rfl⟩
    · split <;> exact Steady.refl _
    · exact ⟨rfl, rfl, rfl, rfl, rfl⟩

theorem requestSwitch_behavior (a : Agent) (outcome : RuleOutcome) :
    (a.requestSwitch outcome).state.behavior = a.state.behavior := by
  unfold requestSwitch
  split
  · rfl
  · split <;> rfl

theorem steady_runRules (a : Agent) (event : RuleEvent) (tool : Option ToolEvent) (callId : Option ToolCallId) :
    Steady a.state.behavior (a.runRules event tool callId).1.state.behavior := by
  have hevaluated : Steady a.state.behavior (a.state.behavior.evaluate event tool).1 := by
    obtain ⟨fired, h⟩ := a.state.behavior.evaluate_frame event tool
    rw [h]
    exact ⟨rfl, rfl, rfl, rfl, rfl⟩
  refine hevaluated.trans ?_
  simp only [runRules, applyRuleOutcome, requestSwitch_behavior]
  exact steady_placeInjections _ callId (a.withBehavior (a.state.behavior.evaluate event tool).1)

end Agent

namespace Agent

theorem forgetCall_control (a : Agent) (callId : ToolCallId) : (a.forgetCall callId).control =
    { a.control with
      pendingTools := a.state.pendingTools.erase callId
      pendingPermissions := Table.retain (fun _ id => id != callId) a.state.pendingPermissions } := rfl

theorem aligned_forgetCall (a : Agent) (callId : ToolCallId) : Aligned a (a.forgetCall callId) :=
  ⟨rfl, rfl, rfl, rfl, fun h => ⟨le_refl _, h⟩⟩

variable {callId : ToolCallId}

theorem kept_forgetCall {a m : Agent} (h : Aligned a m)
    (herase : m.state.pendingTools.erase callId = a.state.pendingTools.erase callId)
    (hcontrol : m.control = { a.control with pendingTools := m.state.pendingTools }) :
    Kept (a.forgetCall callId) (m.forgetCall callId) := by
  refine ⟨⟨h.id, h.sessionId, h.parentId, h.capabilities, h.sequence⟩, ?_⟩
  have hpermissions : m.state.pendingPermissions = a.state.pendingPermissions :=
    congrArg Control.pendingPermissions hcontrol
  rw [forgetCall_control, forgetCall_control, hcontrol, herase, hpermissions]

theorem kept_forgetCall_of_kept {a m : Agent} (h : Kept a m) (callId : ToolCallId) :
    Kept (a.forgetCall callId) (m.forgetCall callId) :=
  kept_forgetCall h.toAligned (by rw [h.pendingTools]) (by rw [h.control, h.pendingTools]; rfl)

theorem goes_denyTool {a : Agent} (ruleId : Option String) (reason : String)
    (hpending : a.IsPending callId) :
    Goes (a.forgetCall callId) (a.denyTool callId ruleId reason).2 (a.denyTool callId ruleId reason).1 :=
  .after ((Kept.refl (a.forgetCall callId)).emit rfl) (goes_toolFailed hpending rfl)

def requestOutcome (a : Agent) (call : ToolCall) : RuleOutcome :=
  ((a.state.behavior.noteToolRequest call).evaluate .preToolUse (some ⟨call, none⟩)).2

def effectiveMode (a : Agent) (call : ToolCall) (session : PermissionMode) : PermissionMode :=
  decidedMode (a.state.behavior.profile.permission call.name session) (a.requestOutcome call).decision

def approvalOf : PermissionMode → Option Approval
  | .allow => some .allow
  | .ask => some .ask
  | .deny => none

/-- The checks of a call that is admitted: the session offers the tool, enabled, with a permission; the
    profile has it in scope; no rule that fired on the request denied it or stopped the run; the effective
    mode is the approval given; the run is neither out of tool calls nor on its final turn. -/
structure Authorized (a : Agent) (call : ToolCall) (approval : Approval) : Prop where
  granted : ∃ capability, a.sessionCapability call.name = some capability ∧
    approvalOf (a.effectiveMode call capability.policy.permission) = some approval
  scope : a.state.behavior.profile.allowsTool call.name = true
  undenied : ∀ fired ∈ (a.requestOutcome call).fired, fired.action ≠ "deny"
  unstopped : (a.requestOutcome call).stop = none
  budget : a.state.behavior.overBudget = false
  notFinal : a.state.behavior.run.finalTurn = false

/-- The state an admitted call is in: pending with the arguments it will run with, everything else in the
    control part as it was. -/
structure Admitted (a : Agent) (call call' : ToolCall) (m : Agent) : Prop where
  aligned : Aligned a m
  control : m.control = { a.control with pendingTools := m.state.pendingTools }
  pending : ∃ p, m.state.pendingTools.lookup call.id = some p ∧ p.call = call'
  others : ∀ id, id ≠ call.id → m.state.pendingTools.lookup id = a.state.pendingTools.lookup id
  sameId : call'.id = call.id
  rewritten : call' = rewritten call (a.requestOutcome call)

variable {call : ToolCall} {outcome : RuleOutcome}

omit [Externals] in
theorem rewritten_of_isEmpty (h : outcome.rewriteArgs.isEmpty = true) :
    Agent.rewritten call outcome = call := by
  rw [List.isEmpty_iff] at h
  simp [Agent.rewritten, h]

theorem quiet_requestRules (a : Agent) (call : ToolCall) :
    Quiet a ((a.withBehavior (a.state.behavior.noteToolRequest call)).runRules .preToolUse (some ⟨call, none⟩)
        (some call.id)).2.1
      ((a.withBehavior (a.state.behavior.noteToolRequest call)).runRules .preToolUse (some ⟨call, none⟩)
        (some call.id)).1 :=
  (a.kept_behavior _).quiet.trans (quiet_runRules _ _ _ _)

theorem evaluateRequestRules_ok {a b : Agent} {es : List AgentEffect}
    (h : a.evaluateRequestRules call = (b, es, .ok outcome)) :
    Quiet a es b ∧ Steady a.state.behavior b.state.behavior ∧ outcome = a.requestOutcome call ∧ outcome.stop = none := by
  have hquiet := a.quiet_requestRules call
  have hnoted : Steady a.state.behavior (a.state.behavior.noteToolRequest call) := ⟨rfl, rfl, rfl, rfl, rfl⟩
  have hsteady := hnoted.trans (steady_runRules (a.withBehavior (a.state.behavior.noteToolRequest call)) .preToolUse
    (some ⟨call, none⟩) (some call.id))
  unfold evaluateRequestRules at h
  dsimp only at h
  split at h
  · rename_i hstop
    simp only [Prod.mk.injEq, Except.ok.injEq] at h
    obtain ⟨rfl, rfl, rfl⟩ := h
    exact ⟨hquiet, hsteady, rfl, hstop⟩
  · simp at h

/-- How a call is refused: it is denied, or the run ends. -/
inductive Refuses : Bool → Agent → List AgentEffect → Agent → Prop
  | denied {a b es} (h : Goes a es b) : Refuses false a es b
  | stopped {a b es} (h : Goes a es b) (code message : String) :
      Refuses true a (es ++ (b.fail code message).2) (b.fail code message).1

namespace Refuses

variable {stopped : Bool} {a b c : Agent} {es fs : List AgentEffect}

theorem after (h : Quiet a es b) (h' : Refuses stopped b fs c) : Refuses stopped a (es ++ fs) c := by
  cases h' with
  | denied h' => exact .denied (.after h h')
  | stopped h' code message =>
    rw [← append_assoc]
    exact .stopped (.after h h') code message

theorem no_tool (h : Refuses stopped a es b) : toolRequests es = [] ∧ permissionRequests es = [] := by
  cases h with
  | denied h => exact h.moves.no_tool
  | stopped h => simp [h.moves.no_tool.1, h.moves.no_tool.2]

theorem status (h : Refuses stopped a es b) :
    b.state.status = a.state.status ∨ b.state.status = .failed ∨ b.state.status = .waitingForBackend := by
  cases h with
  | denied h => exact h.moves.status
  | stopped => exact .inr (.inl rfl)

end Refuses

/-- A rule stops the run at this call. -/
def stopsRequest (a : Agent) (call : ToolCall) : Bool :=
  (a.sessionCapability call.name).isSome && a.state.behavior.profile.allowsTool call.name &&
    (a.requestOutcome call).stop.isSome

theorem evaluateRequestRules_error {a b : Agent} {es refusal : List AgentEffect}
    (hpending : a.IsPending call.id) (h : a.evaluateRequestRules call = (b, es, .error refusal)) :
    Notices es ∧ Refuses true (a.forgetCall call.id) refusal b ∧ (a.requestOutcome call).stop.isSome = true := by
  have hquiet := a.quiet_requestRules call
  unfold evaluateRequestRules at h
  dsimp only at h
  split at h
  · simp at h
  · rename_i stop hstop
    simp only [Prod.mk.injEq, Except.error.injEq] at h
    obtain ⟨rfl, rfl, rfl⟩ := h
    have hpending' : ((a.withBehavior (a.state.behavior.noteToolRequest call)).runRules .preToolUse
        (some ⟨call, none⟩) (some call.id)).1.IsPending call.id := by
      unfold IsPending
      rw [hquiet.pendingTools]
      exact hpending
    refine ⟨hquiet.notices, ?_, Option.isSome_iff_exists.mpr ⟨stop, hstop⟩⟩
    exact .stopped (.keep (kept_forgetCall_of_kept hquiet.toKept call.id) (goes_denyTool _ _ hpending')) _ _

theorem approvalFor_ok {a b : Agent} {mode : PermissionMode}
    {approval : Approval} (h : a.approvalFor call mode outcome = (b, .ok approval)) :
    b = a ∧ (∀ ruleId reason, outcome.decision ≠ some (.deny ruleId reason)) ∧
      approvalOf (decidedMode (a.state.behavior.profile.permission call.name mode) outcome.decision) = some approval := by
  unfold approvalFor at h
  dsimp only at h
  split at h
  · simp at h
  · rename_i hdecision
    split at h
    · rename_i hmode
      simp only [Prod.mk.injEq, Except.ok.injEq] at h
      obtain ⟨rfl, rfl⟩ := h
      exact ⟨rfl, hdecision, by rw [hmode]; rfl⟩
    · rename_i hmode
      simp only [Prod.mk.injEq, Except.ok.injEq] at h
      obtain ⟨rfl, rfl⟩ := h
      exact ⟨rfl, hdecision, by rw [hmode]; rfl⟩
    · simp at h

theorem approvalFor_error {a b : Agent} {mode : PermissionMode}
    {refusal : List AgentEffect} (hpending : a.IsPending call.id)
    (h : a.approvalFor call mode outcome = (b, .error refusal)) : Goes (a.forgetCall call.id) refusal b := by
  unfold approvalFor at h
  dsimp only at h
  split at h
  · simp only [Prod.mk.injEq, Except.error.injEq] at h
    obtain ⟨rfl, rfl⟩ := h
    exact goes_denyTool _ _ hpending
  · split at h
    · simp at h
    · simp at h
    · simp only [Prod.mk.injEq, Except.error.injEq] at h
      obtain ⟨rfl, rfl⟩ := h
      split
      · exact goes_toolFailed hpending rfl
      · exact goes_denyTool _ _ hpending

theorem rewriteArguments_spec {a : Agent} {p : PendingToolCall} (outcome : RuleOutcome)
    (hp : a.state.pendingTools.lookup call.id = some p) (hcall : p.call = call) :
    Aligned a (a.rewriteArguments call outcome).1 ∧
      (a.rewriteArguments call outcome).1.control =
        { a.control with pendingTools := (a.rewriteArguments call outcome).1.state.pendingTools } ∧
      (∃ q, (a.rewriteArguments call outcome).1.state.pendingTools.lookup call.id = some q ∧
        q.call = (a.rewriteArguments call outcome).2) ∧
      (∀ id, id ≠ call.id →
        (a.rewriteArguments call outcome).1.state.pendingTools.lookup id = a.state.pendingTools.lookup id) ∧
      (a.rewriteArguments call outcome).1.state.pendingTools.erase call.id = a.state.pendingTools.erase call.id ∧
      (a.rewriteArguments call outcome).2 = rewritten call outcome ∧
      Steady a.state.behavior (a.rewriteArguments call outcome).1.state.behavior := by
  unfold rewriteArguments
  split
  · rename_i hempty
    exact ⟨Aligned.refl a, rfl, ⟨p, hp, hcall⟩, fun _ _ => rfl, rfl, (rewritten_of_isEmpty hempty).symm, Steady.refl _⟩
  · have hpatch : a.patchPending (rewritten call outcome) = a.withPendingTools (a.state.pendingTools.insert call.id
        { p with call.arguments := (rewritten call outcome).arguments }) := by
      unfold patchPending
      rw [show (rewritten call outcome).id = call.id from rfl, hp]
    simp only [hpatch]
    refine ⟨⟨rfl, rfl, rfl, rfl, fun h => ⟨le_refl _, h⟩⟩, rfl, ⟨_, lookup_insert_self, ?_⟩, ?_, ?_, trivial,
      ⟨rfl, rfl, rfl, rfl, rfl⟩⟩
    · simp only [hcall]
      rfl
    · intro id hne
      exact lookup_insert_ne hne
    · exact erase_insert

theorem requireToolBudget_ok {a b : Agent} (h : a.requireToolBudget callId = (b, .ok ())) :
    Kept a b ∧ a.state.behavior.overBudget = false ∧ a.state.behavior.run.finalTurn = false := by
  unfold requireToolBudget at h
  split at h
  · rename_i behavior hadmit
    simp only [Prod.mk.injEq, and_true] at h
    subst h
    unfold BehaviorState.admitToolCall at hadmit
    split at hadmit
    · simp at hadmit
    · rename_i hopen
      simp only [Bool.or_eq_true, not_or, Bool.not_eq_true] at hopen
      exact ⟨a.kept_behavior _, hopen.2, hopen.1⟩
  · simp at h

theorem requireToolBudget_error {a b : Agent} {refusal : List AgentEffect}
    (hpending : a.IsPending callId) (h : a.requireToolBudget callId = (b, .error refusal)) :
    Goes (a.forgetCall callId) refusal b := by
  unfold requireToolBudget at h
  split at h
  · simp at h
  · rename_i behavior hadmit
    simp only [Prod.mk.injEq, Except.error.injEq] at h
    obtain ⟨rfl, rfl⟩ := h
    exact .keep (kept_forgetCall_of_kept (a.kept_behavior behavior) callId) (goes_denyTool _ _ hpending)

/-- All checks of a call: it is refused, or admitted. -/
theorem admitToolCall_cases {a : Agent} {p : PendingToolCall}
    (hp : a.state.pendingTools.lookup call.id = some p) (hcall : p.call = call) :
    (∃ b es refusal, a.admitToolCall call = (b, es, .error refusal) ∧ Notices es ∧
        Refuses (a.stopsRequest call) (a.forgetCall call.id) refusal b) ∨
      ∃ b es call' approval, a.admitToolCall call = (b, es, .ok (call', approval)) ∧ Notices es ∧
        Authorized a call approval ∧ Admitted a call call' b := by
  have hpending : a.IsPending call.id := by simp [IsPending, hp]
  have hdenied : ∀ {refusal b}, a.stopsRequest call = false → Goes (a.forgetCall call.id) refusal b →
      Refuses (a.stopsRequest call) (a.forgetCall call.id) refusal b := by
    intro refusal b hgo hgoes
    rw [hgo]
    exact .denied hgoes
  unfold admitToolCall
  unfold sessionPermission
  cases hcap : a.sessionCapability call.name with
  | none =>
    exact .inl ⟨_, _, _, rfl, Notices.nil, hdenied (by simp [stopsRequest, hcap]) (goes_toolFailed hpending rfl)⟩
  | some capability =>
    dsimp only
    unfold requireProfileScope
    by_cases hscope : a.state.behavior.profile.allowsTool call.name = true
    swap
    · simp only [hscope]
      exact .inl ⟨_, _, _, rfl, Notices.nil, hdenied (by simp [stopsRequest, hscope]) (goes_denyTool _ _ hpending)⟩
    simp only [hscope, if_true]
    rcases hrules : a.evaluateRequestRules call with ⟨b, es, refusal | outcome⟩
    · obtain ⟨hes, hrefuses, hstop⟩ := evaluateRequestRules_error hpending hrules
      refine .inl ⟨_, _, _, rfl, hes, ?_⟩
      rw [show a.stopsRequest call = true by simp [stopsRequest, hcap, hscope, hstop]]
      exact hrefuses
    · obtain ⟨hquiet, hsteady, houtcome, hstop⟩ := evaluateRequestRules_ok hrules
      have hgo : a.stopsRequest call = false := by
        rw [houtcome] at hstop
        simp [stopsRequest, hstop]
      have hpending' : b.IsPending call.id := by
        unfold IsPending
        rw [hquiet.pendingTools]
        exact hpending
      have hkept := kept_forgetCall_of_kept hquiet.toKept call.id
      dsimp only
      rcases happroval : b.approvalFor call capability.policy.permission outcome with ⟨c, refusal | approval⟩
      · exact .inl ⟨_, _, _, rfl, hquiet.notices, hdenied hgo (.keep hkept (approvalFor_error hpending' happroval))⟩
      · obtain ⟨rfl, hundenied, hmode⟩ := approvalFor_ok happroval
        dsimp only
        have hpc : c.state.pendingTools.lookup call.id = some p := by
          rw [hquiet.pendingTools]
          exact hp
        obtain ⟨haligned, hcontrol, hentry, hothers, herase, hcall', hsteady'⟩ :=
          rewriteArguments_spec outcome hpc hcall
        have hsame : (c.rewriteArguments call outcome).2.id = call.id := by
          rw [hcall']
          rfl
        rw [hsame]
        rcases hbudget : (c.rewriteArguments call outcome).1.requireToolBudget call.id with ⟨d, refusal | ⟨⟩⟩
        · refine .inl ⟨_, _, _, rfl, hquiet.notices, hdenied hgo ?_⟩
          refine .keep (hkept.trans (kept_forgetCall haligned herase hcontrol)) (requireToolBudget_error ?_ hbudget)
          obtain ⟨q, hq, -⟩ := hentry
          simp [IsPending, hq]
        · obtain ⟨hd, hover, hfinal⟩ := requireToolBudget_ok hbudget
          refine .inr ⟨d, es, _, approval, rfl, hquiet.notices, ?_, ?_⟩
          · refine ⟨⟨capability, hcap, ?_⟩, hscope, ?_, houtcome ▸ hstop, ?_, ?_⟩
            · rw [hsteady.profile, houtcome] at hmode
              exact hmode
            · intro fired hmem hdeny
              obtain ⟨ruleId, reason, hdec⟩ := BehaviorState.evaluate_denialDecides _ _ _ fired hmem hdeny
              rw [houtcome] at hundenied
              exact hundenied ruleId reason hdec
            · rw [← (hsteady.trans hsteady').overBudget]
              exact hover
            · rw [← (hsteady.trans hsteady').finalTurn]
              exact hfinal
          · refine ⟨(hquiet.toAligned.trans haligned).trans hd.toAligned, ?_, ?_, ?_, hsame, ?_⟩
            · rw [hd.control, hcontrol, hquiet.control, hd.pendingTools]
            · rw [hd.pendingTools]
              exact hentry
            · intro id hne
              rw [hd.pendingTools, hothers id hne, hquiet.pendingTools]
            · rw [hcall', houtcome]

theorem pushToolUse_behavior (a : Agent) (call : ToolCall) :
    (a.pushToolUse call).1.state.behavior = a.state.behavior := by
  unfold pushToolUse
  split
  · split <;> rfl
  · rfl

theorem recordToolRequest_behavior (a : Agent) (call : ToolCall) :
    (a.recordToolRequest call).1.state.behavior = a.state.behavior := a.pushToolUse_behavior call

theorem recordToolRequest_spec (a : Agent) (call : ToolCall) :
    Aligned a (a.recordToolRequest call).1 ∧
      ∃ startedAt, (a.recordToolRequest call).1.control =
        { a.control with pendingTools := a.state.pendingTools.insert call.id ⟨call, startedAt⟩ } := by
  have h := (a.kept_pushToolUse call).trans (kept_nextTimestamp _)
  refine ⟨⟨h.id, h.sessionId, h.parentId, h.capabilities, h.sequence⟩, (a.pushToolUse call).1.nextTimestamp.2, ?_⟩
  have hinserted : (a.recordToolRequest call).1.control =
      { (a.pushToolUse call).1.nextTimestamp.1.control with
        pendingTools := (a.pushToolUse call).1.nextTimestamp.1.state.pendingTools.insert call.id
          ⟨call, (a.pushToolUse call).1.nextTimestamp.2⟩ } := rfl
  rw [hinserted, h.control, h.pendingTools]

theorem Authorized.of_eq {a b : Agent} {approval : Approval} (h : Authorized b call approval)
    (hcap : b.capabilities = a.capabilities) (hbehavior : b.state.behavior = a.state.behavior) :
    Authorized a call approval := by
  obtain ⟨⟨capability, hfound, hmode⟩, hscope, hundenied, hunstopped, hbudget, hfinal⟩ := h
  refine ⟨⟨capability, ?_, ?_⟩, ?_, ?_, ?_, ?_, ?_⟩
  · simpa only [sessionCapability, hcap] using hfound
  · simpa only [effectiveMode, requestOutcome, hbehavior] using hmode
  · simpa only [hbehavior] using hscope
  · simpa only [requestOutcome, hbehavior] using hundenied
  · simpa only [requestOutcome, hbehavior] using hunstopped
  · simpa only [hbehavior] using hbudget
  · simpa only [hbehavior] using hfinal

theorem stopsRequest_of_eq {a b : Agent} (call : ToolCall) (hcap : b.capabilities = a.capabilities)
    (hbehavior : b.state.behavior = a.state.behavior) : b.stopsRequest call = a.stopsRequest call := by
  simp only [stopsRequest, sessionCapability, requestOutcome, hcap, hbehavior]

/-- A requested call is refused, or admitted and then executed or asked about. -/
theorem toolRequested_cases (a : Agent) (call : ToolCall) :
    Refuses (a.stopsRequest call) (a.forgetCall call.id) (a.toolRequested call).2 (a.toolRequested call).1 ∨
      ∃ call' m es, Admitted a call call' m ∧ Notices es ∧
        (Authorized a call .allow ∧ a.toolRequested call =
            andThen (m, es) (fun m => m.executeNow a.state.status call') ∨
          Authorized a call .ask ∧ a.toolRequested call =
            andThen (m, es) (fun m => m.askPermission a.state.status call')) := by
  obtain ⟨haligned, startedAt, hcontrol⟩ := a.recordToolRequest_spec call
  have htools : (a.recordToolRequest call).1.state.pendingTools =
      a.state.pendingTools.insert call.id ⟨call, startedAt⟩ := congrArg Control.pendingTools hcontrol
  have hp : (a.recordToolRequest call).1.state.pendingTools.lookup call.id = some ⟨call, startedAt⟩ := by
    rw [htools]
    exact lookup_insert_self
  have hnotice : Notices (a.recordToolRequest call).2 := Notices.single rfl
  have hforget : Kept (a.forgetCall call.id) ((a.recordToolRequest call).1.forgetCall call.id) :=
    kept_forgetCall haligned (by rw [htools, erase_insert]) (by rw [htools]; exact hcontrol)
  unfold toolRequested
  rcases admitToolCall_cases hp rfl with ⟨b, es, refusal, hadmit, hes, hmoves⟩ |
    ⟨b, es, call', approval, hadmit, hes, hauthorized, hadmitted⟩
  · left
    rw [stopsRequest_of_eq call haligned.capabilities (a.recordToolRequest_behavior call)] at hmoves
    simp only [andThen, hadmit]
    exact .after ⟨hforget, hnotice⟩ (.after ⟨Kept.refl _, hes⟩ hmoves)
  · right
    refine ⟨call', b, (a.recordToolRequest call).2 ++ es, ?_, hnotice.append hes, ?_⟩
    · obtain ⟨hal, hctl, hpend, hothers, hid, hrew⟩ := hadmitted
      refine ⟨haligned.trans hal, ?_, hpend, ?_, hid, ?_⟩
      · rw [hctl, hcontrol]
      · intro id hne
        rw [hothers id hne, htools, lookup_insert_ne hne]
      · rw [hrew]
        simp only [requestOutcome, recordToolRequest_behavior]
    · have hauth := hauthorized.of_eq haligned.capabilities (a.recordToolRequest_behavior call)
      cases approval with
      | allow =>
        refine .inl ⟨hauth, ?_⟩
        simp only [andThen, hadmit, startAdmittedCall, append_assoc]
      | ask =>
        refine .inr ⟨hauth, ?_⟩
        simp only [andThen, hadmit, startAdmittedCall, append_assoc]

end Agent

end RustyCore
