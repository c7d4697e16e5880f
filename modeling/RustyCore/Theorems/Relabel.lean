import RustyCore.Agent.Apply

/-! An agent over other libraries. A library is only asked to resolve a target, so an agent that holds other libraries
    which resolve alike takes every command alike. The profile that a switch came from is in the counters only while
    the rules for it are evaluated, so it is the same with an agent whose counters have lost it. -/

namespace RustyCore

open List

open Compiler Rules

theorem checkCondition_of_gate {path : String} {condition : Condition} (h : checkGateCondition path condition = []) :
    checkCondition .beforeModelRequest path condition = [] := by
  rw [checkGateCondition.eq_def] at h
  cases condition with
  | turn | calls | turnsSinceCall | sinceLastCall | toolOffered | finalStatus => exact h
  | tool | arg | resultContains | repeatedCall | profileEnteredFrom | all | any | not =>
    exact (append_eq_nil_iff.mp h).2

mutual

/-- Outside the entry of a profile no checked condition reads the profile that a switch came from. -/
theorem holds_enteredFrom {event : RuleEvent} (hevent : event ≠ .profileEntered) (tool : Option ToolEvent)
    (run : RunCounters) (from_ : Option String) : ∀ (condition : Condition) (path : String),
    checkCondition event path condition = [] →
      holds tool { run with enteredFrom := from_ } condition = holds tool run condition
  | .tool _, _, _ | .arg _, _, _ | .resultContains _, _, _ | .turn _, _, _ | .calls _, _, _ | .turnsSinceCall _, _, _
  | .sinceLastCall _, _, _ | .toolOffered _, _, _ | .repeatedCall _, _, _ | .finalStatus _, _, _ => by simp only [holds]
  | .profileEnteredFrom names, path, h => by
    rw [checkCondition, requireEvent, append_eq_nil_iff] at h
    simp [reject, issue, hevent] at h
  | .all conditions, path, h => by
    rw [checkCondition, append_eq_nil_iff] at h
    rw [holds, holds]
    exact allHold_enteredFrom hevent tool run from_ conditions path 0 h.2
  | .any conditions, path, h => by
    rw [checkCondition, append_eq_nil_iff] at h
    rw [holds, holds]
    exact anyHolds_enteredFrom hevent tool run from_ conditions path 0 h.2
  | .not condition, path, h => by
    rw [checkCondition] at h
    rw [holds, holds, holds_enteredFrom hevent tool run from_ condition _ h]

theorem allHold_enteredFrom {event : RuleEvent} (hevent : event ≠ .profileEntered) (tool : Option ToolEvent)
    (run : RunCounters) (from_ : Option String) : ∀ (conditions : List Condition) (path : String) (index : Nat),
    checkConditions event path index conditions = [] →
      allHold tool { run with enteredFrom := from_ } conditions = allHold tool run conditions
  | [], _, _, _ => by rw [allHold, allHold]
  | condition :: rest, path, index, h => by
    rw [checkConditions, append_eq_nil_iff] at h
    rw [allHold, allHold, holds_enteredFrom hevent tool run from_ condition _ h.1,
      allHold_enteredFrom hevent tool run from_ rest path (index + 1) h.2]

theorem anyHolds_enteredFrom {event : RuleEvent} (hevent : event ≠ .profileEntered) (tool : Option ToolEvent)
    (run : RunCounters) (from_ : Option String) : ∀ (conditions : List Condition) (path : String) (index : Nat),
    checkConditions event path index conditions = [] →
      anyHolds tool { run with enteredFrom := from_ } conditions = anyHolds tool run conditions
  | [], _, _, _ => by rw [anyHolds, anyHolds]
  | condition :: rest, path, index, h => by
    rw [checkConditions, append_eq_nil_iff] at h
    rw [anyHolds, anyHolds, holds_enteredFrom hevent tool run from_ condition _ h.1,
      anyHolds_enteredFrom hevent tool run from_ rest path (index + 1) h.2]

end

theorem checkRules_when {seen : List String} {index : Nat} {rules : List Rule} (h : checkRules seen index rules = [])
    {rule : Rule} (hrule : rule ∈ rules) {condition : Condition} (hwhen : rule.when = some condition) :
    ∃ path, checkCondition rule.on path condition = [] := by
  induction rules generalizing seen index with
  | nil => cases hrule
  | cons first rest ih =>
    simp only [checkRules, append_eq_nil_iff] at h
    obtain ⟨⟨⟨-, hcondition⟩, -⟩, hrest⟩ := h
    rcases mem_cons.mp hrule with rfl | hlater
    · rw [hwhen] at hcondition
      exact ⟨_, hcondition⟩
    · exact ih hrest hlater

theorem checkChecks_require {seen : List String} {index : Nat} {checks : List GateCheck}
    (h : checkChecks seen index checks = []) {check : GateCheck} (hcheck : check ∈ checks) {condition : Condition}
    (hrequire : check.require = some condition) : ∃ path, checkCondition .beforeModelRequest path condition = [] := by
  induction checks generalizing seen index with
  | nil => cases hcheck
  | cons first rest ih =>
    simp only [checkChecks, append_eq_nil_iff] at h
    obtain ⟨⟨-, hbody⟩, hrest⟩ := h
    rcases mem_cons.mp hcheck with rfl | hlater
    · rw [checkCheckBody, hrequire] at hbody
      cases hevaluator : check.evaluator with
      | some evaluator => simp [hevaluator, issue] at hbody
      | none =>
        simp only [hevaluator, append_eq_nil_iff] at hbody
        exact ⟨_, checkCondition_of_gate hbody.1⟩
    · exact ih hrest hlater

section

variable [Externals]

namespace CompiledProfile

variable (p : CompiledProfile)

theorem when_checked {rule : Rule} (hrule : rule ∈ p.profile.rules) {condition : Condition}
    (hwhen : rule.when = some condition) : ∃ path, checkCondition rule.on path condition = [] := by
  have hvalid := p.valid
  simp only [Compiler.issues, checkRulesAndChildren, append_eq_nil_iff] at hvalid
  exact checkRules_when hvalid.2.1.1 hrule hwhen

theorem require_checked {gate : CompletionGate} (hgate : p.profile.completionGate = some gate) {check : GateCheck}
    (hcheck : check ∈ gate.checks) {condition : Condition} (hrequire : check.require = some condition) :
    ∃ path, checkCondition .beforeModelRequest path condition = [] := by
  have hvalid := p.valid
  simp only [Compiler.issues, checkRulesAndChildren, append_eq_nil_iff, hgate, checkGate] at hvalid
  exact checkChecks_require hvalid.2.1.2.2 hcheck hrequire

end CompiledProfile

namespace BehaviorState

def relabel (f : ProfileRegistry → ProfileRegistry) (b : BehaviorState) : BehaviorState :=
  { b with library := f b.library, run.enteredFrom := none }

variable {f : ProfileRegistry → ProfileRegistry}

/-- Rules that are matched alike under `g` are evaluated alike under it. -/
theorem evaluateRules_map {g : BehaviorState → BehaviorState} {event : RuleEvent} {tool : Option ToolEvent}
    {reference : ProfileRef} {rules : List Rule} (hnote : ∀ b id, g (noteFired b id) = (g b).noteFired id)
    (hfire : ∀ rule ∈ rules, ∀ b outcome, (g b).ruleMayFire rule tool outcome = b.ruleMayFire rule tool outcome)
    (b : BehaviorState) (outcome : RuleOutcome) :
    evaluateRules event tool reference rules (g b) outcome =
      (evaluateRules event tool reference rules b outcome).map g id := by
  induction rules generalizing b outcome with
  | nil => rfl
  | cons rule rest ih =>
    obtain ⟨hrule, hrest⟩ := forall_mem_cons.mp hfire
    rw [evaluateRules, evaluateRules, hrule b outcome]
    split
    · dsimp only
      rw [← hnote]
      split
      · rfl
      · exact ih hrest _ _
    · exact ih hrest b outcome

theorem ruleMayFire_relabel {event : RuleEvent} (hevent : event ≠ .profileEntered) {p : CompiledProfile} {rule : Rule}
    (hrule : rule ∈ p.profile.rules) (hon : rule.on = event) (tool : Option ToolEvent) (b : BehaviorState)
    (outcome : RuleOutcome) : (b.relabel f).ruleMayFire rule tool outcome = b.ruleMayFire rule tool outcome := by
  have hwhen : rule.when.all (Rules.holds tool (b.relabel f).run) = rule.when.all (Rules.holds tool b.run) := by
    cases hcondition : rule.when with
    | none => rfl
    | some condition =>
      obtain ⟨path, hchecked⟩ := p.when_checked hrule hcondition
      exact holds_enteredFrom (hon ▸ hevent) tool b.run none condition path hchecked
  unfold ruleMayFire
  rw [hwhen]
  rfl

/-- An evaluation does not read the library. -/
theorem evaluate_relabel {event : RuleEvent} (hevent : event ≠ .profileEntered) (b : BehaviorState)
    (tool : Option ToolEvent) :
    (b.relabel f).evaluate event tool = (b.evaluate event tool).map (relabel f) id := by
  refine evaluateRules_map (fun _ _ => rfl) (fun rule hrule b' outcome => ?_) b {}
  obtain ⟨hmem, hon⟩ := mem_filter.mp hrule
  exact ruleMayFire_relabel hevent (p := b.profile) hmem (by simpa using hon) tool b' outcome

theorem evaluateEntered_relabel (b : BehaviorState) (from_ : String) : (b.relabel f).evaluateEntered from_ =
    (b.evaluateEntered from_).map (relabel f) id := by
  have hlibrary := @evaluateRules_map _ (fun b => { b with library := f b.library }) .profileEntered none b.reference
    (b.profile.profile.rules.filter (·.on == .profileEntered)) (fun _ _ => rfl) (fun _ _ _ _ => rfl)
    { b with run.enteredFrom := some from_ } {}
  exact congrArg (fun r : BehaviorState × RuleOutcome => ({ r.1 with run.enteredFrom := none }, r.2)) hlibrary

theorem conditionHolds_relabel (b : BehaviorState) {path : String} {condition : Condition}
    (h : checkCondition .beforeModelRequest path condition = []) :
    (b.relabel f).conditionHolds condition = b.conditionHolds condition :=
  holds_enteredFrom (by simp) none b.run none condition path h

theorem beginTurn_relabel (b : BehaviorState) : (b.relabel f).beginTurn = b.beginTurn.map (relabel f) id := by
  unfold beginTurn
  rw [apply_ite (Prod.map (relabel f) id), apply_ite (Prod.map (relabel f) id), apply_ite (Prod.map (relabel f) id)]
  rfl

theorem admitToolCall_relabel (b : BehaviorState) :
    (b.relabel f).admitToolCall = b.admitToolCall.map (relabel f) id := by
  unfold admitToolCall
  rw [apply_ite (Prod.map (relabel f) id)]
  rfl

end BehaviorState

/-- No agent notices the change of the registries: each resolves as before, and those that a bundle brings stay. -/
structure Unnoticed (f : ProfileRegistry → ProfileRegistry) : Prop where
  resolve : ∀ registry target, (f registry).resolve target = registry.resolve target
  installed : ∀ {profile documents next library}, installBundle profile documents = some (next, library) →
    f library = library

namespace Agent

def relabel (f : ProfileRegistry → ProfileRegistry) (a : Agent) : Agent :=
  { a with
    state.behavior := a.state.behavior.relabel f
    state.pendingProfile := a.state.pendingProfile.map fun pending => (pending.1, f pending.2) }

/-- What an operation does to an agent, done under another library. -/
def carry {α : Type} (f : ProfileRegistry → ProfileRegistry) (r : Agent × α) : Agent × α := (r.1.relabel f, r.2)

variable {f : ProfileRegistry → ProfileRegistry}

theorem carry_ite {α : Type} {c : Prop} [Decidable c] (r r' : Agent × α) :
    carry f (if c then r else r') = if c then carry f r else carry f r' := apply_ite _ _ _ _

/-- Operations that pass on the other library do so one after the other. -/
theorem andThen_relabel {r r' : Agent × List AgentEffect} {next : Agent → Agent × List AgentEffect}
    (hr : r' = carry f r) (hnext : ∀ a, next (relabel f a) = carry f (next a)) :
    andThen r' next = carry f (andThen r next) := by
  rw [hr, andThen, carry, hnext]
  rfl

theorem refuse_relabel {α : Type} {r r' : Agent × List AgentEffect} (hr : r' = carry f r) :
    ((r'.1, .error r'.2) : Agent × Except (List AgentEffect) α) = carry f (r.1, .error r.2) := by
  rw [hr]
  rfl

theorem discardTrailing_relabel (a : Agent) : (a.relabel f).discardTrailingEmptyAssistantMessage =
    a.discardTrailingEmptyAssistantMessage.relabel f := by
  unfold discardTrailingEmptyAssistantMessage
  rw [show (a.relabel f).trailingAssistantMessage = a.trailingAssistantMessage from rfl]
  split <;> rfl

theorem appendAssistantText_relabel (a : Agent) (delta : String) :
    (a.relabel f).appendAssistantText delta = carry f (a.appendAssistantText delta) := by
  unfold appendAssistantText
  rw [show (a.relabel f).trailingAssistantMessage = a.trailingAssistantMessage from rfl]
  dsimp only
  split
  · rfl
  · split
    · rfl
    · split <;> rfl

theorem assistantMessageId_relabel (a : Agent) : (a.relabel f).assistantMessageId = carry f a.assistantMessageId := by
  unfold assistantMessageId
  rw [show (a.relabel f).trailingAssistantMessage = a.trailingAssistantMessage from rfl]
  split <;> rfl

theorem pushToolUse_relabel (a : Agent) (call : ToolCall) :
    (a.relabel f).pushToolUse call = carry f (a.pushToolUse call) := by
  unfold pushToolUse
  rw [show (a.relabel f).trailingAssistantMessage = a.trailingAssistantMessage from rfl]
  split
  · split <;> rfl
  · rfl

theorem fail_relabel (a : Agent) (code message : String) :
    (a.relabel f).fail code message = carry f (a.fail code message) := by
  unfold fail
  rw [discardTrailing_relabel]
  rfl

theorem behaviorStop_relabel (a : Agent) (stop : RuleStop) :
    (a.relabel f).behaviorStop stop = carry f (a.behaviorStop stop) := a.fail_relabel _ _

theorem placeInjection_relabel (a : Agent) (injection : Injection) (callId : Option ToolCallId) :
    (a.relabel f).placeInjection injection callId = (a.placeInjection injection callId).relabel f := by
  unfold placeInjection
  rw [show (a.relabel f).state.messages = a.state.messages from rfl]
  split
  · rfl
  · split <;> rfl
  · rfl

theorem placeInjections_relabel (injections : List Injection) (callId : Option ToolCallId) (a : Agent) :
    injections.foldl (fun a injection => a.placeInjection injection callId) (a.relabel f) =
      (injections.foldl (fun a injection => a.placeInjection injection callId) a).relabel f := by
  induction injections generalizing a with
  | nil => rfl
  | cons injection rest ih => rw [foldl_cons, foldl_cons, placeInjection_relabel, ih]

/-- The one operation that resolves a target: here the registries have to resolve alike. -/
theorem requestSwitch_relabel (hf : Unnoticed f) (a : Agent) (outcome : RuleOutcome) :
    (a.relabel f).requestSwitch outcome = (a.requestSwitch outcome).relabel f := by
  unfold requestSwitch
  have hresolve (target : ProfileRef) :
      (a.relabel f).state.behavior.resolveSwitch target = a.state.behavior.resolveSwitch target :=
    congrArg Except.toOption (hf.resolve a.state.behavior.library target)
  split
  · rfl
  · rw [hresolve]
    split <;> rfl

theorem applyRuleOutcome_relabel (hf : Unnoticed f) (a : Agent) (outcome : RuleOutcome) (callId : Option ToolCallId) :
    (a.relabel f).applyRuleOutcome outcome callId = carry f (a.applyRuleOutcome outcome callId) := by
  unfold applyRuleOutcome
  dsimp only
  rw [placeInjections_relabel, requestSwitch_relabel hf]
  rfl

theorem runRules_relabel (hf : Unnoticed f) {event : RuleEvent} (hevent : event ≠ .profileEntered) (a : Agent)
    (tool : Option ToolEvent) (callId : Option ToolCallId) :
    (a.relabel f).runRules event tool callId = carry f (a.runRules event tool callId) := by
  have hevaluate := BehaviorState.evaluate_relabel (f := f) hevent a.state.behavior tool
  unfold runRules
  rw [show (a.relabel f).state.behavior = a.state.behavior.relabel f from rfl, hevaluate]
  have happly := applyRuleOutcome_relabel hf (a.withBehavior (a.state.behavior.evaluate event tool).1)
    (a.state.behavior.evaluate event tool).2 callId
  exact congrArg (fun r : Agent × List AgentEffect => (r.1, r.2, (a.state.behavior.evaluate event tool).2)) happly

theorem applySwitch_relabel (a : Agent) (profile : CompiledProfile) (library : ProfileRegistry) :
    (a.relabel f).applySwitch profile (f library) = carry f (a.applySwitch profile library) := by
  unfold applySwitch
  dsimp only
  rw [carry_ite, carry_ite]
  exact if_congr Iff.rfl rfl (if_congr Iff.rfl (andThen_relabel rfl fun a => a.fail_relabel _ _) rfl)

theorem takePendingSwitch_relabel (a : Agent) : (a.relabel f).takePendingSwitch = carry f a.takePendingSwitch := by
  unfold takePendingSwitch
  cases hpending : a.state.pendingProfile with
  | none =>
    rw [show (a.relabel f).state.pendingProfile = none by simp [relabel, hpending]]
    rfl
  | some pending =>
    obtain ⟨profile, library⟩ := pending
    rw [show (a.relabel f).state.pendingProfile = some (profile, f library) by simp [relabel, hpending]]
    exact applySwitch_relabel (a.withPendingProfile none) profile library

/-- A bundle brings a library of its own, which no relabelling changes. -/
theorem setBehaviorProfile_relabel (hf : Unnoticed f) (a : Agent) (profile : Value) (library : List Value)
    (allowCommands : Bool) : (a.relabel f).setBehaviorProfile profile library allowCommands =
      carry f (a.setBehaviorProfile profile library allowCommands) := by
  unfold setBehaviorProfile
  dsimp only
  split
  · rfl
  · rename_i compiled registry hinstall
    have hswitch := applySwitch_relabel (f := f)
      (a.withBehavior (a.state.behavior.withCommandsTrusted allowCommands)) compiled registry
    rw [hf.installed hinstall] at hswitch
    rw [carry_ite]
    refine if_congr Iff.rfl ?_ hswitch
    unfold carry relabel
    rw [show (((a.withBehavior (a.state.behavior.withCommandsTrusted allowCommands)).withPendingProfile
      (some (compiled, registry))).state.pendingProfile.map fun pending => (pending.1, f pending.2)) =
        some (compiled, f registry) from rfl, hf.installed hinstall]
    rfl

theorem enteredRules_relabel (hf : Unnoticed f) (a : Agent) (from_ : ProfileRef) :
    (a.relabel f).enteredRules from_ = carry f (a.enteredRules from_) := by
  have happly := applyRuleOutcome_relabel hf (a.withBehavior (a.state.behavior.evaluateEntered from_.id).1)
    (a.state.behavior.evaluateEntered from_.id).2 none
  unfold enteredRules
  rw [show (a.relabel f).state.behavior = a.state.behavior.relabel f from rfl, BehaviorState.evaluateEntered_relabel]
  dsimp only [Prod.map, id_eq]
  rw [show (a.relabel f).withBehavior ((a.state.behavior.evaluateEntered from_.id).1.relabel f) =
    (a.withBehavior (a.state.behavior.evaluateEntered from_.id).1).relabel f from rfl, happly]
  split
  · exact refuse_relabel (andThen_relabel rfl fun a => a.behaviorStop_relabel _)
  · rfl

theorem enterProfile_relabel (hf : Unnoticed f) (a : Agent) (from_ : EnteredFrom) :
    (a.relabel f).enterProfile from_ = carry f (a.enterProfile from_) := by
  unfold enterProfile
  dsimp only
  rw [carry_ite]
  refine if_congr Iff.rfl ?_ (enteredRules_relabel hf a from_.profile)
  have hentered (reminder : String) := enteredRules_relabel hf (a.queueRequestText reminder) from_.profile
  exact congrArg (fun r : Agent × Except (List AgentEffect) (List AgentEffect) => (r.1, r.2.map (_ :: ·))) (hentered _)

theorem announceProfile_relabel (hf : Unnoticed f) (a : Agent) :
    (a.relabel f).announceProfile = carry f a.announceProfile := by
  unfold announceProfile
  rw [show (a.relabel f).state.behavior.enteredFrom = a.state.behavior.enteredFrom from rfl]
  split
  · exact enterProfile_relabel hf (a.withBehavior { a.state.behavior with enteredFrom := none }) _
  · rfl

theorem beginTurn_relabel (hf : Unnoticed f) (a : Agent) : (a.relabel f).beginTurn = carry f a.beginTurn := by
  have hpending : (a.relabel f).state.pendingProfile.isSome = a.state.pendingProfile.isSome := Option.isSome_map
  unfold beginTurn
  dsimp only
  rw [takePendingSwitch_relabel, carry_ite, hpending]
  refine if_congr Iff.rfl rfl ?_
  rw [show (carry f a.takePendingSwitch).1 = a.takePendingSwitch.1.relabel f from rfl, announceProfile_relabel hf]
  rcases a.takePendingSwitch.1.announceProfile with ⟨b, failure | entered⟩
  · rfl
  · rw [carry]
    dsimp only
    rw [show (b.relabel f).state.behavior = b.state.behavior.relabel f from rfl, BehaviorState.beginTurn_relabel]
    rcases b.state.behavior.beginTurn with ⟨behavior, plan⟩
    have hrules := runRules_relabel hf (show RuleEvent.beforeModelRequest ≠ _ by simp) (b.withBehavior behavior) none none
    cases plan with
    | exceeded =>
      exact refuse_relabel (fail_relabel (b.withBehavior behavior) _ _)
    | normal | final prompt =>
      dsimp only [Prod.map, id_eq]
      rw [show (b.relabel f).withBehavior (behavior.relabel f) = (b.withBehavior behavior).relabel f from rfl, hrules]
      rcases (b.withBehavior behavior).runRules .beforeModelRequest none none with ⟨c, effects, outcome⟩
      rw [carry]
      dsimp only
      split
      · exact refuse_relabel (andThen_relabel rfl fun a => a.behaviorStop_relabel _)
      · rfl

theorem buildRequest_relabel (a : Agent) (runId : RunId) (reissue : Bool) :
    (a.relabel f).buildRequest runId reissue = carry f (a.buildRequest runId reissue) := by
  unfold buildRequest
  rw [show (a.relabel f).state.behavior.run.finalTurn = a.state.behavior.run.finalTurn from rfl]
  dsimp only
  cases a.state.behavior.run.finalTurn <;> cases reissue <;> rfl

theorem continueAfterTools_relabel (hf : Unnoticed f) (a : Agent) :
    (a.relabel f).continueAfterTools = carry f a.continueAfterTools := by
  unfold continueAfterTools
  rw [carry_ite]
  refine if_congr Iff.rfl ?_ rfl
  rw [show (a.relabel f).state.activeRun = a.state.activeRun from rfl]
  split
  · rfl
  · rw [beginTurn_relabel hf]
    rcases a.beginTurn with ⟨b, failure | effects⟩
    · rfl
    · exact congrArg (fun r : Agent × ExecutionRequest => (r.1, effects ++ (if b.state.status ≠ .waitingForBackend then
        [stateChanged b.state.status .waitingForBackend] else []) ++ [.executeBackend r.2]))
        (buildRequest_relabel (b.withStatus .waitingForBackend) _ false)

theorem nextAfterResult_relabel (hf : Unnoticed f) (a : Agent) (stop : Option RuleStop) :
    (a.relabel f).nextAfterResult stop = carry f (a.nextAfterResult stop) := by
  unfold nextAfterResult
  cases stop with
  | some stop => exact a.behaviorStop_relabel stop
  | none =>
    dsimp only
    rw [carry_ite]
    exact if_congr Iff.rfl (fail_relabel (a.withTimeouts 0) _ _) (continueAfterTools_relabel hf a)

theorem runPostToolRules_relabel (hf : Unnoticed f) (a : Agent) (call : ToolCall) (hasError : Bool) (preview : String) :
    (a.relabel f).runPostToolRules call hasError preview = carry f (a.runPostToolRules call hasError preview) := by
  have hevent : (if hasError then RuleEvent.postToolUseFailure else .postToolUse) ≠ .profileEntered := by
    cases hasError <;> simp
  have hrules := runRules_relabel hf hevent (a.withBehavior (a.state.behavior.noteExecutedWith call.name hasError))
    (some ⟨call, some preview⟩) (some call.id)
  exact congrArg (fun r : Agent × List AgentEffect × RuleOutcome => (r.1, r.2.1,
    r.2.2.rewriteResult.foldl (fun preview rewrite => rewrite.2.apply preview) preview, r.2.2.stop)) hrules

/-- How an outcome of a tool is taken up. -/
theorem recordToolResult_relabel (hf : Unnoticed f) (a : Agent) (call : ToolCall) (executed hasError : Bool)
    (preview : String) : (a.relabel f).recordToolResult call executed hasError preview =
      carry f (a.recordToolResult call executed hasError preview) := by
  unfold recordToolResult
  cases executed with
  | true =>
    rw [if_pos rfl, if_pos rfl, runPostToolRules_relabel hf]
    exact andThen_relabel rfl fun a => nextAfterResult_relabel hf a _
  | false => exact andThen_relabel rfl fun a => nextAfterResult_relabel hf a _

theorem toolCompleted_relabel (hf : Unnoticed f) (a : Agent) (callId : ToolCallId) (result : ToolResult) :
    (a.relabel f).toolCompleted callId result = carry f (a.toolCompleted callId result) := by
  unfold toolCompleted
  rw [show (a.relabel f).state.pendingTools = a.state.pendingTools from rfl]
  split
  · rfl
  · exact recordToolResult_relabel hf ((a.forgetCall callId).withTimeouts 0) _ _ _ _

theorem toolFailed_relabel (hf : Unnoticed f) (a : Agent) (callId : ToolCallId) (error : ToolError) :
    (a.relabel f).toolFailed callId error = carry f (a.toolFailed callId error) := by
  unfold toolFailed
  rw [show (a.relabel f).state.pendingTools = a.state.pendingTools from rfl]
  split
  · rfl
  · exact recordToolResult_relabel hf ((a.forgetCall callId).withTimeouts _) _ _ _ _

theorem denyTool_relabel (hf : Unnoticed f) (a : Agent) (callId : ToolCallId) (ruleId : Option String)
    (reason : String) : (a.relabel f).denyTool callId ruleId reason = carry f (a.denyTool callId ruleId reason) :=
  andThen_relabel rfl fun a => toolFailed_relabel hf a callId (.denied reason)

theorem sessionPermission_relabel (hf : Unnoticed f) (a : Agent) (call : ToolCall) :
    (a.relabel f).sessionPermission call = carry f (a.sessionPermission call) := by
  unfold sessionPermission
  rw [show (a.relabel f).sessionCapability call.name = a.sessionCapability call.name from rfl,
    toolFailed_relabel hf]
  split <;> rfl

theorem requireProfileScope_relabel (hf : Unnoticed f) (a : Agent) (call : ToolCall) :
    (a.relabel f).requireProfileScope call = carry f (a.requireProfileScope call) := by
  unfold requireProfileScope
  dsimp only
  rw [denyTool_relabel hf, carry_ite]
  rfl

theorem evaluateRequestRules_relabel (hf : Unnoticed f) (a : Agent) (call : ToolCall) :
    (a.relabel f).evaluateRequestRules call = carry f (a.evaluateRequestRules call) := by
  have hrules := runRules_relabel hf (show RuleEvent.preToolUse ≠ _ by simp)
    (a.withBehavior (a.state.behavior.noteToolRequest call)) (some ⟨call, none⟩) (some call.id)
  unfold evaluateRequestRules
  rw [show (a.relabel f).withBehavior ((a.relabel f).state.behavior.noteToolRequest call) =
    (a.withBehavior (a.state.behavior.noteToolRequest call)).relabel f from rfl]
  dsimp only
  rw [hrules]
  rcases (a.withBehavior (a.state.behavior.noteToolRequest call)).runRules .preToolUse (some ⟨call, none⟩)
    (some call.id) with ⟨b, effects, outcome⟩
  rw [carry]
  dsimp only
  split
  · rfl
  · rw [andThen_relabel (denyTool_relabel hf b _ _ _) fun a => a.behaviorStop_relabel _]
    rfl

theorem approvalFor_relabel (hf : Unnoticed f) (a : Agent) (call : ToolCall) (sessionMode : PermissionMode)
    (outcome : RuleOutcome) : (a.relabel f).approvalFor call sessionMode outcome =
      carry f (a.approvalFor call sessionMode outcome) := by
  unfold approvalFor
  simp only [denyTool_relabel hf, toolFailed_relabel hf]
  split
  · rfl
  · rw [show (a.relabel f).state.behavior.profile = a.state.behavior.profile from rfl]
    split
    · rfl
    · rfl
    · rw [← carry_ite]
      rfl

theorem rewriteArguments_relabel (a : Agent) (call : ToolCall) (outcome : RuleOutcome) :
    (a.relabel f).rewriteArguments call outcome = carry f (a.rewriteArguments call outcome) := by
  have hpatch (call : ToolCall) : (a.relabel f).patchPending call = (a.patchPending call).relabel f := by
    unfold patchPending
    rw [show (a.relabel f).state.pendingTools = a.state.pendingTools from rfl]
    split <;> rfl
  unfold rewriteArguments
  dsimp only
  rw [hpatch, carry_ite]
  rfl

theorem requireToolBudget_relabel (hf : Unnoticed f) (a : Agent) (callId : ToolCallId) :
    (a.relabel f).requireToolBudget callId = carry f (a.requireToolBudget callId) := by
  unfold requireToolBudget
  rw [show (a.relabel f).state.behavior = a.state.behavior.relabel f from rfl, BehaviorState.admitToolCall_relabel]
  rcases a.state.behavior.admitToolCall with ⟨behavior, admitted⟩
  cases admitted with
  | true => rfl
  | false => exact refuse_relabel (denyTool_relabel hf (a.withBehavior behavior) callId none _)

theorem admitToolCall_relabel (hf : Unnoticed f) (a : Agent) (call : ToolCall) :
    (a.relabel f).admitToolCall call = carry f (a.admitToolCall call) := by
  unfold admitToolCall
  rw [sessionPermission_relabel hf]
  rcases a.sessionPermission call with ⟨b, refusal | sessionMode⟩
  · rfl
  dsimp only [carry]
  rw [requireProfileScope_relabel hf]
  rcases b.requireProfileScope call with ⟨c, refusal | _⟩
  · rfl
  dsimp only [carry]
  rw [evaluateRequestRules_relabel hf]
  rcases c.evaluateRequestRules call with ⟨d, effects, refusal | outcome⟩
  · rfl
  dsimp only [carry]
  rw [approvalFor_relabel hf]
  rcases d.approvalFor call sessionMode outcome with ⟨e, refusal | approval⟩
  · rfl
  dsimp only [carry]
  rw [rewriteArguments_relabel]
  rcases e.rewriteArguments call outcome with ⟨g, call⟩
  dsimp only [carry]
  rw [requireToolBudget_relabel hf]
  rcases g.requireToolBudget call.id with ⟨h, refusal | _⟩
  · rfl
  · rfl

theorem toolRequested_relabel (hf : Unnoticed f) (a : Agent) (call : ToolCall) :
    (a.relabel f).toolRequested call = carry f (a.toolRequested call) := by
  have hrecord : (a.relabel f).recordToolRequest call = carry f (a.recordToolRequest call) := by
    unfold recordToolRequest
    rw [pushToolUse_relabel]
    rfl
  unfold toolRequested
  refine andThen_relabel hrecord fun b => ?_
  rw [admitToolCall_relabel hf]
  rcases b.admitToolCall call with ⟨c, effects, refusal | ⟨call, approval⟩⟩
  · rfl
  · refine andThen_relabel rfl fun a => ?_
    cases approval <;> rfl

theorem permissionResolved_relabel (hf : Unnoticed f) (a : Agent) (id : PermissionId) (decision : PermissionDecision) :
    (a.relabel f).permissionResolved id decision = carry f (a.permissionResolved id decision) := by
  unfold permissionResolved
  rw [show (a.relabel f).state.pendingPermissions = a.state.pendingPermissions from rfl]
  split
  · rfl
  · dsimp only
    rw [show ((a.relabel f).withPendingPermissions (a.state.pendingPermissions.erase id)) =
      (a.withPendingPermissions (a.state.pendingPermissions.erase id)).relabel f from rfl]
    rw [show ((a.withPendingPermissions (a.state.pendingPermissions.erase id)).relabel f).state.pendingTools =
      (a.withPendingPermissions (a.state.pendingPermissions.erase id)).state.pendingTools from rfl]
    split
    · rfl
    · cases decision with
      | approved => rfl
      | denied => exact toolFailed_relabel hf _ _ _

theorem endExhaustedGate_relabel (a : Agent) (gate : CompletionGate) (failedChecks : List String) (summary : String) :
    (a.relabel f).endExhaustedGate gate failedChecks summary =
      carry f (a.endExhaustedGate gate failedChecks summary) := by
  unfold endExhaustedGate
  cases gate.onExhausted.getD .accept with
  | accept => rfl
  | fail => exact a.fail_relabel _ _

theorem sendAnswerBack_relabel (hf : Unnoticed f) (a : Agent) (runId : RunId) (reference : ProfileRef)
    (failures : List CheckFailure) : (a.relabel f).sendAnswerBack runId reference failures =
      carry f (a.sendAnswerBack runId reference failures) := by
  have hcounted : (a.relabel f).withRun { (a.relabel f).state.behavior.run with
      gateContinuations := (a.relabel f).state.behavior.run.gateContinuations + 1 } =
    (a.withRun { a.state.behavior.run with
      gateContinuations := a.state.behavior.run.gateContinuations + 1 }).relabel f := rfl
  have hpush (c : Agent) : (c.relabel f).pushGateRejection reference failures =
      (c.pushGateRejection reference failures).relabel f := rfl
  unfold sendAnswerBack
  dsimp only
  rw [hcounted, hpush, beginTurn_relabel hf]
  rcases ((a.withRun { a.state.behavior.run with
    gateContinuations := a.state.behavior.run.gateContinuations + 1 }).pushGateRejection reference failures).beginTurn
    with ⟨b, failure | effects⟩
  · rfl
  · exact congrArg (fun r : Agent × ExecutionRequest => (r.1, effects ++
      [stateChanged b.state.status .waitingForBackend, .executeBackend r.2]))
      (buildRequest_relabel (b.withStatus .waitingForBackend) runId false)

theorem gateDecided_relabel (hf : Unnoticed f) (a : Agent) (runId : RunId) (failures : List CheckFailure)
    (summary : String) : (a.relabel f).gateDecided runId failures summary =
      carry f (a.gateDecided runId failures summary) := by
  unfold gateDecided
  rw [show (a.relabel f).state.behavior.profile = a.state.behavior.profile from rfl]
  dsimp only
  split
  · rfl
  · refine andThen_relabel rfl fun b => ?_
    rw [show (a.relabel f).gateStep = a.gateStep from rfl]
    split
    · rfl
    · exact b.endExhaustedGate_relabel _ _ _
    · exact sendAnswerBack_relabel hf b _ _ _

theorem failedDeclarativeChecks_relabel (a : Agent) {gate : CompletionGate}
    (hgate : a.state.behavior.profile.profile.completionGate = some gate) :
    (a.relabel f).failedDeclarativeChecks gate = a.failedDeclarativeChecks gate := by
  unfold failedDeclarativeChecks
  refine filterMap_congr fun check hcheck => ?_
  cases hrequire : check.require with
  | none => rfl
  | some condition =>
    obtain ⟨path, hchecked⟩ := a.state.behavior.profile.require_checked hgate hcheck hrequire
    dsimp only
    rw [show (a.relabel f).state.behavior = a.state.behavior.relabel f from rfl,
      BehaviorState.conditionHolds_relabel _ hchecked]

theorem proposeCompletion_relabel (hf : Unnoticed f) (a : Agent) (runId : RunId) (summary : String) :
    (a.relabel f).proposeCompletion runId summary = carry f (a.proposeCompletion runId summary) := by
  unfold proposeCompletion
  rw [show (a.relabel f).state.behavior.profile = a.state.behavior.profile from rfl]
  split
  · rfl
  · rename_i gate hgate
    dsimp only
    rw [show (a.relabel f).noteGateAttempt = a.noteGateAttempt.relabel f from rfl,
      failedDeclarativeChecks_relabel a.noteGateAttempt hgate, gateDecided_relabel hf, carry_ite]
    rfl

theorem completionEvaluated_relabel (hf : Unnoticed f) (a : Agent) (runId : RunId) (attempt : Nat)
    (verdicts : List CheckVerdict) (usage : List UsageRecord) :
    (a.relabel f).completionEvaluated runId attempt verdicts usage =
      carry f (a.completionEvaluated runId attempt verdicts usage) := by
  unfold completionEvaluated
  dsimp only
  rw [carry_ite]
  refine if_congr Iff.rfl ?_ ?_
  · rw [carry_ite]
    rfl
  · rw [show (a.relabel f).state.behavior.profile = a.state.behavior.profile from rfl]
    split
    · cases usage <;> rfl
    · refine andThen_relabel ?_ fun b => gateDecided_relabel hf b _ _ _
      rw [carry_ite]
      rfl

theorem beginRun_relabel (hf : Unnoticed f) (a : Agent) (input : UserInput) :
    (a.relabel f).beginRun input = carry f (a.beginRun input) := by
  have hrules := runRules_relabel hf (show RuleEvent.runStart ≠ _ by simp) (a.openRun input).1 none none
  unfold beginRun
  rw [show (a.relabel f).openRun input = carry f (a.openRun input) from rfl]
  dsimp only [carry]
  rw [hrules]
  rcases (a.openRun input).1.runRules .runStart none none with ⟨b, effects, outcome⟩
  dsimp only [carry]
  split
  · exact andThen_relabel rfl fun a => a.behaviorStop_relabel _
  · rw [beginTurn_relabel hf]
    rcases b.beginTurn with ⟨c, failure | turnEffects⟩
    · rfl
    · dsimp only [carry]
      rw [executionRequest, buildRequest_relabel]
      rfl

theorem startRun_relabel (hf : Unnoticed f) (a : Agent) (input : UserInput) :
    (a.relabel f).startRun input = carry f (a.startRun input) := by
  unfold startRun
  rw [show (a.relabel f).state.messages = a.state.messages from rfl]
  split
  · exact a.fail_relabel _ _
  · split
    · exact a.fail_relabel _ _
    · exact andThen_relabel a.takePendingSwitch_relabel fun b => beginRun_relabel hf b input

theorem startOrQueue_relabel (hf : Unnoticed f) (a : Agent) (input : UserInput) :
    (a.relabel f).startOrQueue input = carry f (a.startOrQueue input) := by
  unfold startOrQueue
  rw [startRun_relabel hf, carry_ite]
  rfl

theorem startNextQueuedRun_relabel (hf : Unnoticed f) (a : Agent) :
    (a.relabel f).startNextQueuedRun = carry f a.startNextQueuedRun := by
  unfold startNextQueuedRun
  rw [show (a.relabel f).state.queuedInputs = a.state.queuedInputs from rfl]
  split
  · rfl
  · exact startRun_relabel hf (a.withQueuedInputs _) _

theorem completed_relabel (hf : Unnoticed f) (a : Agent) (runId : RunId) (result : ExecutionResult) :
    (a.relabel f).completed runId result = carry f (a.completed runId result) := by
  unfold completed
  dsimp only
  rw [show (a.relabel f).withInFlight false = (a.withInFlight false).relabel f from rfl, discardTrailing_relabel,
    carry_ite, carry_ite]
  generalize (a.withInFlight false).discardTrailingEmptyAssistantMessage = b
  have hcounted : (b.relabel f).withUsage { (b.relabel f).usage with
      records := (b.relabel f).usage.records ++ [⟨result.usage, result.cost, none⟩] } =
    (b.withUsage { b.usage with records := b.usage.records ++ [⟨result.usage, result.cost, none⟩] }).relabel f := rfl
  rw [hcounted, fail_relabel, continueAfterTools_relabel hf, proposeCompletion_relabel hf]

theorem backendEvent_relabel (hf : Unnoticed f) (a : Agent) (runId : RunId) (event : ExecutionEvent) :
    (a.relabel f).backendEvent runId event = carry f (a.backendEvent runId event) := by
  unfold backendEvent
  rw [carry_ite]
  refine if_congr Iff.rfl rfl ?_
  cases event with
  | textDelta _ delta =>
    exact congrArg (fun r : Agent × MessageId => (r.1, changedTo a.state.status .streaming ++
      [.emit (.assistantTextDelta r.2 delta)])) (appendAssistantText_relabel (a.withStatus .streaming) delta)
  | reasoningDelta _ delta =>
    exact congrArg (fun r : Agent × MessageId =>
      (r.1, [AgentEffect.emit (.reasoningDelta r.2 delta)])) a.assistantMessageId_relabel
  | toolCallRequested _ call => exact toolRequested_relabel hf a call
  | toolCallStarted _ call =>
    exact congrArg (fun r : Agent × MessageId => (r.1, changedTo a.state.status .executing ++
      [.emit (.toolCallRequested call), .emit (.toolCallStarted call.id)]))
      (pushToolUse_relabel (a.withStatus .executing) call)
  | toolCallCompleted | usageUpdate => rfl
  | completed _ result => exact completed_relabel hf a runId result
  | error _ error => exact a.fail_relabel _ _

theorem cancel_relabel (a : Agent) : (a.relabel f).cancel = carry f a.cancel := by
  unfold cancel
  dsimp only
  rw [carry_ite]
  rfl

theorem pause_relabel (a : Agent) : (a.relabel f).pause = carry f a.pause := by
  unfold pause
  rw [show (a.relabel f).state.status = a.state.status from rfl]
  split <;> rfl

theorem resume_relabel (a : Agent) : (a.relabel f).resume = carry f a.resume := by
  unfold resume
  rw [carry_ite]
  refine if_congr Iff.rfl rfl ?_
  rw [show (a.relabel f).state.activeRun = a.state.activeRun from rfl]
  split
  · exact congrArg (fun r : Agent × ExecutionRequest => (r.1,
      [stateChanged .paused .waitingForBackend, .executeBackend r.2]))
      (buildRequest_relabel (a.withStatus .waitingForBackend) _ true)
  · rfl

theorem childDone_relabel (a : Agent) (agentId : AgentId) (outcome : AgentOutcome) :
    (a.relabel f).childDone agentId outcome = carry f (a.childDone agentId outcome) := by
  unfold childDone
  dsimp only
  rw [carry_ite]
  rfl

theorem childSpawned_relabel (a : Agent) (agentId : AgentId) (awaiting : Bool) :
    (a.relabel f).childSpawned agentId awaiting = carry f (a.childSpawned agentId awaiting) := by
  unfold childSpawned
  rw [show (if (a.relabel f).state.children.contains agentId then a.relabel f
      else (a.relabel f).withChildren ((a.relabel f).state.children ++ [agentId])) =
    (if a.state.children.contains agentId then a else a.withChildren (a.state.children ++ [agentId])).relabel f from
      by rw [apply_ite (relabel f)]; rfl]
  dsimp only
  rw [carry_ite]
  rfl

theorem apply_relabel (hf : Unnoticed f) (a : Agent) (command : AgentCommand) :
    (a.relabel f).apply command = carry f (a.apply command) := by
  cases command with
  | startRun input | steer input | followUp input => exact startOrQueue_relabel hf a input
  | startNextQueuedRun => exact startNextQueuedRun_relabel hf a
  | backendEvent runId event => exact backendEvent_relabel hf a runId event
  | toolCompleted callId result => exact toolCompleted_relabel hf a callId result
  | toolFailed callId error => exact toolFailed_relabel hf a callId error
  | permissionResolved id decision => exact permissionResolved_relabel hf a id decision
  | spawnChild spec => rfl
  | childSpawned agentId awaiting => exact a.childSpawned_relabel agentId awaiting
  | childCompleted agentId result =>
    exact childDone_relabel
      (a.withUsage { a.usage with childUsage := a.usage.childUsage.insert agentId result.usage }) agentId .success
  | childFailed agentId error => exact childDone_relabel (a.withLastError (some error)) agentId .failed
  | cancel => exact a.cancel_relabel
  | pause => exact a.pause_relabel
  | resume => exact a.resume_relabel
  | configureExecution params => rfl
  | setBehaviorProfile profile library allowCommands =>
    exact setBehaviorProfile_relabel hf a profile library allowCommands
  | completionEvaluated runId attempt verdicts usage =>
    exact completionEvaluated_relabel hf a runId attempt verdicts usage

theorem effects_relabel (hf : Unnoticed f) (a : Agent) (commands : List AgentCommand) :
    (machine.trace (a.relabel f) commands).map (·.out) = (machine.trace a commands).map (·.out) :=
  Machine.outs_map (apply_relabel hf) a commands

end Agent

end

end RustyCore
