import RustyCore.Theorems.Workflow.Runs

/-! The course of a run. Every command does one of a few things to it: it leaves its steps alone, starts it,
    changes its live step, hands over to the next step, sends work back, gets stuck, or ends it. -/

namespace RustyCore

open Reducer WorkflowCompiler

def EdgeCondition.ending : EdgeCondition → StepStatus
  | .onSuccess => .succeeded
  | .onFailure => .failed

structure Ends (condition : EdgeCondition) (step step' : StepRun) : Prop where
  status : step'.status = condition.ending
  attempts : step'.attempts.length = step.attempts.length
  retryBase : step'.retryBase = step.retryBase
  output : condition = .onSuccess → step'.output.isSome = true

inductive Leaves [WorkflowExternals] (c : CompiledOrchestration) (s : OrchestrationRunState) (id : OrchestrationNodeId)
    (attempt : Nat) (step : StepRun) : EdgeCondition → OrchestrationCommand → Prop
  | success {output details} (hrunning : step.status = .running) (hkind : (c.node id).any (·.kind.isOutput) = false) :
      Leaves c s id attempt step .onSuccess (.stepSucceeded id attempt output details)
  | failure {node error details} (hnode : c.node id = some node)
      (hretry : retriesSame node.retry error attempt step.retryBase (budgetLeft c s details) = false)
      (hback : ∀ target revise, ¬ SendsBack c s id attempt error details node target revise) :
      Leaves c s id attempt step .onFailure (.stepFailed id attempt error details)

/-- What a send-back to `target` makes of the step of `k`. -/
structure SentBack (target : OrchestrationNodeId) (span : List OrchestrationNodeId) (revise : Bool)
    (k : OrchestrationNodeId) (step step' : StepRun) : Prop where
  attempts : step'.attempts.length = step.attempts.length
  again : k = target → step'.status = .retryScheduled ∧ step'.output = none ∧
    step'.retryBase = if revise then step.attempts.length else step.retryBase
  reset : k ≠ target → k ∈ span → step'.status = .pending ∧ step'.output = none ∧ step'.retryBase = step.retryBase
  other : k ∉ span → step' = step

inductive Move [WorkflowExternals] (c : CompiledOrchestration) (s : OrchestrationRunState) :
    OrchestrationCommand → OrchestrationRunState → Prop
  | still {command s'} (hsteps : s'.steps = s.steps) (hinput : s'.input = s.input)
      (hstatus : s'.status = s.status ∨ (s.status.isTerminal = false ∧ s.status ≠ .cancelling ∧ Going s'.status)) :
      Move c s command s'
  | begin {command s' step} (hcreated : s.status = .created) (hstep : s.steps.get? c.entryNode = some step)
      (hsteps : s'.steps = (s.setStep c.entryNode fun _ => { step with status := .ready }).steps)
      (hgoing : Going s'.status) : Move c s command s'
  | keep {command s' id step step'} (hstep : s.steps.get? id = some step) (hlive : step.status.isLive = true)
      (hsteps : s'.steps = (s.setStep id fun _ => step').steps) (hlive' : step'.status.isLive = true)
      (hactive : step'.status.isActive = step.status.isActive)
      (hattempts : step'.attempts.length = step.attempts.length) (hbase : step'.retryBase = step.retryBase)
      (hinput : s'.input = s.input) (hgoing : Going s'.status) : Move c s command s'
  | admission {s' id attempt step step'} (hstep : s.steps.get? id = some step) (hready : step.status = .ready)
      (hsteps : s'.steps = (s.setStep id fun _ => step').steps) (hrunning : step'.status = .running)
      (hattempts : step'.attempts.length = step.attempts.length + 1) (hbase : step'.retryBase = step.retryBase)
      (hinput : s'.input = s.input) (hgoing : Going s'.status) :
      Move c s (.stepAdmitted id attempt) s'
  | again {command s' id attempt node step step' current} (hnode : c.node id = some node)
      (hin : InFlight c s id attempt step current) (hleft : attempt - step.retryBase < node.retry.maxAttempts)
      (hsteps : s'.steps = (s.setStep id fun _ => step').steps) (hstatus : step'.status = .retryScheduled)
      (hattempts : step'.attempts.length = step.attempts.length) (hbase : step'.retryBase = step.retryBase)
      (hinput : s'.input = s.input) (hgoing : Going s'.status) : Move c s command s'
  | replay {s' id attempt step step' current} (hin : InFlight c s id attempt step current)
      (hsteps : s'.steps = (s.setStep id fun _ => step').steps) (hstatus : step'.status = .ready)
      (hinput : s'.input = s.input) (hgoing : Going s'.status) : Move c s .recover s'
  | advance {command s' id attempt condition edge step step' next current}
      (hin : InFlight c s id attempt step current) (hedge : c.outgoingFor id condition = some edge)
      (hends : Ends condition step step') (hnext : s.steps.get? edge.target = some next)
      (hpending : next.status = .pending)
      (hsteps : s'.steps = ((s.setStep id fun _ => step').setStep edge.target fun _ => { next with status := .ready }).steps)
      (hinput : s'.input = s.input) (hgoing : Going s'.status)
      (hleaves : Leaves c s id attempt step condition command) :
      Move c s command s'
  | sendBack {s' id target attempt error details node step current span revise} (hnode : c.node id = some node)
      (hin : InFlight c s id attempt step current)
      (hretry : retriesSame node.retry error attempt step.retryBase (budgetLeft c s details) = false)
      (hback : SendsBack c s id attempt error details node target revise) (hlink : c.Link id target span)
      (hsteps : ∀ k st, s.steps.get? k = some st → ∃ st', s'.steps.get? k = some st' ∧ SentBack target span revise k st st')
      (hinput : s'.input = s.input) (hgoing : Going s'.status) :
      Move c s (.stepFailed id attempt error details) s'
  /-- The run goes on without a live step. -/
  | stick {command s' id attempt condition edge step step' next current}
      (hin : InFlight c s id attempt step current) (hedge : c.outgoingFor id condition = some edge)
      (hends : Ends condition step step') (hnext : s.steps.get? edge.target = some next)
      (hblocked : next.status ≠ .pending) (hsteps : s'.steps = (s.setStep id fun _ => step').steps)
      (hinput : s'.input = s.input) (hgoing : Going s'.status) : Move c s command s'
  | close {command s'} (hover : s'.status.isTerminal = true ∨ s'.status = .cancelling) :
      Move c s command s'

section

variable {c : CompiledOrchestration} {s : OrchestrationRunState} {step : StepRun} {current : StepAttempt}

theorem length_setCurrent {attempt : StepAttempt} (h : step.attempts.getLast? = some current) :
    (setCurrent step attempt).attempts.length = step.attempts.length := by
  have hne : step.attempts ≠ [] := by
    rintro hnil
    rw [hnil] at h
    cases h
  have hpos := List.length_pos_of_ne_nil hne
  rw [setCurrent, List.length_append, List.length_dropLast, List.length_singleton]
  omega

variable {details : AttemptDetails}

theorem ends_succeedStep {output : Value} (h : step.attempts.getLast? = some current) :
    Ends .onSuccess step (succeedStep step current output details) :=
  ⟨rfl, length_setCurrent h, rfl, fun _ => rfl⟩

variable {error : OrchestrationError}

theorem ends_failStep
    (h : step.attempts.getLast? = some current) : Ends .onFailure step (failStep step current error details) :=
  ⟨rfl, length_setCurrent h, rfl, fun h => by cases h⟩

theorem sentBack_sentBackStep {id target k : OrchestrationNodeId} {span : List OrchestrationNodeId} {failed st : StepRun} {revise : Bool} (hspan : target ∈ span ∧ id ∈ span) (hne : target ≠ id)
    (hfailed : Ends .onFailure step failed) (hstep : k = id → st = step) :
    SentBack target span revise k st (sentBackStep id target span failed error revise k st) := by
  by_cases htarget : k = target
  · subst htarget
    rw [sentBackStep, if_pos rfl]
    exact ⟨rfl, fun _ => ⟨rfl, rfl, rfl⟩, fun h => absurd rfl h, fun h => absurd hspan.1 h⟩
  rw [sentBackStep, if_neg htarget]
  by_cases hid : k = id
  · subst hid
    obtain rfl := hstep rfl
    rw [if_pos rfl]
    exact ⟨hfailed.attempts, fun h => absurd h htarget, fun _ _ => ⟨rfl, rfl, hfailed.retryBase⟩,
      fun h => absurd hspan.2 h⟩
  rw [if_neg hid]
  by_cases hmem : k ∈ span
  · rw [if_pos hmem]
    exact ⟨rfl, fun h => absurd h htarget, fun _ _ => ⟨rfl, rfl, rfl⟩, fun h => absurd hmem h⟩
  · rw [if_neg hmem]
    exact ⟨rfl, fun h => absurd h htarget, fun _ h => absurd h hmem, fun _ => rfl⟩

theorem sentBack_steps_get {id target : OrchestrationNodeId} {attempt : Nat} {span : List OrchestrationNodeId} {revise : Bool} (hv : c.Valid)
    (hin : InFlight c s id attempt step current) (hlink : c.Link id target span) {k : OrchestrationNodeId}
    {st : StepRun} (hst : s.steps.get? k = some st) :
    ∃ st', (s.steps.mapEntries (sentBackStep id target span (failStep step current error details) error revise)).get? k =
      some st' ∧ SentBack target span revise k st st' := by
  refine ⟨_, by rw [OrdMap.get?_mapEntries, hst]; rfl, ?_⟩
  have hspan : target ∈ span ∧ id ∈ span :=
    ⟨(hlink.mem_span target).mpr (Or.inr (Or.inl rfl)), (hlink.mem_span id).mpr (Or.inr (Or.inr rfl))⟩
  refine sentBack_sentBackStep hspan (hv.ne_of_below hlink.upstream) (ends_failStep hin.current_eq) ?_
  rintro rfl
  exact Option.some.inj (hst.symm.trans hin.found)

variable [WorkflowExternals]

theorem move_outcome (hv : c.Valid) (hs : Sound c s) (hopen : s.status.isTerminal = false) {command : OrchestrationCommand}
    {applied : Applied} (h : Outcome c s command applied) : Move c s command applied.1 := by
  have hsettle : ∀ s' : OrchestrationRunState, s'.status = s.status → Going s.status → Going (settle s').status := by
    intro s' hstatus hgoing
    exact settle_open (hstatus ▸ hgoing.1) (hstatus ▸ hgoing.2.1)
  cases h with
  | rejected | leakedSuccess | leakedFailure => exact .still rfl rfl (Or.inl rfl)
  | stuckSuccess hin hrunning hkind hedge hnext hblocked =>
    exact .stick hin hedge (ends_succeedStep hin.current_eq) hnext hblocked rfl rfl (hs.going hin.found hin.isLive)
  | stuckFailure hnode hin hretry hback hedge hnext hblocked =>
    exact .stick hin hedge (ends_failStep hin.current_eq) hnext hblocked rfl rfl (hs.going hin.found hin.isLive)
  | started hcreated hstep =>
    exact .begin hcreated hstep settle_steps
      (settle_open hopen (by simp [OrchestrationRunState.setStep, hcreated]))
  | denied | completed | failed | aborted | cancelled | cancellationCompleted | restoredCancelling | interrupted =>
    exact .close (Or.inl rfl)
  | cancelling => exact .close (Or.inr rfl)
  | @admitted id attempt step hready hpaused hstep hstatus =>
    have hlive : step.status.isLive = true := by rw [StepStatus.isLive, hstatus]; rfl
    exact .admission hstep hstatus settle_steps rfl (by simp) rfl settle_input
      (hsettle _ rfl (hs.going hstep hlive))
  | advanced hin hrunning hkind hedge hnext hpending =>
    exact .advance hin hedge (ends_succeedStep hin.current_eq) hnext hpending settle_steps
      settle_input (hsettle _ rfl (hs.going hin.found hin.isLive)) (.success hrunning hkind)
  | rerouted hnode hin hretry hback hedge hnext hpending =>
    exact .advance hin hedge (ends_failStep hin.current_eq) hnext hpending settle_steps
      settle_input (hsettle _ rfl (hs.going hin.found hin.isLive)) (.failure hnode hretry hback)
  | retried hnode hin hretry =>
    rw [retriesSame, Bool.and_eq_true, Bool.and_eq_true, decide_eq_true_eq] at hretry
    exact .again hnode hin hretry.1.2 settle_steps rfl (length_setCurrent hin.current_eq) rfl
      settle_input (hsettle _ rfl (hs.going hin.found hin.isLive))
  | sentBack hnode hin hretry hback hlink =>
    refine .sendBack hnode hin hretry hback hlink (fun k st hst => ?_) settle_input
      (hsettle _ rfl (hs.going hin.found hin.isLive))
    rw [settle_steps]
    exact sentBack_steps_get hv hin hlink hst
  | touched hin htouch =>
    obtain ⟨hactive, hattempts⟩ := htouch.isActive hin.active
    refine .keep hin.found hin.isLive settle_steps (StepStatus.isLive_of_isActive hactive)
      (hactive.trans hin.active.symm) (congrArg List.length hattempts) ?_ settle_input
      (hsettle _ rfl (hs.going hin.found hin.isLive))
    cases htouch <;> rfl
  | checkpointed hin =>
    exact .keep hin.found hin.isLive rfl hin.isLive rfl rfl rfl rfl (hs.going hin.found hin.isLive)
  | @woken id step hstep hstatus =>
    have hlive : step.status.isLive = true := by rw [StepStatus.isLive, hstatus]; rfl
    exact .keep hstep hlive settle_steps rfl (by rw [hstatus]; rfl) rfl rfl settle_input
      (hsettle _ rfl (hs.going hstep hlive))
  | paused hpaused hcreated hcancelling =>
    exact .still settle_steps settle_input
      (Or.inr ⟨hopen, hcancelling, settle_open hopen hcancelling⟩)
  | resumed =>
    refine .still settle_steps settle_input ?_
    by_cases hcancelling : s.status = .cancelling
    · exact Or.inl (by simp [settle, hcancelling])
    · exact Or.inr ⟨hopen, hcancelling, settle_open hopen hcancelling⟩
  | restored hcancelling =>
    exact .still settle_steps settle_input
      (Or.inr ⟨hopen, hcancelling, settle_open hopen hcancelling⟩)
  | replayed hcancelling hin =>
    exact .replay hin settle_steps rfl settle_input
      (hsettle _ rfl (hs.going hin.found hin.isLive))

theorem sentBack_of_sendsBack (hv : c.Valid) {id target : OrchestrationNodeId} {attempt : Nat} {node : OrchestrationNode} {revise : Bool}
    {applied : Applied} (h : Outcome c s (.stepFailed id attempt error details) applied) (hnode : c.node id = some node)
    (hin : InFlight c s id attempt step current)
    (hretry : retriesSame node.retry error attempt step.retryBase (budgetLeft c s details) = false)
    (hback : SendsBack c s id attempt error details node target revise) :
    ∃ span, c.Link id target span ∧ ∀ k st, s.steps.get? k = some st →
      ∃ st', applied.1.steps.get? k = some st' ∧ SentBack target span revise k st st' := by
  cases h with
  | rejected hplain hheeded => exact absurd (OrdMap.mem_keys_of_get? hnode) hheeded
  | leakedFailure hplain hknown hno => exact absurd hin (hno step current)
  | stuckFailure hnode' hin' hretry' hback' | rerouted hnode' hin' hretry' hback' | failed hnode' hin' hretry' hback' =>
    obtain rfl := Option.some.inj (hnode'.symm.trans hnode)
    exact absurd hback (hback' target revise)
  | retried hnode' hin' hretry' =>
    obtain rfl := Option.some.inj (hnode'.symm.trans hnode)
    obtain ⟨rfl, -⟩ := hin.unique hin'
    rw [hretry] at hretry'
    cases hretry'
  | sentBack hnode' hin' hretry' hback' hlink =>
    obtain rfl := Option.some.inj (hnode'.symm.trans hnode)
    obtain ⟨rfl, rfl⟩ := hback.unique hback'
    refine ⟨_, hlink, fun k st hst => ?_⟩
    rw [settle_steps]
    exact sentBack_steps_get hv hin' hlink hst
  | touched hin' htouch => cases htouch

theorem move_apply (hv : c.Valid) (hs : Sound c s) (command : OrchestrationCommand) :
    Move c s command (apply c s command).1 := by
  by_cases hopen : s.status.isTerminal = true
  · rw [apply_terminal hopen]
    exact .still rfl rfl (Or.inl rfl)
  · rw [Bool.not_eq_true] at hopen
    exact move_outcome hv hs hopen (outcome_apply hv hs hopen command)

end

end RustyCore
