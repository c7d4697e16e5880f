import RustyCore.Theorems.Workflow.Runs

/-! When a command that is refused leaves the run as it was: always, but for the report of an attempt that is
    refused after its usage was counted, or after its step was marked. -/

namespace RustyCore

open Reducer WorkflowCompiler

def LeaksUsage [WorkflowExternals] (c : CompiledOrchestration) (s : OrchestrationRunState) : OrchestrationCommand → Prop
  | .stepSucceeded id attempt _ details => s.status.isTerminal = false ∧
      (∀ step current, InFlight c s id attempt step current → step.status ≠ .running) ∧
      usageTotal s.usage details.usage ≠ s.usage
  | .stepFailed id attempt _ details => s.status.isTerminal = false ∧ id ∈ c.nodes.keys ∧
      (∀ step current, ¬ InFlight c s id attempt step current) ∧ usageTotal s.usage details.usage ≠ s.usage
  | _ => False

/-- The route from `id` leads to a step that has already run. -/
def Blocked (c : CompiledOrchestration) (s : OrchestrationRunState) (id : OrchestrationNodeId)
    (condition : EdgeCondition) : Prop :=
  ∃ edge next, c.outgoingFor id condition = some edge ∧ s.steps.get? edge.target = some next ∧ next.status ≠ .pending

def Sticks [WorkflowExternals] (c : CompiledOrchestration) (s : OrchestrationRunState) : OrchestrationCommand → Prop
  | .stepSucceeded id attempt _ _ => (∃ step current, InFlight c s id attempt step current ∧ step.status = .running) ∧
      (c.node id).any (·.kind.isOutput) = false ∧ Blocked c s id .onSuccess
  | .stepFailed id attempt error details => ∃ node step current, c.node id = some node ∧
      InFlight c s id attempt step current ∧
      retriesSame node.retry error attempt step.retryBase (budgetLeft c s details) = false ∧
      (∀ target revise, ¬ SendsBack c s id attempt error details node target revise) ∧ Blocked c s id .onFailure
  | _ => False

section

variable {c : CompiledOrchestration} {s : OrchestrationRunState} {command : OrchestrationCommand}
  {id : OrchestrationNodeId} {attempt : Nat} {step : StepRun} {current : StepAttempt}

theorem Blocked.not_pending {condition : EdgeCondition} {edge : OrchestrationEdge} {next : StepRun}
    (h : Blocked c s id condition) (hedge : c.outgoingFor id condition = some edge)
    (hnext : s.steps.get? edge.target = some next) : next.status ≠ .pending := by
  obtain ⟨edge', next', hedge', hnext', hblocked⟩ := h
  obtain rfl : edge' = edge := Option.some.inj (hedge'.symm.trans hedge)
  obtain rfl : next' = next := Option.some.inj (hnext'.symm.trans hnext)
  exact hblocked

variable [WorkflowExternals]

theorem Reducer.InFlight.not_leaks_success (h : InFlight c s id attempt step current) (hrunning : step.status = .running)
    {output : Value} {details : AttemptDetails} : ¬ LeaksUsage c s (.stepSucceeded id attempt output details) :=
  fun hleak => hleak.2.1 step current h hrunning

theorem Reducer.InFlight.not_leaks_failure (h : InFlight c s id attempt step current) {error : OrchestrationError}
    {details : AttemptDetails} : ¬ LeaksUsage c s (.stepFailed id attempt error details) :=
  fun hleak => hleak.2.2.1 step current h

theorem setStep_ne (hstep : s.steps.get? id = some step) {details : AttemptDetails} {step' : StepRun}
    (hstatus : step'.status ≠ step.status) : ((spend s details).setStep id fun _ => step') ≠ s := by
  intro hsame
  have hget := OrchestrationRunState.step_setStep_self (s := spend s details) (f := fun _ => step') hstep
  rw [hsame, hstep] at hget
  exact hstatus (congrArg StepRun.status (Option.some.inj hget).symm)

theorem spend_eq_iff {details : AttemptDetails} : spend s details = s ↔ usageTotal s.usage details.usage = s.usage := by
  constructor
  · exact fun h => congrArg OrchestrationRunState.usage h
  · intro h
    rw [spend, h]

theorem Sticks.open (hs : Sound c s) (h : Sticks c s command) : s.status.isTerminal = false := by
  cases command with
  | stepSucceeded id attempt output details =>
    obtain ⟨⟨step, current, hin, -⟩, -⟩ := h
    exact (hs.going hin.found hin.isLive).1
  | stepFailed id attempt error details =>
    obtain ⟨node, step, current, -, hin, -⟩ := h
    exact (hs.going hin.found hin.isLive).1
  | _ => cases h

theorem atomic_outcome (hopen : s.status.isTerminal = false) {applied : Applied} (h : Outcome c s command applied) :
    (∀ e, applied.2 = .error e → applied.1 = s) ↔ ¬ LeaksUsage c s command ∧ ¬ Sticks c s command := by
  cases h with
  | rejected hplain hheeded =>
    refine iff_of_true (fun _ _ => rfl) ?_
    cases command with
    | stepSucceeded => exact absurd trivial hheeded
    | stepFailed id attempt error details =>
      refine ⟨fun h => hheeded h.2.1, ?_⟩
      rintro ⟨node, step, current, hnode, -⟩
      exact hheeded (OrdMap.mem_keys_of_get? hnode)
    | _ => exact ⟨id, id⟩
  | @leakedSuccess id attempt output details e hplain hno =>
    have hstick : ¬ Sticks c s (.stepSucceeded id attempt output details) := by
      rintro ⟨⟨step, current, hin, hrunning⟩, -⟩
      exact hno step current hin hrunning
    have hleak : LeaksUsage c s (.stepSucceeded id attempt output details) ↔ usageTotal s.usage details.usage ≠ s.usage :=
      ⟨fun h => h.2.2, fun h => ⟨hopen, hno, h⟩⟩
    rw [and_iff_left hstick, hleak, not_not, ← spend_eq_iff]
    exact ⟨fun h => h e rfl, fun h _ _ => h⟩
  | @leakedFailure id attempt error details e hplain hknown hno =>
    have hstick : ¬ Sticks c s (.stepFailed id attempt error details) := by
      rintro ⟨node, step, current, -, hin, -⟩
      exact hno step current hin
    have hleak : LeaksUsage c s (.stepFailed id attempt error details) ↔ usageTotal s.usage details.usage ≠ s.usage :=
      ⟨fun h => h.2.2.2, fun h => ⟨hopen, hknown, hno, h⟩⟩
    rw [and_iff_left hstick, hleak, not_not, ← spend_eq_iff]
    exact ⟨fun h => h e rfl, fun h _ _ => h⟩
  | stuckSuccess hin hrunning hkind hedge hnext hblocked =>
    refine iff_of_false (fun h => setStep_ne hin.found ?_ (h _ rfl)) fun h => h.2 ?_
    · rw [hrunning]
      exact StepStatus.noConfusion
    · exact ⟨⟨_, _, hin, hrunning⟩, hkind, _, _, hedge, hnext, hblocked⟩
  | stuckFailure hnode hin hretry hback hedge hnext hblocked =>
    refine iff_of_false (fun h => setStep_ne hin.found ?_ (h _ rfl)) fun h => h.2 ?_
    · intro hsame
      have hactive := hin.active
      rw [← hsame] at hactive
      cases hactive
    · exact ⟨_, _, _, hnode, hin, hretry, hback, _, _, hedge, hnext, hblocked⟩
  | completed hin hrunning hkind =>
    refine iff_of_true (fun _ h => nomatch h) ⟨hin.not_leaks_success hrunning, ?_⟩
    rintro ⟨-, hother, -⟩
    rw [hkind] at hother
    cases hother
  | advanced hin hrunning hkind hedge hnext hpending =>
    refine iff_of_true (fun _ h => nomatch h) ⟨hin.not_leaks_success hrunning, ?_⟩
    rintro ⟨-, -, hblocked⟩
    exact hblocked.not_pending hedge hnext hpending
  | retried hnode hin hretry =>
    refine iff_of_true (fun _ h => nomatch h) ⟨hin.not_leaks_failure, ?_⟩
    rintro ⟨node', step', current', hnode', hin', hretry', -⟩
    obtain rfl := Option.some.inj (hnode'.symm.trans hnode)
    obtain ⟨rfl, rfl⟩ := hin.unique hin'
    rw [hretry] at hretry'
    cases hretry'
  | sentBack hnode hin hretry hback =>
    refine iff_of_true (fun _ h => nomatch h) ⟨hin.not_leaks_failure, ?_⟩
    rintro ⟨node', step', current', hnode', -, -, hback', -⟩
    obtain rfl := Option.some.inj (hnode'.symm.trans hnode)
    exact hback' _ _ hback
  | rerouted hnode hin hretry hback hedge hnext hpending =>
    refine iff_of_true (fun _ h => nomatch h) ⟨hin.not_leaks_failure, ?_⟩
    rintro ⟨node', step', current', -, -, -, -, hblocked⟩
    exact hblocked.not_pending hedge hnext hpending
  | failed hnode hin hretry hback hedge =>
    refine iff_of_true (fun _ h => nomatch h) ⟨hin.not_leaks_failure, ?_⟩
    rintro ⟨node', step', current', -, -, -, -, edge, next, hedge', -⟩
    rw [hedge] at hedge'
    cases hedge'
  | touched hin htouch => cases htouch <;> exact iff_of_true (fun _ h => nomatch h) ⟨id, id⟩
  | _ => exact iff_of_true (fun _ h => nomatch h) ⟨id, id⟩

/-- A command that is refused leaves the run as it was, unless it leaks usage or sticks. -/
theorem error_atomic_iff {d : OrchestrationDefinition} (hc : d.compile = .ok c) (hr : ReachableRun c s)
    (command : OrchestrationCommand) : (∀ e, (apply c s command).2 = .error e → (apply c s command).1 = s) ↔
      ¬ LeaksUsage c s command ∧ ¬ Sticks c s command := by
  have hv := valid_of_compile hc
  have hs := sound_of_reachable hv hr
  by_cases hopen : s.status.isTerminal = true
  · rw [apply_terminal hopen]
    refine iff_of_true (fun _ _ => rfl) ⟨fun h => ?_, fun h => ?_⟩
    · cases command with
      | stepSucceeded | stepFailed =>
        have := h.1
        rw [hopen] at this
        cases this
      | _ => cases h
    · have := h.open hs
      rw [hopen] at this
      cases this
  · rw [Bool.not_eq_true] at hopen
    exact atomic_outcome hopen (outcome_apply hv hs hopen command)

end

section

open Sample

def Sample.lateSuccess : OrchestrationCommand := .stepSucceeded "work" 2 .null { usage := { tokens := 5 } }

theorem error_atomic_iff_late : line.compile = .ok (compiled line) ∧ ReachableRun (compiled line) (runOf line opening) ∧
    ((∀ e, (apply (compiled line) (runOf line opening) lateSuccess).2 = .error e →
        (apply (compiled line) (runOf line opening) lateSuccess).1 = runOf line opening) ↔
      ¬ LeaksUsage (compiled line) (runOf line opening) lateSuccess ∧
        ¬ Sticks (compiled line) (runOf line opening) lateSuccess) :=
  ⟨compile_line, reachable_runOf line opening,
    error_atomic_iff compile_line (reachable_runOf line opening) lateSuccess⟩

theorem late_success_is_counted : line.compile = .ok (compiled line) ∧
    ReachableRun (compiled line) (runOf line opening) ∧
    (apply (compiled line) (runOf line opening) lateSuccess).2 =
      .error ⟨"step_not_running", "step work is not running"⟩ ∧
    (apply (compiled line) (runOf line opening) lateSuccess).1 ≠ runOf line opening := by
  refine ⟨compile_line, reachable_runOf line opening, ?_, fun hsame => ?_⟩
  · exact refusal_eq (by decide)
  · have htokens : (apply (compiled line) (runOf line opening) lateSuccess).1.usage.tokens ≠
        (runOf line opening).usage.tokens := by decide
    exact htokens (by rw [hsame])

end

end RustyCore
