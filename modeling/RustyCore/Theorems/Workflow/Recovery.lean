import RustyCore.Theorems.Workflow.Waiting

/-! Recovery of a run that was interrupted: it always succeeds, leaves nothing in flight, keeps what has
    succeeded, and does nothing to a settled run in which nothing was in flight. -/

namespace RustyCore

open Reducer WorkflowCompiler

/-- What recovery makes of a run. A run that was being cancelled ends cancelled; any other run in which nothing is
    in flight, and whose status is settled, is left as it is. -/
structure Recovered [WorkflowExternals] (c : CompiledOrchestration) (s : OrchestrationRunState) (applied : Applied) :
    Prop where
  accepted : ∃ effects, applied.2 = .ok effects
  idle : ∀ k step, applied.1.steps.get? k = some step → step.status.isActive = false
  kept : ∀ k step, s.steps.get? k = some step → step.status = .succeeded → applied.1.steps.get? k = some step
  interrupted : ∀ k step, s.steps.get? k = some step → step.status.isActive = true → isIndeterminate c k = true →
    applied.1.status = .failed ∧ ∃ step' attempt error, applied.1.steps.get? k = some step' ∧ step'.status = .failed ∧
      step'.error = some error ∧ step'.attempts.getLast? = some attempt ∧ attempt.status = .failed ∧
      attempt.error = some error ∧ error.code = ErrorCodes.indeterminateAttempt
  replayed : ∀ k step, s.steps.get? k = some step → step.status.isActive = true → isIndeterminate c k = false →
    ∃ step', applied.1.steps.get? k = some step' ∧ step'.status = .ready
  unchanged : (∀ k step, s.steps.get? k = some step → step.status.isActive = false) → s.status ≠ .cancelling →
    settle s = s → applied.1 = s
  cancelled : s.status = .cancelling → applied.1.status = .cancelled
  again : (apply c applied.1 .recover).1 = applied.1

section

variable {c : CompiledOrchestration} {s : OrchestrationRunState} {id : OrchestrationNodeId} {attempt : Nat}
  {step : StepRun} {current : StepAttempt}

theorem abandonStep_ended (h : step.status = .succeeded ∨ step.status = .failed) : abandonStep step = step := by
  unfold abandonStep
  rcases h with h | h <;> rw [h]

theorem get?_setStep_succeeded (hin : InFlight c s id attempt step current) {k : OrchestrationNodeId}
    {st step' : StepRun} (hst : s.steps.get? k = some st) (hstatus : st.status = .succeeded) :
    (s.setStep id fun _ => step').steps.get? k = some st := by
  have hne : k ≠ id := by
    rintro rfl
    obtain rfl := Option.some.inj (hst.symm.trans hin.found)
    have hactive := hin.active
    rw [hstatus] at hactive
    cases hactive
  rw [OrchestrationRunState.step_setStep_ne hne, hst]

theorem Sound.inFlight_eq (hs : Sound c s) (hin : InFlight c s id attempt step current) {k : OrchestrationNodeId}
    {st : StepRun} (hst : s.steps.get? k = some st) (hactive : st.status.isActive = true) : k = id :=
  hs.single k id ⟨st, hst, StepStatus.isLive_of_isActive hactive⟩ ⟨step, hin.found, hin.isLive⟩

variable [WorkflowExternals]

theorem recover_settled (hv : c.Valid) (hs : Sound c s) (hopen : s.status.isTerminal = false)
    (hcancelling : s.status ≠ .cancelling) (hidle : ∀ k st, s.steps.get? k = some st → st.status.isActive = false)
    (hsettled : settle s = s) : (apply c s .recover).1 = s := by
  have houtcome := outcome_apply hv hs hopen .recover
  generalize apply c s .recover = applied at houtcome
  cases houtcome with
  | rejected hplain hheeded => exact absurd trivial hheeded
  | restored => exact hsettled
  | restoredCancelling h => exact absurd h hcancelling
  | touched hin htouch => cases htouch
  | replayed _ hin | interrupted _ hin =>
    have hactive := hin.active
    rw [hidle _ _ hin.found] at hactive
    cases hactive

theorem recover_again (hv : c.Valid) {s' : OrchestrationRunState} (hs' : Sound c s')
    (hidle : ∀ k st, s'.steps.get? k = some st → st.status.isActive = false)
    (hover : s'.status.isTerminal = true ∨ (s'.status ≠ .cancelling ∧ settle s' = s')) :
    (apply c s' .recover).1 = s' := by
  by_cases hopen : s'.status.isTerminal = true
  · rw [apply_terminal hopen]
  · obtain ⟨hcancelling, hsettled⟩ := hover.resolve_left hopen
    exact recover_settled hv hs' (by simpa using hopen) hcancelling hidle hsettled

theorem recovered_outcome (hv : c.Valid) (hs : Sound c s) (hopen : s.status.isTerminal = false) {applied : Applied}
    (hs' : Sound c applied.1) (h : Outcome c s .recover applied) : Recovered c s applied := by
  cases h with
  | rejected hplain hheeded => exact absurd trivial hheeded
  | touched hin htouch => cases htouch
  | restoredCancelling hcancelling =>
    have hidle : ∀ k step, s.steps.get? k = some step → step.status.isActive = false :=
      fun k step => hs.isActive_idle (Or.inr (Or.inl hcancelling))
    exact {
      accepted := ⟨_, rfl⟩
      idle := hidle
      kept := fun k step hstep _ => hstep
      interrupted := fun k step hstep hactive => by rw [hidle k step hstep] at hactive; cases hactive
      replayed := fun k step hstep hactive => by rw [hidle k step hstep] at hactive; cases hactive
      unchanged := fun _ h => absurd hcancelling h
      cancelled := fun _ => rfl
      again := recover_again hv hs' hidle (Or.inl rfl) }
  | restored hcancelling hidle =>
    have hidle' : ∀ k step, (settle s).steps.get? k = some step → step.status.isActive = false := by
      rw [settle_steps]
      exact hidle
    exact {
      accepted := ⟨_, rfl⟩
      idle := hidle'
      kept := fun k step hstep _ => by rw [settle_steps]; exact hstep
      interrupted := fun k step hstep hactive => by rw [hidle k step hstep] at hactive; cases hactive
      replayed := fun k step hstep hactive => by rw [hidle k step hstep] at hactive; cases hactive
      unchanged := fun _ _ h => h
      cancelled := fun h => absurd h hcancelling
      again := recover_again hv hs' hidle' (Or.inr ⟨(settle_open hopen hcancelling).2.1, settle_settle⟩) }
  | @replayed id attempt step current hcancelling hin hpure =>
    have hidle : ∀ k st, (settle (s.setStep id fun _ => replayStep step current)).steps.get? k = some st →
        st.status.isActive = false := by
      rw [settle_steps]
      exact hs.none_active hin.found hin.isLive rfl
    have hgoing : Going (settle (s.setStep id fun _ => replayStep step current)).status := settle_open hopen hcancelling
    exact {
      accepted := ⟨_, rfl⟩
      idle := hidle
      kept := fun k st hst hstatus => by rw [settle_steps]; exact get?_setStep_succeeded hin hst hstatus
      interrupted := fun k st hst hactive hkind => by
        rw [hs.inFlight_eq hin hst hactive, hpure] at hkind
        cases hkind
      replayed := fun k st hst hactive _ => by
        rw [hs.inFlight_eq hin hst hactive, settle_steps]
        exact ⟨_, OrchestrationRunState.step_setStep_self hin.found, rfl⟩
      unchanged := fun h => by
        have hactive := hin.active
        rw [h _ _ hin.found] at hactive
        cases hactive
      cancelled := fun h => absurd h hcancelling
      again := recover_again hv hs' hidle (Or.inr ⟨hgoing.2.1, settle_settle⟩) }
  | @interrupted id attempt step current hcancelling hin hunknown =>
    have hidle : ∀ k st, (failedRun (s.setStep id fun _ => failInterrupted (indeterminateError [id]) step current)
        (indeterminateError [id])).steps.get? k = some st → st.status.isActive = false := by
      refine OrdMap.forall_mapEntries fun k st hst => ?_
      rw [← Bool.not_eq_true, isActive_abandonStep, Bool.not_eq_true]
      exact hs.none_active hin.found hin.isLive rfl k st hst
    exact {
      accepted := ⟨_, rfl⟩
      idle := hidle
      kept := fun k st hst hstatus => by
        show (OrdMap.mapEntries _ _).get? k = _
        rw [OrdMap.get?_mapEntries, get?_setStep_succeeded hin hst hstatus, Option.map_some,
          abandonStep_ended (Or.inl hstatus)]
      interrupted := fun k st hst hactive _ => by
        rw [hs.inFlight_eq hin hst hactive]
        refine ⟨rfl, failInterrupted (indeterminateError [id]) step current, _, indeterminateError [id], ?_, rfl, rfl,
          getLast?_setCurrent, rfl, rfl, rfl⟩
        show (OrdMap.mapEntries _ _).get? id = _
        rw [OrdMap.get?_mapEntries, OrchestrationRunState.step_setStep_self hin.found, Option.map_some,
          abandonStep_ended (Or.inr rfl)]
      replayed := fun k st hst hactive hkind => by
        rw [hs.inFlight_eq hin hst hactive, hunknown] at hkind
        cases hkind
      unchanged := fun h => by
        have hactive := hin.active
        rw [h _ _ hin.found] at hactive
        cases hactive
      cancelled := fun h => absurd h hcancelling
      again := recover_again hv hs' hidle (Or.inl rfl) }

/-- Every run that is not over can be recovered. -/
theorem recovery_safe {d : OrchestrationDefinition} (hc : d.compile = .ok c) (hr : ReachableRun c s)
    (hopen : s.status.isTerminal = false) : Recovered c s (apply c s .recover) := by
  have hv := valid_of_compile hc
  have hs := sound_of_reachable hv hr
  exact recovered_outcome hv hs hopen (sound_apply hv hs .recover) (outcome_apply hv hs hopen .recover)

end

section

open Sample

def Sample.cancelledEarly : List OrchestrationCommand := [.start .null, .stepAdmitted "input" 1, .cancel]

def Sample.working : OrchestrationRunState := runOf line (opening ++ [.stepAdmitted "work" 1])

theorem recovery_safe_line : line.compile = .ok (compiled line) ∧ ReachableRun (compiled line) working ∧
    working.status.isTerminal = false ∧ (working.steps.get? "work").any (·.status.isActive) = true ∧
    Recovered (compiled line) working (apply (compiled line) working .recover) :=
  ⟨compile_line, reachable_runOf line _, by decide, by decide,
    recovery_safe compile_line (reachable_runOf line _) (by decide)⟩

/-- Nothing is in flight, and recovery changes the run. -/
theorem recovery_ends_cancellation : line.compile = .ok (compiled line) ∧
    ReachableRun (compiled line) (runOf line cancelledEarly) ∧ (runOf line cancelledEarly).status = .cancelling ∧
    (∀ k step, (runOf line cancelledEarly).steps.get? k = some step → step.status.isActive = false) ∧
    (apply (compiled line) (runOf line cancelledEarly) .recover).1 ≠ runOf line cancelledEarly := by
  have hstatus : (runOf line cancelledEarly).status = .cancelling := by decide
  have hs := sound_of_reachable (valid_of_compile compile_line) (reachable_runOf line cancelledEarly)
  refine ⟨compile_line, reachable_runOf line cancelledEarly, hstatus, fun k step hstep => ?_, fun hsame => ?_⟩
  · exact hs.isActive_idle (Or.inr (Or.inl hstatus)) hstep
  · have hended : (apply (compiled line) (runOf line cancelledEarly) .recover).1.status = .cancelled := by
      decide
    rw [hsame, hstatus] at hended
    cases hended

end

end RustyCore
