import RustyCore.Theorems.Workflow.Runs

/-! The attempts of a step: they are numbered from one in order, only the last can be running, and it is
    exactly while the step is active. -/

namespace RustyCore

open Reducer WorkflowCompiler List OrdMap

/-- The attempts of a step are numbered from one, and only the last can be under way. -/
structure StepRun.Numbered (step : StepRun) : Prop where
  numbers : step.attempts.map (·.attempt) = List.range' 1 step.attempts.length
  past : ∀ a ∈ step.attempts.dropLast, a.status ≠ .running
  last : ∀ a, step.attempts.getLast? = some a → (a.status = .running ↔ step.status.isActive = true)
  unused : ∀ a, step.attempts.getLast? = some a → a.status = .running → a.details.usage = {}

namespace StepRun.Numbered

variable {step step' : StepRun} {current a : StepAttempt}

theorem number (h : step.Numbered) (hlast : step.attempts.getLast? = some current) :
    current.attempt = step.attempts.length := by
  have hsplit := dropLast_append_getLast? current hlast
  have hnumbers := h.numbers
  rw [← hsplit, map_append, length_append, length_singleton, range'_concat] at hnumbers
  have htail := (append_inj_right' hnumbers rfl)
  simp only [map_cons, map_nil, List.cons.injEq, and_true] at htail
  rw [htail, ← hsplit]
  simp [Nat.add_comm]

theorem congr (h : step.Numbered) (hattempts : step'.attempts = step.attempts)
    (hactive : step'.status.isActive = step.status.isActive) : step'.Numbered := by
  obtain ⟨hnumbers, hpast, hlast, hunused⟩ := h
  exact ⟨by rw [hattempts]; exact hnumbers, by rw [hattempts]; exact hpast, by rw [hattempts, hactive]; exact hlast,
    by rw [hattempts]; exact hunused⟩

theorem close (h : step.Numbered) (hlast : step.attempts.getLast? = some current)
    (hattempts : step'.attempts = step.attempts.dropLast ++ [a]) (hnumber : a.attempt = current.attempt)
    (hstatus : a.status ≠ .running) (hidle : step'.status.isActive = false) : step'.Numbered := by
  have hsplit := dropLast_append_getLast? current hlast
  have hnumbers := h.numbers
  rw [← hsplit, map_append, length_append] at hnumbers
  refine ⟨?_, ?_, fun b hb => ?_, fun b hb hrunning => ?_⟩
  · rw [hattempts, map_append, length_append, map_singleton, hnumber]
    exact hnumbers
  · rw [hattempts, dropLast_concat]
    exact h.past
  · rw [hattempts, List.getLast?_concat] at hb
    cases hb
    rw [hidle]
    exact iff_of_false hstatus Bool.noConfusion
  · rw [hattempts, List.getLast?_concat] at hb
    cases hb
    exact absurd hrunning hstatus

theorem admission (h : step.Numbered) (hidle : step.status.isActive = false) (hnumber : a.attempt = step.attempts.length + 1)
    (hunused : a.details.usage = {}) (hstatus : a.status = .running) (hattempts : step'.attempts = step.attempts ++ [a])
    (hactive : step'.status.isActive = true) : step'.Numbered := by
  refine ⟨?_, ?_, fun b hb => ?_, fun b hb _ => ?_⟩
  · rw [hattempts, map_append, length_append, length_singleton, range'_concat, h.numbers,
      map_singleton, hnumber, Nat.one_mul, Nat.add_comm]
  · rw [hattempts, dropLast_concat]
    intro b hb hrunning
    cases hlast : step.attempts.getLast? with
    | none =>
      rw [List.getLast?_eq_none_iff.mp hlast] at hb
      cases hb
    | some last =>
      rw [← dropLast_append_getLast? last hlast] at hb
      rcases mem_append.mp hb with hb | hb
      · exact h.past b hb hrunning
      · rw [mem_singleton.mp hb, h.last last hlast, hidle] at hrunning
        cases hrunning
  · rw [hattempts, List.getLast?_concat] at hb
    cases hb
    exact iff_of_true hstatus hactive
  · rw [hattempts, List.getLast?_concat] at hb
    cases hb
    exact hunused

end StepRun.Numbered

section

variable {c : CompiledOrchestration} {s : OrchestrationRunState} {step : StepRun}

theorem numbered_abandonStep (h : step.Numbered) : (abandonStep step).Numbered := by
  refine h.congr attempts_abandonStep ?_
  rw [Bool.eq_iff_iff]
  exact isActive_abandonStep

theorem numbered_stopStep (h : step.Numbered) : (stopStep step).Numbered := by
  unfold stopStep
  split
  · rename_i current hcurrent
    split
    · exact h.close hcurrent rfl rfl AttemptStatus.noConfusion rfl
    · exact h
  · exact h

theorem numbered_fresh (h : Fresh c s) : ∀ k step, s.steps.get? k = some step → step.Numbered := by
  obtain ⟨runId, options, rfl⟩ := h
  refine forall_mapEntries fun k node hnode => ?_
  exact ⟨rfl, fun a ha => (by cases ha), fun a ha => (by cases ha), fun a ha => (by cases ha)⟩

variable [WorkflowExternals]

theorem numbered_outcome (hv : c.Valid) (hs : Sound c s) (h : ∀ k step, s.steps.get? k = some step → step.Numbered)
    {command : OrchestrationCommand} {applied : Applied} (houtcome : Outcome c s command applied) :
    ∀ k step, applied.1.steps.get? k = some step → step.Numbered := by
  have hset : ∀ {id step'}, StepRun.Numbered step' →
      ∀ k step, (s.setStep id fun _ => step').steps.get? k = some step → step.Numbered :=
    fun hstep => OrchestrationRunState.forall_setStep h fun _ _ => hstep
  have hsucceeded : ∀ {id attempt step current output details}, InFlight c s id attempt step current →
      (succeedStep step current output details).Numbered :=
    fun hin => (h _ _ hin.found).close hin.current_eq rfl rfl AttemptStatus.noConfusion rfl
  have hfailed : ∀ {id attempt step current error details}, InFlight c s id attempt step current →
      (failStep step current error details).Numbered :=
    fun hin => (h _ _ hin.found).close hin.current_eq rfl rfl AttemptStatus.noConfusion rfl
  cases houtcome with
  | rejected | leakedSuccess | leakedFailure | cancellationCompleted | restoredCancelling => exact h
  | stuckSuccess hin | completed hin => exact hset (hsucceeded hin)
  | stuckFailure hnode hin => exact hset (hfailed hin)
  | started hcreated hstep =>
    rw [settle_steps]
    exact hset ((h _ _ hstep).congr rfl (hs.isActive_idle (Or.inr (Or.inr hcreated)) hstep).symm)
  | denied => exact forall_mapEntries fun k st hst => numbered_abandonStep (h k st hst)
  | admitted hready hpaused hstep hstatus hattempt =>
    rw [settle_steps]
    exact hset ((h _ _ hstep).admission (by rw [hstatus]; rfl) hattempt rfl rfl rfl rfl)
  | advanced hin hrunning hkind hedge hnext hpending =>
    rw [settle_steps]
    refine OrchestrationRunState.forall_setStep (hset (hsucceeded hin)) fun _ _ => ?_
    exact (h _ _ hnext).congr rfl (by rw [hpending]; rfl)
  | rerouted hnode hin hretry hback hedge hnext hpending =>
    rw [settle_steps]
    refine OrchestrationRunState.forall_setStep (hset (hfailed hin)) fun _ _ => ?_
    exact (h _ _ hnext).congr rfl (by rw [hpending]; rfl)
  | retried hnode hin =>
    rw [settle_steps]
    exact hset ((hfailed hin).congr rfl rfl)
  | sentBack hnode hin hretry hback hlink =>
    rw [settle_steps]
    refine forall_mapEntries fun k st hst => ?_
    have hidle := hs.isActive_other ⟨_, hin.found, hin.isLive⟩ hst
    unfold sentBackStep
    split
    · rename_i hk
      exact (h k st hst).congr rfl (hidle (hk ▸ hv.ne_of_below hlink.upstream)).symm
    · split
      · exact (hfailed hin).congr rfl rfl
      · rename_i hk
        split
        · exact (h k st hst).congr rfl (hidle hk).symm
        · exact h k st hst
  | failed hnode hin =>
    refine forall_mapEntries fun k st hst => numbered_abandonStep ?_
    exact hset (hfailed hin) k st hst
  | touched hin htouch =>
    rw [settle_steps]
    obtain ⟨hactive, hattempts⟩ := htouch.isActive hin.active
    exact hset ((h _ _ hin.found).congr hattempts (hactive.trans hin.active.symm))
  | checkpointed hin => exact hset ((h _ _ hin.found).congr rfl rfl)
  | woken hstep hstatus =>
    rw [settle_steps]
    exact hset ((h _ _ hstep).congr rfl (by rw [hstatus]; rfl))
  | paused | resumed | restored =>
    rw [settle_steps]
    exact h
  | aborted =>
    refine forall_mapEntries fun k st hst => numbered_abandonStep ?_
    exact forall_mapEntries (fun k st hst => numbered_stopStep (h k st hst)) k st hst
  | cancelling | cancelled =>
    exact forall_mapEntries fun k st hst => numbered_abandonStep (numbered_stopStep (h k st hst))
  | replayed hcancelling hin =>
    rw [settle_steps]
    exact hset ((h _ _ hin.found).close hin.current_eq rfl rfl AttemptStatus.noConfusion rfl)
  | interrupted hcancelling hin =>
    refine forall_mapEntries fun k st hst => numbered_abandonStep ?_
    refine hset ?_ k st hst
    exact (h _ _ hin.found).close hin.current_eq rfl rfl AttemptStatus.noConfusion rfl

theorem numbered_apply (hv : c.Valid) (hs : Sound c s) (h : ∀ k step, s.steps.get? k = some step → step.Numbered)
    (command : OrchestrationCommand) : ∀ k step, (apply c s command).1.steps.get? k = some step → step.Numbered := by
  by_cases hopen : s.status.isTerminal = true
  · rw [apply_terminal hopen]
    exact h
  · rw [Bool.not_eq_true] at hopen
    exact numbered_outcome hv hs h (outcome_apply hv hs hopen command)

end

end RustyCore
