import RustyCore.Lib.Except
import RustyCore.Theorems.Workflow.Runs
import RustyCore.Workflow.Retry

/-! A failed run that the user starts again: the steps it resets are those that a send-back would, and the run has
    exactly one step to go on with. Failed runs may have been started again before. -/

namespace RustyCore

open Reducer WorkflowCompiler OrchestrationRunner Option OrdMap

inductive RunInput where
  | command (command : OrchestrationCommand)
  | retry (availableTools : Option (List String)) (runId : OrchestrationRunId) (guidance : String)

def restarted (c : CompiledOrchestration) (s : OrchestrationRunState) (availableTools : Option (List String))
    (runId : OrchestrationRunId) (guidance : String) : OrchestrationRunState :=
  (retryFailed c availableTools s runId guidance).toOption.getD s

def retriable [WorkflowExternals] (c : CompiledOrchestration) : Machine OrchestrationRunState RunInput Empty where
  step s
    | .command command => ((apply c s command).1, [])
    | .retry availableTools runId guidance => (restarted c s availableTools runId guidance, [])

def resetSpan (c : CompiledOrchestration) (s : OrchestrationRunState) (id : OrchestrationNodeId) :
    List OrchestrationNodeId :=
  match repairTarget c s id with
  | some _ => (c.retrySpans.get? id).getD []
  | none => []

/-- What a send-back of the same work leaves of a step and what the retry leaves of it: the same but that the target is
    ready at once, and that a skipped step may run again. -/
structure AsSentBack (target id : OrchestrationNodeId) (sent retried : StepRun) : Prop where
  output : retried.output = sent.output
  checkpoint : retried.checkpoint = sent.checkpoint
  attempts : retried.attempts = sent.attempts
  status : retried.status =
    if id = target then .ready else if sent.status = .skipped then .pending else sent.status

/-- The run can go on from the failed step: one step is ready, none is active, what succeeded outside the span is kept,
    what is in it is reset, and just that, as a send-back resets it. -/
structure Rebuilt (c : CompiledOrchestration) (s : OrchestrationRunState) (id : OrchestrationNodeId)
    (s' : OrchestrationRunState) : Prop where
  status : s'.status = .ready ∧ s'.paused = false
  ready : ∃ resumed, ∀ k, (∃ step, s'.steps.get? k = some step ∧ step.status = .ready) ↔ k = resumed
  idle : ∀ k step, s'.steps.get? k = some step → step.status.isActive = false
  kept : ∀ k step, s.steps.get? k = some step → step.status = .succeeded → k ∉ resetSpan c s id →
    ∃ step', s'.steps.get? k = some step' ∧ step'.status = .succeeded ∧ step'.output = step.output ∧
      step'.attempts = step.attempts
  cleared : ∀ k ∈ resetSpan c s id, ∃ step', s'.steps.get? k = some step' ∧ step'.output = none
  sentBack : ∀ target error, repairTarget c s id = some target → ∃ t effects,
    sendBack c s id target error = (t, .ok effects) ∧ ∀ k step, s.steps.get? k = some step → ∃ sent retried,
      t.steps.get? k = some sent ∧ s'.steps.get? k = some retried ∧ AsSentBack target k sent retried

variable {c : CompiledOrchestration} {s s' : OrchestrationRunState} {id k target : OrchestrationNodeId} {step : StepRun}

theorem foldl_setStep {f : OrchestrationNodeId → StepRun → StepRun} (hf : ∀ k st, f k (f k st) = f k st)
    (span : List OrchestrationNodeId) (s : OrchestrationRunState) :
    span.foldl (fun s id => s.setStep id (f id)) s =
      { s with steps := s.steps.mapEntries fun k st => if k ∈ span then f k st else st } := by
  induction span generalizing s with
  | nil =>
    have hsame : (s.steps.mapEntries fun k st => if k ∈ ([] : List OrchestrationNodeId) then f k st else st) = s.steps :=
      ext_get? fun k => by simp [OrdMap.get?_mapEntries]
    rw [List.foldl_nil, hsame]
  | cons id span ih =>
    have hsteps : ((s.setStep id (f id)).steps.mapEntries fun k st => if k ∈ span then f k st else st) =
        s.steps.mapEntries fun k st => if k ∈ id :: span then f k st else st := by
      refine ext_get? fun k => ?_
      rw [OrdMap.get?_mapEntries, OrdMap.get?_mapEntries, OrchestrationRunState.step_setStep]
      by_cases hk : k = id
      · subst hk
        cases s.steps.get? k with
        | none => simp
        | some st => by_cases hin : k ∈ span <;> simp [hin, hf]
      · simp [hk]
    rw [List.foldl_cons, ih, hsteps]
    rfl

def retriedStep (c : CompiledOrchestration) (s : OrchestrationRunState) (id : OrchestrationNodeId) (guidance : String)
    (k : OrchestrationNodeId) (step : StepRun) : StepRun :=
  let resumed := (repairTarget c s id).getD id
  let step := if k = id then { step with error := none } else step
  let step := if k ∈ resetSpan c s id then resetSpanStep resumed k step else step
  reopenStep (if k = resumed then continueStep ((s.steps.get? id).bind (·.error)) guidance step else step)

theorem takeFailedCheckpoint_ok {s₁ : OrchestrationRunState} (h : takeFailedCheckpoint s = .ok (s₁, id)) :
    ∃ step, s.status = .failed ∧ s.failedStep = some id ∧ s.steps.get? id = some step ∧ step.status = .failed ∧
      s₁ = { s with failedStep := none } := by
  unfold takeFailedCheckpoint at h
  split at h
  · cases h
  rename_i hstatus
  split at h
  · cases h
  rename_i found hfailed
  split at h
  · cases h
  rename_i step hstep
  split at h
  · cases h
  rename_i hstepFailed
  cases h
  exact ⟨step, not_not.mp hstatus, hfailed, hstep, not_not.mp hstepFailed, rfl⟩

variable {guidance : String}

theorem retryFailed_ok {availableTools : Option (List String)} {runId : OrchestrationRunId}
    (h : retryFailed c availableTools s runId guidance = .ok s') :
    ∃ id step, s.status = .failed ∧ s.failedStep = some id ∧ s.steps.get? id = some step ∧ step.status = .failed ∧
      s'.steps = s.steps.mapEntries (retriedStep c s id guidance) ∧ s'.status = .ready ∧ s'.paused = false ∧
      KeepsIdent s s' := by
  unfold retryFailed at h
  obtain ⟨-, -, h⟩ := Except.ok_of_bind h
  obtain ⟨-, -, h⟩ := Except.ok_of_bind h
  obtain ⟨⟨s₁, id⟩, htake, h⟩ := Except.ok_of_bind h
  obtain ⟨step, hstatus, hfailed, hstep, hstepFailed, rfl⟩ := takeFailedCheckpoint_ok htake
  refine ⟨id, step, hstatus, hfailed, hstep, hstepFailed, ?_⟩
  dsimp only at h
  rw [show repairTarget c { s with failedStep := none } id = repairTarget c s id from rfl] at h
  have hresumed : ∀ k, retriedStep c s id guidance k = fun step =>
      let resumed := (repairTarget c s id).getD id
      let step := if k = id then { step with error := none } else step
      let step := if k ∈ resetSpan c s id then resetSpanStep resumed k step else step
      reopenStep (if k = resumed then continueStep ((s.steps.get? id).bind (·.error)) guidance step else step) :=
    fun k => rfl
  rcases htarget : repairTarget c s id with _ | target
  · rw [htarget] at h
    cases h
    refine ⟨ext_get? fun k => ?_, rfl, rfl, rfl, rfl, rfl⟩
    simp only [reopenRun, OrdMap.get?_mapEntries, OrchestrationRunState.step_setStep, hresumed, resetSpan, htarget]
    by_cases hk : k = id <;> simp [hk, Function.comp_def]
  · have hreset : ∀ k st, resetSpanStep target k (resetSpanStep target k st) = resetSpanStep target k st := by
      intro k st
      by_cases hk : k = target <;> simp [resetSpanStep, hk]
    rw [htarget] at h
    simp only [resetRetrySpan, foldl_setStep hreset] at h
    cases h
    refine ⟨ext_get? fun k => ?_, rfl, rfl, rfl, rfl, rfl⟩
    simp only [reopenRun, OrdMap.get?_mapEntries, OrchestrationRunState.step_setStep, hresumed, resetSpan, htarget]
    cases s.steps.get? k with
    | none => simp
    | some st =>
      by_cases hk : k = id
      · subst hk
        by_cases hkt : k = target <;> simp [hkt]
      · by_cases hkt : k = target
        · subst hkt
          simp [hk]
        · simp [hk, hkt]

theorem status_retriedStep : (retriedStep c s id guidance k step).status =
    if k = (repairTarget c s id).getD id then .ready
    else if k ∈ resetSpan c s id ∨ step.status = .skipped then .pending else step.status := by
  by_cases hresumed : k = (repairTarget c s id).getD id
  · rw [if_pos hresumed, retriedStep, if_pos hresumed]
    rfl
  · rw [if_neg hresumed, retriedStep, if_neg hresumed]
    by_cases hin : k ∈ resetSpan c s id
    · simp [hin, reopenStep, resetSpanStep]
    · rw [if_neg hin, reopenStep]
      split_ifs <;> simp_all

theorem output_reopenStep : (reopenStep step).output = step.output := by
  unfold reopenStep
  split <;> rfl

theorem checkpoint_reopenStep : (reopenStep step).checkpoint = step.checkpoint := by
  unfold reopenStep
  split <;> rfl

theorem attempts_reopenStep : (reopenStep step).attempts = step.attempts := by
  unfold reopenStep
  split <;> rfl

theorem output_retriedStep : (retriedStep c s id guidance k step).output =
    if k ∈ resetSpan c s id then none else step.output := by
  rw [retriedStep, output_reopenStep]
  split_ifs <;> rfl

theorem checkpoint_retriedStep : (retriedStep c s id guidance k step).checkpoint =
    if k ∈ resetSpan c s id ∧ k ≠ (repairTarget c s id).getD id then none else step.checkpoint := by
  rw [retriedStep, checkpoint_reopenStep]
  by_cases hresumed : k = (repairTarget c s id).getD id
  · rw [if_pos hresumed, if_neg (not_and_not_right.mpr fun _ => hresumed), continueStep]
    dsimp only
    split_ifs with hk hin <;> simp [resetSpanStep, hresumed]
  · rw [if_neg hresumed]
    simp only [ne_eq, hresumed, not_false_eq_true, and_true]
    split_ifs <;> simp [resetSpanStep, hresumed]

theorem attempts_retriedStep : (retriedStep c s id guidance k step).attempts = step.attempts := by
  rw [retriedStep, attempts_reopenStep]
  split_ifs <;> rfl

theorem ready_retriedStep (hlive : step.status.isLive = false) :
    (retriedStep c s id guidance k step).status.isActive = false ∧
      ((retriedStep c s id guidance k step).status.isLive = true ↔ k = (repairTarget c s id).getD id) ∧
      ((retriedStep c s id guidance k step).status = .ready ↔ k = (repairTarget c s id).getD id) := by
  rw [status_retriedStep]
  by_cases hresumed : k = (repairTarget c s id).getD id
  · simp [hresumed, StepStatus.isLive, StepStatus.isActive]
  · by_cases hpending : k ∈ resetSpan c s id ∨ step.status = .skipped
    · simp [hresumed, hpending, StepStatus.isLive, StepStatus.isActive]
    · have hidle : step.status ≠ .ready ∧ step.status.isActive = false := by
        simp only [StepStatus.isLive, Bool.or_eq_false_iff, decide_eq_false_iff_not] at hlive
        exact ⟨hlive.1.1, hlive.2⟩
      simp [hresumed, hpending, hlive, hidle]

theorem Sound.notLive (hs : Sound c s) (hfailed : s.status = .failed) (hstep : s.steps.get? k = some step) :
    step.status.isLive = false := by
  by_contra hlive
  exact hs.idle (Or.inl (by rw [hfailed]; rfl)) k ⟨step, hstep, by simpa using hlive⟩

theorem sound_restarted {availableTools : Option (List String)} {runId : OrchestrationRunId}
    (hs : Sound c s) : Sound c (restarted c s availableTools runId guidance) := by
  unfold restarted
  cases h : retryFailed c availableTools s runId guidance with
  | error e => exact hs
  | ok s' =>
    change Sound c s'
    obtain ⟨id, -, hfailed, -, -, -, hsteps, hstatus, -, hident⟩ := retryFailed_ok h
    refine hs.next hident ?_ ?_ (Or.inr ⟨(repairTarget c s id).getD id, ?_, ?_⟩)
    · rw [hsteps, keys_mapEntries]
    · intro k step hstep hactive
      rw [hsteps, OrdMap.get?_mapEntries] at hstep
      obtain ⟨st, hst, rfl⟩ := map_eq_some_iff.mp hstep
      rw [(ready_retriedStep (hs.notLive hfailed hst)).1] at hactive
      cases hactive
    · rintro a ⟨step, hstep, hlive⟩
      rw [hsteps, OrdMap.get?_mapEntries] at hstep
      obtain ⟨st, hst, rfl⟩ := map_eq_some_iff.mp hstep
      exact (ready_retriedStep (hs.notLive hfailed hst)).2.1.mp hlive
    · rw [hstatus]
      exact ⟨rfl, nofun, nofun⟩

theorem sound_of_retriable [WorkflowExternals] (hv : c.Valid) (hr : (retriable c).Reachable (Fresh c) s) :
    Sound c s := by
  refine hr.invariant (fun _ => sound_fresh) fun s input hs => ?_
  cases input with
  | command command => exact sound_apply hv hs command
  | retry availableTools runId guidance => exact sound_restarted hs

theorem repairTarget_eq_some (h : repairTarget c s id = some target) :
    ∃ node config, c.node id = some node ∧ node.kind = .verify config ∧ config.retryTarget = some target := by
  unfold repairTarget at h
  split at h
  · rename_i config hkind
    obtain ⟨node, hnode, hkind⟩ := map_eq_some_iff.mp hkind
    dsimp only at h
    split at h
    · exact ⟨node, config, hnode, hkind, h⟩
    · cases h
  · cases h

theorem link_of_repairTarget (hv : c.Valid) (h : repairTarget c s id = some target) :
    ∃ span, c.Link id target span := by
  obtain ⟨node, config, hnode, hkind, htarget⟩ := repairTarget_eq_some h
  exact hv.linked id node hnode ⟨target, "retry_target", true⟩ (by simp [retryLink, hkind, htarget])

theorem asSentBack {span : List OrchestrationNodeId} (error : OrchestrationError)
    (htarget : repairTarget c s id = some target) (hspan : resetSpan c s id = span) (hin : target ∈ span) :
    AsSentBack target k
      (if k = target then targetStep target error false step else if k ∈ span then resetStep target k step else step)
      (retriedStep c s id guidance k step) := by
  have hresumed : (repairTarget c s id).getD id = target := by rw [htarget]; rfl
  by_cases hk : k = target
  · subst hk
    refine ⟨?_, ?_, ?_, ?_⟩
    · rw [output_retriedStep, hspan]
      simp [hin, targetStep, resetStep]
    · rw [checkpoint_retriedStep, hresumed]
      simp [targetStep, resetStep]
    · rw [attempts_retriedStep]
      simp [targetStep, resetStep]
    · rw [status_retriedStep, hresumed]
      simp
  · refine ⟨?_, ?_, ?_, ?_⟩
    · rw [output_retriedStep, hspan]
      by_cases hmem : k ∈ span <;> simp [hk, hmem, resetStep]
    · rw [checkpoint_retriedStep, hresumed, hspan]
      by_cases hmem : k ∈ span <;> simp [hk, hmem, resetStep]
    · rw [attempts_retriedStep]
      by_cases hmem : k ∈ span <;> simp [hk, hmem, resetStep]
    · rw [status_retriedStep, hresumed, hspan]
      by_cases hmem : k ∈ span <;> simp [hk, hmem, resetStep]

/-- An accepted retry of a failed run leaves it ready to go on from the failed step. -/
theorem retry_rebuilds [WorkflowExternals] {d : OrchestrationDefinition} (hc : d.compile = .ok c)
    (hr : (retriable c).Reachable (Fresh c) s) {availableTools : Option (List String)} {runId : OrchestrationRunId}
    {guidance : String} (h : retryFailed c availableTools s runId guidance = .ok s') :
    s.status = .failed ∧ ∃ id, s.failedStep = some id ∧ Rebuilt c s id s' := by
  have hv := valid_of_compile hc
  have hs := sound_of_retriable hv hr
  obtain ⟨id, failed, hfailed, hid, hstepFailed, hstatusFailed, hsteps, hstatus, hpaused, -⟩ := retryFailed_ok h
  have hlinked : ∀ target, repairTarget c s id = some target →
      ∃ span, c.Link id target span ∧ resetSpan c s id = span := by
    intro target htarget
    obtain ⟨span, hlink⟩ := link_of_repairTarget hv htarget
    exact ⟨span, hlink, by rw [resetSpan, htarget, hlink.span_eq]; rfl⟩
  have htargetIn : ∀ target, repairTarget c s id = some target → target ∈ resetSpan c s id := by
    intro target htarget
    obtain ⟨span, hlink, rfl⟩ := hlinked target htarget
    exact (hlink.mem_span target).mpr (Or.inr (Or.inl rfl))
  have hget : ∀ k, s'.steps.get? k = (s.steps.get? k).map (retriedStep c s id guidance k) := by
    intro k
    rw [hsteps, OrdMap.get?_mapEntries]
  have hresumed : ∃ step, s.steps.get? ((repairTarget c s id).getD id) = some step := by
    cases htarget : repairTarget c s id with
    | none => exact ⟨failed, hstepFailed⟩
    | some target =>
      obtain ⟨span, hlink, -⟩ := hlinked target htarget
      exact hs.exists_step hlink.target_node
  refine ⟨hfailed, id, hid, ⟨hstatus, hpaused⟩, ⟨(repairTarget c s id).getD id, fun k => ⟨?_, ?_⟩⟩, ?_, ?_, ?_, ?_⟩
  · rintro ⟨step, hstep, hready⟩
    rw [hget] at hstep
    obtain ⟨st, hst, rfl⟩ := map_eq_some_iff.mp hstep
    exact (ready_retriedStep (hs.notLive hfailed hst)).2.2.mp hready
  · rintro rfl
    obtain ⟨step, hstep⟩ := hresumed
    exact ⟨_, by rw [hget, hstep]; rfl, (ready_retriedStep (hs.notLive hfailed hstep)).2.2.mpr rfl⟩
  · intro k step hstep
    rw [hget] at hstep
    obtain ⟨st, hst, rfl⟩ := map_eq_some_iff.mp hstep
    exact (ready_retriedStep (hs.notLive hfailed hst)).1
  · intro k step hstep hsucceeded houtside
    refine ⟨_, by rw [hget, hstep]; rfl, ?_, by rw [output_retriedStep, if_neg houtside], attempts_retriedStep⟩
    have hother : k ≠ (repairTarget c s id).getD id := by
      rintro rfl
      cases htarget : repairTarget c s id with
      | none =>
        rw [htarget, getD_none, hstepFailed] at hstep
        cases hstep
        rw [hstatusFailed] at hsucceeded
        cases hsucceeded
      | some target => exact houtside (by rw [htarget]; exact htargetIn target htarget)
    rw [status_retriedStep, if_neg hother, if_neg (by simp [houtside, hsucceeded]), hsucceeded]
  · intro k hk
    obtain ⟨target, htarget⟩ : ∃ target, repairTarget c s id = some target := by
      rw [← isSome_iff_exists, isSome_iff_ne_none]
      intro hnone
      rw [resetSpan, hnone] at hk
      cases hk
    obtain ⟨span, hlink, hspan⟩ := hlinked target htarget
    obtain ⟨step, hstep⟩ := hs.exists_step (hlink.span_mem hv (hspan ▸ hk))
    exact ⟨_, by rw [hget, hstep]; rfl, by rw [output_retriedStep, if_pos hk]⟩
  · intro target error htarget
    obtain ⟨span, hlink, hspan⟩ := hlinked target htarget
    obtain ⟨effects, -, heq⟩ := sendBack_eq (s := s) error hv hlink hs.keys
    refine ⟨_, effects, heq, fun k step hstep => ⟨_, _, ?_, by rw [hget, hstep]; rfl,
      asSentBack error htarget hspan (hspan ▸ htargetIn target htarget)⟩⟩
    rw [settle_steps, OrdMap.get?_mapEntries, hstep]
    rfl

namespace Sample

def checkedWork : OrchestrationDefinition :=
  workflow [agentNode "plan" {} [], agentNode "work" ⟨2, [.verificationFailed]⟩ [], verifyNode "check" "work"]
    [edge "input" "plan" .onSuccess, edge "plan" "work" .onSuccess, edge "work" "check" .onSuccess,
      edge "check" "output" .onSuccess]

theorem compile_checkedWork : checkedWork.compile = .ok (compiled checkedWork) :=
  compile_eq_compiled (by decide) (by decide)

def rejected (attempt : Nat) : OrchestrationCommand :=
  .stepFailed "check" attempt ⟨"verification_failed", "no artifact", some .verificationFailed⟩ {}

def rejectedWork : List RunInput :=
  (opening ++ [.stepAdmitted "plan" 1, succeeded "plan" 1, .stepAdmitted "work" 1, succeeded "work" 1,
    .stepAdmitted "check" 1, rejected 1, .retryStep "work", .stepAdmitted "work" 2, succeeded "work" 2,
    .stepAdmitted "check" 2, rejected 2]).map .command

def rejectedRun : OrchestrationRunState :=
  (retriable (compiled checkedWork)).run (.new "run" (compiled checkedWork)) rejectedWork

theorem reachable_rejectedRun : (retriable (compiled checkedWork)).Reachable (Fresh (compiled checkedWork)) rejectedRun :=
  Machine.Reachable.run (.start ⟨"run", {}, rfl⟩) rejectedWork

/-- The plan is kept, and the work and its check are done again. -/
theorem rejectedRun_rebuilt : ∃ s', retryFailed (compiled checkedWork) none rejectedRun "again" "go on" = .ok s' ∧
    resetSpan (compiled checkedWork) rejectedRun "check" = ["work", "check"] ∧ rejectedRun.status = .failed ∧
    ∃ id, rejectedRun.failedStep = some id ∧ Rebuilt (compiled checkedWork) rejectedRun id s' := by
  have haccepted : (retryFailed (compiled checkedWork) none rejectedRun "again" "go on").toOption.isSome = true := by
    decide
  cases h : retryFailed (compiled checkedWork) none rejectedRun "again" "go on" with
  | error e =>
    rw [h] at haccepted
    cases haccepted
  | ok s' => exact ⟨s', rfl, by decide, retry_rebuilds compile_checkedWork reachable_rejectedRun h⟩

end Sample

end RustyCore
