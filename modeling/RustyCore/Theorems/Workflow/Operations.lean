import RustyCore.Theorems.Workflow.Outcome

/-! Every operation of the reducer, and so every command, has one of the outcomes listed. -/

namespace RustyCore

open Reducer WorkflowCompiler

namespace Reducer

variable {c : CompiledOrchestration} {s : OrchestrationRunState} {id k : OrchestrationNodeId} {attempt : Nat}
  {details : AttemptDetails} {error : OrchestrationError}

theorem emits_append {es fs : List OrchestrationEffect} (h : Emits es) (h' : Emits fs) : Emits (es ++ fs) := by
  intro e he
  rcases List.mem_append.mp he with he | he
  · exact h e he
  · exact h' e he

theorem recordUsage_spec [WorkflowExternals] (s : OrchestrationRunState) (details : AttemptDetails) :
    ∃ effect, recordUsage s details = (spend s details, effect) ∧ Emits effect.toList := by
  refine ⟨(recordUsage s details).2, Prod.ext recordUsage_eq rfl, ?_⟩
  unfold recordUsage
  split <;> simp [Emits]

variable {current : StepAttempt} {step : StepRun}

theorem inFlight_spend [WorkflowExternals] :
    InFlight c (spend s details) id attempt step current ↔ InFlight c s id attempt step current := InFlight.usage

variable {target : OrchestrationNodeId}

/-- A route wakes its target when that is pending, and is refused otherwise. -/
theorem follow_eq {condition : EdgeCondition} {next : StepRun}
    {es : List OrchestrationEffect} (hnext : s.steps.get? target = some next) :
    (next.status = .pending ∧ ∃ fs, Emits fs ∧ follow s id target condition es =
      (settle (s.setStep target fun _ => { next with status := .ready }), .ok (es ++ fs))) ∨
    (next.status ≠ .pending ∧ ∃ e : TransitionError, e.code = "target_not_pending" ∧
      follow s id target condition es = (s, .error e)) := by
  by_cases hpending : next.status = .pending
  · refine Or.inl ⟨hpending, [.emit (.transitionSelected id target condition), .emit (.stepReady target)], ?_, ?_⟩
    · simp [Emits]
    · simp [follow, activate, stepState_eq hnext, hpending]
  · refine Or.inr ⟨hpending, ⟨"target_not_pending", "target step " ++ target ++ " is not pending"⟩, rfl, ?_⟩
    simp [follow, activate, stepState_eq hnext, hpending]

/-- Sending back resets the steps of the span and gives the target the error as feedback. -/
theorem sendBack_eq (error : OrchestrationError) (hv : c.Valid) {source target : OrchestrationNodeId} {span : List OrchestrationNodeId}
    (hlink : c.Link source target span) (hkeys : s.steps.keys = c.nodes.keys) :
    ∃ es, Emits es ∧ sendBack c s source target error =
      (settle { s with steps := s.steps.mapEntries fun k st =>
        if k = target then targetStep target error false st
        else if k ∈ span then resetStep target k st else st }, .ok es) := by
  have hinside : ∀ k ∈ span, k ∈ s.steps.keys := fun k hk => hkeys ▸ hlink.span_mem hv hk
  obtain ⟨step, hstep⟩ := OrdMap.exists_get? (hinside target ((hlink.mem_span target).mpr (Or.inr (Or.inl rfl))))
  have hreset : ∀ k st, resetStep target k (resetStep target k st) = resetStep target k st := by
    intro k st
    by_cases hk : k = target <;> simp [resetStep, hk]
  have htarget : target ∈ span := (hlink.mem_span target).mpr (Or.inr (Or.inl rfl))
  have hfound : (s.steps.mapEntries fun k st => if k ∈ span then resetStep target k st else st).get? target =
      some (resetStep target target step) := by
    simp [OrdMap.get?_mapEntries, hstep, htarget]
  have hsteps : ((s.steps.mapEntries fun k st => if k ∈ span then resetStep target k st else st).modify target fun _ =>
      targetStep target error false step) = s.steps.mapEntries fun k st =>
        if k = target then targetStep target error false st
        else if k ∈ span then resetStep target k st else st := by
    refine OrdMap.ext_get? fun k => ?_
    rw [OrdMap.get?_modify, OrdMap.get?_mapEntries, OrdMap.get?_mapEntries]
    by_cases hk : k = target
    · subst hk
      simp [hstep]
    · simp [hk]
  refine ⟨[.emit (.stepRetryScheduled target (step.attempts.length + 1) source)], by simp [Emits], ?_⟩
  have hstate : stepState ({ s with
      steps := s.steps.mapEntries fun k st => if k ∈ span then resetStep target k st else st } : OrchestrationRunState)
      target = .ok (resetStep target target step) := stepState_eq hfound
  rw [sendBack, hlink.span_eq, Option.getD_some, eachStep_eq hreset hinside]
  dsimp only
  rw [hstate, ← hsteps]
  rfl

/-- The three updates of a send-back, as one update of every step. -/
theorem sentBack_steps (error : OrchestrationError) {target : OrchestrationNodeId} {span : List OrchestrationNodeId} {failed : StepRun}
    (hlink : c.Link id target span) (hne : target ≠ id) {revise : Bool} {step : StepRun}
    (hstep : s.steps.get? target = some step) :
    (((s.setStep id fun _ => failed).steps.modify target fun st =>
        { st with retryBase := if revise then st.attempts.length else st.retryBase }).mapEntries fun k st =>
      if k = target then targetStep target error false st
      else if k ∈ span then resetStep target k st else st) =
    s.steps.mapEntries (sentBackStep id target span failed error revise) := by
  refine OrdMap.ext_get? fun k => ?_
  have hid : id ∈ span := (hlink.mem_span id).mpr (Or.inr (Or.inr rfl))
  rw [OrdMap.get?_mapEntries, OrdMap.get?_mapEntries, OrdMap.get?_modify, OrchestrationRunState.step_setStep]
  by_cases hk : k = target
  · subst hk
    rw [if_pos rfl, if_neg hne, hstep]
    simp [sentBackStep, targetStep, resetStep]
  · rw [if_neg hk]
    by_cases hki : k = id
    · subst hki
      rw [if_pos rfl, Option.map_map]
      cases s.steps.get? k with
      | none => rfl
      | some st => simp [sentBackStep, hk, hid]
    · rw [if_neg hki]
      cases s.steps.get? k with
      | none => rfl
      | some st => simp [sentBackStep, hk, hki]

variable {node : OrchestrationNode}

theorem link_of_retryTarget (hv : c.Valid)
    (hnode : c.node id = some node) (h : retryTarget node error = some target) : ∃ span, c.Link id target span := by
  unfold retryTarget at h
  split at h
  · rename_i config hkind hreason
    exact hv.linked id node hnode ⟨target, "retry_target", true⟩ (by simp [retryLink, hkind, h])
  · cases h

theorem link_of_reviseTarget (hv : c.Valid)
    (hnode : c.node id = some node) (h : reviseTarget node error attempt = some target)
    (hspan : c.retrySpans.contains id = true) : ∃ span, c.Link id target span := by
  unfold reviseTarget at h
  split at h
  · rename_i config hkind hreason
    split at h
    · exact hv.linked id node hnode ⟨target, "revise_target", false⟩ (by simp [retryLink, hkind, h])
    · cases h
  · rename_i config hkind hreason
    -- The step has a span, so its plan comes from an agent step, which is the target.
    obtain ⟨span, hspan⟩ := Option.isSome_iff_exists.mp hspan
    obtain ⟨node', link, hnode', hlink⟩ := hv.link_of_span id span hspan
    have hsame : some node' = some node := hnode'.symm.trans hnode
    cases hsame
    have htargetId : link.targetId = target := by
      simp only [retryLink, hkind, h, Option.bind_some] at hlink
      split at hlink
      · cases hlink
        rfl
      · cases hlink
    obtain ⟨span, hgood⟩ := hv.linked id node hnode link hlink
    exact ⟨span, htargetId ▸ hgood⟩
  · cases h

/-- The target of a send-back is one the compiler has linked. -/
theorem SendsBack.link [WorkflowExternals] (hv : c.Valid)
    {revise : Bool} (hnode : c.node id = some node)
    (h : SendsBack c s id attempt error details node target revise) : ∃ span, c.Link id target span := by
  cases h with
  | retry htarget => exact link_of_retryTarget hv hnode htarget
  | revise htarget hspan => exact link_of_reviseTarget hv hnode htarget hspan

/-- A step is tried again when its policy allows this attempt another one. -/
theorem retrySameStep_eq {failed : StepRun} {budget : Bool} (hid : id ∈ s.steps.keys) :
    retrySameStep (s.setStep id fun _ => failed) ⟨c, node, id, attempt, error, budget⟩ =
      if retriesSame node.retry error attempt failed.retryBase budget then
        some (settle (s.setStep id fun _ =>
            { failed with status := .retryScheduled, feedback := failed.feedback ++ [error] }),
          .ok [.emit (.stepRetryScheduled id (attempt + 1) id)])
      else none := by
  obtain ⟨step, hstep⟩ := OrdMap.exists_get? hid
  have hstate : stepState (s.setStep id fun _ => failed) id = .ok failed :=
    stepState_eq (OrchestrationRunState.step_setStep_self hstep)
  simp only [retrySameStep, hstate, OrchestrationRunState.setStep_setStep]

variable [WorkflowExternals]

theorem outcome_start (hv : c.Valid) (hs : Sound c s) (input : Value) :
    Outcome c s (.start input) (start c s input) := by
  by_cases hcreated : s.status = .created
  · obtain ⟨step, hstep⟩ := hs.exists_step hv.entry
    have hstart : start c s input =
        (settle (({ s with input := some input } : OrchestrationRunState).setStep c.entryNode fun _ =>
          { step with status := .ready }), .ok [.emit .runStarted, .emit (.stepReady c.entryNode)]) := by
      simp [start, requireStatus, hcreated, stepState, hstep]
    rw [hstart]
    exact .started hcreated hstep (by simp [Emits])
  · have hstart : start c s input = (s, .error ⟨"invalid_run_status",
        "expected run status " ++ OrchestrationStatus.created.debug ++ ", got " ++ s.status.debug⟩) := by
      simp [start, requireStatus, hcreated]
    rw [hstart]
    exact .rejected (by simp [Plain]) (by simp [Heeded])

theorem outcome_admitStep : Outcome c s (.stepAdmitted id attempt) (admitStep c s id attempt) := by
  unfold admitStep
  split
  · exact .rejected (by simp [Plain]) (by simp [Heeded])
  · rename_i hopen
    have hready : s.status = .ready ∧ s.paused = false := by simpa using hopen
    split
    · rename_i e he
      exact .rejected (stepMut_error he) (by simp [Heeded])
    · rename_i step hstep
      split
      · exact .rejected (by simp [Plain]) (by simp [Heeded])
      · rename_i hstatus
        split
        · exact .rejected (by simp [Plain]) (by simp [Heeded])
        · rename_i hattempt
          have hfound := (stepMut_ok hstep).2
          split
          · exact .denied hready.1 hready.2 hfound (not_not.mp hstatus)
          · rename_i hbudget
            exact .admitted hready.1 hready.2 hfound (not_not.mp hstatus) (not_not.mp hattempt) hbudget

theorem outcome_retry : Outcome c s (.retryStep id) (retry c s id) := by
  unfold retry
  split
  · rename_i e he
    exact .rejected (stepMut_error he) (by simp [Heeded])
  · rename_i step hstep
    split
    · exact .rejected (by simp [Plain]) (by simp [Heeded])
    · rename_i hstatus
      exact .woken (stepMut_ok hstep).2 (not_not.mp hstatus)

theorem outcome_permissionRequired {permissionId : String} :
    Outcome c s (.permissionRequired id attempt permissionId) (permissionRequired c s id attempt permissionId) := by
  unfold permissionRequired
  split
  · rename_i e he
    exact .rejected (activeAttempt_error he).1 (by simp [Heeded])
  · rename_i step hstep
    obtain ⟨current, hin⟩ := activeAttempt_ok.mp hstep
    split
    · exact .rejected (by simp [Plain]) (by simp [Heeded])
    · rename_i hnew
      exact .touched hin (.permissionRequired (by simpa using hnew))

theorem outcome_permissionResolved {permissionId : String} {approved : Bool} :
    Outcome c s (.permissionResolved id attempt permissionId approved)
      (permissionResolved c s id attempt permissionId approved) := by
  unfold permissionResolved
  split
  · rename_i e he
    exact .rejected (activeAttempt_error he).1 (by simp [Heeded])
  · rename_i step hstep
    obtain ⟨current, hin⟩ := activeAttempt_ok.mp hstep
    split
    · exact .rejected (by simp [Plain]) (by simp [Heeded])
    · rename_i hmem
      exact .touched hin (.permissionResolved (by simpa using hmem))

theorem outcome_inputRequired {request : InputRequest} :
    Outcome c s (.inputRequired id attempt request) (inputRequired c s id attempt request) := by
  unfold inputRequired
  split
  · rename_i e he
    exact .rejected (activeAttempt_error he).1 (by simp [Heeded])
  · rename_i step hstep
    obtain ⟨current, hin⟩ := activeAttempt_ok.mp hstep
    split
    · exact .rejected (by simp [Plain]) (by simp [Heeded])
    · rename_i hnone
      split
      · exact .rejected (by simp [Plain]) (by simp [Heeded])
      · exact .touched hin (.inputRequired (by simpa using hnone))

theorem outcome_inputResolved {requestId : String} {response : InputResponse} :
    Outcome c s (.inputResolved id attempt requestId response) (inputResolved c s id attempt requestId response) := by
  unfold inputResolved
  split
  · rename_i e he
    exact .rejected (activeAttempt_error he).1 (by simp [Heeded])
  · rename_i step hstep
    obtain ⟨current, hin⟩ := activeAttempt_ok.mp hstep
    split
    · exact .rejected (by simp [Plain]) (by simp [Heeded])
    · rename_i request hrequest
      split
      · exact .rejected (by simp [Plain]) (by simp [Heeded])
      · split
        · exact .rejected (by simp [Plain]) (by simp [Heeded])
        · exact .touched hin (.inputResolved (Option.filter_eq_some_iff.mp hrequest).1)

theorem outcome_recordCheckpoint {value : Value} :
    Outcome c s (.recordCheckpoint id attempt value) (recordCheckpoint c s id attempt value) := by
  unfold recordCheckpoint
  split
  · rename_i e he
    exact .rejected (activeAttempt_error he).1 (by simp [Heeded])
  · rename_i step hstep
    obtain ⟨current, hin⟩ := activeAttempt_ok.mp hstep
    exact .checkpointed hin

theorem outcome_pause : Outcome c s .pause (pause s) := by
  unfold pause
  split
  · exact .rejected (by simp [Plain]) (by simp [Heeded])
  · rename_i hpaused
    split
    · exact .rejected (by simp [Plain]) (by simp [Heeded])
    · rename_i hstatus
      rw [not_or] at hstatus
      exact .paused (by simpa using hpaused) hstatus.1 hstatus.2

theorem outcome_resume : Outcome c s .resume (resume s) := by
  unfold resume
  split
  · exact .rejected (by simp [Plain]) (by simp [Heeded])
  · rename_i hpaused
    exact .resumed (by simpa using hpaused)

theorem outcome_succeed (hv : c.Valid) (hs : Sound c s) {output : Value} :
    Outcome c s (.stepSucceeded id attempt output details) (succeed c s id attempt output details) := by
  obtain ⟨effect, hspend, hemits⟩ := recordUsage_spec s details
  unfold succeed
  rw [hspend]
  dsimp only
  have hreport : Emits (effect.toList ++ [.emit (.stepSucceeded id attempt)]) :=
    emits_append hemits (by simp [Emits])
  cases hactive : activeAttempt c (spend s details) id attempt with
  | error e =>
    obtain ⟨hplain, hno⟩ := activeAttempt_error hactive
    exact .leakedSuccess hplain fun step current hin => absurd (inFlight_spend.mpr hin) (hno step current)
  | ok step =>
    obtain ⟨current, hin⟩ := activeAttempt_ok.mp hactive
    rw [inFlight_spend] at hin
    dsimp only
    split
    · rename_i hrunning
      refine .leakedSuccess (by simp [Plain]) fun step' current' hin' => ?_
      have hsame : some step' = some step := hin'.found.symm.trans hin.found
      cases hsame
      exact hrunning
    · rename_i hrunning
      rw [not_not] at hrunning
      rw [currentAttempt_eq hin.current_eq]
      dsimp only
      split
      · rename_i hkind
        rw [List.append_cons _ _ [_]]
        exact .completed hin hrunning hkind rfl (emits_append hreport (by simp [Emits]))
      · rename_i hkind
        obtain ⟨node, hnode⟩ := OrdMap.exists_get? hin.known
        have hkind' : node.kind.isOutput = false := by
          simpa [CompiledOrchestration.node, hnode] using hkind
        obtain ⟨edge, hedge⟩ := hv.route id node hnode hkind'
        obtain ⟨hto, -⟩ := outgoingFor_mem hedge
        obtain ⟨next, hnext⟩ := hs.exists_step (hv.edge _ _ hto).2
        have hne : edge.target ≠ id := (hv.ne_of_below (.single hto)).symm
        have hnext' : ((spend s details).setStep id fun _ => succeedStep step current output details).steps.get?
            edge.target = some next := by
          rw [OrchestrationRunState.step_setStep_ne hne]
          exact hnext
        rw [hedge]
        dsimp only
        rcases follow_eq hnext' with ⟨hpending, fs, hfs, heq⟩ | ⟨hblocked, e, -, heq⟩
        · rw [heq]
          exact .advanced hin hrunning (by simpa using hkind) hedge hnext hpending (emits_append hreport hfs)
        · rw [heq]
          exact .stuckSuccess hin hrunning (by simpa using hkind) hedge hnext hblocked

/-- A failed attempt is sent back to one place at most. -/
theorem SendsBack.unique {t t' : OrchestrationNodeId} {r r' : Bool}
    (h : SendsBack c s id attempt error details node t r) (h' : SendsBack c s id attempt error details node t' r') :
    t = t' ∧ r = r' := by
  have hexcl : ∀ {a b : OrchestrationNodeId}, retryTarget node error = some a → reviseTarget node error attempt = some b →
      False := by
    intro a b ha hb
    unfold retryTarget at ha
    unfold reviseTarget at hb
    split at ha
    · rename_i config hkind hreason
      simp [hkind, hreason] at hb
    · cases ha
  cases h with
  | retry ht =>
    cases h' with
    | retry ht' => exact ⟨Option.some.inj (ht.symm.trans ht'), rfl⟩
    | revise ht' => exact (hexcl ht ht').elim
  | revise ht =>
    cases h' with
    | retry ht' => exact (hexcl ht' ht).elim
    | revise ht' => exact ⟨Option.some.inj (ht.symm.trans ht'), rfl⟩

/-- What a send-back comes to, for either kind of target. -/
theorem sendBack_outcome (failed : StepRun) (hv : c.Valid) (hs : Sound c s) {revise : Bool} (hnode : c.node id = some node)
    (h : SendsBack c s id attempt error details node target revise) :
    ∃ step span es, s.steps.get? target = some step ∧ target ≠ id ∧ c.Link id target span ∧ Emits es ∧
      sendBack c (((spend s details).setStep id fun _ => failed).setStep target fun st =>
        { st with retryBase := if revise then st.attempts.length else st.retryBase }) id target error =
        (settle { spend s details with
          steps := s.steps.mapEntries (sentBackStep id target span failed error revise) }, .ok es) := by
  obtain ⟨span, hlink⟩ := h.link hv hnode
  obtain ⟨step, hstep⟩ := hs.exists_step hlink.target_node
  have hne : target ≠ id := hv.ne_of_below hlink.upstream
  have hkeys : (((spend s details).setStep id fun _ => failed).setStep target fun st =>
      { st with retryBase := if revise then st.attempts.length else st.retryBase }).steps.keys = c.nodes.keys := by
    rw [OrchestrationRunState.keys_setStep, OrchestrationRunState.keys_setStep]
    exact hs.keys
  obtain ⟨es, hes, heq⟩ := sendBack_eq error hv hlink hkeys
  have hsteps := @sentBack_steps c s id error target span failed hlink hne revise step hstep
  refine ⟨step, span, es, hstep, hne, hlink, hes, heq.trans ?_⟩
  exact congrArg (fun steps => (settle { spend s details with steps }, Except.ok es)) hsteps

theorem sendBackToRetryTarget_cases (hv : c.Valid) (hs : Sound c s) (failed : StepRun)
    (hnode : c.node id = some node) :
    (∃ target span es, SendsBack c s id attempt error details node target false ∧ c.Link id target span ∧ Emits es ∧
      sendBackToRetryTarget ((spend s details).setStep id fun _ => failed)
          ⟨c, node, id, attempt, error, budgetLeft c s details⟩ =
        some (settle { spend s details with
          steps := s.steps.mapEntries (sentBackStep id target span failed error false) }, .ok es)) ∨
    ((∀ target, ¬ SendsBack c s id attempt error details node target false) ∧
      sendBackToRetryTarget ((spend s details).setStep id fun _ => failed)
        ⟨c, node, id, attempt, error, budgetLeft c s details⟩ = none) := by
  cases hretry : retryTarget node error with
  | none =>
    refine Or.inr ⟨fun target h => ?_, by simp [sendBackToRetryTarget, hretry]⟩
    cases h with
    | retry htarget => simp [hretry] at htarget
  | some target =>
    obtain ⟨span, hlink⟩ := link_of_retryTarget hv hnode hretry
    obtain ⟨targetNode, htarget⟩ := OrdMap.exists_get? hlink.target_node
    obtain ⟨step, hstep⟩ := hs.exists_step hlink.target_node
    have hstate : stepState ((spend s details).setStep id fun _ => failed) target = .ok step := by
      refine stepState_eq ?_
      rw [OrchestrationRunState.step_setStep_ne (hv.ne_of_below hlink.upstream)]
      exact hstep
    by_cases hguard : step.attempts.length - step.retryBase < targetNode.retry.maxAttempts ∧
        budgetLeft c s details = true
    · have hback : SendsBack c s id attempt error details node target false :=
        .retry hretry htarget hstep hguard.1 hguard.2
      obtain ⟨-, span, es, -, -, hlink, hes, heq⟩ := sendBack_outcome failed hv hs hnode hback
      refine Or.inl ⟨target, span, es, hback, hlink, hes, ?_⟩
      simp only [Bool.false_eq_true, ↓reduceIte] at heq
      rw [OrchestrationRunState.setStep_id] at heq
      rw [← heq]
      simp [sendBackToRetryTarget, hretry, CompiledOrchestration.node, htarget, hstate, hguard.1, hguard.2]
    · refine Or.inr ⟨fun target' h => ?_, ?_⟩
      · cases h with
        | retry htarget' hnode' hstep' hleft hbudget =>
          have hsame : some target = some target' := hretry.symm.trans htarget'
          cases hsame
          have hsame : some targetNode = some _ := htarget.symm.trans hnode'
          cases hsame
          have hsame : some step = some _ := hstep.symm.trans hstep'
          cases hsame
          exact hguard ⟨hleft, hbudget⟩
      · have hfalse : (decide (step.attempts.length - step.retryBase < targetNode.retry.maxAttempts) &&
            budgetLeft c s details) = false := by
          rw [Bool.eq_false_iff]
          simpa using hguard
        simp [sendBackToRetryTarget, hretry, CompiledOrchestration.node, htarget, hstate, hfalse]

theorem sendBackForChanges_cases (hv : c.Valid) (hs : Sound c s) (failed : StepRun)
    (hnode : c.node id = some node) :
    (∃ target span es, SendsBack c s id attempt error details node target true ∧ c.Link id target span ∧ Emits es ∧
      sendBackForChanges ((spend s details).setStep id fun _ => failed)
          ⟨c, node, id, attempt, error, budgetLeft c s details⟩ =
        some (settle { spend s details with
          steps := s.steps.mapEntries (sentBackStep id target span failed error true) }, .ok es)) ∨
    ((∀ target, ¬ SendsBack c s id attempt error details node target true) ∧
      sendBackForChanges ((spend s details).setStep id fun _ => failed)
        ⟨c, node, id, attempt, error, budgetLeft c s details⟩ = none) := by
  cases hrevise : reviseTarget node error attempt with
  | none =>
    refine Or.inr ⟨fun target h => ?_, by simp [sendBackForChanges, hrevise]⟩
    cases h with
    | revise htarget => simp [hrevise] at htarget
  | some target =>
    by_cases hguard : budgetLeft c s details = true ∧ c.retrySpans.contains id = true
    · have hback : SendsBack c s id attempt error details node target true := .revise hrevise hguard.2 hguard.1
      obtain ⟨step, span, es, hstep, hne, hlink, hes, heq⟩ := sendBack_outcome failed hv hs hnode hback
      have hfound : ((spend s details).setStep id fun _ => failed).steps.get? target = some step := by
        rw [OrchestrationRunState.step_setStep_ne hne]
        exact hstep
      refine Or.inl ⟨target, span, es, hback, hlink, hes, ?_⟩
      simp only [↓reduceIte] at heq
      rw [OrchestrationRunState.setStep_const hfound] at heq
      rw [← heq]
      simp only [sendBackForChanges, hrevise, hguard.1, hguard.2, Bool.and_self, ↓reduceIte, stepState_eq hfound]
    · refine Or.inr ⟨fun target' h => ?_, ?_⟩
      · cases h with
        | revise _ hspan hbudget => exact hguard ⟨hbudget, hspan⟩
      · have hfalse : (budgetLeft c s details && c.retrySpans.contains id) = false := by
          rw [Bool.eq_false_iff]
          simpa using hguard
        simp [sendBackForChanges, hrevise, hfalse]

/-- A failure is tried again, sent back, routed or ends the run, in the order in which the reducer tries them. -/
theorem outcome_fail (hv : c.Valid) (hs : Sound c s) :
    Outcome c s (.stepFailed id attempt error details) (fail c s id attempt error details) := by
  unfold fail
  cases hnode : c.node id with
  | none =>
    have hunknown : id ∉ c.nodes.keys := by
      intro hid
      obtain ⟨node, hsome⟩ := OrdMap.exists_get? hid
      exact absurd (hnode.symm.trans hsome) (by simp)
    exact .rejected (by simp [Plain, unknownStep]) hunknown
  | some node =>
    obtain ⟨effect, hspend, hemits⟩ := recordUsage_spec s details
    rw [hspend]
    dsimp only
    have hreport : Emits (effect.toList ++ [.emit (.stepFailed id attempt error)]) :=
      emits_append hemits (by simp [Emits])
    cases hactive : activeAttempt c (spend s details) id attempt with
    | error e =>
      obtain ⟨hplain, hno⟩ := activeAttempt_error hactive
      rw [markAttemptFailed, hactive]
      exact .leakedFailure hplain (OrdMap.mem_keys_of_get? hnode) fun step current hin =>
        hno step current (inFlight_spend.mpr hin)
    | ok step =>
      obtain ⟨current, hin⟩ := activeAttempt_ok.mp hactive
      rw [inFlight_spend] at hin
      have hmark : markAttemptFailed c (spend s details) id attempt error details =
          .ok ((spend s details).setStep id fun _ => failStep step current error details) := by
        simp [markAttemptFailed, hactive, currentAttempt_eq hin.current_eq]
      have hid : id ∈ (spend s details).steps.keys := OrdMap.mem_keys_of_get? hin.found
      rw [hmark]
      dsimp only
      simp only [Option.orElse_eq_orElse, Option.orElse_eq_or]
      rw [exhaustedBudget_setStep, ← budgetLeft, retrySameStep_eq hid]
      by_cases hretry : retriesSame node.retry error attempt (failStep step current error details).retryBase
          (budgetLeft c s details) = true
      · rw [if_pos hretry]
        exact .retried hnode hin hretry (emits_append hreport (by simp [Emits]))
      · rw [if_neg hretry, Option.none_or]
        rw [Bool.not_eq_true] at hretry
        rcases sendBackToRetryTarget_cases hv hs (failStep step current error details) hnode with
          ⟨target, span, es, hback, hlink, hes, heq⟩ | ⟨hnotRetry, heq⟩
        · rw [heq]
          exact .sentBack hnode hin hretry hback hlink (emits_append hreport hes)
        · rw [heq, Option.none_or]
          rcases sendBackForChanges_cases hv hs (failStep step current error details) hnode with
            ⟨target, span, es, hback, hlink, hes, heq⟩ | ⟨hnotRevise, heq⟩
          · rw [heq]
            exact .sentBack hnode hin hretry hback hlink (emits_append hreport hes)
          · have hnever : ∀ target revise, ¬ SendsBack c s id attempt error details node target revise := by
              intro target revise
              cases revise
              · exact hnotRetry target
              · exact hnotRevise target
            rw [heq, Option.none_or, takeFailureRoute]
            dsimp only
            cases hedge : c.outgoingFor id .onFailure with
            | none => exact .failed hnode hin hretry hnever hedge hreport
            | some edge =>
              obtain ⟨hto, -⟩ := outgoingFor_mem hedge
              obtain ⟨next, hnext⟩ := hs.exists_step (hv.edge _ _ hto).2
              have hnext' : ((spend s details).setStep id fun _ => failStep step current error details).steps.get?
                  edge.target = some next := by
                rw [OrchestrationRunState.step_setStep_ne (hv.ne_of_below (.single hto)).symm]
                exact hnext
              rw [Option.map_some]
              dsimp only
              rcases follow_eq hnext' with ⟨hpending, fs, hfs, heq⟩ | ⟨hblocked, e, -, heq⟩
              · rw [heq, List.nil_append]
                exact .rerouted hnode hin hretry hnever hedge hnext hpending (emits_append hreport hfs)
              · rw [heq]
                exact .stuckFailure hnode hin hretry hnever hedge hnext hblocked

def stopEffects (id : OrchestrationNodeId) (step : StepRun) : List OrchestrationEffect :=
  match step.attempts.getLast? with
  | some attempt => if step.status.isActive then [.cancelStep id attempt.attempt] else []
  | none => []

omit [WorkflowExternals] in
theorem stops_stopEffects (entries : List (OrchestrationNodeId × StepRun)) :
    Stops (entries.flatMap fun e => stopEffects e.1 e.2) := by
  intro e he
  obtain ⟨⟨k, st⟩, -, hmem⟩ := List.mem_flatMap.mp he
  unfold stopEffects at hmem
  split at hmem
  · split at hmem
    · exact ⟨k, _, List.mem_singleton.mp hmem⟩
    · cases hmem
  · cases hmem

omit [WorkflowExternals] in
theorem cancelActive_eq (hactive : step.status.isActive = true)
    (hcurrent : step.attempts.getLast? = some current) :
    cancelActive id step = .ok (stopStep step, stopEffects id step) := by
  simp [cancelActive, currentAttempt_eq hcurrent, stopStep, stopEffects, hcurrent, hactive]

omit [WorkflowExternals] in
theorem stopStep_idle {step : StepRun} (h : step.status.isActive = false) :
    stopStep step = step ∧ stopEffects id step = [] := by
  cases hlast : step.attempts.getLast? <;> simp [stopStep, stopEffects, hlast, h]

theorem outcome_abort (hs : Sound c s) : Outcome c s (.abort error) (abort s error) := by
  have hloop := OrdMap.updateEach_eq (m := s.steps)
    (f := fun id step => if step.status.isActive then cancelActive id step else .ok (step, []))
    (g := fun _ step => stopStep step) (o := stopEffects) fun k st hst => by
      by_cases hactive : st.status.isActive = true
      · obtain ⟨current, hcurrent⟩ := hs.current k st hst hactive
        rw [if_pos hactive, cancelActive_eq hactive hcurrent]
      · obtain ⟨hsame, hnone⟩ := @stopStep_idle k st (by simpa using hactive)
        rw [if_neg hactive, hsame, hnone]
  unfold abort
  rw [hloop]
  exact .aborted (stops_stopEffects _)

theorem outcome_cancellationCompleted :
    Outcome c s .cancellationCompleted (cancellationCompleted s) := by
  by_cases hstatus : s.status = .cancelling
  · have heq : cancellationCompleted s = ({ s with status := .cancelled },
        .ok [.emit .runCancelled, .finish (.fromState { s with status := .cancelled } .cancelled)]) := by
      simp [cancellationCompleted, requireStatus, hstatus]
    rw [heq]
    exact .cancellationCompleted hstatus rfl
  · have heq : cancellationCompleted s = (s, .error ⟨"invalid_run_status",
        "expected run status " ++ OrchestrationStatus.cancelling.debug ++ ", got " ++ s.status.debug⟩) := by
      simp [cancellationCompleted, requireStatus, hstatus]
    rw [heq]
    exact .rejected (by simp [Plain]) (by simp [Heeded])

omit [WorkflowExternals] in
theorem cancelStep_eq (hs : Sound c s) (hstep : s.steps.get? k = some step) :
    cancelStep k step = .ok (closeStep step, stopEffects k step) := by
  by_cases hactive : step.status.isActive = true
  · obtain ⟨current, hcurrent⟩ := hs.current k step hstep hactive
    have hclose : closeStep step = stopStep step := by
      simp [closeStep, stopStep, hcurrent, hactive, abandonStep]
    rw [hclose, ← cancelActive_eq hactive hcurrent]
    rcases StepStatus.isActive_iff.mp hactive with h | h | h <;> simp [cancelStep, h]
  · rw [Bool.not_eq_true] at hactive
    obtain ⟨hsame, hnone⟩ := @stopStep_idle k step hactive
    rw [closeStep, hsame, hnone]
    cases hstatus : step.status <;> simp [hstatus, StepStatus.isActive] at hactive <;>
      simp [cancelStep, abandonStep, hstatus]

theorem outcome_cancel (hs : Sound c s) : Outcome c s .cancel (cancel s) := by
  unfold cancel
  split
  · exact .rejected (by simp [Plain]) (by simp [Heeded])
  · rename_i hstatus
    have hloop := OrdMap.updateEach_eq (m := s.steps) (f := cancelStep) (g := fun _ step => closeStep step)
      (o := stopEffects) fun k st hst => cancelStep_eq hs hst
    rw [hloop]
    dsimp only
    have hstops := stops_stopEffects s.steps.entries
    split
    · rename_i hok
      cases hok
    · rename_i hok
      have hnil : (s.steps.entries.flatMap fun e => stopEffects e.1 e.2) = [] := Except.ok.inj hok
      have hnone : ∀ id step, s.steps.get? id = some step → step.status.isActive = false := by
        intro id step hstep
        by_contra hactive
        rw [Bool.not_eq_false] at hactive
        obtain ⟨current, hcurrent⟩ := hs.current id step hstep hactive
        have hnil' := List.flatMap_eq_nil_iff.mp hnil (id, step) (OrdMap.mem_entries.mpr hstep)
        simp [stopEffects, hcurrent, hactive] at hnil'
      have heq : ∀ steps, cancellationCompleted { s with status := .cancelling, steps } =
          ({ s with status := .cancelled, steps }, .ok [.emit .runCancelled,
            .finish (.fromState { s with status := .cancelled, steps } .cancelled)]) := fun steps => rfl
      rw [heq]
      exact .cancelled hstatus hnone rfl
    · rename_i effects hne hok
      have heffects : (s.steps.entries.flatMap fun e => stopEffects e.1 e.2) = effects := Except.ok.inj hok
      rw [heffects] at hstops
      obtain ⟨e, rest, rfl⟩ := List.exists_cons_of_ne_nil hne
      obtain ⟨⟨id, step⟩, hentry, hmem⟩ := List.mem_flatMap.mp (heffects ▸ List.mem_cons_self)
      have hactive : step.status.isActive = true := by
        by_contra hactive
        rw [Bool.not_eq_true] at hactive
        rw [(@stopStep_idle id step hactive).2] at hmem
        cases hmem
      exact .cancelling hstatus (OrdMap.mem_entries.mp hentry) hactive hstops

omit [WorkflowExternals] in
theorem eachStep_single {f : StepRun → StepAttempt → StepRun}
    (hstep : s.steps.get? id = some step) (hcurrent : step.attempts.getLast? = some current) :
    eachStep (withCurrent f) [id] s = (s.setStep id fun _ => f step current, .ok ()) := by
  simp [eachStep, stepState_eq hstep, withCurrent, currentAttempt_eq hcurrent]

/-- Recovery closes what was in flight when the process ended. -/
theorem outcome_recover (hs : Sound c s) : Outcome c s .recover (recover c s) := by
  unfold recover
  rw [hs.checkRestorable_ok]
  dsimp only
  split
  · rename_i hstatus
    -- A run being cancelled has no active step left to mark.
    have hsteps : (s.steps.mapEntries fun _ step =>
        if step.status.isActive then { step with status := .cancelled } else step) = s.steps := by
      refine OrdMap.ext_get? fun k => ?_
      rw [OrdMap.get?_mapEntries]
      cases hstep : s.steps.get? k with
      | none => rfl
      | some step =>
        have hidle : step.status.isActive = false := hs.isActive_idle (Or.inr (Or.inl hstatus)) hstep
        simp [hidle]
    rw [hsteps]
    have heq : cancellationCompleted s = ({ s with status := .cancelled },
        .ok [.emit .runCancelled, .finish (.fromState { s with status := .cancelled } .cancelled)]) := by
      simp [cancellationCompleted, requireStatus, hstatus]
    show Outcome c s .recover (afterEffects [.emit .runRestored] (cancellationCompleted s))
    rw [heq]
    exact .restoredCancelling hstatus rfl
  · rename_i hstatus
    cases hids : (s.steps.entries.filter (·.2.status.isActive)).map Prod.fst with
    | nil =>
      refine .restored hstatus fun id step hstep => ?_
      by_contra hactive
      rw [Bool.not_eq_false] at hactive
      have hmem := (Sound.active_of_ids hids).mpr ⟨step, hstep, hactive⟩
      cases hmem
    | cons id rest =>
      obtain ⟨step, hstep, hactive⟩ := (Sound.active_of_ids hids).mp (show id ∈ id :: rest from List.mem_cons_self)
      obtain ⟨current, hcurrent⟩ := hs.current id step hstep hactive
      have hin : InFlight c s id current.attempt step current := ⟨hs.node hstep, hstep, hactive, hcurrent, rfl⟩
      have hone := hs.inFlight_ids hstep hactive
      rw [hids] at hone
      rw [hone]
      by_cases hkind : isIndeterminate c id = true
      · have hunknown : [id].filter (isIndeterminate c) = [id] := by simp [hkind]
        have hpure : [id].filter (fun k => !isIndeterminate c k) = [] := by simp [hkind]
        have hnil : eachStep (withCurrent replayStep) [] s = (s, .ok ()) := rfl
        rw [hunknown, hpure, hnil]
        dsimp only
        rw [eachStep_single hstep hcurrent]
        exact .interrupted hstatus hin hkind
      · have hunknown : [id].filter (isIndeterminate c) = [] := by simp [hkind]
        have hpure : [id].filter (fun k => !isIndeterminate c k) = [id] := by simp [hkind]
        rw [hunknown, hpure, eachStep_single hstep hcurrent]
        exact .replayed hstatus hin (by simpa using hkind)

/-- Every command to a run that is not over has one of the outcomes. -/
theorem outcome_apply (hv : c.Valid) (hs : Sound c s) (hlive : s.status.isTerminal = false)
    (command : OrchestrationCommand) : Outcome c s command (apply c s command) := by
  have hlive' : ¬ s.status.isTerminal = true := by simp [hlive]
  cases command with
  | recordCheckpoint id attempt value => rw [apply, if_neg hlive']; exact outcome_recordCheckpoint
  | start input => rw [apply, if_neg hlive']; exact outcome_start hv hs input
  | stepAdmitted id attempt => rw [apply, if_neg hlive']; exact outcome_admitStep
  | stepSucceeded id attempt output details => rw [apply, if_neg hlive']; exact outcome_succeed hv hs
  | stepFailed id attempt error details => rw [apply, if_neg hlive']; exact outcome_fail hv hs
  | permissionRequired id attempt permissionId => rw [apply, if_neg hlive']; exact outcome_permissionRequired
  | permissionResolved id attempt permissionId approved => rw [apply, if_neg hlive']; exact outcome_permissionResolved
  | inputRequired id attempt request => rw [apply, if_neg hlive']; exact outcome_inputRequired
  | inputResolved id attempt requestId response => rw [apply, if_neg hlive']; exact outcome_inputResolved
  | retryStep id => rw [apply, if_neg hlive']; exact outcome_retry
  | pause => rw [apply, if_neg hlive']; exact outcome_pause
  | resume => rw [apply, if_neg hlive']; exact outcome_resume
  | abort error => rw [apply, if_neg hlive']; exact outcome_abort hs
  | cancel => rw [apply, if_neg hlive']; exact outcome_cancel hs
  | cancellationCompleted => rw [apply, if_neg hlive']; exact outcome_cancellationCompleted
  | recover => rw [apply, if_neg hlive']; exact outcome_recover hs

end Reducer

end RustyCore
