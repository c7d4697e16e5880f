import RustyCore.Theorems.Workflow.Runs
import RustyCore.Workflow.Driver

/-! A run that is being cancelled winds down: nothing that reaches its loop makes it end otherwise than cancelled,
    except a checkpoint of the stopping step and a usage report over a budget. -/

namespace RustyCore

open Reducer Option

structure Stopping (s : OrchestrationRunState) : Prop where
  status : s.status = .cancelling
  idle : ∀ k step, s.steps.get? k = some step → step.status.isActive = false

inductive Petition : OrchestrationCommand → Prop
  | pause : Petition .pause
  | resume : Petition .resume
  | permissionRequired {id : OrchestrationNodeId} {attempt : Nat} {permissionId : String} :
      Petition (.permissionRequired id attempt permissionId)
  | permissionResolved {id : OrchestrationNodeId} {attempt : Nat} {permissionId : String} {approved : Bool} :
      Petition (.permissionResolved id attempt permissionId approved)
  | inputRequired {id : OrchestrationNodeId} {attempt : Nat} {request : InputRequest} :
      Petition (.inputRequired id attempt request)
  | inputResolved {id : OrchestrationNodeId} {attempt : Nat} {requestId : String} {response : InputResponse} :
      Petition (.inputResolved id attempt requestId response)

section

variable {c : CompiledOrchestration} {s : OrchestrationRunState}

theorem Stopping.not_over (h : Stopping s) : s.status.isTerminal = false := by
  rw [h.status]
  rfl

theorem cancelStep_ok {id : OrchestrationNodeId} {step step' : StepRun} {out : List OrchestrationEffect}
    (h : cancelStep id step = .ok (step', out)) : step'.status.isActive = false ∧ Stops out := by
  have hactive : ∀ updated, cancelActive id step = .ok updated →
      updated.1.status.isActive = false ∧ Stops updated.2 := by
    intro updated hupdated
    unfold cancelActive at hupdated
    split at hupdated
    · cases hupdated
    · rename_i attempt _
      cases hupdated
      exact ⟨rfl, by simp [Stops]⟩
  unfold cancelStep at h
  split at h
  · exact hactive _ h
  · exact hactive _ h
  · exact hactive _ h
  · cases h
    exact ⟨rfl, by simp [Stops]⟩
  · cases h
    exact ⟨rfl, by simp [Stops]⟩
  · cases h
    exact ⟨rfl, by simp [Stops]⟩
  · rename_i hrunning hpermission hinput _ _ _
    cases h
    refine ⟨?_, by simp [Stops]⟩
    cases hstatus : step.status <;> first | rfl | contradiction

variable [WorkflowExternals]

theorem cancel_accepted {s' : OrchestrationRunState} {effects : List OrchestrationEffect}
    (h : apply c s .cancel = (s', .ok effects)) :
    (Stopping s' ∧ Stops effects) ∨
      (s'.status = .cancelled ∧ effects = [.emit .runCancelled, .finish (.fromState s' .cancelled)]) := by
  unfold apply at h
  split at h
  · cases h
  · dsimp only at h
    unfold cancel at h
    split at h
    · cases h
    · generalize hloop : s.steps.updateEach cancelStep = updated at h
      obtain ⟨steps, result⟩ := updated
      dsimp only at h
      split at h
      · cases h
      · right
        cases h
        exact ⟨rfl, rfl⟩
      · left
        cases h
        obtain ⟨hsteps, hout⟩ := OrdMap.updateEach_ok (show (s.steps.updateEach cancelStep).2 = .ok effects by rw [hloop])
        rw [hloop] at hsteps
        constructor
        · refine ⟨rfl, fun k step hstep => ?_⟩
          obtain ⟨old, o, -, hold⟩ := hsteps k step hstep
          exact (cancelStep_ok hold).1
        · intro e he
          obtain ⟨k, old, new, o, -, hold, hmem⟩ := hout e he
          exact (cancelStep_ok hold).2 e hmem

omit [WorkflowExternals] in
theorem Stopping.activeAttempt (h : Stopping s) (id : OrchestrationNodeId) (attempt : Nat) :
    ∃ e, activeAttempt c s id attempt = .error e := by
  cases hfind : Reducer.activeAttempt c s id attempt with
  | error e => exact ⟨e, rfl⟩
  | ok step =>
    obtain ⟨current, hin⟩ := activeAttempt_ok.mp hfind
    have hactive := hin.active
    rw [h.idle id step hin.found] at hactive
    cases hactive

theorem Stopping.recordCheckpoint (h : Stopping s) (id : OrchestrationNodeId) (attempt : Nat) (value : Value) :
    ∃ e, apply c s (.recordCheckpoint id attempt value) = (s, .error e) := by
  obtain ⟨e, he⟩ := h.activeAttempt (c := c) id attempt
  exact ⟨e, by simp [apply, h.not_over, Reducer.recordCheckpoint, he]⟩

theorem Stopping.petition (h : Stopping s) {command : OrchestrationCommand} (hpetition : Petition command) :
    (∃ e, apply c s command = (s, .error e)) ∨ apply c s command = ({ s with paused := false }, .ok [.emit .runResumed]) := by
  have hopen := h.not_over
  cases hpetition with
  | pause =>
    left
    by_cases hpaused : s.paused = true
    · exact ⟨_, by simp [apply, hopen, Reducer.pause, hpaused]; rfl⟩
    · exact ⟨_, by simp only [apply, Reducer.pause, hpaused, h.status]; rfl⟩
  | resume =>
    by_cases hpaused : s.paused = true
    · right
      have hsettle : settle { s with paused := false } = { s with paused := false } := by simp [settle, h.status]
      simp [apply, hopen, Reducer.resume, hpaused, hsettle]
    · exact Or.inl ⟨_, by simp [apply, hopen, Reducer.resume, hpaused]; rfl⟩
  | @permissionRequired id attempt =>
    obtain ⟨e, he⟩ := h.activeAttempt (c := c) id attempt
    exact Or.inl ⟨e, by simp [apply, hopen, Reducer.permissionRequired, he]⟩
  | @permissionResolved id attempt =>
    obtain ⟨e, he⟩ := h.activeAttempt (c := c) id attempt
    exact Or.inl ⟨e, by simp [apply, hopen, Reducer.permissionResolved, he]⟩
  | @inputRequired id attempt =>
    obtain ⟨e, he⟩ := h.activeAttempt (c := c) id attempt
    exact Or.inl ⟨e, by simp [apply, hopen, Reducer.inputRequired, he]⟩
  | @inputResolved id attempt =>
    obtain ⟨e, he⟩ := h.activeAttempt (c := c) id attempt
    exact Or.inl ⟨e, by simp [apply, hopen, Reducer.inputResolved, he]⟩

theorem Stopping.abort (h : Stopping s) (error : OrchestrationError) :
    ∃ s', apply c s (.abort error) = (failedRun s' error, .ok (failedEffects s' error)) := by
  have hloop := OrdMap.updateEach_eq (m := s.steps)
    (f := fun id step => if step.status.isActive then cancelActive id step else .ok (step, []))
    (g := fun _ step => step) (o := fun _ _ => []) fun k st hst => by rw [h.idle k st hst]; rfl
  have hnone : (s.steps.entries.flatMap fun _ => ([] : List OrchestrationEffect)) = [] := by simp
  refine ⟨{ s with steps := s.steps.mapEntries fun _ step => step }, ?_⟩
  unfold apply
  rw [if_neg (by simp [h.not_over])]
  dsimp only
  rw [Reducer.abort, hloop]
  dsimp only
  rw [hnone]
  rfl

theorem Stopping.cancellationCompleted (h : Stopping s) : apply c s .cancellationCompleted =
    ({ s with status := .cancelled },
      .ok [.emit .runCancelled, .finish (.fromState { s with status := .cancelled } .cancelled)]) := by
  simp [apply, h.status, OrchestrationStatus.isTerminal, Reducer.cancellationCompleted, requireStatus]

end

def OrchestrationRunner.Reliable (runner : OrchestrationRunner) : Prop :=
  ∀ commit, runner.store = some commit → ∀ envelopes snapshot, commit envelopes snapshot = .ok ()

structure WindingDown (loop : RunLoop) : Prop where
  stopping : Stopping loop.state
  unfinished : loop.result = none
  reliable : loop.runner.Reliable
  unlimited : loop.policies.maxElapsedMs = none

def RunLoop.Finished (loop : RunLoop) (outcome : OrchestrationOutcome) : Prop :=
  ∃ result, loop.result = some result ∧ result.status = outcome

namespace WindingDown

variable {loop loop' : RunLoop}

theorem congr (h : WindingDown loop) (hrunner : loop'.runner = loop.runner) (hresult : loop'.result = loop.result)
    (hstatus : loop'.state.status = loop.state.status) (hsteps : loop'.state.steps = loop.state.steps) :
    WindingDown loop' where
  stopping := ⟨hstatus.trans h.stopping.status, fun k step hstep => h.stopping.idle k step (hsteps ▸ hstep)⟩
  unfinished := hresult.trans h.unfinished
  reliable := hrunner ▸ h.reliable
  unlimited := by
    have hunlimited := h.unlimited
    rw [RunLoop.policies] at hunlimited ⊢
    rw [hrunner, hunlimited]

theorem send (h : WindingDown loop) (message : Message) : WindingDown (loop.send message) := h.congr rfl rfl rfl rfl

theorem withActive (h : WindingDown loop) (f : ActiveStep → ActiveStep) : WindingDown (loop.withActive f) :=
  h.congr rfl rfl rfl rfl

end WindingDown

section

variable {loop : RunLoop} {batch : EffectBatch}

theorem commitDone_eq (loop : RunLoop) (hexecute : batch.execute = none) :
    (loop.commitDone batch).state = loop.state ∧ (loop.commitDone batch).runner = loop.runner ∧
      (loop.commitDone batch).result = (batch.finish <|> loop.result) := by
  unfold RunLoop.commitDone
  rw [hexecute]
  exact ⟨rfl, rfl, rfl⟩

theorem persist_reliable (loop : RunLoop) (h : loop.runner.Reliable) : loop.persist batch = .ok () := by
  unfold RunLoop.persist
  split
  · rfl
  · rename_i commit hstore
    exact h commit hstore _ _

theorem collectEffects_stops {s : OrchestrationRunState} {last timestampMs : Nat} {effects : List OrchestrationEffect}
    (h : Stops effects) : (collectEffects s last timestampMs effects).finish = none ∧
      (collectEffects s last timestampMs effects).execute = none := by
  have hloop : ∀ (effects : List OrchestrationEffect), Stops effects → ∀ batch : EffectBatch,
      batch.finish = none ∧ batch.execute = none →
      (effects.foldl (collectEffect s timestampMs) batch).finish = none ∧
        (effects.foldl (collectEffect s timestampMs) batch).execute = none := by
    intro effects
    induction effects with
    | nil => exact fun _ batch h => h
    | cons effect effects ih =>
      intro hstops batch h
      obtain ⟨id, attempt, rfl⟩ := hstops effect List.mem_cons_self
      exact ih (fun e he => hstops e (List.mem_cons_of_mem _ he)) _ h
  exact hloop effects h _ ⟨rfl, rfl⟩

variable [WorkflowExternals] {command : OrchestrationCommand} {s' : OrchestrationRunState}

theorem tryApply_rejected {e : TransitionError} (h : apply loop.runner.compiled loop.state command = (s', .error e)) :
    loop.tryApply command = ({ loop with state := s' }, .error (.rejected e)) := by
  rw [RunLoop.tryApply, h]

theorem tryApply_accepted (hreliable : loop.runner.Reliable) {effects : List OrchestrationEffect}
    (h : apply loop.runner.compiled loop.state command = (s', .ok effects)) :
    ∃ clock, loop.tryApply command = (({ loop with state := s', clock } : RunLoop).commitDone
      (collectEffects s' loop.lastSequence loop.nowMs effects), .ok ()) := by
  let clock := loop.clock.trackInputWait loop.now (s'.status == OrchestrationStatus.waitingForInput)
  refine ⟨clock, ?_⟩
  rw [RunLoop.tryApply, h]
  dsimp only
  rw [persist_reliable { loop with state := s', clock } hreliable]

theorem tryApply_quiet (hreliable : loop.runner.Reliable) {effects : List OrchestrationEffect}
    (h : apply loop.runner.compiled loop.state command = (s', .ok effects))
    (hexecute : (collectEffects s' loop.lastSequence loop.nowMs effects).execute = none) :
    ∃ loop', loop.tryApply command = (loop', .ok ()) ∧ loop'.state = s' ∧ loop'.runner = loop.runner ∧
      loop'.result = ((collectEffects s' loop.lastSequence loop.nowMs effects).finish <|> loop.result) := by
  obtain ⟨clock, heq⟩ := tryApply_accepted hreliable h
  obtain ⟨hstate, hrunner, hresult⟩ := commitDone_eq { loop with state := s', clock } hexecute
  exact ⟨_, heq, hstate, hrunner, hresult⟩

namespace WindingDown

theorem petition (h : WindingDown loop) (hpetition : Petition command) : ∃ loop', WindingDown loop' ∧
    (loop.tryApply command = (loop', .ok ()) ∨ ∃ e, loop.tryApply command = (loop', .error (.rejected e))) := by
  rcases h.stopping.petition (c := loop.runner.compiled) hpetition with ⟨e, he⟩ | hresumed
  · exact ⟨loop, h, Or.inr ⟨e, tryApply_rejected he⟩⟩
  · obtain ⟨loop', heq, hstate, hrunner, hresult⟩ := tryApply_quiet h.reliable hresumed rfl
    refine ⟨loop', h.congr hrunner hresult ?_ ?_, Or.inl heq⟩ <;> rw [hstate]

theorem abort (h : WindingDown loop) (error : OrchestrationError) :
    ∃ loop', loop.apply (.abort error) = (loop', .ok ()) ∧ loop'.Finished .failed ∧ loop'.state.status = .failed := by
  obtain ⟨s', hs'⟩ := h.stopping.abort (c := loop.runner.compiled) error
  obtain ⟨loop', heq, hstate, -, hresult⟩ := tryApply_quiet h.reliable hs' rfl
  refine ⟨loop', ?_, ⟨_, hresult, rfl⟩, ?_⟩
  · rw [RunLoop.apply, heq]
    rfl
  · rw [hstate]
    rfl

theorem cancellationCompleted (h : WindingDown loop) :
    ∃ loop', loop.apply .cancellationCompleted = (loop', .ok ()) ∧ loop'.Finished .cancelled := by
  obtain ⟨loop', heq, -, -, hresult⟩ :=
    tryApply_quiet h.reliable (h.stopping.cancellationCompleted (c := loop.runner.compiled)) rfl
  refine ⟨loop', ?_, ⟨_, hresult, rfl⟩⟩
  rw [RunLoop.apply, heq]
  rfl

end WindingDown

def RunLoop.Overspends (loop : RunLoop) (usage : UsageSummary) : Prop :=
  (budgetError loop.policies loop.state.usage usage).isSome = true

/-- The wake-up upsets a run that is being cancelled. A checkpoint is no trouble once the step is done, but a usage
    report is. -/
def RunLoop.Upsets (loop : RunLoop) : Wake → Prop
  | .signal (some (.checkpoint _)) => True
  | .signal (some (.usage usage)) => loop.Overspends usage
  | .stepDone _ final => ∃ usage, StepSignal.usage usage ∈ final ∧ loop.Overspends usage
  | _ => False

def Held (handled : Handled) : Prop := ∃ loop, handled = (loop, .ok ()) ∧ WindingDown loop

def Spoiled (handled : Handled) : Prop :=
  ∃ loop outcome, handled = (loop, outcome) ∧ (outcome = .ok () → loop.Finished .failed)

namespace WindingDown

omit [WorkflowExternals] in
theorem held (h : WindingDown loop) : Held (loop, .ok ()) := ⟨loop, rfl, h⟩

theorem applyOrWarn (h : WindingDown loop) (hpetition : Petition command) : Held (loop.applyOrWarn command) := by
  obtain ⟨loop', hwinding, heq | ⟨e, heq⟩⟩ := h.petition hpetition
  · exact ⟨loop', by rw [RunLoop.applyOrWarn, heq], hwinding⟩
  · exact ⟨loop', by rw [RunLoop.applyOrWarn, heq], hwinding⟩

theorem applyControl (h : WindingDown loop) (hpetition : Petition command) :
    ∃ loop' outcome, loop.applyControl command = (loop', .ok outcome) ∧ WindingDown loop' := by
  obtain ⟨loop', hwinding, heq | ⟨e, heq⟩⟩ := h.petition hpetition
  · exact ⟨loop', _, by rw [RunLoop.applyControl, heq], hwinding⟩
  · exact ⟨loop', _, by rw [RunLoop.applyControl, heq], hwinding⟩

theorem resolvePermission (h : WindingDown loop) (received : Bool) (permissionId : String)
    (decision : PermissionDecision) :
    ∃ loop' outcome, loop.resolvePermission received permissionId decision = (loop', .ok outcome) ∧
      WindingDown loop' := by
  unfold RunLoop.resolvePermission
  split
  · rename_i sent command hdeliver
    unfold RunLoop.deliverPermission at hdeliver
    dsimp only at hdeliver
    split at hdeliver
    · cases hdeliver
    · split at hdeliver
      · cases hdeliver
        exact (h.send _).applyControl .permissionResolved
      · cases hdeliver
  · exact ⟨loop, _, rfl, h⟩

theorem resolveInput (h : WindingDown loop) (received : Bool) (requestId : String) (response : InputResponse) :
    ∃ loop' outcome, loop.resolveInput received requestId response = (loop', .ok outcome) ∧ WindingDown loop' := by
  unfold RunLoop.resolveInput
  split
  · exact ⟨loop, _, rfl, h⟩
  · rename_i active _
    obtain ⟨loop', outcome, heq, hwinding⟩ :=
      h.applyControl (.inputResolved : Petition (.inputResolved active.nodeId active.attempt requestId response))
    rw [heq]
    cases outcome with
    | error rejected => exact ⟨loop', _, rfl, hwinding⟩
    | ok _ =>
      dsimp only
      unfold RunLoop.deliverAnswer
      split
      · exact ⟨_, _, rfl, hwinding.send _⟩
      · exact ⟨_, _, rfl, hwinding⟩

theorem request (h : WindingDown loop) (control : RunLoop.Control) :
    ∃ loop' outcome, loop.request control = (loop', .ok outcome) ∧ WindingDown loop' := by
  unfold RunLoop.request
  split
  · exact h.applyControl .pause
  · exact h.applyControl .resume
  · exact h.resolvePermission ..
  · exact h.resolveInput ..

theorem abortOn (h : WindingDown loop) (error : Option OrchestrationError) :
    (error = none → Held (loop.abortOn error)) ∧ (error.isSome = true → Spoiled (loop.abortOn error)) := by
  cases error with
  | none => exact ⟨fun _ => h.held, fun hsome => by cases hsome⟩
  | some error =>
    obtain ⟨loop', heq, hfailed, -⟩ := h.abort error
    exact ⟨nofun, fun _ => ⟨loop', _, heq, fun _ => hfailed⟩⟩

variable [RunnerExternals]

theorem onControl (h : WindingDown loop) (control : RunLoop.Control) : Held (loop.onControl control) := by
  obtain ⟨loop', outcome, heq, hwinding⟩ := (h.withActive fun active => { active with lastActivity := loop.now }).request control
  exact ⟨_, by rw [RunLoop.onControl, heq], hwinding.send _⟩

theorem checkpoint (h : WindingDown loop) (hactive : loop.active.isSome = true) (value : Value) :
    Spoiled (loop.recordCheckpoint value) := by
  obtain ⟨active, hactive⟩ := isSome_iff_exists.mp hactive
  obtain ⟨e, he⟩ := h.stopping.recordCheckpoint (c := loop.runner.compiled) active.nodeId active.attempt value
  have hrejected := tryApply_rejected he
  unfold RunLoop.recordCheckpoint
  rw [hactive]
  dsimp only
  rw [RunLoop.apply, hrejected]
  exact ⟨_, _, rfl, fun hok => by cases hok⟩

theorem onSignal (h : WindingDown loop) (hactive : loop.active.isSome = true) (signal : StepSignal) :
    (¬ loop.Upsets (.signal (some signal)) → Held (loop.onSignal signal)) ∧
      (loop.Upsets (.signal (some signal)) → Spoiled (loop.onSignal signal)) := by
  obtain ⟨active, hactive⟩ := isSome_iff_exists.mp hactive
  have hawake := h.withActive fun active => { active with lastActivity := loop.now }
  unfold RunLoop.onSignal
  rw [hactive]
  dsimp only
  cases signal with
  | checkpoint value =>
    refine ⟨fun hcalm => absurd trivial hcalm, fun _ => hawake.checkpoint ?_ value⟩
    simp [RunLoop.withActive, hactive]
  | delegated run => exact ⟨fun _ => (hawake.withActive _).held, fun hupset => hupset.elim⟩
  | usage usage =>
    obtain ⟨hnone, hsome⟩ := (hawake.withActive fun active => { active with usage }).abortOn
      (budgetError loop.policies loop.state.usage usage)
    refine ⟨fun hcalm => hnone ?_, fun hupset => hsome hupset⟩
    exact not_isSome_iff_eq_none.mp hcalm
  | permissionRequested permissionId toolName =>
    exact ⟨fun _ => hawake.applyOrWarn .permissionRequired, fun hupset => hupset.elim⟩
  | agent envelope => exact ⟨fun _ => ((hawake.withActive _).send _).held, fun hupset => hupset.elim⟩
  | inputRequested request => exact ⟨fun _ => hawake.applyOrWarn .inputRequired, fun hupset => hupset.elim⟩

theorem drainFinalSignals {final : List StepSignal} (h : WindingDown loop)
    (hwithin : ∀ usage, StepSignal.usage usage ∈ final → ¬ loop.Overspends usage) (active : ActiveStep) :
    ∃ loop' active', loop.drainFinalSignals active final = (loop', active', .ok ()) ∧ WindingDown loop' := by
  induction final generalizing loop active with
  | nil => exact ⟨loop, active, rfl, h⟩
  | cons signal rest ih =>
    have hrest : ∀ usage, StepSignal.usage usage ∈ rest → ¬ loop.Overspends usage :=
      fun usage hmem => hwithin usage (List.mem_cons_of_mem _ hmem)
    cases signal with
    | checkpoint value => exact ih (h.send _) hrest active
    | usage usage =>
      have hnone : budgetError loop.policies loop.state.usage usage = none :=
        not_isSome_iff_eq_none.mp (hwithin usage List.mem_cons_self)
      rw [RunLoop.drainFinalSignals, hnone]
      exact ih h hrest _
    | delegated run | agent envelope | permissionRequested permissionId toolName | inputRequested request =>
      exact ih h hrest _

end WindingDown

section

variable [RunnerExternals]

theorem drainFinalSignals_failed {final : List StepSignal} (hover : loop.state.status.isTerminal = true)
    (hfailed : loop.Finished .failed) (active : ActiveStep) :
    ∃ loop' active' outcome, loop.drainFinalSignals active final = (loop', active', outcome) ∧
      (outcome = .ok () → loop'.Finished .failed ∧ loop'.state.status.isTerminal = true) := by
  induction final generalizing loop active with
  | nil => exact ⟨loop, active, _, rfl, fun _ => ⟨hfailed, hover⟩⟩
  | cons signal rest ih =>
    cases signal with
    | checkpoint value => exact @ih (loop.send _) hover hfailed active
    | usage usage =>
      rw [RunLoop.drainFinalSignals]
      cases hbudget : budgetError loop.policies loop.state.usage usage with
      | none => exact ih hover hfailed _
      | some error =>
        have hrejected := @tryApply_rejected loop _ _ _ _ (apply_terminal hover (.abort error))
        rw [RunLoop.abortOn, RunLoop.apply, hrejected]
        exact ⟨_, _, _, rfl, fun hok => by cases hok⟩
    | delegated run | agent envelope | permissionRequested permissionId toolName | inputRequested request =>
      exact ih hover hfailed _

theorem drainFinalSignals_overspent {final : List StepSignal} (h : WindingDown loop) {usage : UsageSummary}
    (hmem : StepSignal.usage usage ∈ final) (hover : loop.Overspends usage) (active : ActiveStep) :
    ∃ loop' active' outcome, loop.drainFinalSignals active final = (loop', active', outcome) ∧
      (outcome = .ok () → loop'.Finished .failed ∧ loop'.state.status.isTerminal = true) := by
  induction final generalizing loop active with
  | nil => cases hmem
  | cons signal rest ih =>
    cases signal with
    | checkpoint value => exact ih (h.send _) ((List.mem_cons.mp hmem).resolve_left nofun) hover active
    | usage first =>
      rw [RunLoop.drainFinalSignals]
      cases hbudget : budgetError loop.policies loop.state.usage first with
      | none =>
        rcases List.mem_cons.mp hmem with heq | hmem
        · cases heq
          rw [RunLoop.Overspends, hbudget] at hover
          cases hover
        · exact ih h hmem hover _
      | some error =>
        obtain ⟨loop', heq, hfailed, hstatus⟩ := h.abort error
        rw [RunLoop.abortOn, heq]
        exact drainFinalSignals_failed (by rw [hstatus]; rfl) hfailed _
    | delegated run | agent envelope | permissionRequested permissionId toolName | inputRequested request =>
      exact ih h ((List.mem_cons.mp hmem).resolve_left nofun) hover _

theorem WindingDown.onStepDone (h : WindingDown loop) (hactive : loop.active.isSome = true)
    (joined : Except String StepExecution) (final : List StepSignal) :
    (¬ loop.Upsets (.stepDone joined final) → Held (loop.onStepDone joined final)) ∧
      (loop.Upsets (.stepDone joined final) → Spoiled (loop.onStepDone joined final)) := by
  obtain ⟨active, hactive⟩ := isSome_iff_exists.mp hactive
  have hfree : WindingDown { loop with active := none } := h.congr rfl rfl rfl rfl
  unfold RunLoop.onStepDone
  rw [hactive]
  dsimp only
  constructor
  · intro hcalm
    have hwithin : ∀ usage, StepSignal.usage usage ∈ final → ¬ loop.Overspends usage :=
      fun usage hmem hover => hcalm ⟨usage, hmem, hover⟩
    obtain ⟨loop', active', heq, hwinding⟩ := hfree.drainFinalSignals hwithin active
    rw [heq]
    dsimp only
    rw [if_pos (by simp [hwinding.stopping.status])]
    exact hwinding.held
  · rintro ⟨usage, hmem, hover⟩
    obtain ⟨loop', active', outcome, heq, hfailed⟩ := drainFinalSignals_overspent hfree hmem hover active
    rw [heq]
    cases outcome with
    | error e => exact ⟨_, _, rfl, fun hok => by cases hok⟩
    | ok _ =>
      obtain ⟨hfailed, hover⟩ := hfailed rfl
      dsimp only
      rw [if_pos (by simp [hover])]
      exact ⟨_, _, rfl, fun _ => hfailed⟩

theorem WindingDown.onWake (h : WindingDown loop) (hactive : loop.active.isSome = true) (wake : Wake) :
    (¬ loop.Upsets wake → Held (loop.onWake wake)) ∧ (loop.Upsets wake → Spoiled (loop.onWake wake)) := by
  cases wake with
  | cancelled | deadline => exact ⟨fun _ => h.held, fun hupset => hupset.elim⟩
  | stalled => exact ⟨fun _ => (h.withActive _).held, fun hupset => hupset.elim⟩
  | control control =>
    cases control with
    | none => exact ⟨fun _ => ⟨_, rfl, h.congr rfl rfl rfl rfl⟩, fun hupset => hupset.elim⟩
    | some control => exact ⟨fun _ => h.onControl control, fun hupset => hupset.elim⟩
  | signal signal =>
    cases signal with
    | none => exact ⟨fun _ => (h.withActive _).held, fun hupset => hupset.elim⟩
    | some signal => exact h.onSignal hactive signal
  | stepDone joined final => exact h.onStepDone hactive joined final

end

end

def Driving.outcome : Driving → Option (Except OrchestrationRuntimeError OrchestrationOutcome)
  | .deciding loop | .waiting loop => loop.result.map fun result => .ok result.status
  | .ended outcome => some (outcome.map (·.result.status))

def OnlyCancelled (driving : Driving) : Prop := ∀ outcome, driving.outcome = some outcome → outcome = .ok .cancelled

/-- What it takes for a run that is being cancelled to end: the attempt in flight, if there is one, is done, and the
    loop takes its turns. -/
def windDown (joined : Except String StepExecution) : List LoopInput :=
  [.turn, .wake (.stepDone joined []), .turn, .turn]

section

variable [WorkflowExternals] [RunnerExternals]

/-- The run never ends otherwise than cancelled, and it does end so once the attempt in flight is done, however that
    attempt ends. -/
def EndsCancelled (driving : Driving) (inputs : List LoopInput) : Prop :=
  driver.Always OnlyCancelled driving inputs ∧
    ∀ joined, ∃ output, driver.run driving (inputs ++ windDown joined) = .ended (.ok output) ∧
      output.result.status = .cancelled

def Disturbs (st : Machine.Step Driving LoopInput Empty) : Prop :=
  ∃ loop wake, st.pre = .waiting loop ∧ st.input = .wake wake ∧ loop.listens wake = true ∧ loop.Upsets wake

inductive Cancelling : Driving → Prop
  | deciding {loop : RunLoop} (h : WindingDown loop) : Cancelling (.deciding loop)
  | waiting {loop : RunLoop} (h : WindingDown loop) (hactive : loop.active.isSome = true) : Cancelling (.waiting loop)
  | finished {loop : RunLoop} (h : loop.Finished .cancelled) : Cancelling (.deciding loop)
  | ended {output : OrchestrationRunOutput} (h : output.result.status = .cancelled) : Cancelling (.ended (.ok output))

variable {loop : RunLoop} {driving : Driving}

omit [WorkflowExternals] [RunnerExternals] in
theorem onlyCancelled_of_cancelling (h : Cancelling driving) : OnlyCancelled driving := by
  intro outcome houtcome
  cases h with
  | deciding h | waiting h _ =>
    rw [Driving.outcome, h.unfinished] at houtcome
    cases houtcome
  | finished h =>
    obtain ⟨result, hresult, hstatus⟩ := h
    rw [Driving.outcome, hresult] at houtcome
    cases houtcome
    exact congrArg Except.ok hstatus
  | ended h =>
    cases houtcome
    exact congrArg Except.ok h

omit [RunnerExternals] in
theorem WindingDown.turn (h : WindingDown loop) :
    (loop.active = none → ∃ loop', Driving.turn loop = .deciding loop' ∧ loop'.Finished .cancelled) ∧
      (loop.active.isSome = true → ∃ loop', Driving.turn loop = .waiting loop' ∧ WindingDown loop' ∧
        loop'.active.isSome = true) := by
  obtain ⟨loop', hwinding, hactive, hnext⟩ : ∃ loop', WindingDown loop' ∧ loop'.active = loop.active ∧
      loop.nextCommand =
        if loop'.active.isSome then (loop', .ok none) else (loop', .ok (some .cancellationCompleted)) := by
    refine ⟨if loop.cancellation && !loop.cancelApplied then { loop with cancelApplied := true } else loop, ?_, ?_, ?_⟩
    · split
      · exact h.congr rfl rfl rfl rfl
      · exact h
    · split <;> rfl
    · have hunlimited := h.unlimited
      unfold RunLoop.policies at hunlimited
      by_cases hcancel : (loop.cancellation && !loop.cancelApplied) = true
      · simp [RunLoop.nextCommand, hcancel, h.stopping.status, RunLoop.elapsedExhausted, RunClock.exhausted,
          RunLoop.policies, hunlimited]
      · simp [RunLoop.nextCommand, hcancel, h.stopping.status, RunLoop.elapsedExhausted, RunClock.exhausted,
          RunLoop.policies, hunlimited]
  unfold Driving.turn
  rw [h.unfinished, hnext, hactive]
  constructor
  · intro hnone
    obtain ⟨done, heq, hfinished⟩ := hwinding.cancellationCompleted
    refine ⟨done, ?_, hfinished⟩
    simp [hnone, heq, Driving.proceed]
  · intro hsome
    exact ⟨loop', by simp [hsome], hwinding, hactive ▸ hsome⟩

omit [RunnerExternals] in
theorem RunLoop.Finished.turn (h : loop.Finished .cancelled) :
    ∃ output, Driving.turn loop = .ended (.ok output) ∧ output.result.status = .cancelled := by
  obtain ⟨result, hresult, hstatus⟩ := h
  unfold Driving.turn
  rw [hresult]
  exact ⟨_, rfl, hstatus⟩

theorem cancelling_step (h : Cancelling driving) (input : LoopInput) (hcalm : ¬ Disturbs (driver.stepAt driving input)) :
    Cancelling (driver.step driving input).1 := by
  cases h with
  | ended h => cases input <;> exact .ended h
  | @deciding loop h =>
    cases input with
    | turn =>
      cases hactive : loop.active with
      | none =>
        obtain ⟨loop', heq, hfinished⟩ := h.turn.1 hactive
        show Cancelling (Driving.turn loop)
        rw [heq]
        exact .finished hfinished
      | some active =>
        obtain ⟨loop', heq, hwinding, hsome⟩ := h.turn.2 (by rw [hactive]; rfl)
        show Cancelling (Driving.turn loop)
        rw [heq]
        exact .waiting hwinding hsome
    | wake wake => exact .deciding h
    | cancel | tick now nowMs => exact .deciding (h.congr rfl rfl rfl rfl)
  | @waiting loop h hactive =>
    cases input with
    | turn => exact .waiting h hactive
    | wake wake =>
      show Cancelling (if loop.listens wake then Driving.proceed (loop.onWake wake) else .waiting loop)
      split
      · rename_i hlistens
        have hupset : ¬ loop.Upsets wake := fun hupset => hcalm ⟨loop, wake, rfl, rfl, hlistens, hupset⟩
        obtain ⟨loop', heq, hwinding⟩ := (h.onWake hactive wake).1 hupset
        rw [heq]
        exact .deciding hwinding
      · exact .waiting h hactive
    | cancel | tick now nowMs => exact .waiting (h.congr rfl rfl rfl rfl) hactive
  | @finished loop h =>
    cases input with
    | turn =>
      obtain ⟨output, heq, hstatus⟩ := h.turn
      show Cancelling (Driving.turn loop)
      rw [heq]
      exact .ended hstatus
    | wake | cancel | tick => exact .finished h

theorem not_onlyCancelled_of_disturbs (h : Cancelling driving) (input : LoopInput)
    (hdisturbs : Disturbs (driver.stepAt driving input)) : ¬ OnlyCancelled (driver.step driving input).1 := by
  obtain ⟨loop, wake, hpre, hinput, hlistens, hupset⟩ := hdisturbs
  obtain rfl : driving = .waiting loop := hpre
  obtain rfl : input = .wake wake := hinput
  cases h with
  | waiting h hactive =>
    obtain ⟨loop', outcome, heq, hfailed⟩ := (h.onWake hactive wake).2 hupset
    intro honly
    have hstep : (driver.step (.waiting loop) (.wake wake)).1 = Driving.proceed (loop', outcome) := by
      rw [← heq]
      exact if_pos hlistens
    rw [hstep] at honly
    cases outcome with
    | error e => cases honly _ rfl
    | ok _ =>
      obtain ⟨result, hresult, hstatus⟩ := hfailed rfl
      have hcancelled := honly (.ok result.status) (by rw [Driving.proceed, Driving.outcome, hresult]; rfl)
      rw [hstatus] at hcancelled
      cases hcancelled

theorem WindingDown.stepDone (h : WindingDown loop) (hactive : loop.active.isSome = true)
    (joined : Except String StepExecution) :
    (driver.step (.waiting loop) (.wake (.stepDone joined []))).1 = .deciding { loop with active := none } := by
  obtain ⟨active, hactive⟩ := isSome_iff_exists.mp hactive
  have hlistens : loop.listens (.stepDone joined []) = true := by simp [RunLoop.listens, hactive]
  have hdone : loop.onStepDone joined [] = ({ loop with active := none }, .ok ()) := by
    simp [RunLoop.onStepDone, hactive, RunLoop.drainFinalSignals, h.stopping.status]
  show (if loop.listens (.stepDone joined []) then Driving.proceed (loop.onStepDone joined []) else .waiting loop) = _
  rw [if_pos hlistens, hdone]
  rfl

theorem Cancelling.windDown (h : Cancelling driving) (joined : Except String StepExecution) :
    ∃ output, driver.run driving (windDown joined) = .ended (.ok output) ∧ output.result.status = .cancelled := by
  have hfinished : ∀ loop : RunLoop, loop.Finished .cancelled →
      ∃ output, Driving.turn loop = .ended (.ok output) ∧ output.result.status = .cancelled := fun _ h => h.turn
  have hwaiting : ∀ loop : RunLoop, WindingDown loop → loop.active.isSome = true → ∃ output,
      driver.run (.waiting loop) [.wake (.stepDone joined []), .turn, .turn] = .ended (.ok output) ∧
        output.result.status = .cancelled := by
    intro loop h hactive
    have hfree : WindingDown { loop with active := none } := h.congr rfl rfl rfl rfl
    obtain ⟨done, hturn, hdone⟩ := hfree.turn.1 rfl
    obtain ⟨output, hended, hstatus⟩ := hfinished done hdone
    refine ⟨output, ?_, hstatus⟩
    rw [Machine.run_cons, h.stepDone hactive]
    show (driver.step (Driving.turn { loop with active := none }) .turn).1 = _
    rw [hturn]
    exact hended
  cases h with
  | ended h => exact ⟨_, rfl, h⟩
  | waiting h hactive => exact hwaiting _ h hactive
  | @finished loop h =>
    obtain ⟨output, hended, hstatus⟩ := hfinished loop h
    refine ⟨output, ?_, hstatus⟩
    show driver.run (Driving.turn loop) [.wake (.stepDone joined []), .turn, .turn] = _
    rw [hended]
    rfl
  | @deciding loop h =>
    cases hactive : loop.active with
    | none =>
      obtain ⟨done, hturn, hdone⟩ := h.turn.1 hactive
      obtain ⟨output, hended, hstatus⟩ := hfinished done hdone
      refine ⟨output, ?_, hstatus⟩
      show driver.run (Driving.turn loop) [.wake (.stepDone joined []), .turn, .turn] = _
      rw [hturn]
      show (driver.step (Driving.turn done) .turn).1 = _
      rw [hended]
      rfl
    | some active =>
      obtain ⟨loop', hturn, hwinding, hsome⟩ := h.turn.2 (by rw [hactive]; rfl)
      show ∃ output, driver.run (Driving.turn loop) [.wake (.stepDone joined []), .turn, .turn] = _ ∧ _
      rw [hturn]
      exact hwaiting loop' hwinding hsome

omit [RunnerExternals] in
theorem cancelling_of_accepted {next : RunLoop} (hunfinished : loop.result = none) (hreliable : loop.runner.Reliable)
    (hunlimited : loop.policies.maxElapsedMs = none) (hcancel : loop.apply .cancel = (next, .ok ())) :
    Cancelling (.deciding next) := by
  cases hreduce : apply loop.runner.compiled loop.state .cancel with
  | mk s' result =>
    cases result with
    | error e =>
      rw [RunLoop.apply, tryApply_rejected hreduce] at hcancel
      cases hcancel
    | ok effects =>
      rcases cancel_accepted hreduce with ⟨hstopping, hstops⟩ | ⟨-, rfl⟩
      · obtain ⟨hfinish, hexecute⟩ := collectEffects_stops hstops
        obtain ⟨loop', heq, hstate, hrunner, hresult⟩ := tryApply_quiet hreliable hreduce hexecute
        rw [RunLoop.apply, heq] at hcancel
        cases hcancel
        refine .deciding ⟨hstate ▸ hstopping, ?_, hrunner ▸ hreliable, ?_⟩
        · rw [hresult, hfinish, hunfinished]
          rfl
        · rw [RunLoop.policies, hrunner]
          exact hunlimited
      · obtain ⟨loop', heq, -, -, hresult⟩ := tryApply_quiet hreliable hreduce rfl
        rw [RunLoop.apply, heq] at hcancel
        cases hcancel
        exact .finished ⟨_, hresult, rfl⟩

/-- A run whose cancellation was accepted ends cancelled exactly if nothing disturbs it on its way: no checkpoint of
    the stopping step is handled, and no usage report finds a budget used up. -/
theorem cancelled_run_ends_cancelled_iff {next : RunLoop} (hunfinished : loop.result = none)
    (hreliable : loop.runner.Reliable) (hunlimited : loop.policies.maxElapsedMs = none)
    (hcancel : loop.apply .cancel = (next, .ok ())) (inputs : List LoopInput) :
    EndsCancelled (.deciding next) inputs ↔ ∀ st ∈ driver.trace (.deciding next) inputs, ¬ Disturbs st := by
  have hcancelling := cancelling_of_accepted hunfinished hreliable hunlimited hcancel
  have hiff := @Machine.always_iff _ _ _ driver Cancelling OnlyCancelled Disturbs
    (fun d i h hcalm => cancelling_step h i hcalm) (fun d h => onlyCancelled_of_cancelling h)
    (fun d i h hbad => not_onlyCancelled_of_disturbs h i hbad) _ hcancelling inputs
  constructor
  · rintro ⟨honly, -⟩
    exact hiff.mp honly
  · intro hcalm
    refine ⟨hiff.mpr hcalm, fun joined => ?_⟩
    have hstill : Cancelling (driver.run (.deciding next) inputs) :=
      @Machine.run_rule _ _ _ driver Cancelling (fun st => ¬ Disturbs st)
        (fun d i h hcalm => cancelling_step h i hcalm) _ hcancelling inputs hcalm
    rw [Machine.run_append]
    exact hstill.windDown joined

end

namespace Sample

/-- No tool is called and no error is shown. -/
scoped instance runnerExternals : RunnerExternals := ⟨fun actions _ _ _ _ => actions, fun text => text⟩

def launched : Driving :=
  .spawn { compiled := compiled line } (.new "run" (compiled line)) 0 0 (.start .null) false 0 0

/-- A store that takes every commit. -/
def storing : OrchestrationRunner := { compiled := compiled line, store := some fun _ _ => .ok () }

def launchedStoring : Driving := .spawn storing (.new "run" (compiled line)) 0 0 (.start .null) false 0 0

/-- The input step is executed and done, and then the next one is taken up. -/
def served : List LoopInput := [.turn, .turn, .wake (.stepDone (.ok ⟨.ok .null, {}⟩) []), .turn]

def interrupted : Driving := driver.run launched [.turn, .turn, .cancel, .wake .cancelled]

def asking : Driving → Option RunLoop
  | .deciding loop =>
    match loop.nextCommand with
    | (loop, .ok (some .cancel)) => some loop
    | _ => none
  | _ => none

def errorCode : Driving → Option String
  | .ended (.error (.transition code _)) => some code
  | _ => none

def lateCheckpoint : List LoopInput := [.turn, .wake (.signal (some (.checkpoint .null)))]

def checked (loop : RunLoop) : Bool :=
  loop.result.isNone && loop.runner.store.isNone && loop.policies.maxElapsedMs.isNone &&
    match loop.apply .cancel with
    | (next, .ok ()) => errorCode (driver.run (.deciding next) lateCheckpoint) == some "step_not_running"
    | _ => false

theorem interrupted_cancels : ∃ loop next, asking interrupted = some loop ∧ loop.result = none ∧
    loop.runner.Reliable ∧ loop.policies.maxElapsedMs = none ∧ loop.apply .cancel = (next, .ok ()) ∧
    errorCode (driver.run (.deciding next) lateCheckpoint) = some "step_not_running" := by
  have hchecked : (asking interrupted).any checked = true := by decide
  obtain ⟨loop, hasking, hloop⟩ := (any_eq_true _ _).mp hchecked
  simp only [checked, Bool.and_eq_true, isNone_iff_eq_none] at hloop
  obtain ⟨⟨⟨hresult, hstore⟩, hlimit⟩, hcancel⟩ := hloop
  split at hcancel
  · rename_i next heq
    refine ⟨loop, next, hasking, hresult, fun commit hcommit => ?_, hlimit, heq, by simpa using hcancel⟩
    rw [hstore] at hcommit
    cases hcommit
  · cases hcancel

end Sample

section

open Sample

/-- The loop waits for the input step to stop. -/
theorem cancelled_run_ends_cancelled_iff_interrupted : ∃ loop next, asking interrupted = some loop ∧
    loop.result = none ∧ loop.runner.Reliable ∧ loop.policies.maxElapsedMs = none ∧
    loop.apply .cancel = (next, .ok ()) ∧ (EndsCancelled (.deciding next) [.turn] ↔
      ∀ st ∈ driver.trace (.deciding next) [.turn], ¬ Disturbs st) := by
  obtain ⟨loop, next, hasking, hresult, hreliable, hlimit, hcancel, -⟩ := interrupted_cancels
  exact ⟨loop, next, hasking, hresult, hreliable, hlimit, hcancel,
    cancelled_run_ends_cancelled_iff hresult hreliable hlimit hcancel [.turn]⟩

/-- The reducer refuses the checkpoint of the stopped attempt, and the run ends with that error. -/
theorem late_checkpoint_ends_run : ∃ loop next, asking interrupted = some loop ∧ loop.result = none ∧
    loop.runner.Reliable ∧ loop.policies.maxElapsedMs = none ∧ loop.apply .cancel = (next, .ok ()) ∧
    errorCode (driver.run (.deciding next) lateCheckpoint) = some "step_not_running" ∧
    ¬ EndsCancelled (.deciding next) lateCheckpoint := by
  obtain ⟨loop, next, hasking, hresult, hreliable, hlimit, hcancel, hcode⟩ := interrupted_cancels
  refine ⟨loop, next, hasking, hresult, hreliable, hlimit, hcancel, hcode, fun hends => ?_⟩
  have honly := hends.1 lateCheckpoint [] (List.append_nil _).symm
  unfold errorCode at hcode
  split at hcode
  · rename_i heq
    rw [heq] at honly
    cases honly _ rfl
  · cases hcode

end

end RustyCore
