import RustyCore.Lib.Machine
import RustyCore.Theorems.Workflow.Operations

/-! The reducer as a machine, its reachable runs, and that each of them is sound: at most one step is live, and
    the steps are those of the workflow. -/

namespace RustyCore

open Reducer WorkflowCompiler Option OrdMap

section

variable [WorkflowExternals]

def reducer (c : CompiledOrchestration) :
    Machine OrchestrationRunState OrchestrationCommand (Except TransitionError (List OrchestrationEffect)) where
  step s command := ((apply c s command).1, [(apply c s command).2])

def Fresh (c : CompiledOrchestration) (s : OrchestrationRunState) : Prop :=
  ∃ runId options, s = { OrchestrationRunState.new runId c with options }

abbrev ReachableRun (c : CompiledOrchestration) : OrchestrationRunState → Prop := (reducer c).Reachable (Fresh c)

end

namespace Reducer

structure KeepsIdent (s s' : OrchestrationRunState) : Prop where
  definitionId : s'.definitionId = s.definitionId
  revision : s'.definitionRevision = s.definitionRevision
  hash : s'.definitionHash = s.definitionHash

theorem keepsIdent_settle {s s' : OrchestrationRunState} (h : KeepsIdent s s') : KeepsIdent s (settle s') := by
  obtain ⟨hid, hrevision, hhash⟩ := @settle_ident s'
  exact ⟨hid.trans h.definitionId, hrevision.trans h.revision, hhash.trans h.hash⟩

def Going (status : OrchestrationStatus) : Prop :=
  status.isTerminal = false ∧ status ≠ .cancelling ∧ status ≠ .created

variable {step : StepRun}

theorem isLive_abandonStep : (abandonStep step).status.isLive = true ↔ step.status.isActive = true := by
  unfold abandonStep
  cases h : step.status <;> simp [StepStatus.isLive, StepStatus.isActive, h]

theorem isActive_abandonStep :
    (abandonStep step).status.isActive = true ↔ step.status.isActive = true := by
  unfold abandonStep
  cases h : step.status <;> simp [StepStatus.isActive, h]

theorem attempts_abandonStep : (abandonStep step).attempts = step.attempts := by
  unfold abandonStep
  split <;> rfl

theorem getLast?_setCurrent {attempt : StepAttempt} :
    (setCurrent step attempt).attempts.getLast? = some attempt := by
  simp [setCurrent]

theorem isActive_stopStep (h : step.status.isActive = true →
    ∃ current, step.attempts.getLast? = some current) : (stopStep step).status.isActive = false := by
  by_cases hactive : step.status.isActive = true
  · obtain ⟨current, hcurrent⟩ := h hactive
    rw [stopStep, hcurrent]
    dsimp only
    rw [if_pos hactive]
    rfl
  · rw [Bool.not_eq_true] at hactive
    rw [(@stopStep_idle "" step hactive).1, hactive]

end Reducer

namespace Sound

variable {c : CompiledOrchestration} {s s' : OrchestrationRunState} {id : OrchestrationNodeId} {step step' : StepRun}

theorem going (hs : Sound c s) (hstep : s.steps.get? id = some step) (hlive : step.status.isLive = true) :
    Going s.status := by
  have hnot : ¬ (s.status.isTerminal = true ∨ s.status = .cancelling ∨ s.status = .created) :=
    fun h => hs.idle h id ⟨step, hstep, hlive⟩
  rw [not_or, not_or] at hnot
  exact ⟨by simpa using hnot.1, hnot.2.1, hnot.2.2⟩

theorem next (hs : Sound c s) (hident : KeepsIdent s s') (hkeys : s'.steps.keys = s.steps.keys)
    (hcurrent : ∀ k step, s'.steps.get? k = some step → step.status.isActive = true →
      ∃ current, step.attempts.getLast? = some current)
    (hlive : (∀ a, ¬ s'.Live a) ∨ ∃ l, (∀ a, s'.Live a → a = l) ∧ Going s'.status) : Sound c s' := by
  refine ⟨⟨hident.definitionId.trans hs.ident.1, hident.revision.trans hs.ident.2.1, hident.hash.trans hs.ident.2.2⟩,
    hkeys.trans hs.keys, hcurrent, ?_, ?_⟩
  · rcases hlive with hnone | ⟨l, hone, -⟩
    · exact fun a b ha _ => (hnone a ha).elim
    · exact fun a b ha hb => (hone a ha).trans (hone b hb).symm
  · intro hover a ha
    rcases hlive with hnone | ⟨l, -, hgoing⟩
    · exact hnone a ha
    · rcases hover with h | h | h
      · exact absurd h (by simp [hgoing.1])
      · exact hgoing.2.1 h
      · exact hgoing.2.2 h

theorem update (hs : Sound c s) (hstep : s.steps.get? id = some step) (hlive : step.status.isLive = true)
    (hident : KeepsIdent s s') (hsteps : s'.steps = (s.setStep id fun _ => step').steps) (hgoing : Going s'.status)
    (hcurrent : step'.status.isActive = true → ∃ current, step'.attempts.getLast? = some current) : Sound c s' := by
  refine hs.next hident ?_ ?_ (Or.inr ⟨id, fun a ha => ?_, hgoing⟩)
  · rw [hsteps, OrchestrationRunState.keys_setStep]
  · rw [hsteps]
    exact OrchestrationRunState.forall_setStep hs.current fun _ _ => hcurrent
  · obtain ⟨st, hst, hst'⟩ := ha
    by_contra hne
    rw [hsteps, OrchestrationRunState.step_setStep_ne hne] at hst
    exact hne (hs.single a id ⟨st, hst, hst'⟩ ⟨step, hstep, hlive⟩)

theorem notLive_setStep (hs : Sound c s) (hstep : s.steps.get? id = some step) (hlive : step.status.isLive = true)
    (hended : step'.status.isLive = false) {k : OrchestrationNodeId} {st : StepRun}
    (hst : (s.setStep id fun _ => step').steps.get? k = some st) : st.status.isLive = false := by
  by_cases hid : k = id
  · subst hid
    rw [OrchestrationRunState.step_setStep_self hstep] at hst
    cases hst
    exact hended
  · rw [OrchestrationRunState.step_setStep_ne hid] at hst
    by_contra hst'
    exact hid (hs.single k id ⟨st, hst, by simpa using hst'⟩ ⟨step, hstep, hlive⟩)

theorem handOver (hs : Sound c s) (hstep : s.steps.get? id = some step) (hlive : step.status.isLive = true)
    (hident : KeepsIdent s s') {target : OrchestrationNodeId} {next : StepRun} (hended : step'.status.isLive = false)
    (hsteps : s'.steps = ((s.setStep id fun _ => step').setStep target fun _ => { next with status := .ready }).steps)
    (hgoing : Going s'.status) : Sound c s' := by
  refine hs.next hident ?_ ?_ (Or.inr ⟨target, fun a ha => ?_, hgoing⟩)
  · rw [hsteps, OrchestrationRunState.keys_setStep, OrchestrationRunState.keys_setStep]
  · rw [hsteps]
    refine OrchestrationRunState.forall_setStep (OrchestrationRunState.forall_setStep hs.current fun _ _ hactive => ?_)
      fun _ _ hactive => ?_
    · rw [StepStatus.isLive_of_isActive hactive] at hended
      cases hended
    · cases hactive
  · obtain ⟨st, hst, hst'⟩ := ha
    by_contra hne
    rw [hsteps, OrchestrationRunState.step_setStep_ne hne] at hst
    rw [hs.notLive_setStep hstep hlive hended hst] at hst'
    cases hst'

theorem drop (hs : Sound c s) (hstep : s.steps.get? id = some step) (hlive : step.status.isLive = true)
    (hident : KeepsIdent s s') (hended : step'.status.isLive = false)
    (hsteps : s'.steps = (s.setStep id fun _ => step').steps) : Sound c s' := by
  refine hs.next hident ?_ ?_ (Or.inl fun a ha => ?_)
  · rw [hsteps, OrchestrationRunState.keys_setStep]
  · rw [hsteps]
    refine OrchestrationRunState.forall_setStep hs.current fun _ _ hactive => ?_
    rw [StepStatus.isLive_of_isActive hactive] at hended
    cases hended
  · obtain ⟨st, hst, hst'⟩ := ha
    rw [hsteps] at hst
    rw [hs.notLive_setStep hstep hlive hended hst] at hst'
    cases hst'

theorem failedRun (hs : Sound c s) (hident : KeepsIdent s s') (hkeys : s'.steps.keys = s.steps.keys)
    (hnone : ∀ k st, s'.steps.get? k = some st → st.status.isActive = false) {error : OrchestrationError} :
    Sound c (Reducer.failedRun s' error) := by
  have hsteps : ∀ k st, (Reducer.failedRun s' error).steps.get? k = some st →
      ∃ st', s'.steps.get? k = some st' ∧ st = abandonStep st' := by
    intro k st hst
    rw [Reducer.failedRun, OrdMap.get?_mapEntries] at hst
    obtain ⟨st', hst', rfl⟩ := map_eq_some_iff.mp hst
    exact ⟨st', hst', rfl⟩
  refine hs.next ⟨hident.definitionId, hident.revision, hident.hash⟩ ?_ ?_ (Or.inl ?_)
  · rw [Reducer.failedRun, keys_mapEntries, hkeys]
  · intro k st hst hactive
    obtain ⟨st', hst', rfl⟩ := hsteps k st hst
    rw [isActive_abandonStep, hnone k st' hst'] at hactive
    cases hactive
  · rintro a ⟨st, hst, hlive⟩
    obtain ⟨st', hst', rfl⟩ := hsteps a st hst
    rw [isLive_abandonStep, hnone a st' hst'] at hlive
    cases hlive

theorem closed (hs : Sound c s) (hident : KeepsIdent s s')
    (hsteps : s'.steps = s.steps.mapEntries fun _ step => closeStep step) : Sound c s' := by
  have hidle : ∀ k st, s'.steps.get? k = some st → st.status.isLive = false := by
    intro k st hst
    rw [hsteps, OrdMap.get?_mapEntries] at hst
    obtain ⟨st', hst', rfl⟩ := map_eq_some_iff.mp hst
    by_contra hlive
    rw [Bool.not_eq_false, closeStep, isLive_abandonStep, isActive_stopStep (hs.current k st' hst')] at hlive
    cases hlive
  refine hs.next hident ?_ (fun k st hst hactive => ?_) (Or.inl ?_)
  · rw [hsteps, keys_mapEntries]
  · have := hidle k st hst
    rw [StepStatus.isLive_of_isActive hactive] at this
    cases this
  · rintro a ⟨st, hst, hlive⟩
    rw [hidle a st hst] at hlive
    cases hlive

end Sound

section

variable {c : CompiledOrchestration} {s : OrchestrationRunState}

theorem keepsIdent_refl : KeepsIdent s s := ⟨rfl, rfl, rfl⟩

variable {id : OrchestrationNodeId}

theorem Reducer.InFlight.isLive {attempt : Nat} {step : StepRun} {current : StepAttempt}
    (h : InFlight c s id attempt step current) : step.status.isLive = true := StepStatus.isLive_of_isActive h.active

theorem Sound.none_active (hs : Sound c s) {step step' : StepRun}
    (hstep : s.steps.get? id = some step) (hlive : step.status.isLive = true) (hended : step'.status.isActive = false) :
    ∀ k st, (s.setStep id fun _ => step').steps.get? k = some st → st.status.isActive = false := by
  intro k st hst
  by_cases hk : k = id
  · subst hk
    rw [OrchestrationRunState.step_setStep_self hstep] at hst
    cases hst
    exact hended
  · rw [OrchestrationRunState.step_setStep_ne hk] at hst
    exact hs.isActive_other ⟨step, hstep, hlive⟩ hst hk

theorem Reducer.Touch.isActive {command : OrchestrationCommand} {attempt : Nat}
    {step step' : StepRun} {event : OrchestrationEvent} (h : Touch command id attempt step step' event)
    (hactive : step.status.isActive = true) : step'.status.isActive = true ∧ step'.attempts = step.attempts := by
  cases h with
  | permissionRequired | inputRequired => exact ⟨rfl, rfl⟩
  | permissionResolved =>
    refine ⟨?_, rfl⟩
    dsimp only
    split
    · rfl
    · exact hactive
  | inputResolved =>
    refine ⟨?_, rfl⟩
    dsimp only
    split <;> rfl

theorem Sound.sentBack (hs : Sound c s) {s' : OrchestrationRunState} {id target : OrchestrationNodeId}
    {span : List OrchestrationNodeId} {step failed : StepRun} {error : OrchestrationError} {revise : Bool}
    (hstep : s.steps.get? id = some step) (hlive : step.status.isLive = true) (hident : KeepsIdent s s')
    (hsteps : s'.steps = s.steps.mapEntries (sentBackStep id target span failed error revise))
    (hgoing : Going s'.status) : Sound c s' := by
  have hcases : ∀ k st, s'.steps.get? k = some st → k = target ∨ st.status = .pending ∨
      (k ≠ id ∧ s.steps.get? k = some st) := by
    intro k st hst
    rw [hsteps, OrdMap.get?_mapEntries] at hst
    obtain ⟨st', hst', rfl⟩ := map_eq_some_iff.mp hst
    unfold sentBackStep
    split
    · rename_i hk
      exact Or.inl hk
    · split
      · exact Or.inr (Or.inl rfl)
      · rename_i hne
        split
        · exact Or.inr (Or.inl rfl)
        · exact Or.inr (Or.inr ⟨hne, hst'⟩)
  refine hs.next hident ?_ (fun k st hst hactive => ?_) (Or.inr ⟨target, fun a ha => ?_, hgoing⟩)
  · rw [hsteps, keys_mapEntries]
  · by_cases hk : k = target
    · subst hk
      rw [hsteps, OrdMap.get?_mapEntries] at hst
      obtain ⟨st', hst', rfl⟩ := map_eq_some_iff.mp hst
      simp [sentBackStep, targetStep, StepStatus.isActive] at hactive
    · rcases hcases k st hst with h | h | ⟨-, h⟩
      · exact absurd h hk
      · simp [h, StepStatus.isActive] at hactive
      · exact hs.current k st h hactive
  · obtain ⟨st, hst, hst'⟩ := ha
    rcases hcases a st hst with h | h | ⟨hne, h⟩
    · exact h
    · simp [h, StepStatus.isLive, StepStatus.isActive] at hst'
    · exact absurd (hs.single a id ⟨st, h, hst'⟩ ⟨step, hstep, hlive⟩) hne

theorem Sound.settled (hs : Sound c s) {s' : OrchestrationRunState} (hsteps : s'.steps = s.steps)
    (hident : KeepsIdent s s') (hstatus : s'.status = s.status) : Sound c (settle s') := by
  have hlive : ∀ a, (settle s').Live a ↔ s.Live a := by
    intro a
    rw [OrchestrationRunState.Live, OrchestrationRunState.Live, settle_steps, hsteps]
  refine hs.next (keepsIdent_settle hident) (by rw [settle_steps, hsteps]) 
    (by rw [settle_steps, hsteps]; exact hs.current) ?_
  by_cases hany : ∃ a, s.Live a
  · obtain ⟨l, step, hstep, hstatus'⟩ := hany
    have hgoing := hs.going hstep hstatus'
    refine Or.inr ⟨l, fun a ha => hs.single a l ((hlive a).mp ha) ⟨step, hstep, hstatus'⟩, ?_⟩
    exact settle_open (hstatus ▸ hgoing.1) (hstatus ▸ hgoing.2.1)
  · exact Or.inl fun a ha => hany ⟨a, (hlive a).mp ha⟩

theorem sound_fresh (h : Fresh c s) : Sound c s := by
  obtain ⟨runId, options, rfl⟩ := h
  have hpending : ∀ k step, (OrchestrationRunState.new runId c).steps.get? k = some step → step.status = .pending := by
    intro k step hstep
    rw [OrchestrationRunState.new, OrdMap.get?_mapEntries] at hstep
    obtain ⟨-, -, rfl⟩ := map_eq_some_iff.mp hstep
    rfl
  have hidle : ∀ a, ¬ (OrchestrationRunState.new runId c).Live a := by
    rintro a ⟨step, hstep, hlive⟩
    rw [hpending a step hstep] at hlive
    cases hlive
  refine ⟨⟨rfl, rfl, rfl⟩, keys_mapEntries, fun k step hstep hactive => ?_, ?_, fun _ => hidle⟩
  · rw [hpending k step hstep] at hactive
    cases hactive
  · exact fun a b ha => (hidle a ha).elim

variable [WorkflowExternals]

theorem sound_outcome (hs : Sound c s) (hopen : s.status.isTerminal = false) {command : OrchestrationCommand}
    {applied : Applied} (h : Outcome c s command applied) : Sound c applied.1 := by
  -- A run with a live step goes on, and settling it keeps it going.
  have hsettle : ∀ s' : OrchestrationRunState, s'.status = s.status → Going s.status → Going (settle s').status := by
    intro s' hstatus hgoing
    exact settle_open (hstatus ▸ hgoing.1) (hstatus ▸ hgoing.2.1)
  cases h with
  | rejected => exact hs
  | leakedSuccess | leakedFailure => exact ⟨hs.ident, hs.keys, hs.current, hs.single, hs.idle⟩
  | stuckSuccess hin | stuckFailure hnode hin =>
    exact hs.drop hin.found hin.isLive ⟨rfl, rfl, rfl⟩ rfl rfl
  | @started input step es hcreated hstep =>
    have hnone := hs.idle (Or.inr (Or.inr hcreated))
    refine hs.next (keepsIdent_settle ⟨rfl, rfl, rfl⟩) (by simp) ?_ (Or.inr ⟨c.entryNode, ?_, ?_⟩)
    · rw [settle_steps]
      exact OrchestrationRunState.forall_setStep hs.current fun _ _ h => by cases h
    · rintro a ⟨st, hst, hlive⟩
      by_contra hne
      rw [settle_steps, OrchestrationRunState.step_setStep_ne hne] at hst
      exact hnone a ⟨st, hst, hlive⟩
    · exact settle_open hopen (by simp [OrchestrationRunState.setStep, hcreated])
  | @denied id attempt step error hready hpaused hstep hstatus =>
    refine hs.failedRun keepsIdent_refl rfl fun k st hst => ?_
    by_cases hk : k = id
    · rw [hk, hstep] at hst
      cases hst
      rw [hstatus]
      rfl
    · exact hs.isActive_other ⟨_, hstep, by rw [hstatus]; rfl⟩ hst hk
  | @admitted id attempt step hready hpaused hstep hstatus =>
    have hlive : step.status.isLive = true := by rw [StepStatus.isLive, hstatus]; rfl
    exact hs.update hstep hlive (keepsIdent_settle ⟨rfl, rfl, rfl⟩) (by rw [settle_steps]; rfl)
      (hsettle _ rfl (hs.going hstep hlive)) fun _ => ⟨_, List.getLast?_concat⟩
  | completed hin => exact hs.drop hin.found hin.isLive ⟨rfl, rfl, rfl⟩ rfl rfl
  | advanced hin | rerouted hnode hin =>
    exact hs.handOver hin.found hin.isLive (keepsIdent_settle ⟨rfl, rfl, rfl⟩) rfl (by rw [settle_steps]; rfl)
      (hsettle _ rfl (hs.going hin.found hin.isLive))
  | retried hnode hin =>
    exact hs.update hin.found hin.isLive (keepsIdent_settle ⟨rfl, rfl, rfl⟩) (by rw [settle_steps]; rfl)
      (hsettle _ rfl (hs.going hin.found hin.isLive)) (fun h => by cases h)
  | sentBack hnode hin =>
    exact hs.sentBack hin.found hin.isLive (keepsIdent_settle ⟨rfl, rfl, rfl⟩) (by rw [settle_steps])
      (hsettle _ rfl (hs.going hin.found hin.isLive))
  | failed hnode hin =>
    apply hs.failedRun
    · exact ⟨rfl, rfl, rfl⟩
    · exact OrchestrationRunState.keys_setStep
    · exact hs.none_active hin.found hin.isLive rfl
  | touched hin htouch =>
    obtain ⟨hactive, hattempts⟩ := htouch.isActive hin.active
    exact hs.update hin.found hin.isLive (keepsIdent_settle ⟨rfl, rfl, rfl⟩) (by rw [settle_steps])
      (hsettle _ rfl (hs.going hin.found hin.isLive)) fun _ => ⟨_, hattempts ▸ hin.current_eq⟩
  | checkpointed hin =>
    exact hs.update hin.found hin.isLive ⟨rfl, rfl, rfl⟩ rfl (hs.going hin.found hin.isLive)
      fun _ => ⟨_, hin.current_eq⟩
  | @woken id step hstep hstatus =>
    have hlive : step.status.isLive = true := by rw [StepStatus.isLive, hstatus]; rfl
    exact hs.update hstep hlive (keepsIdent_settle ⟨rfl, rfl, rfl⟩) (by rw [settle_steps])
      (hsettle _ rfl (hs.going hstep hlive)) (fun h => by cases h)
  | paused | resumed => exact hs.settled rfl ⟨rfl, rfl, rfl⟩ rfl
  | aborted =>
    apply hs.failedRun
    · exact ⟨rfl, rfl, rfl⟩
    · exact keys_mapEntries
    · intro k st hst
      rw [OrdMap.get?_mapEntries] at hst
      obtain ⟨st', hst', rfl⟩ := map_eq_some_iff.mp hst
      exact isActive_stopStep (hs.current k st' hst')
  | cancelling | cancelled => exact hs.closed ⟨rfl, rfl, rfl⟩ rfl
  | cancellationCompleted hcancelling | restoredCancelling hcancelling =>
    have hnone := hs.idle (Or.inr (Or.inl hcancelling))
    exact hs.next ⟨rfl, rfl, rfl⟩ rfl hs.current (Or.inl hnone)
  | restored => exact hs.settled rfl ⟨rfl, rfl, rfl⟩ rfl
  | replayed hcancelling hin =>
    exact hs.update hin.found hin.isLive (keepsIdent_settle ⟨rfl, rfl, rfl⟩) (by rw [settle_steps])
      (hsettle _ rfl (hs.going hin.found hin.isLive)) (fun h => by cases h)
  | interrupted hcancelling hin =>
    apply hs.failedRun
    · exact ⟨rfl, rfl, rfl⟩
    · exact OrchestrationRunState.keys_setStep
    · exact hs.none_active hin.found hin.isLive rfl

theorem apply_terminal (h : s.status.isTerminal = true) (command : OrchestrationCommand) :
    apply c s command = (s, .error terminalRun) := if_pos h

theorem sound_apply (hv : c.Valid) (hs : Sound c s) (command : OrchestrationCommand) :
    Sound c (apply c s command).1 := by
  by_cases hopen : s.status.isTerminal = true
  · rw [apply_terminal hopen]
    exact hs
  · rw [Bool.not_eq_true] at hopen
    exact sound_outcome hs hopen (outcome_apply hv hs hopen command)

theorem sound_of_reachable (hv : c.Valid) (hr : ReachableRun c s) : Sound c s :=
  hr.invariant (fun _ => sound_fresh) fun _ command hs => sound_apply hv hs command

end

namespace Sample

/-- The libraries, as far as the runs below need them: nothing is hashed, no float is shown, and sums are exact. -/
scoped instance workflowExternals : WorkflowExternals := ⟨fun _ => [], fun _ => "", (· + ·)⟩

def agentNode (id : OrchestrationNodeId) (retry : RetryPolicy) (bindings : List InputBinding) : OrchestrationNode where
  id := id
  name := id
  kind := .agent { instructions := "work", structuredOutput := .text }
  inputBindings := bindings
  retry := retry

/-- A verifier that sends work back to `target`. -/
def verifyNode (id target : OrchestrationNodeId) : OrchestrationNode where
  id := id
  name := id
  kind := .verify { checks := [.artifactExists ""], retryTarget := some target }

def edge (source target : OrchestrationNodeId) (condition : EdgeCondition) : OrchestrationEdge where
  id := source ++ " to " ++ target
  source := source
  target := target
  condition := condition

def workflow (nodes : List OrchestrationNode) (edges : List OrchestrationEdge) : OrchestrationDefinition where
  schemaVersion := 1
  id := "flow"
  revision := 1
  name := "flow"
  nodes := { id := "input", name := "input", kind := .input {} } :: nodes ++
    [{ id := "output", name := "output", kind := .output { source := .runInput "" } }]
  edges := edges

def line : OrchestrationDefinition :=
  workflow [agentNode "work" {} []] [edge "input" "work" .onSuccess, edge "work" "output" .onSuccess]

def compiled (d : OrchestrationDefinition) : CompiledOrchestration := d.lookups "input"

def runOf (d : OrchestrationDefinition) (commands : List OrchestrationCommand) : OrchestrationRunState :=
  (reducer (compiled d)).run (.new "run" (compiled d)) commands

theorem reachable_runOf (d : OrchestrationDefinition) (commands : List OrchestrationCommand) :
    ReachableRun (compiled d) (runOf d commands) :=
  Machine.Reachable.run (.start ⟨"run", {}, rfl⟩) commands

theorem compile_eq_compiled {d : OrchestrationDefinition} (hentry : entryNode d = some "input") (h : d.issues = []) :
    d.compile = .ok (compiled d) := by
  rw [OrchestrationDefinition.compile, hentry]
  exact if_pos h

theorem compile_line : line.compile = .ok (compiled line) :=
  compile_eq_compiled (by decide) (by decide)

def refusal (applied : Applied) : Option TransitionError :=
  match applied.2 with
  | .error e => some e
  | .ok _ => none

theorem refusal_eq {applied : Applied} {e : TransitionError} (h : refusal applied = some e) : applied.2 = .error e := by
  unfold refusal at h
  split at h
  · rename_i hresult
    rw [hresult, Option.some.inj h]
  · cases h

def succeeded (id : OrchestrationNodeId) (attempt : Nat) : OrchestrationCommand := .stepSucceeded id attempt .null {}

def failure (id : OrchestrationNodeId) (attempt : Nat) (reason : RetryReason) : OrchestrationCommand :=
  .stepFailed id attempt ⟨"FAILED", "failed", some reason⟩ {}

def opening : List OrchestrationCommand := [.start .null, .stepAdmitted "input" 1, succeeded "input" 1]

end Sample

end RustyCore
