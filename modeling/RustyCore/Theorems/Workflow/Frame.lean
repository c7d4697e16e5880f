import RustyCore.Theorems.Workflow.Compiled
import RustyCore.Workflow.Reducer

/-! What the small operations of the reducer touch, when a lookup of an attempt succeeds, and the facts about
    steps that every reachable run has: its steps are the nodes of its workflow, and at most one is live. -/

namespace RustyCore

open Reducer List

def StepStatus.isLive (status : StepStatus) : Bool :=
  status = .ready || status = .retryScheduled || status.isActive

theorem StepStatus.isLive_of_isActive {status : StepStatus} (h : status.isActive = true) : status.isLive = true := by
  simp [StepStatus.isLive, h]

theorem StepStatus.isActive_iff {status : StepStatus} :
    status.isActive = true ↔ status = .running ∨ status = .waitingForPermission ∨ status = .waitingForInput := by
  cases status <;> simp [StepStatus.isActive]

namespace OrchestrationRunState

variable {s : OrchestrationRunState} {id k : OrchestrationNodeId} {f g : StepRun → StepRun}

def Live (s : OrchestrationRunState) (id : OrchestrationNodeId) : Prop :=
  ∃ step, s.steps.get? id = some step ∧ step.status.isLive = true

theorem setStep_setStep : (s.setStep id f).setStep id g = s.setStep id fun step => g (f step) := by
  have hsteps : (s.steps.modify id f).modify id g = s.steps.modify id fun step => g (f step) := by
    refine OrdMap.ext_get? fun k => ?_
    simp only [OrdMap.get?_modify]
    split
    · rw [Option.map_map]
      rfl
    · rfl
  simp only [setStep, hsteps]

theorem setStep_id : s.setStep id (fun step => step) = s := by
  have hsteps : s.steps.modify id (fun step => step) = s.steps := by
    refine OrdMap.ext_get? fun k => ?_
    rw [OrdMap.get?_modify, Option.map_id', ite_self]
  simp only [setStep, hsteps]

theorem setStep_const {step : StepRun} (h : s.steps.get? id = some step) : s.setStep id f = s.setStep id fun _ => f step := by
  have hsteps : s.steps.modify id f = s.steps.modify id fun _ => f step := by
    refine OrdMap.ext_get? fun k => ?_
    rw [OrdMap.get?_modify, OrdMap.get?_modify]
    split
    · rename_i hk
      rw [hk, h]
      rfl
    · rfl
  simp only [setStep, hsteps]

theorem forall_setStep {Q : OrchestrationNodeId → StepRun → Prop} (h : ∀ k st, s.steps.get? k = some st → Q k st)
    (hid : ∀ st, s.steps.get? id = some st → Q id (f st)) :
    ∀ k st, (s.setStep id f).steps.get? k = some st → Q k st := by
  intro k st hst
  rw [step_setStep] at hst
  split at hst
  · rename_i hk
    subst hk
    obtain ⟨st', hst', rfl⟩ := Option.map_eq_some_iff.mp hst
    exact hid st' hst'
  · exact h k st hst

end OrchestrationRunState

namespace Reducer

variable {c : CompiledOrchestration} {s : OrchestrationRunState} {id k : OrchestrationNodeId} {step : StepRun}
  {details : AttemptDetails}

@[simp] theorem settle_steps : (settle s).steps = s.steps := by
  unfold settle
  split <;> rfl

@[simp] theorem settle_input : (settle s).input = s.input := by
  unfold settle
  split <;> rfl

@[simp] theorem settle_paused : (settle s).paused = s.paused := by
  unfold settle
  split <;> rfl

@[simp] theorem settle_usage : (settle s).usage = s.usage := by
  unfold settle
  split <;> rfl

@[simp] theorem settle_totalAttempts : (settle s).totalAttempts = s.totalAttempts := by
  unfold settle
  split <;> rfl

theorem settle_ident : (settle s).definitionId = s.definitionId ∧ (settle s).definitionRevision = s.definitionRevision ∧
    (settle s).definitionHash = s.definitionHash := by
  unfold settle
  split <;> exact ⟨rfl, rfl, rfl⟩

theorem settle_status (h : s.status.isTerminal = false) (hc : s.status ≠ .cancelling) :
    (settle s).status = derivedStatus s := by
  simp [settle, h, hc]

theorem derivedStatus_open : (derivedStatus s).isTerminal = false ∧ derivedStatus s ≠ .cancelling ∧
    derivedStatus s ≠ .created := by
  unfold derivedStatus
  split
  · decide
  · decide
  · decide
  · cases s.paused <;> decide

theorem settle_open (h : s.status.isTerminal = false) (hc : s.status ≠ .cancelling) :
    (settle s).status.isTerminal = false ∧ (settle s).status ≠ .cancelling ∧ (settle s).status ≠ .created := by
  rw [settle_status h hc]
  exact derivedStatus_open

theorem settle_settle : settle (settle s) = settle s := by
  by_cases h : s.status.isTerminal || s.status == .cancelling
  · have hs : settle s = s := if_pos h
    rw [hs, hs]
  · have hs : settle s = { s with status := derivedStatus s } := if_neg h
    rw [hs, settle]
    split
    · rfl
    · rfl

/-- What counting a usage makes of the total: an empty one is not added. -/
def usageTotal [WorkflowExternals] (total usage : UsageSummary) : UsageSummary :=
  if usage = {} then total else total.add usage

theorem recordUsage_eq [WorkflowExternals] :
    (recordUsage s details).1 = { s with usage := usageTotal s.usage details.usage } := by
  unfold recordUsage usageTotal
  split <;> rfl

theorem exhaustedBudget_setStep [WorkflowExternals] {f : StepRun → StepRun} :
    exhaustedBudget c (s.setStep id f) = exhaustedBudget c s := rfl

/-- `current` is the in-flight attempt of the step, and its number is `attempt`. -/
structure InFlight (c : CompiledOrchestration) (s : OrchestrationRunState) (id : OrchestrationNodeId) (attempt : Nat)
    (step : StepRun) (current : StepAttempt) : Prop where
  known : id ∈ c.nodes.keys
  found : s.steps.get? id = some step
  active : step.status.isActive = true
  current_eq : step.attempts.getLast? = some current
  number : current.attempt = attempt

theorem stepState_eq (h : s.steps.get? id = some step) : stepState s id = .ok step := by
  rw [stepState, h]

theorem stepMut_eq (hid : id ∈ c.nodes.keys) : stepMut c s id = stepState s id := by
  have hsome : (c.node id).isNone = false := by
    rw [Option.isNone_eq_false_iff]
    exact OrdMap.isSome_get?.mpr hid
  rw [stepMut, hsome]
  rfl

theorem stepMut_ok (h : stepMut c s id = .ok step) : id ∈ c.nodes.keys ∧ s.steps.get? id = some step := by
  unfold stepMut at h
  split at h
  · cases h
  · rename_i hsome
    refine ⟨OrdMap.isSome_get?.mp (Option.isSome_iff_ne_none.mpr (by simpa [CompiledOrchestration.node] using hsome)), ?_⟩
    unfold stepState at h
    split at h
    · rename_i st hst
      cases h
      exact hst
    · cases h

def Plain (e : TransitionError) : Prop := e.code ≠ "target_not_pending"

theorem stepState_error {e : TransitionError} (h : stepState s id = .error e) : Plain e := by
  unfold stepState at h
  split at h
  · cases h
  · cases h
    simp [Plain, missingStepState]

theorem stepMut_error {e : TransitionError} (h : stepMut c s id = .error e) : Plain e := by
  unfold stepMut at h
  split at h
  · cases h
    simp [Plain, unknownStep]
  · exact stepState_error h

theorem activeAttempt_ok {attempt : Nat} :
    activeAttempt c s id attempt = .ok step ↔ ∃ current, InFlight c s id attempt step current := by
  constructor
  · intro h
    unfold activeAttempt at h
    split at h
    · cases h
    · rename_i st hst
      split at h
      · cases h
      · rename_i hactive
        split at h
        · cases h
        · rename_i hlast
          cases h
          obtain ⟨hid, hfound⟩ := stepMut_ok hst
          obtain ⟨current, hcurrent, hnumber⟩ := Option.map_eq_some_iff.mp (not_not.mp hlast)
          exact ⟨current, hid, hfound, by simpa using hactive, hcurrent, hnumber⟩
  · rintro ⟨current, h⟩
    simp [activeAttempt, stepMut_eq h.known, stepState_eq h.found, h.active, h.current_eq, h.number]

theorem activeAttempt_error {attempt : Nat} {e : TransitionError} (h : activeAttempt c s id attempt = .error e) :
    Plain e ∧ ∀ step current, ¬ InFlight c s id attempt step current := by
  have hnone : ∀ step current, ¬ InFlight c s id attempt step current := by
    intro step current hin
    rw [activeAttempt_ok.mpr ⟨current, hin⟩] at h
    cases h
  refine ⟨?_, hnone⟩
  unfold activeAttempt at h
  split at h
  · rename_i e' he'
    cases h
    exact stepMut_error he'
  · split at h
    · cases h
      simp [Plain]
    · split at h
      · cases h
        simp [Plain]
      · cases h

theorem currentAttempt_eq {current : StepAttempt} (h : step.attempts.getLast? = some current) :
    currentAttempt step = .ok current := by
  rw [currentAttempt, h]

theorem InFlight.unique {attempt attempt' : Nat} {step' : StepRun} {current current' : StepAttempt}
    (h : InFlight c s id attempt step current) (h' : InFlight c s id attempt' step' current') :
    step' = step ∧ current' = current := by
  obtain rfl : step' = step := Option.some.inj (h'.found.symm.trans h.found)
  exact ⟨rfl, Option.some.inj (h'.current_eq.symm.trans h.current_eq)⟩

theorem InFlight.usage {attempt : Nat} {current : StepAttempt} {u : UsageSummary} :
    InFlight c { s with usage := u } id attempt step current ↔ InFlight c s id attempt step current :=
  ⟨fun h => ⟨h.known, h.found, h.active, h.current_eq, h.number⟩,
    fun h => ⟨h.known, h.found, h.active, h.current_eq, h.number⟩⟩

theorem eachStep_eq {f : OrchestrationNodeId → StepRun → StepRun} (hf : ∀ k st, f k (f k st) = f k st)
    {ids : List OrchestrationNodeId} (hids : ∀ k ∈ ids, k ∈ s.steps.keys) :
    eachStep (fun k st => .ok (f k st)) ids s =
      ({ s with steps := s.steps.mapEntries fun k st => if k ∈ ids then f k st else st }, .ok ()) := by
  induction ids generalizing s with
  | nil =>
    have hsteps : (s.steps.mapEntries fun k st => if k ∈ ([] : List OrchestrationNodeId) then f k st else st) = s.steps := by
      refine OrdMap.ext_get? fun k => ?_
      simp [OrdMap.get?_mapEntries]
    rw [hsteps]
    rfl
  | cons id rest ih =>
    obtain ⟨st, hst⟩ := OrdMap.exists_get? (hids id mem_cons_self)
    have hrest : ∀ k ∈ rest, k ∈ (s.setStep id fun _ => f id st).steps.keys := by
      intro k hk
      rw [OrchestrationRunState.keys_setStep]
      exact hids k (mem_cons_of_mem _ hk)
    have hsteps : ((s.setStep id fun _ => f id st).steps.mapEntries fun k st => if k ∈ rest then f k st else st) =
        s.steps.mapEntries fun k st => if k ∈ id :: rest then f k st else st := by
      refine OrdMap.ext_get? fun k => ?_
      rw [OrdMap.get?_mapEntries, OrdMap.get?_mapEntries, OrchestrationRunState.step_setStep]
      by_cases hk : k = id
      · subst hk
        by_cases hmem : k ∈ rest <;> simp [hst, hmem, hf]
      · simp [hk]
    simp only [eachStep, stepState_eq hst, ih hrest, hsteps]
    rfl

end Reducer

/-- What every reachable run has: its identity and steps are those of the workflow, an active step has an
    attempt, at most one step is live, and none is in a run that has not started, is being cancelled or is over. -/
structure Sound (c : CompiledOrchestration) (s : OrchestrationRunState) : Prop where
  ident : s.definitionId = c.definitionId ∧ s.definitionRevision = c.revision ∧ s.definitionHash = c.contentHash
  keys : s.steps.keys = c.nodes.keys
  current : ∀ k step, s.steps.get? k = some step → step.status.isActive = true →
    ∃ current, step.attempts.getLast? = some current
  single : ∀ a b, s.Live a → s.Live b → a = b
  idle : s.status.isTerminal = true ∨ s.status = .cancelling ∨ s.status = .created → ∀ a, ¬ s.Live a

namespace Sound

variable {c : CompiledOrchestration} {s : OrchestrationRunState} {id : OrchestrationNodeId} {step : StepRun}

theorem exists_step (h : Sound c s) (hid : id ∈ c.nodes.keys) : ∃ step, s.steps.get? id = some step :=
  OrdMap.exists_get? (h.keys ▸ hid)

theorem node (h : Sound c s) (hstep : s.steps.get? id = some step) : id ∈ c.nodes.keys :=
  h.keys ▸ OrdMap.mem_keys_of_get? hstep

theorem isActive_idle (h : Sound c s) (hidle : s.status.isTerminal = true ∨ s.status = .cancelling ∨ s.status = .created)
    (hstep : s.steps.get? id = some step) : step.status.isActive = false := by
  by_contra hactive
  rw [Bool.not_eq_false] at hactive
  exact h.idle hidle id ⟨step, hstep, StepStatus.isLive_of_isActive hactive⟩

theorem isActive_other (h : Sound c s) {l : OrchestrationNodeId} (hlive : s.Live l) (hstep : s.steps.get? id = some step)
    (hne : id ≠ l) : step.status.isActive = false := by
  by_contra hactive
  rw [Bool.not_eq_false] at hactive
  exact hne (h.single id l ⟨step, hstep, StepStatus.isLive_of_isActive hactive⟩ hlive)

theorem activeStep_eq (h : Sound c s) (hstep : s.steps.get? id = some step) (hactive : step.status.isActive = true) :
    s.activeStep = some (id, step) := by
  cases hfind : s.activeStep with
  | none =>
    have hnone := List.find?_eq_none.mp hfind (id, step) (OrdMap.mem_entries.mpr hstep)
    exact absurd hactive hnone
  | some found =>
    obtain ⟨k, st⟩ := found
    have hst : s.steps.get? k = some st := OrdMap.mem_entries.mp (mem_of_find?_eq_some hfind)
    have hact := List.find?_some (p := fun e : OrchestrationNodeId × StepRun => e.2.status.isActive) hfind
    have hk : k = id := h.single k id ⟨st, hst, StepStatus.isLive_of_isActive hact⟩
      ⟨step, hstep, StepStatus.isLive_of_isActive hactive⟩
    subst hk
    have hsame : some st = some step := hst.symm.trans hstep
    cases hsame
    rfl

theorem inFlight_ids (h : Sound c s) (hstep : s.steps.get? id = some step) (hactive : step.status.isActive = true) :
    (s.steps.entries.filter (·.2.status.isActive)).map Prod.fst = [id] := by
  have hnd : ((s.steps.entries.filter (·.2.status.isActive)).map Prod.fst).Nodup :=
    s.steps.nodup_keys.sublist (filter_sublist.map Prod.fst)
  refine perm_singleton.mp ((perm_ext_iff_of_nodup hnd (nodup_singleton id)).mpr fun k => ?_)
  rw [mem_map, mem_singleton]
  constructor
  · rintro ⟨⟨k', st⟩, hmem, rfl⟩
    obtain ⟨hentry, hact⟩ := mem_filter.mp hmem
    exact h.single k' id ⟨st, OrdMap.mem_entries.mp hentry, StepStatus.isLive_of_isActive hact⟩
      ⟨step, hstep, StepStatus.isLive_of_isActive hactive⟩
  · rintro rfl
    exact ⟨(k, step), mem_filter.mpr ⟨OrdMap.mem_entries.mpr hstep, hactive⟩, rfl⟩

theorem active_of_ids {ids : List OrchestrationNodeId}
    (h : (s.steps.entries.filter (·.2.status.isActive)).map Prod.fst = ids) :
    id ∈ ids ↔ ∃ step, s.steps.get? id = some step ∧ step.status.isActive = true := by
  subst h
  rw [mem_map]
  constructor
  · rintro ⟨⟨k, st⟩, hmem, rfl⟩
    obtain ⟨hentry, hact⟩ := mem_filter.mp hmem
    exact ⟨st, OrdMap.mem_entries.mp hentry, hact⟩
  · rintro ⟨st, hst, hact⟩
    exact ⟨(id, st), mem_filter.mpr ⟨OrdMap.mem_entries.mpr hst, hact⟩, rfl⟩

theorem checkRestorable_ok (h : Sound c s) : Reducer.checkRestorable c s = .ok () := by
  have hsize : s.steps.size = c.nodes.size := by
    rw [← OrdMap.size_keys, h.keys, OrdMap.size_keys]
  have hall : c.nodes.keys.all s.steps.contains = true := by
    rw [all_eq_true]
    intro k hk
    exact OrdMap.isSome_get?.mpr (h.keys ▸ hk)
  simp [Reducer.checkRestorable, h.ident.1, h.ident.2.1, h.ident.2.2, hsize, hall]

end Sound

end RustyCore
