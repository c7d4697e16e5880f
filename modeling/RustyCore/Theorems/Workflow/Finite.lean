import RustyCore.Theorems.Workflow.Attempts
import RustyCore.Theorems.Workflow.Moves

/-! Every run is finite. What is left of a run is measured by the revisions that may still be asked for, then by
    the tries that may still be made at each step, then by how far the live step is from the end; every admission
    uses some of it up. -/

namespace RustyCore

open Reducer WorkflowCompiler OrdMap

def OrchestrationNode.maxRevisions (node : OrchestrationNode) : Nat :=
  match node.kind with
  | .approval config => config.maxRevisions
  | _ => 0

/-- The admissions a workflow allows: between two revisions every step may be scheduled again as often as it may be
    tried, and each time the run may go through all nodes. -/
def admissionBound (nodes : Nat) (maxAttempts maxRevisions : List Nat) : Nat :=
  (maxRevisions.sum * (maxAttempts.sum + 1) + maxAttempts.sum) * nodes + nodes

def CompiledOrchestration.admissionBound (c : CompiledOrchestration) : Nat :=
  RustyCore.admissionBound c.nodes.size (c.nodes.values.map (·.retry.maxAttempts)) (c.nodes.values.map (·.maxRevisions))

/-- The step is an accepted `StepAdmitted`. -/
def admits (st : Machine.Step OrchestrationRunState OrchestrationCommand
    (Except TransitionError (List OrchestrationEffect))) : Bool :=
  match st.input with
  | .stepAdmitted .. => st.out.all (·.isOk)
  | _ => false

section

variable (c : CompiledOrchestration) (s : OrchestrationRunState)

def triesOf (k : OrchestrationNodeId) : Nat := ((c.node k).map (·.retry.maxAttempts)).getD 0

def revisionsOf (k : OrchestrationNodeId) : Nat := ((c.node k).map (·.maxRevisions)).getD 0

def triesLeft (k : OrchestrationNodeId) (step : StepRun) : Nat :=
  triesOf c k - (step.attempts.length + (step.status.isLive && !step.status.isActive).toNat - step.retryBase)

def revisionsLeft (k : OrchestrationNodeId) (step : StepRun) : Nat :=
  revisionsOf c k + step.status.isActive.toNat - step.attempts.length

def reschedules : Nat :=
  s.steps.sum (revisionsLeft c) * ((c.nodes.values.map (·.retry.maxAttempts)).sum + 1) + s.steps.sum (triesLeft c)

def wayOf (k : OrchestrationNodeId) (step : StepRun) : Nat := c.nodes.size - step.status.isActive.toNat - c.rank k

def Based : Prop := ∀ k step, s.steps.get? k = some step → step.retryBase ≤ step.attempts.length

/-- At most `n` admissions are left: the run has no live step and has been started, or it has not been started, or
    its live step has that many before it. -/
inductive AdmissionsLeft (n : Nat) : Prop
  | spent (hnone : ∀ l, ¬ s.Live l) (hcreated : s.status ≠ .created)
  | fresh (hcreated : s.status = .created) (hbased : Based s) (hle : reschedules c s * c.nodes.size + c.nodes.size ≤ n)
  | live {l : OrchestrationNodeId} {step : StepRun} (hstep : s.steps.get? l = some step)
      (hlive : step.status.isLive = true) (hbased : Based s)
      (hle : reschedules c s * c.nodes.size + wayOf c l step ≤ n)

end

section

variable {c : CompiledOrchestration} {s s' : OrchestrationRunState} {id : OrchestrationNodeId} {step step' : StepRun}

theorem triesOf_le {k : OrchestrationNodeId} : triesOf c k ≤ (c.nodes.values.map (·.retry.maxAttempts)).sum := by
  unfold triesOf
  cases hnode : c.node k with
  | none => exact Nat.zero_le _
  | some node => exact List.le_sum_of_mem (List.mem_map.mpr ⟨node, mem_values.mpr ⟨k, hnode⟩, rfl⟩)

theorem reschedules_setStep {d : Nat} (hstep : s.steps.get? id = some step)
    (hsteps : s'.steps = (s.setStep id fun _ => step').steps)
    (hrevisions : revisionsLeft c id step' ≤ revisionsLeft c id step)
    (htries : triesLeft c id step' + d ≤ triesLeft c id step) : reschedules c s' + d ≤ reschedules c s := by
  have hkeys : s'.steps.keys = s.steps.keys := by rw [hsteps, OrchestrationRunState.keys_setStep]
  have hid := mem_keys_of_get? hstep
  have hone : ∀ {g : OrchestrationNodeId → StepRun → Nat} {e : Nat}, g id step' + e ≤ g id step + 0 →
      s'.steps.sum g + e ≤ s.steps.sum g + 0 := by
    intro g e hle
    refine sum_le_of_keys hkeys hid (fun v v' hv hv' => ?_) fun k v v' hne hv hv' => ?_
    · rw [hsteps, OrchestrationRunState.step_setStep_self hstep] at hv'
      cases hv'
      rw [hstep] at hv
      cases hv
      exact hle
    · rw [hsteps, OrchestrationRunState.step_setStep_ne hne, hv] at hv'
      cases hv'
      exact le_refl _
  have hR : s'.steps.sum (revisionsLeft c) ≤ s.steps.sum (revisionsLeft c) := hone (e := 0) hrevisions
  have hB := hone (g := triesLeft c) htries
  have hmul := Nat.mul_le_mul_right ((c.nodes.values.map (·.retry.maxAttempts)).sum + 1) hR
  unfold reschedules
  omega

variable {span : List OrchestrationNodeId}

theorem SentBack.left {target k : OrchestrationNodeId} {revise : Bool}
    (h : SentBack target span revise k step step') (hne : k ≠ target)
    (hidle : (step.status.isLive && !step.status.isActive) = false) :
    revisionsLeft c k step' ≤ revisionsLeft c k step ∧ triesLeft c k step' ≤ triesLeft c k step := by
  by_cases hmem : k ∈ span
  · obtain ⟨hstatus, -, hbase⟩ := h.reset hne hmem
    unfold revisionsLeft triesLeft
    rw [hstatus, hbase, h.attempts, hidle]
    exact ⟨Nat.sub_le_sub_right (Nat.add_le_add_left (Nat.zero_le _) _) _, le_refl _⟩
  · rw [h.other hmem]
    exact ⟨le_refl _, le_refl _⟩

theorem Sound.none_scheduled (hs : Sound c s) (hstep : s.steps.get? id = some step)
    (hactive : step.status.isActive = true) {k : OrchestrationNodeId} {st : StepRun} (hst : s.steps.get? k = some st) :
    (st.status.isLive && !st.status.isActive) = false := by
  by_contra hscheduled
  rw [Bool.not_eq_false, Bool.and_eq_true, Bool.not_eq_true'] at hscheduled
  obtain rfl := hs.single k id ⟨st, hst, hscheduled.1⟩ ⟨step, hstep, StepStatus.isLive_of_isActive hactive⟩
  obtain rfl := Option.some.inj (hst.symm.trans hstep)
  rw [hactive] at hscheduled
  cases hscheduled.2

variable {target : OrchestrationNodeId}

theorem reschedules_retry {old : StepRun}
    (hs : Sound c s) (hstep : s.steps.get? id = some step) (hactive : step.status.isActive = true)
    (hkeys : s'.steps.keys = s.steps.keys) (hold : s.steps.get? target = some old)
    (hbase : old.retryBase ≤ old.attempts.length) (hleft : old.attempts.length - old.retryBase < triesOf c target)
    (hsteps : ∀ k st, s.steps.get? k = some st → ∃ st', s'.steps.get? k = some st' ∧ SentBack target span false k st st') :
    reschedules c s' + 1 ≤ reschedules c s := by
  have hsent : ∀ {k st st'}, s.steps.get? k = some st → s'.steps.get? k = some st' → SentBack target span false k st st' := by
    intro k st st' hst hst'
    obtain ⟨new, hnew, hsent⟩ := hsteps k st hst
    obtain rfl := Option.some.inj (hst'.symm.trans hnew)
    exact hsent
  have hid := mem_keys_of_get? hold
  have hR : s'.steps.sum (revisionsLeft c) ≤ s.steps.sum (revisionsLeft c) := by
    refine sum_le_of_keys (d := 0) (e := 0) hkeys hid (fun st st' hst hst' => ?_) fun k st st' hne hst hst' =>
      ((hsent hst hst').left hne (hs.none_scheduled hstep hactive hst)).1
    unfold revisionsLeft
    rw [((hsent hst hst').again rfl).1, (hsent hst hst').attempts]
    exact Nat.sub_le_sub_right (Nat.add_le_add_left (Nat.zero_le _) _) _
  have hB : s'.steps.sum (triesLeft c) + 1 ≤ s.steps.sum (triesLeft c) := by
    refine sum_le_of_keys (e := 0) hkeys hid (fun st st' hst hst' => ?_) fun k st st' hne hst hst' =>
      ((hsent hst hst').left hne (hs.none_scheduled hstep hactive hst)).2
    obtain rfl := Option.some.inj (hst.symm.trans hold)
    obtain ⟨hstatus, -, hbase'⟩ := (hsent hst hst').again rfl
    rw [if_neg Bool.false_ne_true] at hbase'
    unfold triesLeft
    rw [hstatus, hbase', (hsent hst hst').attempts, hs.none_scheduled hstep hactive hst]
    show triesOf c target - (st.attempts.length + 1 - st.retryBase) + 1 ≤
      triesOf c target - (st.attempts.length + 0 - st.retryBase) + 0
    omega
  have hmul := Nat.mul_le_mul_right ((c.nodes.values.map (·.retry.maxAttempts)).sum + 1) hR
  unfold reschedules
  omega

theorem reschedules_revise (hs : Sound c s)
    (hstep : s.steps.get? id = some step) (hactive : step.status.isActive = true) (htarget : id ≠ target)
    (hkeys : s'.steps.keys = s.steps.keys) (hleft : step.attempts.length ≤ revisionsOf c id) (hspan : id ∈ span)
    (hnode : target ∈ s.steps.keys)
    (hsteps : ∀ k st, s.steps.get? k = some st → ∃ st', s'.steps.get? k = some st' ∧ SentBack target span true k st st') :
    reschedules c s' + 1 ≤ reschedules c s := by
  have hsent : ∀ {k st st'}, s.steps.get? k = some st → s'.steps.get? k = some st' → SentBack target span true k st st' := by
    intro k st st' hst hst'
    obtain ⟨new, hnew, hsent⟩ := hsteps k st hst
    obtain rfl := Option.some.inj (hst'.symm.trans hnew)
    exact hsent
  have hR : s'.steps.sum (revisionsLeft c) + 1 ≤ s.steps.sum (revisionsLeft c) := by
    refine sum_le_of_keys (e := 0) hkeys (mem_keys_of_get? hstep) (fun st st' hst hst' => ?_)
      fun k st st' hne hst hst' => ?_
    · obtain rfl := Option.some.inj (hst.symm.trans hstep)
      unfold revisionsLeft
      rw [((hsent hst hst').reset htarget hspan).1, (hsent hst hst').attempts, hactive]
      show revisionsOf c id + 0 - st.attempts.length + 1 ≤ revisionsOf c id + 1 - st.attempts.length + 0
      omega
    · by_cases hk : k = target
      · unfold revisionsLeft
        rw [((hsent hst hst').again hk).1, (hsent hst hst').attempts]
        exact Nat.sub_le_sub_right (Nat.add_le_add_left (Nat.zero_le _) _) _
      · exact ((hsent hst hst').left hk (hs.none_scheduled hstep hactive hst)).1
  have hB : s'.steps.sum (triesLeft c) ≤ s.steps.sum (triesLeft c) + triesOf c target := by
    refine sum_le_of_keys (d := 0) hkeys hnode (fun st st' hst hst' => ?_) fun k st st' hne hst hst' =>
      ((hsent hst hst').left hne (hs.none_scheduled hstep hactive hst)).2
    unfold triesLeft
    omega
  have htries := triesOf_le (c := c) (k := target)
  have hmul := Nat.mul_le_mul_right ((c.nodes.values.map (·.retry.maxAttempts)).sum + 1) hR
  rw [Nat.add_mul, Nat.one_mul] at hmul
  unfold reschedules
  omega

theorem AdmissionsLeft.of_live {n : Nat} (hs : Sound c s) (h : AdmissionsLeft c s n) (hstep : s.steps.get? id = some step)
    (hlive : step.status.isLive = true) : Based s ∧ reschedules c s * c.nodes.size + wayOf c id step ≤ n := by
  cases h with
  | spent hnone => exact absurd ⟨step, hstep, hlive⟩ (hnone id)
  | fresh hcreated => exact absurd ⟨step, hstep, hlive⟩ (hs.idle (Or.inr (Or.inr hcreated)) id)
  | @live l st hst hlive' hbased hle =>
    obtain rfl := hs.single l id ⟨st, hst, hlive'⟩ ⟨step, hstep, hlive⟩
    obtain rfl := Option.some.inj (hst.symm.trans hstep)
    exact ⟨hbased, hle⟩

theorem based_setStep (hbased : Based s) (hsteps : s'.steps = (s.setStep id fun _ => step').steps)
    (hbase : step'.retryBase ≤ step'.attempts.length) : Based s' := by
  rw [Based, hsteps]
  exact OrchestrationRunState.forall_setStep hbased fun _ _ => hbase

theorem AdmissionsLeft.keep {n : Nat} (hs : Sound c s) (h : AdmissionsLeft c s n) (hstep : s.steps.get? id = some step)
    (hlive : step.status.isLive = true) (hsteps : s'.steps = (s.setStep id fun _ => step').steps)
    (hlive' : step'.status.isLive = true) (hactive : step'.status.isActive = step.status.isActive)
    (hattempts : step'.attempts.length = step.attempts.length) (hbase : step'.retryBase = step.retryBase) :
    AdmissionsLeft c s' n := by
  obtain ⟨hbased, hle⟩ := h.of_live hs hstep hlive
  have hbase' : step'.retryBase ≤ step'.attempts.length := by
    rw [hbase, hattempts]
    exact hbased id step hstep
  have hless : reschedules c s' + 0 ≤ reschedules c s := by
    refine reschedules_setStep hstep hsteps ?_ ?_
    · rw [revisionsLeft, revisionsLeft, hactive, hattempts]
    · rw [triesLeft, triesLeft, hlive, hlive', hactive, hattempts, hbase, Nat.add_zero]
  refine .live (hsteps ▸ OrchestrationRunState.step_setStep_self hstep) hlive' (based_setStep hbased hsteps hbase') ?_
  rw [wayOf, hactive]
  exact (Nat.add_le_add_right (Nat.mul_le_mul_right _ hless) _).trans hle

theorem AdmissionsLeft.admission {n : Nat} (hv : c.Valid) (hs : Sound c s) (h : AdmissionsLeft c s n)
    (hstep : s.steps.get? id = some step) (hready : step.status = .ready)
    (hsteps : s'.steps = (s.setStep id fun _ => step').steps) (hrunning : step'.status = .running)
    (hattempts : step'.attempts.length = step.attempts.length + 1) (hbase : step'.retryBase = step.retryBase) :
    ∃ k, n = k + 1 ∧ AdmissionsLeft c s' k := by
  obtain ⟨hbased, hle⟩ := h.of_live hs hstep (by rw [hready]; rfl)
  have hbase' : step'.retryBase ≤ step'.attempts.length := by
    rw [hbase, hattempts]
    exact (hbased id step hstep).trans (Nat.le_succ _)
  have hless : reschedules c s' + 0 ≤ reschedules c s := by
    refine reschedules_setStep hstep hsteps ?_ ?_
    · rw [revisionsLeft, revisionsLeft, hready, hrunning, hattempts]
      exact le_of_eq (Nat.add_sub_add_right _ _ _)
    · rw [triesLeft, triesLeft, hready, hrunning, hattempts, hbase]
      exact le_refl _
  have hmul := Nat.mul_le_mul_right c.nodes.size hless
  have hrank := hv.rank_lt id (hs.node hstep)
  rw [wayOf, hready] at hle
  have hway : wayOf c id step' = c.nodes.size - 1 - c.rank id := by
    rw [wayOf, hrunning]
    rfl
  have hway0 : c.nodes.size - StepStatus.ready.isActive.toNat - c.rank id = c.nodes.size - c.rank id := rfl
  rw [Nat.add_zero] at hmul
  refine ⟨n - 1, by omega, .live (hsteps ▸ OrchestrationRunState.step_setStep_self hstep) (by rw [hrunning]; rfl)
    (based_setStep hbased hsteps hbase') ?_⟩
  rw [hway]
  omega

theorem AdmissionsLeft.rescheduled {n : Nat} {l : OrchestrationNodeId} {next : StepRun}
    (hless : reschedules c s' + 1 ≤ reschedules c s) (hle : reschedules c s * c.nodes.size ≤ n)
    (hbased : Based s') (hnext : s'.steps.get? l = some next) (hstatus : next.status = .retryScheduled) :
    AdmissionsLeft c s' n := by
  have hmul := Nat.mul_le_mul_right c.nodes.size hless
  rw [Nat.add_mul, Nat.one_mul] at hmul
  refine .live hnext (by rw [hstatus]; rfl) hbased ?_
  rw [wayOf]
  omega

theorem AdmissionsLeft.again {n : Nat} (hs : Sound c s) (h : AdmissionsLeft c s n) (hstep : s.steps.get? id = some step)
    (hactive : step.status.isActive = true) (hleft : step.attempts.length - step.retryBase < triesOf c id)
    (hsteps : s'.steps = (s.setStep id fun _ => step').steps) (hstatus : step'.status = .retryScheduled)
    (hattempts : step'.attempts.length = step.attempts.length) (hbase : step'.retryBase = step.retryBase) :
    AdmissionsLeft c s' n := by
  obtain ⟨hbased, hle⟩ := h.of_live hs hstep (StepStatus.isLive_of_isActive hactive)
  have hold := hbased id step hstep
  have hbase' : step'.retryBase ≤ step'.attempts.length := by
    rw [hbase, hattempts]
    exact hold
  have hless : reschedules c s' + 1 ≤ reschedules c s := by
    refine reschedules_setStep hstep hsteps ?_ ?_
    · rw [revisionsLeft, revisionsLeft, hstatus, hattempts]
      exact Nat.sub_le_sub_right (Nat.add_le_add_left (Nat.zero_le _) _) _
    · rw [triesLeft, triesLeft, hstatus, hattempts, hbase, hs.none_scheduled hstep hactive hstep]
      show triesOf c id - (step.attempts.length + 1 - step.retryBase) + 1 ≤
        triesOf c id - (step.attempts.length + 0 - step.retryBase)
      omega
  exact .rescheduled hless (le_of_add_le_left hle) (based_setStep hbased hsteps hbase')
    (hsteps ▸ OrchestrationRunState.step_setStep_self hstep) hstatus

theorem AdmissionsLeft.advance {n : Nat} (hv : c.Valid) (hs : Sound c s) (h : AdmissionsLeft c s n)
    {condition : EdgeCondition} {target : OrchestrationNodeId} {next : StepRun} (hstep : s.steps.get? id = some step)
    (hactive : step.status.isActive = true) (hedge : c.Edge id target) (hends : Ends condition step step')
    (hnext : s.steps.get? target = some next) (hpending : next.status = .pending)
    (hsteps : s'.steps = ((s.setStep id fun _ => step').setStep target fun _ => { next with status := .ready }).steps) :
    AdmissionsLeft c s' n := by
  obtain ⟨hbased, hle⟩ := h.of_live hs hstep (StepStatus.isLive_of_isActive hactive)
  have hended : step'.status.isLive = false ∧ step'.status.isActive = false := by
    rw [hends.status]
    cases condition <;> exact ⟨rfl, rfl⟩
  have hbase' : step'.retryBase ≤ step'.attempts.length := by
    rw [hends.retryBase, hends.attempts]
    exact hbased id step hstep
  have hne : target ≠ id := (hv.ne_of_below (.single hedge)).symm
  have hnext' : (s.setStep id fun _ => step').steps.get? target = some next :=
    (OrchestrationRunState.step_setStep_ne hne).trans hnext
  have hfirst : reschedules c (s.setStep id fun _ => step') + 0 ≤ reschedules c s := by
    refine reschedules_setStep hstep rfl ?_ ?_
    · rw [revisionsLeft, revisionsLeft, hends.attempts, hended.2]
      exact Nat.sub_le_sub_right (Nat.add_le_add_left (Nat.zero_le _) _) _
    · rw [triesLeft, triesLeft, hends.attempts, hends.retryBase, hended.1, hs.none_scheduled hstep hactive hstep]
      exact le_refl _
  have hsecond : reschedules c s' + 0 ≤ reschedules c (s.setStep id fun _ => step') := by
    refine reschedules_setStep hnext' hsteps ?_ ?_
    · rw [revisionsLeft, revisionsLeft, hpending]
      exact le_refl _
    · rw [triesLeft, triesLeft, hpending]
      exact Nat.sub_le_sub_left (Nat.sub_le_sub_right (Nat.le_succ _) _) _
  have hmul := Nat.mul_le_mul_right c.nodes.size (hsecond.trans hfirst)
  have hrank := hv.rank_edge id target hedge
  have hready : s'.steps.get? target = some { next with status := .ready } := by
    rw [hsteps]
    exact OrchestrationRunState.step_setStep_self hnext'
  refine .live hready rfl ?_ ?_
  · exact based_setStep (based_setStep hbased rfl hbase') hsteps (hbased target next hnext)
  · rw [wayOf, hactive] at hle
    have hway : wayOf c target { next with status := .ready } = c.nodes.size - c.rank target := rfl
    have hway0 : c.nodes.size - true.toNat - c.rank id = c.nodes.size - 1 - c.rank id := rfl
    rw [Nat.add_zero] at hmul
    omega

theorem based_sentBack {revise : Bool} (hbased : Based s)
    (hkeys : s'.steps.keys = s.steps.keys)
    (hsteps : ∀ k st, s.steps.get? k = some st → ∃ st', s'.steps.get? k = some st' ∧ SentBack target span revise k st st') :
    Based s' := by
  intro k st' hst'
  obtain ⟨st, hst⟩ := exists_get? (hkeys ▸ mem_keys_of_get? hst' : k ∈ s.steps.keys)
  obtain ⟨new, hnew, hsent⟩ := hsteps k st hst
  obtain rfl := Option.some.inj (hst'.symm.trans hnew)
  have hold := hbased k st hst
  rw [hsent.attempts]
  by_cases hk : k = target
  · rw [(hsent.again hk).2.2]
    split
    · exact le_refl _
    · exact hold
  · by_cases hmem : k ∈ span
    · rw [(hsent.reset hk hmem).2.2]
      exact hold
    · rw [hsent.other hmem]
      exact hold

theorem AdmissionsLeft.mono {k n : Nat} (h : AdmissionsLeft c s k) (hle : k ≤ n) : AdmissionsLeft c s n := by
  cases h with
  | spent hnone hcreated => exact .spent hnone hcreated
  | fresh hcreated hbased h => exact .fresh hcreated hbased (h.trans hle)
  | live hstep hlive hbased h => exact .live hstep hlive hbased (h.trans hle)

theorem attempt_le_of_reviseTarget {node : OrchestrationNode} {error : OrchestrationError} {attempt : Nat} (hqueue : node.kind.taskQueue = none)
    (h : reviseTarget node error attempt = some target) : attempt ≤ node.maxRevisions := by
  unfold reviseTarget at h
  split at h
  · rename_i config hkind hreason
    split at h
    · rename_i hle
      rwa [OrchestrationNode.maxRevisions, hkind]
    · cases h
  · simp [OrchestrationNode.taskPlanSource, hqueue] at h
  · cases h

theorem AdmissionsLeft.begin {n : Nat} (hs : Sound c s) (h : AdmissionsLeft c s n) (hcreated : s.status = .created)
    (hstep : s.steps.get? c.entryNode = some step)
    (hsteps : s'.steps = (s.setStep c.entryNode fun _ => { step with status := .ready }).steps) :
    AdmissionsLeft c s' n := by
  have hidle := hs.idle (Or.inr (Or.inr hcreated))
  have hdead : step.status.isLive = false := by
    by_contra hlive
    exact hidle _ ⟨step, hstep, by simpa using hlive⟩
  cases h with
  | spent _ hstarted => exact absurd hcreated hstarted
  | live hst hlive => exact absurd ⟨_, hst, hlive⟩ (hidle _)
  | fresh _ hbased hle =>
    have hless : reschedules c s' + 0 ≤ reschedules c s := by
      refine reschedules_setStep hstep hsteps ?_ ?_
      · rw [revisionsLeft, revisionsLeft]
        exact Nat.sub_le_sub_right (Nat.add_le_add_left (Nat.zero_le _) _) _
      · rw [triesLeft, triesLeft, hdead]
        exact Nat.sub_le_sub_left (Nat.sub_le_sub_right (Nat.le_succ _) _) _
    have hmul := Nat.mul_le_mul_right c.nodes.size hless
    refine .live (hsteps ▸ OrchestrationRunState.step_setStep_self hstep) rfl
      (based_setStep hbased hsteps (hbased _ step hstep)) ?_
    rw [wayOf]
    rw [Nat.add_zero] at hmul
    omega

theorem left_fresh (h : Fresh c s) : AdmissionsLeft c s c.admissionBound := by
  obtain ⟨runId, options, rfl⟩ := h
  have hrevisions : (OrdMap.mapEntries c.nodes fun _ _ => ({} : StepRun)).sum (revisionsLeft c) =
      (c.nodes.values.map (·.maxRevisions)).sum := by
    rw [sum_mapEntries, ← sum_values]
    refine sum_congr fun k node hnode => ?_
    show revisionsOf c k = node.maxRevisions
    rw [revisionsOf, CompiledOrchestration.node, hnode]
    rfl
  have htries : (OrdMap.mapEntries c.nodes fun _ _ => ({} : StepRun)).sum (triesLeft c) =
      (c.nodes.values.map (·.retry.maxAttempts)).sum := by
    rw [sum_mapEntries, ← sum_values]
    refine sum_congr fun k node hnode => ?_
    show triesOf c k = node.retry.maxAttempts
    rw [triesOf, CompiledOrchestration.node, hnode]
    rfl
  refine .fresh rfl (forall_mapEntries fun k node _ => le_refl 0) ?_
  show ((OrdMap.mapEntries c.nodes fun _ _ => ({} : StepRun)).sum (revisionsLeft c) * _ +
    (OrdMap.mapEntries c.nodes fun _ _ => ({} : StepRun)).sum (triesLeft c)) * _ + _ ≤ _
  rw [hrevisions, htries]
  exact le_refl _

variable [WorkflowExternals]

theorem AdmissionsLeft.sendBack {n attempt : Nat} {node : OrchestrationNode} {error : OrchestrationError}
    {details : AttemptDetails} {current : StepAttempt} {target : OrchestrationNodeId} {span : List OrchestrationNodeId}
    {revise : Bool} (hv : c.Valid) (hs : Sound c s) (hs' : Sound c s') (h : AdmissionsLeft c s n)
    (hnode : c.node id = some node) (hqueue : node.kind.taskQueue = none) (hin : InFlight c s id attempt step current)
    (hnumbered : step.Numbered) (hback : SendsBack c s id attempt error details node target revise)
    (hlink : c.Link id target span)
    (hsteps : ∀ k st, s.steps.get? k = some st → ∃ st', s'.steps.get? k = some st' ∧ SentBack target span revise k st st') :
    AdmissionsLeft c s' n := by
  obtain ⟨hbased, hle⟩ := h.of_live hs hin.found hin.isLive
  have hkeys : s'.steps.keys = s.steps.keys := hs'.keys.trans hs.keys.symm
  obtain ⟨old, hold⟩ := hs.exists_step hlink.target_node
  obtain ⟨new, hnew, hsent⟩ := hsteps target old hold
  have hless : reschedules c s' + 1 ≤ reschedules c s := by
    cases hback with
    | retry htarget htargetNode htargetStep hleft =>
      obtain rfl := Option.some.inj (htargetStep.symm.trans hold)
      refine reschedules_retry hs hin.found hin.active hkeys hold (hbased _ _ hold) ?_ hsteps
      rw [triesOf, htargetNode]
      exact hleft
    | revise htarget =>
      have hattempt : step.attempts.length ≤ revisionsOf c id := by
        rw [revisionsOf, hnode, ← hnumbered.number hin.current_eq, hin.number]
        exact attempt_le_of_reviseTarget hqueue htarget
      exact reschedules_revise hs hin.found hin.active (hv.ne_of_below hlink.upstream).symm hkeys hattempt
        ((hlink.mem_span id).mpr (Or.inr (Or.inr rfl))) (mem_keys_of_get? hold) hsteps
  exact .rescheduled hless (le_of_add_le_left hle) (based_sentBack hbased hkeys hsteps) hnew (hsent.again rfl).1

theorem left_move {n : Nat} (hv : c.Valid) (hqueues : ∀ id node, c.node id = some node → node.kind.taskQueue = none)
    (hs : Sound c s) (hs' : Sound c s') (hnumbered : ∀ k step, s.steps.get? k = some step → step.Numbered)
    {command : OrchestrationCommand} (hrecover : command ≠ .recover) (hmove : Move c s command s')
    (h : AdmissionsLeft c s n) : AdmissionsLeft c s' n := by
  cases hmove with
  | still hsteps hinput hstatus =>
    have hsame : reschedules c s' = reschedules c s := by rw [reschedules, hsteps, reschedules]
    have hbased' : Based s → Based s' := fun hbased => by rwa [Based, hsteps]
    have hlive : ∀ l, s'.Live l → s.Live l := fun l hl => by rwa [OrchestrationRunState.Live, hsteps] at hl
    cases h with
    | spent hnone hstarted =>
      refine .spent (fun l hl => hnone l (hlive l hl)) fun hcreated => ?_
      rcases hstatus with hstatus | ⟨-, -, hgoing⟩
      · exact hstarted (hstatus.symm.trans hcreated)
      · exact hgoing.2.2 hcreated
    | fresh hcreated hbased hle =>
      rcases hstatus with hstatus | ⟨-, -, hgoing⟩
      · exact .fresh (hstatus.trans hcreated) (hbased' hbased) (by rwa [hsame])
      · exact .spent (fun l hl => hs.idle (Or.inr (Or.inr hcreated)) l (hlive l hl)) hgoing.2.2
    | live hstep hstatus' hbased hle => exact .live (hsteps ▸ hstep) hstatus' (hbased' hbased) (by rwa [hsame])
  | begin hcreated hstep hsteps => exact h.begin hs hcreated hstep hsteps
  | keep hstep hlive hsteps hlive' hactive hattempts hbase =>
    exact h.keep hs hstep hlive hsteps hlive' hactive hattempts hbase
  | admission hstep hready hsteps hrunning hattempts hbase =>
    obtain ⟨k, rfl, hleft⟩ := h.admission hv hs hstep hready hsteps hrunning hattempts hbase
    exact hleft.mono (Nat.le_succ k)
  | again hnode hin hleft hsteps hstatus hattempts hbase =>
    refine h.again hs hin.found hin.active ?_ hsteps hstatus hattempts hbase
    rw [triesOf, hnode, ← (hnumbered _ _ hin.found).number hin.current_eq, hin.number]
    exact hleft
  | replay => exact absurd rfl hrecover
  | advance hin hedge hends hnext hpending hsteps =>
    exact h.advance hv hs hin.found hin.active (outgoingFor_mem hedge).1 hends hnext hpending hsteps
  | sendBack hnode hin hretry hback hlink hsteps =>
    exact h.sendBack hv hs hs' hnode (hqueues _ _ hnode) hin (hnumbered _ _ hin.found) hback hlink hsteps
  | @stick _ _ id attempt condition edge step step' next current hin hedge hends hnext hblocked hsteps hinput hgoing =>
    refine .spent ?_ hgoing.2.2
    rintro l ⟨st, hst, hlive⟩
    rw [hsteps] at hst
    by_cases hl : l = id
    · subst hl
      rw [OrchestrationRunState.step_setStep_self hin.found] at hst
      cases hst
      rw [hends.status] at hlive
      cases condition <;> cases hlive
    · rw [OrchestrationRunState.step_setStep_ne hl] at hst
      exact hl (hs.single l id ⟨st, hst, hlive⟩ ⟨_, hin.found, hin.isLive⟩)
  | close hover =>
    refine .spent (hs'.idle (hover.imp_right Or.inl)) fun hcreated => ?_
    rw [hcreated] at hover
    simp [OrchestrationStatus.isTerminal] at hover

theorem left_admitted {n attempt : Nat} (hv : c.Valid) (hs : Sound c s) (h : AdmissionsLeft c s n)
    {effects : List OrchestrationEffect} (hok : (apply c s (.stepAdmitted id attempt)).2 = .ok effects) :
    ∃ k, n = k + 1 ∧ AdmissionsLeft c (apply c s (.stepAdmitted id attempt)).1 k := by
  have hopen : s.status.isTerminal = false := by
    by_contra hover
    rw [apply_terminal (by simpa using hover)] at hok
    cases hok
  have houtcome := outcome_apply hv hs hopen (.stepAdmitted id attempt)
  have hs' := sound_outcome hs hopen houtcome
  generalize apply c s (.stepAdmitted id attempt) = applied at hok houtcome hs'
  cases houtcome with
  | rejected => cases hok
  | touched hin htouch => cases htouch
  | admitted hready hpaused hstep hstatus =>
    exact h.admission hv hs hstep hstatus settle_steps rfl (by simp) rfl
  | @denied _ _ step error hready hpaused hstep hstatus =>
    obtain ⟨-, hle⟩ := h.of_live hs hstep (by rw [hstatus]; rfl)
    have hrank := hv.rank_lt id (hs.node hstep)
    have hway : wayOf c id step = c.nodes.size - c.rank id := by
      rw [wayOf, hstatus]
      rfl
    exact ⟨n - 1, by omega, .spent (hs'.idle (Or.inl rfl)) OrchestrationStatus.noConfusion⟩

/-- The steps of a run that is not recovered admit at most as many attempts as the bound allows. -/
theorem admissions_bounded {d : OrchestrationDefinition} (hc : d.compile = .ok c)
    (hqueues : ∀ id node, c.node id = some node → node.kind.taskQueue = none) (hfresh : Fresh c s)
    {commands : List OrchestrationCommand} (hrecover : ∀ command ∈ commands, command ≠ .recover) :
    ((reducer c).trace s commands).countP admits ≤ c.admissionBound := by
  have hv := valid_of_compile hc
  refine Machine.count_rule (I := fun n s => Sound c s ∧ (∀ k step, s.steps.get? k = some step → step.Numbered) ∧
      AdmissionsLeft c s n) (fun n s command ⟨hs, hnumbered, hleft⟩ hcommand => ?_)
    ⟨sound_fresh hfresh, numbered_fresh hfresh, left_fresh hfresh⟩ hrecover
  have hs' := sound_apply hv hs command
  have hnumbered' := numbered_apply hv hs hnumbered command
  cases hadmits : admits ((reducer c).stepAt s command) with
  | false => exact ⟨n, ⟨hs', hnumbered', left_move hv hqueues hs hs' hnumbered hcommand (move_apply hv hs command) hleft⟩,
      le_refl n⟩
  | true =>
    cases command with
    | stepAdmitted id attempt =>
      have hok : (apply c s (.stepAdmitted id attempt)).2.isOk = true := by
        simpa [admits, Machine.stepAt, reducer] using hadmits
      cases hresult : (apply c s (.stepAdmitted id attempt)).2 with
      | error e =>
        rw [hresult] at hok
        cases hok
      | ok effects =>
        obtain ⟨k, rfl, hleft'⟩ := left_admitted hv hs hleft hresult
        exact ⟨k, ⟨hs', hnumbered', hleft'⟩, le_refl _⟩
    | _ => cases hadmits

end

section

open Sample

/-- The bound of a workflow with one agent step: one attempt at each of three nodes. -/
theorem admissions_bounded_line : line.compile = .ok (compiled line) ∧
    (∀ id node, (compiled line).node id = some node → node.kind.taskQueue = none) ∧
    Fresh (compiled line) (.new "run" (compiled line)) ∧ (∀ command ∈ opening, command ≠ .recover) ∧
    ((reducer (compiled line)).trace (.new "run" (compiled line)) opening).countP admits ≤ (compiled line).admissionBound := by
  have hqueues : ∀ id node, (compiled line).node id = some node → node.kind.taskQueue = none := by
    have hall : (compiled line).nodes.values.all (·.kind.taskQueue.isNone) = true := by decide
    intro id node hnode
    exact Option.isNone_iff_eq_none.mp (List.all_eq_true.mp hall node (mem_values.mpr ⟨id, hnode⟩))
  have hrecover : ∀ command ∈ opening, command ≠ .recover := by simp [opening, succeeded]
  exact ⟨compile_line, hqueues, ⟨"run", {}, rfl⟩, hrecover,
    admissions_bounded compile_line hqueues ⟨"run", {}, rfl⟩ hrecover⟩

end

end RustyCore
