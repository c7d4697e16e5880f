import RustyCore.Theorems.Workflow.Atomic

/-! Waiting. A step waits exactly while it has a question or a permission open, and the status of the run is the
    one its steps give it. Settling the last permission breaks this while a question is still open, and so does a
    route that is blocked. -/

namespace RustyCore

open Reducer WorkflowCompiler OrdMap

def StepStatus.isWaiting : StepStatus → Bool
  | .waitingForPermission | .waitingForInput => true
  | _ => false

def StepRun.Asks (step : StepRun) : Prop := step.pendingPermissions ≠ [] ∨ step.pendingInput ≠ none

section

variable [WorkflowExternals] (c : CompiledOrchestration) (s : OrchestrationRunState)

/-- Steps wait exactly while they ask, the status of a run that has started is settled, and no step succeeds
    with something open. -/
structure Waiting : Prop where
  steps : ∀ k step, s.steps.get? k = some step → (step.status.isWaiting = true ↔ step.Asks)
  quiet : ∀ k step, s.steps.get? k = some step →
    step.status = .running ∨ step.status = .succeeded ∨ step.status = .failed ∨ step.status = .pending →
    step.pendingPermissions = [] ∧ step.pendingInput = none
  settled : s.status = .created ∨ settle s = s
  answered : ∀ id attempt output details effects, (apply c s (.stepSucceeded id attempt output details)).2 = .ok effects →
    ∀ step, s.steps.get? id = some step → step.pendingPermissions = [] ∧ step.pendingInput = none

def LosesQuestion : OrchestrationCommand → Prop
  | .permissionResolved id attempt permissionId _ => ∃ step current, InFlight c s id attempt step current ∧
      step.pendingPermissions = [permissionId] ∧ step.pendingInput ≠ none
  | _ => False

end

section

variable {step step' : StepRun}

def StepRun.Consistent (step : StepRun) : Prop := step.status.isWaiting = true ↔ step.Asks

theorem StepRun.Consistent.quiet (h : step.Consistent) (hstatus : step.status.isWaiting = false) :
    step.pendingPermissions = [] ∧ step.pendingInput = none := by
  have hnot : ¬ step.Asks := fun hasks => by
    rw [h.mpr hasks] at hstatus
    cases hstatus
  rw [StepRun.Asks, not_or, not_not, not_not] at hnot
  exact hnot

theorem consistent_of_quiet (hstatus : step.status.isWaiting = false)
    (hquiet : step.pendingPermissions = [] ∧ step.pendingInput = none) : step.Consistent := by
  rw [StepRun.Consistent, StepRun.Asks, hstatus, hquiet.1, hquiet.2]
  simp

theorem StepRun.Consistent.change (h : step.Consistent) (hstatus : step.status.isWaiting = false)
    (hsame : step'.pendingPermissions = step.pendingPermissions ∧ step'.pendingInput = step.pendingInput)
    (hstatus' : step'.status.isWaiting = false) : step'.Consistent := by
  refine consistent_of_quiet hstatus' ?_
  rw [hsame.1, hsame.2]
  exact h.quiet hstatus

theorem isWaiting_of_isActive {status : StepStatus} (h : status.isActive = false) : status.isWaiting = false := by
  cases status <;> first | rfl | cases h

theorem consistent_abandonStep (h : step.Consistent) : (abandonStep step).Consistent := by
  unfold abandonStep
  split
  · rename_i hstatus
    exact h.change (by rw [hstatus]; rfl) ⟨rfl, rfl⟩ rfl
  · rename_i hstatus
    exact h.change (by rw [hstatus]; rfl) ⟨rfl, rfl⟩ rfl
  · rename_i hstatus
    exact h.change (by rw [hstatus]; rfl) ⟨rfl, rfl⟩ rfl
  · exact h

theorem consistent_stopStep (h : step.Consistent) : (stopStep step).Consistent := by
  unfold stopStep
  split
  · split
    · exact consistent_of_quiet rfl ⟨rfl, rfl⟩
    · exact h
  · exact h

theorem consistent_sentBackStep {id target k : OrchestrationNodeId} {span : List OrchestrationNodeId} {failed : StepRun}
    {error : OrchestrationError} {revise : Bool} (h : step.Consistent) (hstatus : k ≠ id → step.status.isWaiting = false)
    (htarget : target ≠ id) (hfailed : failed.pendingPermissions = [] ∧ failed.pendingInput = none) :
    (sentBackStep id target span failed error revise k step).Consistent := by
  unfold sentBackStep
  split
  · rename_i hk
    exact h.change (hstatus (hk ▸ htarget)) ⟨rfl, rfl⟩ rfl
  · split
    · exact consistent_of_quiet rfl hfailed
    · rename_i hk
      split
      · exact h.change (hstatus hk) ⟨rfl, rfl⟩ rfl
      · exact h

theorem erase_eq_nil_iff {permissionId : String} {open_ : List String} (hmem : permissionId ∈ open_) :
    open_.erase permissionId = [] ↔ open_ = [permissionId] := by
  rw [List.erase_eq_nil_iff, or_iff_right (List.ne_nil_of_mem hmem)]

end

def StepStatus.runStatus : StepStatus → OrchestrationStatus
  | .waitingForPermission => .waitingForPermission
  | .waitingForInput => .waitingForInput
  | _ => .running

section

variable {c : CompiledOrchestration} {s s' : OrchestrationRunState} {id : OrchestrationNodeId} {step step' : StepRun}

theorem derivedStatus_active (hs : Sound c s) (hstep : s.steps.get? id = some step)
    (hactive : step.status.isActive = true) : derivedStatus s = step.status.runStatus := by
  rw [derivedStatus, hs.activeStep_eq hstep hactive]
  cases hstatus : step.status <;> simp [StepStatus.runStatus, hstatus]

theorem derivedStatus_idle (hnone : ∀ k st, s.steps.get? k = some st → st.status.isActive = false) :
    derivedStatus s = if s.paused then .paused else .ready := by
  have hfind : s.activeStep = none := by
    refine List.find?_eq_none.mpr fun entry hentry => ?_
    rw [Bool.not_eq_true]
    exact hnone entry.1 entry.2 (mem_entries.mp hentry)
  rw [derivedStatus, hfind]
  rfl

theorem settle_over (h : s.status.isTerminal = true ∨ s.status = .cancelling) : settle s = s := by
  rw [settle, if_pos]
  simpa using h

theorem settle_eq_self (h : s.status.isTerminal = false) (hcancelling : s.status ≠ .cancelling) :
    settle s = s ↔ s.status = derivedStatus s := by
  rw [← settle_status h hcancelling]
  constructor
  · intro heq
    rw [heq]
  · intro heq
    rw [settle, if_neg (by simp [h, hcancelling])]
    rw [settle_status h hcancelling] at heq
    rw [← heq]

def Settled (s : OrchestrationRunState) : Prop := s.status = .created ∨ settle s = s

theorem Settled.status (h : Settled s) (hs : Sound c s) (hstep : s.steps.get? id = some step)
    (hactive : step.status.isActive = true) : s.status = step.status.runStatus := by
  obtain ⟨hopen, hcancelling, hcreated⟩ := hs.going hstep (StepStatus.isLive_of_isActive hactive)
  rcases h with h | h
  · exact absurd h hcreated
  · rw [(settle_eq_self hopen hcancelling).mp h, derivedStatus_active hs hstep hactive]

theorem not_settled_of_ended (h : Settled s) (h' : Settled s') (hs : Sound c s) (hstep : s.steps.get? id = some step)
    (hactive : step.status.isActive = true) (hstatus : s'.status = s.status)
    (hsteps : s'.steps = (s.setStep id fun _ => step').steps) (hended : step'.status.isActive = false) : False := by
  have hlive := StepStatus.isLive_of_isActive hactive
  obtain ⟨hopen, hcancelling, hcreated⟩ := hs.going hstep hlive
  have hidle := derivedStatus_idle (s := s') (by rw [hsteps]; exact hs.none_active hstep hlive hended)
  rcases h' with h' | h'
  · exact hcreated (hstatus.symm.trans h')
  · rw [settle_eq_self (hstatus ▸ hopen) (hstatus ▸ hcancelling), hstatus, h.status hs hstep hactive, hidle] at h'
    cases hst : step.status <;> cases hp : s'.paused <;> simp [hst, hp, StepStatus.runStatus] at h'

theorem settled_settle : Settled (settle s) := Or.inr settle_settle

theorem Settled.usage (h : Settled s) {usage : UsageSummary} : Settled { s with usage } := by
  refine h.imp_right fun h => ?_
  have hstatus : (settle s).status = s.status := by rw [h]
  unfold settle at hstatus ⊢
  split
  · rfl
  · rename_i hgoing
    rw [if_neg hgoing] at hstatus
    have hderived : derivedStatus s = s.status := hstatus
    show { s with usage, status := derivedStatus s } = { s with usage }
    rw [hderived]

end

section

variable {c : CompiledOrchestration} {s s' : OrchestrationRunState} {id : OrchestrationNodeId} {step step' : StepRun}

structure Calm (s : OrchestrationRunState) : Prop where
  steps : ∀ k step, s.steps.get? k = some step → step.Consistent
  settled : Settled s

theorem calm_fresh (h : Fresh c s) : Calm s := by
  obtain ⟨runId, options, rfl⟩ := h
  refine ⟨fun k step hstep => ?_, Or.inl rfl⟩
  obtain ⟨-, -, rfl⟩ := Option.map_eq_some_iff.mp (OrdMap.get?_mapEntries.symm.trans hstep)
  exact consistent_of_quiet rfl ⟨rfl, rfl⟩

theorem Calm.set (h : Calm s) (hsteps : s'.steps = (s.setStep id fun _ => step').steps) (hstep' : step'.Consistent) :
    ∀ k step, s'.steps.get? k = some step → step.Consistent := by
  rw [hsteps]
  exact OrchestrationRunState.forall_setStep h.steps fun _ _ => hstep'

theorem Calm.failedRun (h : ∀ k step, s'.steps.get? k = some step → step.Consistent) {error : OrchestrationError} :
    Calm (Reducer.failedRun s' error) :=
  ⟨forall_mapEntries fun k step hstep => consistent_abandonStep (h k step hstep),
    Or.inr (settle_over (Or.inl rfl))⟩

theorem Calm.handOver (h : Calm s) {target : OrchestrationNodeId} {next : StepRun} (hstep' : step'.Consistent)
    (hnext : s.steps.get? target = some next) (hpending : next.status = .pending)
    (hsteps : s'.steps = ((s.setStep id fun _ => step').setStep target fun _ => { next with status := .ready }).steps) :
    ∀ k step, s'.steps.get? k = some step → step.Consistent := by
  rw [hsteps]
  refine OrchestrationRunState.forall_setStep (h.set rfl hstep') fun _ _ => ?_
  exact (h.steps target next hnext).change (by rw [hpending]; rfl) ⟨rfl, rfl⟩ rfl

theorem consistent_touch {command : OrchestrationCommand} {attempt : Nat} {event : OrchestrationEvent}
    {current : StepAttempt} (h : step.Consistent) (hin : InFlight c s id attempt step current)
    (htouch : Touch command id attempt step step' event) (hgood : ¬ LosesQuestion c s command) : step'.Consistent := by
  cases htouch with
  | permissionRequired => exact iff_of_true rfl (Or.inl (by simp))
  | inputRequired => exact iff_of_true rfl (Or.inr (by simp))
  | @permissionResolved _ _ permissionId approved _ hmem =>
    by_cases hlast : step.pendingPermissions = [permissionId]
    · have hnone : step.pendingInput = none := by
        by_contra hsome
        exact hgood ⟨step, current, hin, hlast, hsome⟩
      refine consistent_of_quiet ?_ ⟨(erase_eq_nil_iff hmem).mpr hlast, hnone⟩
      simp [hlast, StepStatus.isWaiting]
    · have hleft : step.pendingPermissions.erase permissionId ≠ [] := fun h => hlast ((erase_eq_nil_iff hmem).mp h)
      refine iff_of_true ?_ (Or.inl hleft)
      have hwaiting := h.mpr (Or.inl (List.ne_nil_of_mem hmem))
      simpa [hleft] using hwaiting
  | inputResolved hsome =>
    by_cases hempty : step.pendingPermissions = []
    · exact consistent_of_quiet (by simp [hempty, StepStatus.isWaiting]) ⟨hempty, rfl⟩
    · exact iff_of_true (by simp [hempty, StepStatus.isWaiting]) (Or.inl hempty)

variable [WorkflowExternals]

theorem calm_outcome (hv : c.Valid) (hs : Sound c s) (h : Calm s) {command : OrchestrationCommand} {applied : Applied}
    (hs' : Sound c applied.1) (houtcome : Outcome c s command applied) (hloses : ¬ LosesQuestion c s command)
    (hsticks : ¬ Sticks c s command) : Calm applied.1 := by
  cases houtcome with
  | rejected => exact h
  | leakedSuccess | leakedFailure => exact ⟨h.steps, h.settled.usage⟩
  | stuckSuccess hin hrunning hkind hedge hnext hblocked =>
    exact absurd ⟨⟨_, _, hin, hrunning⟩, hkind, _, _, hedge, hnext, hblocked⟩ hsticks
  | stuckFailure hnode hin hretry hback hedge hnext hblocked =>
    exact absurd ⟨_, _, _, hnode, hin, hretry, hback, _, _, hedge, hnext, hblocked⟩ hsticks
  | started hcreated hstep =>
    refine ⟨h.set settle_steps ((h.steps _ _ hstep).change ?_ ⟨rfl, rfl⟩ rfl), settled_settle⟩
    exact isWaiting_of_isActive (hs.isActive_idle (Or.inr (Or.inr hcreated)) hstep)
  | denied => exact .failedRun h.steps
  | admitted hready hpaused hstep hstatus =>
    exact ⟨h.set settle_steps ((h.steps _ _ hstep).change (by rw [hstatus]; rfl) ⟨rfl, rfl⟩ rfl), settled_settle⟩
  | completed hin hrunning =>
    exact ⟨h.set rfl ((h.steps _ _ hin.found).change (by rw [hrunning]; rfl) ⟨rfl, rfl⟩ rfl),
      Or.inr (settle_over (Or.inl rfl))⟩
  | advanced hin hrunning hkind hedge hnext hpending =>
    refine ⟨h.handOver ?_ hnext hpending settle_steps, settled_settle⟩
    exact (h.steps _ _ hin.found).change (by rw [hrunning]; rfl) ⟨rfl, rfl⟩ rfl
  | rerouted hnode hin hretry hback hedge hnext hpending =>
    exact ⟨h.handOver (consistent_of_quiet rfl ⟨rfl, rfl⟩) hnext hpending settle_steps, settled_settle⟩
  | retried hnode hin => exact ⟨h.set settle_steps (consistent_of_quiet rfl ⟨rfl, rfl⟩), settled_settle⟩
  | sentBack hnode hin hretry hback hlink =>
    refine ⟨?_, settled_settle⟩
    rw [settle_steps]
    refine forall_mapEntries fun k st hst => ?_
    refine consistent_sentBackStep (h.steps k st hst) (fun hne => ?_) (hv.ne_of_below hlink.upstream) ⟨rfl, rfl⟩
    exact isWaiting_of_isActive (hs.isActive_other ⟨_, hin.found, hin.isLive⟩ hst hne)
  | failed hnode hin =>
    apply Calm.failedRun
    exact h.set rfl (consistent_of_quiet rfl ⟨rfl, rfl⟩)
  | touched hin htouch =>
    exact ⟨h.set settle_steps (consistent_touch (h.steps _ _ hin.found) hin htouch hloses), settled_settle⟩
  | checkpointed hin =>
    have hstep := h.steps _ _ hin.found
    have hstatus := h.settled.status hs hin.found hin.active
    refine ⟨h.set rfl hstep, Or.inr ?_⟩
    obtain ⟨hopen, hcancelling, -⟩ := hs.going hin.found hin.isLive
    refine (settle_eq_self ?_ ?_).mpr ?_
    · exact hopen
    · exact hcancelling
    · rw [derivedStatus_active hs' (OrchestrationRunState.step_setStep_self hin.found) hin.active]
      exact hstatus
  | woken hstep hstatus =>
    exact ⟨h.set settle_steps ((h.steps _ _ hstep).change (by rw [hstatus]; rfl) ⟨rfl, rfl⟩ rfl), settled_settle⟩
  | paused | resumed | restored => exact ⟨by rw [settle_steps]; exact h.steps, settled_settle⟩
  | aborted =>
    apply Calm.failedRun
    exact forall_mapEntries fun k st hst => consistent_stopStep (h.steps k st hst)
  | cancelling | cancelled =>
    refine ⟨forall_mapEntries fun k st hst => ?_, Or.inr (settle_over ?_)⟩
    · exact consistent_abandonStep (consistent_stopStep (h.steps k st hst))
    · first | exact Or.inl rfl | exact Or.inr rfl
  | cancellationCompleted | restoredCancelling => exact ⟨h.steps, Or.inr (settle_over (Or.inl rfl))⟩
  | replayed hcancelling hin => exact ⟨h.set settle_steps (consistent_of_quiet rfl ⟨rfl, rfl⟩), settled_settle⟩
  | interrupted hcancelling hin =>
    apply Calm.failedRun
    exact h.set rfl (consistent_of_quiet rfl ⟨rfl, rfl⟩)

theorem Calm.waiting (hv : c.Valid) (hs : Sound c s) (h : Calm s) : Waiting c s := by
  refine ⟨h.steps, fun k step hstep hstatus => ?_, h.settled, fun id attempt output details effects hok step hstep => ?_⟩
  · refine (h.steps k step hstep).quiet ?_
    rcases hstatus with hstatus | hstatus | hstatus | hstatus <;> rw [hstatus] <;> rfl
  · have hopen : s.status.isTerminal = false := by
      by_contra hover
      rw [apply_terminal (by simpa using hover)] at hok
      cases hok
    have houtcome := outcome_apply hv hs hopen (.stepSucceeded id attempt output details)
    generalize apply c s (.stepSucceeded id attempt output details) = applied at hok houtcome
    have hquiet : ∀ {step' current}, InFlight c s id attempt step' current → step'.status = .running →
        step.pendingPermissions = [] ∧ step.pendingInput = none := by
      intro step' current hin hrunning
      obtain rfl := Option.some.inj (hin.found.symm.trans hstep)
      exact (h.steps id step' hstep).quiet (by rw [hrunning]; rfl)
    cases houtcome with
    | completed hin hrunning | advanced hin hrunning => exact hquiet hin hrunning
    | touched hin htouch => cases htouch
    | rejected | leakedSuccess | stuckSuccess => cases hok

theorem not_waiting_of_losesQuestion (hs : Sound c s) {command : OrchestrationCommand}
    (h : LosesQuestion c s command) : ¬ Waiting c (apply c s command).1 := by
  cases command with
  | permissionResolved id attempt permissionId approved =>
    obtain ⟨step, current, hin, hlast, hsome⟩ := h
    have hopen := (hs.going hin.found hin.isLive).1
    intro hwaiting
    have hmem : permissionId ∈ step.pendingPermissions := by
      rw [hlast]
      exact List.mem_singleton_self _
    have hempty : step.pendingPermissions.erase permissionId = [] := (erase_eq_nil_iff hmem).mpr hlast
    have happly : (apply c s (.permissionResolved id attempt permissionId approved)).1 =
        settle (s.setStep id fun _ => { step with pendingPermissions := [], status := .running }) := by
      show (if s.status.isTerminal then _ else permissionResolved c s id attempt permissionId approved).1 = _
      simp [permissionResolved, hopen, activeAttempt_ok.mpr ⟨current, hin⟩, hmem, hempty]
    rw [happly] at hwaiting
    have hquiet := hwaiting.quiet id _ (by rw [settle_steps]; exact OrchestrationRunState.step_setStep_self hin.found)
      (Or.inl rfl)
    exact hsome hquiet.2
  | _ => cases h

theorem not_waiting_of_sticks (hv : c.Valid) (hs : Sound c s) (h : Calm s) {command : OrchestrationCommand}
    (hsticks : Sticks c s command) : ¬ Waiting c (apply c s command).1 := by
  have hopen := hsticks.open hs
  have houtcome := outcome_apply hv hs hopen command
  have hchanges : ¬ ∀ e, (apply c s command).2 = .error e → (apply c s command).1 = s :=
    fun h => ((atomic_outcome hopen houtcome).mp h).2 hsticks
  intro hwaiting
  have hsettled := hwaiting.settled
  generalize apply c s command = applied at houtcome hchanges hsettled
  cases houtcome with
  | rejected => exact hchanges fun _ _ => rfl
  | leakedSuccess hplain hno =>
    obtain ⟨⟨step, current, hin, hrunning⟩, -⟩ := hsticks
    exact hno step current hin hrunning
  | leakedFailure hplain hknown hno =>
    obtain ⟨node, step, current, -, hin, -⟩ := hsticks
    exact hno step current hin
  | stuckSuccess hin | stuckFailure hnode hin =>
    exact not_settled_of_ended h.settled hsettled hs hin.found hin.active rfl rfl rfl
  | _ => exact hchanges fun _ h => by cases h

/-- Every state of a run waits consistently exactly if no step loses a question or sticks. -/
theorem waiting_iff {d : OrchestrationDefinition} (hc : d.compile = .ok c) (hfresh : Fresh c s)
    (commands : List OrchestrationCommand) : (reducer c).Always (Waiting c) s commands ↔
      ∀ st ∈ (reducer c).trace s commands, ¬ LosesQuestion c st.pre st.input ∧ ¬ Sticks c st.pre st.input := by
  have hv := valid_of_compile hc
  simp only [← not_or]
  refine @Machine.always_iff _ _ _ _ (fun s => Sound c s ∧ Calm s) _
    (fun st => LosesQuestion c st.pre st.input ∨ Sticks c st.pre st.input) (fun s command h hgood => ?_)
    (fun s h => h.2.waiting hv h.1) (fun s command h hbad => ?_) _ ⟨sound_fresh hfresh, calm_fresh hfresh⟩ _
  · have hs' := sound_apply hv h.1 command
    refine ⟨hs', ?_⟩
    by_cases hopen : s.status.isTerminal = true
    · show Calm (apply c s command).1
      rw [apply_terminal hopen]
      exact h.2
    · rw [Bool.not_eq_true] at hopen
      rw [not_or] at hgood
      exact calm_outcome hv h.1 h.2 hs' (outcome_apply hv h.1 hopen command) hgood.1 hgood.2
  · rcases hbad with hbad | hbad
    · exact not_waiting_of_losesQuestion h.1 hbad
    · exact not_waiting_of_sticks hv h.1 h.2 hbad

end

section

open Sample List

namespace Sample

def question : InputRequest := ⟨"q", "choice", "Which?", .null, [⟨"yes", "Yes", false⟩]⟩

def overlapping : List OrchestrationCommand := opening ++
  [.stepAdmitted "work" 1, .inputRequired "work" 1 question, .permissionRequired "work" 1 "p",
    .permissionResolved "work" 1 "p" true]

end Sample

/-- The step waits for an answer and for a permission. -/
theorem waiting_iff_line : line.compile = .ok (compiled line) ∧ Fresh (compiled line) (.new "run" (compiled line)) ∧
    (∀ st ∈ (reducer (compiled line)).trace (.new "run" (compiled line)) (overlapping.take 6),
      ¬ LosesQuestion (compiled line) st.pre st.input ∧ ¬ Sticks (compiled line) st.pre st.input) ∧
    (reducer (compiled line)).Always (Waiting (compiled line)) (.new "run" (compiled line)) (overlapping.take 6) := by
  refine ⟨compile_line, ⟨"run", {}, rfl⟩, (and_iff_left_of_imp (waiting_iff compile_line ⟨"run", {}, rfl⟩ _).mpr).mpr ?_⟩
  intro st hst
  simp only [overlapping, opening, cons_append, nil_append, take_succ_cons, take_zero, Machine.trace_cons,
    Machine.trace_nil, mem_cons, not_mem_nil, or_false] at hst
  rcases hst with rfl | rfl | rfl | rfl | rfl | rfl
  case inr.inr.inl =>
    have hfree : ((compiled line).outgoingFor "input" .onSuccess).all (fun edge =>
        ((runOf line (opening.take 2)).steps.get? edge.target).all (·.status = .pending)) = true := by decide
    refine ⟨id, ?_⟩
    rintro ⟨-, -, edge, next, hedge, hnext, hblocked⟩
    rw [hedge, Option.all_some] at hfree
    rw [show (runOf line (opening.take 2)).steps.get? edge.target = some next from hnext, Option.all_some] at hfree
    exact hblocked (of_decide_eq_true hfree)
  all_goals exact ⟨id, id⟩

/-- The step is running with its question open, and may succeed. -/
theorem permission_loses_question : line.compile = .ok (compiled line) ∧
    ReachableRun (compiled line) (runOf line overlapping) ∧
    (∃ step, (runOf line overlapping).steps.get? "work" = some step ∧ step.status = .running ∧ step.Asks) ∧
    (apply (compiled line) (runOf line overlapping) (succeeded "work" 1)).2.isOk = true := by
  refine ⟨compile_line, reachable_runOf line overlapping, ?_, by decide⟩
  have hstep : ((runOf line overlapping).steps.get? "work").any
      (fun step => step.status = .running ∧ step.pendingInput.isSome) = true := by decide
  obtain ⟨step, hfound, hopen⟩ := (Option.any_eq_true _ _).mp hstep
  obtain ⟨hrunning, hsome⟩ := of_decide_eq_true hopen
  exact ⟨step, hfound, hrunning, Or.inr (Option.isSome_iff_ne_none.mp hsome)⟩

end

end RustyCore
