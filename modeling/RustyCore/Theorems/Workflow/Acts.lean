import RustyCore.Workflow.Driver

/-! What a wake-up makes the run loop do: it applies commands one after the other, and between them it changes nothing
    that a run is made of. Only the loop's own turns admit steps, and only the end of an attempt is reported. -/

namespace RustyCore

open Relation

/-- An update for the subscribers, or a state for the watchers. -/
def Message.told : Message → Bool
  | .event _ | .state _ => true
  | _ => false

/-- The command neither launches the run nor admits a step nor reports how an attempt ended. -/
def OrchestrationCommand.Asks : OrchestrationCommand → Prop
  | .start _ | .recover | .stepAdmitted .. | .stepSucceeded .. | .stepFailed .. => False
  | _ => True

namespace RunLoop

variable {loop loop' : RunLoop} {command : OrchestrationCommand}

/-- The attempt that the loop executes. -/
def attempt (loop : RunLoop) : Option (OrchestrationNodeId × Nat) :=
  loop.active.map fun active => (active.nodeId, active.attempt)

/-- Nothing of the run has changed, as far as it is kept, sent or executed. -/
structure Quiet (loop loop' : RunLoop) : Prop where
  runner : loop'.runner = loop.runner
  state : loop'.state = loop.state
  lastSequence : loop'.lastSequence = loop.lastSequence
  clock : loop'.clock = loop.clock
  now : loop'.now = loop.now
  log : loop'.log = loop.log
  told : loop'.sent.filter Message.told = loop.sent.filter Message.told
  result : loop'.result = loop.result
  attempt : loop'.attempt = loop.attempt

theorem quiet_send {message : Message} (h : message.told = false) : Quiet loop (loop.send message) := by
  refine ⟨rfl, rfl, rfl, rfl, rfl, rfl, ?_, rfl, rfl⟩
  rw [send, List.filter_append, List.filter_cons_of_neg (by rw [h]; exact Bool.false_ne_true), List.filter_nil, List.append_nil]

theorem quiet_withActive {f : ActiveStep → ActiveStep} (h : ∀ active, (f active).nodeId = active.nodeId ∧
    (f active).attempt = active.attempt) : Quiet loop (loop.withActive f) := by
  refine ⟨rfl, rfl, rfl, rfl, rfl, rfl, rfl, rfl, ?_⟩
  unfold RunLoop.attempt withActive
  rw [Option.map_map]
  exact congrArg (Option.map · loop.active) (funext fun active => Prod.ext (h active).1 (h active).2)

section

variable [WorkflowExternals]

inductive Act : RunLoop → RunLoop → Prop
  | quiet {loop loop' : RunLoop} (h : Quiet loop loop') : Act loop loop'
  | apply {loop : RunLoop} {command : OrchestrationCommand} (h : command.Asks) : Act loop (loop.tryApply command).1

abbrev Acts : RunLoop → RunLoop → Prop := ReflTransGen Act

theorem Quiet.acts (h : Quiet loop loop') : Acts loop loop' := .single (.quiet h)

theorem acts_applyOrWarn (h : command.Asks) : Acts loop (loop.applyOrWarn command).1 := by
  have hacts : Acts loop (loop.tryApply command).1 := .single (.apply h)
  unfold applyOrWarn
  split <;> (rename_i heq; rwa [heq] at hacts)

theorem acts_applyControl (h : command.Asks) : Acts loop (loop.applyControl command).1 := by
  have hacts : Acts loop (loop.tryApply command).1 := .single (.apply h)
  unfold applyControl
  split <;> (rename_i heq; rwa [heq] at hacts)

theorem acts_abortOn (error : Option OrchestrationError) : Acts loop (loop.abortOn error).1 := by
  cases error with
  | none => exact .refl
  | some error => exact .single (.apply trivial)

theorem acts_resolvePermission (received : Bool) (permissionId : String) (decision : PermissionDecision) :
    Acts loop (loop.resolvePermission received permissionId decision).1 := by
  unfold resolvePermission deliverPermission
  dsimp only
  cases loop.active.filter _ with
  | none => exact .refl
  | some active =>
    cases received with
    | false => exact .refl
    | true => exact (quiet_send rfl).acts.trans (acts_applyControl trivial)

theorem acts_deliverAnswer (received : Bool) (answer : InputAnswer) : Acts loop (loop.deliverAnswer received answer).1 := by
  unfold deliverAnswer
  split
  · exact (quiet_send rfl).acts
  · exact .refl

theorem acts_resolveInput (received : Bool) (requestId : String) (response : InputResponse) :
    Acts loop (loop.resolveInput received requestId response).1 := by
  unfold resolveInput
  split
  · exact .refl
  · rename_i active _
    have hacts : Acts loop (loop.applyControl (.inputResolved active.nodeId active.attempt requestId response)).1 :=
      acts_applyControl trivial
    split <;> (rename_i heq; rw [heq] at hacts)
    · exact hacts
    · exact hacts
    · exact hacts.trans (acts_deliverAnswer ..)

theorem acts_request (control : Control) : Acts loop (loop.request control).1 := by
  unfold request
  split
  · exact acts_applyControl trivial
  · exact acts_applyControl trivial
  · exact acts_resolvePermission ..
  · exact acts_resolveInput ..

variable [RunnerExternals]

theorem acts_onControl (control : Control) : Acts loop (loop.onControl control).1 := by
  have hactive : Quiet loop (loop.withActive fun active => { active with lastActivity := loop.now }) :=
    quiet_withActive fun _ => ⟨rfl, rfl⟩
  have hacts := hactive.acts.trans (acts_request control)
  unfold onControl
  split <;> (rename_i heq; rw [heq] at hacts; exact hacts.trans (quiet_send rfl).acts)

theorem acts_recordCheckpoint (value : Value) : Acts loop (loop.recordCheckpoint value).1 := by
  unfold recordCheckpoint
  split
  · exact (quiet_send rfl).acts
  · exact (ReflTransGen.single (.apply trivial)).trans (quiet_send rfl).acts

theorem acts_onSignal (signal : StepSignal) : Acts loop (loop.onSignal signal).1 := by
  unfold onSignal
  split
  · exact .refl
  · have hactive : Quiet loop (loop.withActive fun active => { active with lastActivity := loop.now }) :=
      quiet_withActive fun _ => ⟨rfl, rfl⟩
    refine hactive.acts.trans ?_
    cases signal with
    | checkpoint value => exact acts_recordCheckpoint value
    | delegated run => exact (quiet_withActive fun _ => by exact ⟨rfl, rfl⟩).acts
    | usage usage => exact (quiet_withActive fun _ => by exact ⟨rfl, rfl⟩).acts.trans (acts_abortOn _)
    | agent envelope => exact (quiet_withActive fun _ => by exact ⟨rfl, rfl⟩).acts.trans (quiet_send rfl).acts
    | permissionRequested | inputRequested => exact acts_applyOrWarn trivial

theorem acts_drainFinalSignals (active : ActiveStep) (final : List StepSignal) :
    Acts loop (loop.drainFinalSignals active final).1 := by
  induction final generalizing loop active with
  | nil => exact .refl
  | cons signal rest ih =>
    cases signal with
    | delegated run => exact ih _
    | usage usage =>
      have hacts : Acts loop (loop.abortOn (budgetError loop.policies loop.state.usage usage)).1 := acts_abortOn _
      rw [drainFinalSignals]
      split <;> (rename_i heq; rw [heq] at hacts)
      · exact hacts
      · exact hacts.trans (ih _)
    | checkpoint value => exact (quiet_send rfl).acts.trans (ih _)
    | agent | permissionRequested | inputRequested => exact ih _

omit [WorkflowExternals] [RunnerExternals] in
theorem finishedAttemptCommand_reports (active : ActiveStep) (execution : StepExecution) :
    ¬ (loop.finishedAttemptCommand active execution).Asks ∧
      ∀ id attempt, loop.finishedAttemptCommand active execution ≠ .stepAdmitted id attempt := by
  unfold finishedAttemptCommand
  dsimp only
  split <;> exact ⟨id, fun _ _ => nofun⟩

/-- Unless the loop just acts, an attempt is over: the run is over with it or being cancelled, or how it ended is
    reported. -/
inductive Woken (loop : RunLoop) : Wake → Prop
  | acts {wake} (h : Acts loop (loop.onWake wake).1) : Woken loop wake
  | ends {joined final m outcome} (hacts : Acts { loop with active := none } m)
      (heq : loop.onWake (.stepDone joined final) = (m, outcome))
      (hover : outcome = .ok () → m.state.status.isTerminal = true ∨ m.state.status = .cancelling) :
      Woken loop (.stepDone joined final)
  | reports {joined final active active' m} (hactive : loop.active = some active)
      (hacts : Acts { loop with active := none } m)
      (hdrained : { loop with active := none }.drainFinalSignals active final = (m, active', .ok ()))
      (heq : loop.onWake (.stepDone joined final) = m.apply (m.finishedAttemptCommand active' (m.attemptExecution joined active'))) :
      Woken loop (.stepDone joined final)

theorem woken (loop : RunLoop) (wake : Wake) : Woken loop wake := by
  cases wake with
  | cancelled | deadline => exact .acts .refl
  | stalled => exact .acts (quiet_withActive fun _ => by exact ⟨rfl, rfl⟩).acts
  | control control =>
    cases control with
    | none => exact .acts (Quiet.acts ⟨rfl, rfl, rfl, rfl, rfl, rfl, rfl, rfl, rfl⟩)
    | some control => exact .acts (acts_onControl control)
  | signal signal =>
    cases signal with
    | none => exact .acts (quiet_withActive fun _ => by exact ⟨rfl, rfl⟩).acts
    | some signal => exact .acts (acts_onSignal signal)
  | stepDone joined final =>
    cases hactive : loop.active with
    | none =>
      refine .acts ?_
      unfold onWake onStepDone
      simp only [hactive]
      exact .refl
    | some active =>
      have hacts : Acts { loop with active := none } ({ loop with active := none }.drainFinalSignals active final).1 :=
        acts_drainFinalSignals active final
      have hwake : loop.onWake (.stepDone joined final) = loop.onStepDone joined final := rfl
      unfold onStepDone at hwake
      simp only [hactive] at hwake
      rcases hdrained : { loop with active := none }.drainFinalSignals active final with ⟨m, active', e | ⟨⟩⟩
      · rw [hdrained] at hacts hwake
        exact .ends hacts hwake nofun
      · rw [hdrained] at hacts hwake
        dsimp only at hwake
        split at hwake
        · rename_i hover
          exact .ends hacts hwake fun _ => by simpa using hover
        · exact .reports hactive hacts hdrained hwake

/-- What the loop may do of its own accord: without an attempt in flight it may admit a step, or have nothing to do. -/
inductive Next (loop : RunLoop) : Except OrchestrationRuntimeError (Option OrchestrationCommand) → Prop
  | asks {command : OrchestrationCommand} (h : command.Asks) : Next loop (.ok (some command))
  | admits {id : OrchestrationNodeId} {attempt : Nat} (hidle : loop.active = none) :
      Next loop (.ok (some (.stepAdmitted id attempt)))
  | waits : Next loop (.ok none)
  | stalls {status : OrchestrationStatus} (hidle : loop.active = none) (hcancelling : loop.state.status ≠ .cancelling)
      (hpaused : loop.state.paused = false) (hnone : loop.admission = none) : Next loop (.error (.stalled status))

omit [WorkflowExternals] [RunnerExternals] in
theorem nextCommand_cases {m : RunLoop} {outcome : Except OrchestrationRuntimeError (Option OrchestrationCommand)}
    (h : loop.nextCommand = (m, outcome)) : (∃ applied, m = { loop with cancelApplied := applied }) ∧ Next loop outcome := by
  obtain ⟨applied, hloop⟩ : ∃ applied, (if (loop.cancellation && !loop.cancelApplied) = true then
      { loop with cancelApplied := true } else loop) = { loop with cancelApplied := applied } := by
    split
    · exact ⟨true, rfl⟩
    · exact ⟨loop.cancelApplied, rfl⟩
  unfold nextCommand at h
  dsimp only at h
  rw [hloop] at h
  repeat' split at h
  all_goals
    obtain ⟨rfl, rfl⟩ := Prod.mk.inj h
    refine ⟨⟨applied, rfl⟩, ?_⟩
  · exact .asks trivial
  · exact .asks trivial
  · exact .waits
  · exact .asks trivial
  · exact .waits
  · rename_i hidle _ _ _ command hadmission
    unfold admission at hadmission
    split at hadmission
    · cases hadmission
      exact .asks trivial
    · obtain ⟨id, -, rfl⟩ := Option.map_eq_some_iff.mp hadmission
      exact .admits (by simpa using hidle)
  · rename_i hidle hcancelling hpaused _ hadmission
    exact .stalls (by simpa using hidle) hcancelling (by simpa using hpaused) hadmission

end

end RunLoop

/-- Of the loop that goes on, or that ended with its result. -/
def Driving.Holds (P : RunLoop → Prop) : Driving → Prop
  | .deciding loop | .waiting loop => P loop
  | .ended (.ok output) => ∃ loop, P loop ∧ loop.log = output.events ∧ loop.result = some output.result
  | .ended (.error _) => True

/-- If the input wakes the loop, it does so as `Q` says. -/
def Driving.Meets (Q : RunLoop → Wake → Prop) : Driving → LoopInput → Prop
  | .waiting loop, .wake wake => Q loop wake
  | _, _ => True

section

variable [WorkflowExternals] [RunnerExternals] {P : RunLoop → Prop} {Q : RunLoop → Wake → Prop}

/-- What happens beside the loop keeps the property, and so do the commands that it takes without an error, and the
    wake-ups of which `Q` holds. -/
structure Driving.Kept (P : RunLoop → Prop) (Q : RunLoop → Wake → Prop) : Prop where
  beside : ∀ (loop : RunLoop) cancellation cancelApplied now nowMs, P loop →
    P { loop with cancellation, cancelApplied, now, nowMs }
  apply : ∀ loop command, P loop → loop.result = none → loop.Next (.ok (some command)) →
    (loop.apply command).2 = .ok () → P (loop.apply command).1
  onWake : ∀ loop wake, P loop → Q loop wake → (loop.onWake wake).2 = .ok () → P (loop.onWake wake).1

omit [WorkflowExternals] [RunnerExternals] in
theorem Driving.holds_proceed {handled : Handled} (h : handled.2 = .ok () → P handled.1) : (proceed handled).Holds P := by
  obtain ⟨loop, e | ⟨⟩⟩ := handled
  · trivial
  · exact h rfl

namespace Driving

theorem Kept.step (hkept : Kept P Q) {driving : Driving} (h : driving.Holds P) {input : LoopInput}
    (hmeets : driving.Meets Q input) : (driving.step input).Holds P := by
  cases driving with
  | ended outcome => cases input <;> exact h
  | deciding loop =>
    cases input with
    | wake => exact h
    | cancel | tick => exact hkept.beside _ _ _ _ _ h
    | turn =>
      show (Driving.turn loop).Holds P
      unfold Driving.turn
      cases hresult : loop.result with
      | some result => exact ⟨loop, h, rfl, hresult⟩
      | none =>
        rcases heq : loop.nextCommand with ⟨m, e | command⟩
        · trivial
        · obtain ⟨⟨applied, rfl⟩, hnext⟩ := RunLoop.nextCommand_cases heq
          have hm := hkept.beside loop loop.cancellation applied loop.now loop.nowMs h
          cases command with
          | none => exact hm
          | some command =>
            refine Driving.holds_proceed (hkept.apply _ command hm hresult ?_)
            cases hnext with
            | asks hasks => exact .asks hasks
            | admits hidle => exact .admits hidle
  | waiting loop =>
    cases input with
    | turn => exact h
    | cancel | tick => exact hkept.beside _ _ _ _ _ h
    | wake wake =>
      show (if loop.listens wake then Driving.proceed (loop.onWake wake) else .waiting loop).Holds P
      split
      · exact Driving.holds_proceed (hkept.onWake loop wake h hmeets)
      · exact h

theorem Kept.run (hkept : Kept P Q) {driving : Driving} (h : driving.Holds P) (inputs : List LoopInput)
    (hmeets : ∀ st ∈ driver.trace driving inputs, st.pre.Meets Q st.input) : (driver.run driving inputs).Holds P := by
  induction inputs generalizing driving with
  | nil => exact h
  | cons input inputs ih =>
    rw [Machine.trace_cons, List.forall_mem_cons] at hmeets
    exact ih (hkept.step h hmeets.1) hmeets.2

theorem Kept.trace (hkept : Kept P Q) {driving : Driving} (h : driving.Holds P) {inputs : List LoopInput}
    (hmeets : ∀ st ∈ driver.trace driving inputs, st.pre.Meets Q st.input) :
    ∀ st ∈ driver.trace driving inputs, st.pre.Holds P :=
  Machine.trace_rule (P := Driving.Holds P) (fun _ _ h hmeets => ⟨hkept.step h hmeets, h⟩) h hmeets

omit [WorkflowExternals] [RunnerExternals] in
theorem meets_of {driving : Driving} {input : LoopInput} (h : ∀ loop wake, Q loop wake) : driving.Meets Q input := by
  unfold Meets
  split
  · exact h _ _
  · trivial

end Driving

end

end RustyCore
