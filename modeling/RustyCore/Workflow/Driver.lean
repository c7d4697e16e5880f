import RustyCore.Lib.Machine
import RustyCore.Workflow.RunLoop

/-! What the run loop does with each wake-up: it follows the signals of the attempt in flight and its end, answers
    callers, and goes on until the run has a result. Operations return the loop as they leave it with their outcome;
    an error ends the loop. -/

namespace RustyCore

open OrchestrationCommand

variable [WorkflowExternals]

abbrev Handled := RunLoop × Except OrchestrationRuntimeError Unit

/-- The first run budget that the active attempt's usage pushes over, as the error to abort the run with. -/
def budgetError (policies : OrchestrationPolicies) (runUsage attemptUsage : UsageSummary) : Option OrchestrationError :=
  let total := runUsage.add attemptUsage
  let exhausted :=
    Reducer.budgetCheck "model request" policies.maxModelRequests total.modelRequests <|>
      Reducer.budgetCheck "tool call" policies.maxToolCalls total.toolCalls <|>
      Reducer.budgetCheck "token" policies.maxTokens total.tokens
  let message := exhausted <|> policies.maxCostUsd.bind fun limit =>
    if limit ≤ total.costUsd then
      some ("cost budget of $" ++ WorkflowExternals.displayFloat limit ++ " exhausted")
    else none
  message.map fun message => { code := ErrorCodes.budgetExhausted, message }

namespace RunLoop

section

variable [RunnerExternals]

/-- The step learns whether its checkpoint was committed; a checkpoint that was not ends the loop. -/
def recordCheckpoint (loop : RunLoop) (value : Value) : Handled :=
  match loop.active with
  | none => (loop.send (.committed (.error "no step is running")), .ok ())
  | some active =>
    let (loop, result) := loop.apply (.recordCheckpoint active.nodeId active.attempt value)
    (loop.send (.committed (result.mapError (·.display))), result)

end

/-- A step's request the reducer refuses is logged and the step keeps running; only a persistence failure ends the
    run. -/
def applyOrWarn (loop : RunLoop) (command : OrchestrationCommand) : Handled :=
  match loop.tryApply command with
  | (loop, .ok ()) => (loop, .ok ())
  | (loop, .error (.rejected _)) => (loop, .ok ())
  | (loop, .error (.fatal e)) => (loop, .error e)

def abortOn (loop : RunLoop) : Option OrchestrationError → Handled
  | some error => loop.apply (.abort error)
  | none => (loop, .ok ())

/-- A usage report replaces the earlier ones of the attempt, and ends the run once a budget is used up. -/
def onUsage (loop : RunLoop) (usage : UsageSummary) : Handled :=
  let exceeded := budgetError loop.policies loop.state.usage usage
  (loop.withActive fun active => { active with usage }).abortOn exceeded

section

variable [RunnerExternals]

def onSignal (loop : RunLoop) (signal : StepSignal) : Handled :=
  match loop.active with
  | none => (loop, .ok ())
  | some active =>
    let loop := loop.withActive fun active => { active with lastActivity := loop.now }
    match signal with
    | .checkpoint value => loop.recordCheckpoint value
    | .delegated run => (loop.withActive fun active => { active with delegated := some run }, .ok ())
    | .usage usage => loop.onUsage usage
    | .agent envelope =>
      ((loop.withActive fun active => { active with actions := active.actions.observe envelope.event }).send
        (.agent (loop.correlation active) envelope), .ok ())
    | .permissionRequested permissionId _ =>
      loop.applyOrWarn (.permissionRequired active.nodeId active.attempt permissionId)
    | .inputRequested request => loop.applyOrWarn (.inputRequired active.nodeId active.attempt request)

/-- Observations sent just before the executor returned. The attempt is not the loop's any more, so an abort finds
    nothing to stop. -/
def drainFinalSignals (loop : RunLoop) (active : ActiveStep) :
    List StepSignal → RunLoop × ActiveStep × Except OrchestrationRuntimeError Unit
  | [] => (loop, active, .ok ())
  | .delegated run :: rest => loop.drainFinalSignals { active with delegated := some run } rest
  | .usage usage :: rest =>
    match loop.abortOn (budgetError loop.policies loop.state.usage usage) with
    | (loop, .error e) => (loop, { active with usage }, .error e)
    | (loop, .ok ()) => loop.drainFinalSignals { active with usage } rest
  | .checkpoint _ :: rest =>
    (loop.send (.committed (.error "attempt ended before checkpoint commit"))).drainFinalSignals active rest
  | .agent envelope :: rest =>
    loop.drainFinalSignals { active with actions := active.actions.observe envelope.event } rest
  | .permissionRequested .. :: rest | .inputRequested _ :: rest => loop.drainFinalSignals active rest

omit [WorkflowExternals] [RunnerExternals] in
def attemptExecution (loop : RunLoop) (joined : Except String StepExecution) (active : ActiveStep) : StepExecution :=
  let execution : StepExecution :=
    match joined with
    | .ok execution => execution
    | .error error =>
      { result := .error { code := "step_panicked", message := "step executor terminated abnormally: " ++ error }
        details := {} }
  if active.stalled then
    let limit := loop.policies.stallTimeoutMs.getD 0
    { execution with
      result := .error {
        code := "step_stalled"
        message := "step " ++ active.nodeId ++ " made no progress for " ++ toString limit ++ "ms and was cancelled"
        retryReason := some .backendTimeout } }
  else execution

omit [WorkflowExternals] [RunnerExternals] in
def finishedAttemptCommand (loop : RunLoop) (active : ActiveStep) (execution : StepExecution) : OrchestrationCommand :=
  let details := { execution.details with
    startedAtMs := some active.startedAtMs
    endedAtMs := some loop.nowMs
    delegated := active.delegated
    usage := active.usage
    actions := active.actions.actions }
  match execution.result with
  | .ok output => .stepSucceeded active.nodeId active.attempt output details
  | .error error => .stepFailed active.nodeId active.attempt error details

/-- A run that was cancelled or aborted meanwhile has recorded the attempt as cancelled. -/
def onStepDone (loop : RunLoop) (joined : Except String StepExecution) (final : List StepSignal) : Handled :=
  match loop.active with
  | none => (loop, .ok ())
  | some active =>
    match { loop with active := none }.drainFinalSignals active final with
    | (loop, _, .error e) => (loop, .error e)
    | (loop, active, .ok ()) =>
      if loop.state.status.isTerminal || loop.state.status == .cancelling then (loop, .ok ())
      else loop.apply (loop.finishedAttemptCommand active (loop.attemptExecution joined active))

end

abbrev ControlOutcome := Except OrchestrationRuntimeError (Except ControlError Unit)

def applyControl (loop : RunLoop) (command : OrchestrationCommand) : RunLoop × ControlOutcome :=
  match loop.tryApply command with
  | (loop, .ok ()) => (loop, .ok (.ok ()))
  | (loop, .error (.rejected e)) => (loop, .ok (.error (.rejected e.message)))
  | (loop, .error (.fatal e)) => (loop, .error e)

def deliverPermission (loop : RunLoop) (received : Bool) (permissionId : String) (decision : PermissionDecision) :
    Except ControlError (RunLoop × OrchestrationCommand) :=
  let waiting := loop.active.filter fun active =>
    (loop.state.steps.get? active.nodeId).any (·.pendingPermissions.contains permissionId)
  match waiting with
  | none => .error (.rejected ("no active step is waiting on permission " ++ permissionId))
  | some active =>
    if received then
      .ok (loop.send (.permission ⟨permissionId, decision⟩),
        .permissionResolved active.nodeId active.attempt permissionId (decision == .approved))
    else .error (.rejected "the attempt awaiting this permission has ended")

def resolvePermission (loop : RunLoop) (received : Bool) (permissionId : String) (decision : PermissionDecision) :
    RunLoop × ControlOutcome :=
  match loop.deliverPermission received permissionId decision with
  | .ok (loop, command) => loop.applyControl command
  | .error rejected => (loop, .ok (.error rejected))

def deliverAnswer (loop : RunLoop) (received : Bool) (answer : InputAnswer) : RunLoop × Except ControlError Unit :=
  if loop.active.isSome && received then (loop.send (.answer answer), .ok ())
  else (loop, .error (.rejected "the attempt awaiting this answer has ended"))

/-- The reducer checks the answer is one that was offered before the waiting step acts on it. -/
def resolveInput (loop : RunLoop) (received : Bool) (requestId : String) (response : InputResponse) :
    RunLoop × ControlOutcome :=
  match loop.active with
  | none => (loop, .ok (.error (.rejected ("no active step is waiting on question " ++ requestId))))
  | some active =>
    match loop.applyControl (.inputResolved active.nodeId active.attempt requestId response) with
    | (loop, .error e) => (loop, .error e)
    | (loop, .ok (.error rejected)) => (loop, .ok (.error rejected))
    | (loop, .ok (.ok ())) =>
      let (loop, outcome) := loop.deliverAnswer received ⟨requestId, response⟩
      (loop, .ok outcome)

def request (loop : RunLoop) (control : Control) : RunLoop × ControlOutcome :=
  match control.request with
  | .pause => loop.applyControl .pause
  | .resume => loop.applyControl .resume
  | .resolvePermission permissionId decision => loop.resolvePermission control.received permissionId decision
  | .resolveInput requestId response => loop.resolveInput control.received requestId response

def onControl [RunnerExternals] (loop : RunLoop) (control : Control) : Handled :=
  match (loop.withActive fun active => { active with lastActivity := loop.now }).request control with
  | (loop, .ok outcome) => (loop.send (.reply outcome), .ok ())
  | (loop, .error fatal) => (loop.send (.reply (.error (.rejected fatal.display))), .error fatal)

end RunLoop

/-- What wakes a waiting loop. `final` are the signals still queued when the attempt has ended. -/
inductive Wake where
  | cancelled
  | deadline
  | stalled
  | control (control : Option RunLoop.Control)
  | signal (signal : Option StepSignal)
  | stepDone (joined : Except String StepExecution) (final : List StepSignal)

namespace RunLoop

omit [WorkflowExternals] in
/-- Whether a waiting loop can be woken so. Nothing is queued any more on a closed channel. -/
def listens (loop : RunLoop) : Wake → Bool
  | .cancelled => loop.cancellation && !loop.cancelApplied
  | .deadline => loop.deadline.isSome
  | .stalled => loop.stallDeadline.isSome
  | .control _ => loop.controlOpen
  | .signal _ => loop.active.any (·.signalsOpen)
  | .stepDone _ final => loop.active.any fun active => active.signalsOpen || final.isEmpty

def onWake [RunnerExternals] (loop : RunLoop) : Wake → Handled
  | .cancelled | .deadline => (loop, .ok ())
  | .stalled => (loop.onStalled, .ok ())
  | .control (some control) => loop.onControl control
  | .control none => ({ loop with controlOpen := false }, .ok ())
  | .signal (some signal) => loop.onSignal signal
  | .signal none => (loop.withActive fun active => { active with signalsOpen := false }, .ok ())
  | .stepDone joined final => loop.onStepDone joined final

end RunLoop

structure OrchestrationRunOutput where
  state : OrchestrationRunState
  result : OrchestrationResult
  events : List OrchestrationEventEnvelope

inductive Driving where
  | deciding (loop : RunLoop)
  | waiting (loop : RunLoop)
  | ended (outcome : Except OrchestrationRuntimeError OrchestrationRunOutput)

namespace Driving

def proceed : Handled → Driving
  | (loop, .ok ()) => .deciding loop
  | (_, .error e) => .ended (.error e)

def spawn (runner : OrchestrationRunner) (state : OrchestrationRunState) (lastSequence elapsedBeforeMs : Nat)
    (first : OrchestrationCommand) (cancellation : Bool) (now nowMs : Nat) : Driving :=
  let loop : RunLoop :=
    { runner, state, lastSequence, clock := ⟨elapsedBeforeMs, now, 0, none⟩, cancellation, now, nowMs }
  proceed (loop.apply first)

omit [WorkflowExternals] in
def outside (f : RunLoop → RunLoop) : Driving → Driving
  | .deciding loop => .deciding (f loop)
  | .waiting loop => .waiting (f loop)
  | .ended outcome => .ended outcome

def turn (loop : RunLoop) : Driving :=
  match loop.result with
  | some result => .ended (.ok { state := loop.state, result, events := loop.log })
  | none =>
    match loop.nextCommand with
    | (_, .error e) => .ended (.error e)
    | (loop, .ok (some command)) => proceed (loop.apply command)
    | (loop, .ok none) => .waiting loop

end Driving

/-- What drives the loop: its own turns, what wakes it, and around it the caller's cancellation and the clocks. -/
inductive LoopInput where
  | turn
  | wake (wake : Wake)
  | cancel
  | tick (now nowMs : Nat)

/-- A wake-up the loop does not listen for leaves it asleep, and it takes its turns only when awake. -/
def Driving.step [RunnerExternals] : Driving → LoopInput → Driving
  | .deciding loop, .turn => .turn loop
  | .waiting loop, .wake wake => if loop.listens wake then .proceed (loop.onWake wake) else .waiting loop
  | driving, .cancel => driving.outside fun loop => { loop with cancellation := true }
  | driving, .tick now nowMs => driving.outside fun loop => { loop with now, nowMs }
  | driving, _ => driving

def driver [RunnerExternals] : Machine Driving LoopInput Empty where
  step driving input := (driving.step input, [])

end RustyCore
