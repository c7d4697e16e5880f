import RustyCore.Workflow.Store
import RustyCore.Workflow.Reducer

/-! The task that owns one workflow run: what it keeps, how it applies a command (reduce, commit, publish, dispatch,
    in that order), and how it decides the next command or what it waits for. Instants are nanoseconds of a
    monotonic clock. -/

namespace RustyCore

/-- What the runner takes from its libraries and the model does not look into: how a finished tool call changes the
    actions of an attempt, and the `Debug` form of a string. -/
class RunnerExternals where
  recordAction : StepActions → String → Value → Bool → String → StepActions
  escapeDebug : String → String

inductive OrchestrationRuntimeError where
  | transition (code message : String)
  | persistence (error : OrchestrationStoreError)
  | stalled (status : OrchestrationStatus)

inductive ControlError where
  | rejected (message : String)
  | closed
deriving DecidableEq

inductive ApplyError where
  | rejected (error : TransitionError)
  | fatal (error : OrchestrationRuntimeError)

def ApplyError.runtime : ApplyError → OrchestrationRuntimeError
  | .rejected error => .transition error.code error.message
  | .fatal error => error

section

variable [RunnerExternals]

def OrchestrationStoreError.display : OrchestrationStoreError → String
  | .io message => "orchestration store I/O error: " ++ message
  | .encoding message => "orchestration store encoding error: " ++ message
  | .invalidRunId runId => "invalid run id " ++ RunnerExternals.escapeDebug runId ++ " for a file store"
  | .sequenceGap runId expected actual =>
    "event sequence gap for run " ++ runId ++ ": expected " ++ toString expected ++ ", got " ++ toString actual

def OrchestrationRuntimeError.display : OrchestrationRuntimeError → String
  | .transition code message => "orchestration transition failed (" ++ code ++ "): " ++ message
  | .persistence error => "persistence failed at the commit boundary; run halted: " ++ error.display
  | .stalled status => "orchestration stalled in status " ++ status.debug ++ " with no runnable step"

end

structure RunClock where
  elapsedBeforeMs : Nat
  started : Nat
  waited : Nat := 0
  waitingSince : Option Nat := none

namespace RunClock

def elapsedMs (clock : RunClock) (now : Nat) : Nat :=
  let waiting := (clock.waitingSince.map (now - ·)).getD 0
  let working := (now - clock.started) - (clock.waited + waiting)
  clock.elapsedBeforeMs + working / 1000000

def trackInputWait (clock : RunClock) (now : Nat) (waiting : Bool) : RunClock :=
  match waiting, clock.waitingSince with
  | true, none => { clock with waitingSince := some now }
  | false, some since => { clock with waited := clock.waited + (now - since), waitingSince := none }
  | _, _ => clock

/-- When the elapsed budget runs out. None without a limit, or while the run waits for the user. -/
def deadline (clock : RunClock) (now : Nat) (limitMs : Option Nat) : Option Nat :=
  limitMs.bind fun limit =>
    if clock.waitingSince.isSome then none else some (now + (limit - clock.elapsedMs now) * 1000000)

def exhausted (clock : RunClock) (now : Nat) (limitMs : Option Nat) (terminal : Bool) : Option OrchestrationError :=
  limitMs.bind fun limit =>
    let elapsed := clock.elapsedMs now
    if limit ≤ elapsed ∧ terminal = false then
      some {
        code := ErrorCodes.budgetExhausted
        message := "elapsed budget of " ++ toString limit ++ "ms exhausted (" ++ toString elapsed ++ "ms used)" }
    else none

end RunClock

/-- Builds an attempt's actions from the agent events it emits; `pending` holds the tool calls requested and not yet
    completed, by call id. -/
structure ActionRecorder where
  pending : Table.Map String (String × Value) := ∅
  actions : StepActions := {}

namespace ActionRecorder

def observe [RunnerExternals] (recorder : ActionRecorder) : AgentEvent → ActionRecorder
  | .toolCallRequested call =>
    { recorder with pending := recorder.pending.insert call.id.uuid.display (call.name, call.arguments) }
  | .toolCallCompleted callId result =>
    match recorder.pending.lookup callId.uuid.display with
    | some (name, arguments) =>
      { pending := recorder.pending.erase callId.uuid.display
        actions := RunnerExternals.recordAction recorder.actions name arguments result.hasError result.outputPreview }
    | none => recorder
  | .toolCallDenied callId _ _ => { recorder with pending := recorder.pending.erase callId.uuid.display }
  | _ => recorder

def callsInFlight (recorder : ActionRecorder) : Bool := !Table.isEmpty recorder.pending

end ActionRecorder

/-- Observations an executor reports while an attempt is in flight. A checkpoint waits for an acknowledgement. -/
inductive StepSignal where
  | checkpoint (value : Value)
  | delegated (run : DelegatedRunRef)
  | permissionRequested (permissionId toolName : String)
  | usage (usage : UsageSummary)
  | agent (envelope : AgentEventEnvelope)
  | inputRequested (request : InputRequest)

structure PermissionResolution where
  permissionId : String
  decision : PermissionDecision

structure InputAnswer where
  requestId : String
  response : InputResponse

inductive ControlRequest where
  | pause
  | resume
  | resolvePermission (permissionId : String) (decision : PermissionDecision)
  | resolveInput (requestId : String) (response : InputResponse)

/-- A caller's request; `received` is whether the attempt in flight, if there is one, still takes what it is sent. -/
structure RunLoop.Control where
  request : ControlRequest
  received : Bool

structure StepExecution where
  result : Except OrchestrationError Value
  details : AttemptDetails

structure StepCorrelation where
  runId : OrchestrationRunId
  definitionId : OrchestrationDefinitionId
  revision : Nat
  nodeId : OrchestrationNodeId
  attempt : Nat
  delegated : DelegatedRunRef

/-- What the loop sends: updates to subscribers, states to watchers, outcomes to callers, and acknowledgements,
    decisions and answers to the attempt in flight. -/
inductive Message where
  | event (envelope : OrchestrationEventEnvelope)
  | agent (correlation : StepCorrelation) (envelope : AgentEventEnvelope)
  | state (state : OrchestrationRunState)
  | reply (outcome : Except ControlError Unit)
  | committed (outcome : Except String Unit)
  | permission (resolution : PermissionResolution)
  | answer (answer : InputAnswer)

structure StepJob where
  state : OrchestrationRunState
  node : Option OrchestrationNode
  attempt : Nat

/-- The attempt in flight. `cancelled` is its own cancellation token, a child of the run's. -/
structure ActiveStep where
  nodeId : OrchestrationNodeId
  attempt : Nat
  cancelled : Bool := false
  job : StepJob
  signalsOpen : Bool := true
  delegated : Option DelegatedRunRef := none
  usage : UsageSummary := {}
  startedAtMs : Nat
  lastActivity : Nat
  stalled : Bool := false
  actions : ActionRecorder := {}

structure OrchestrationRunner where
  compiled : CompiledOrchestration
  store : Option (List OrchestrationEventEnvelope → OrchestrationSnapshot → Except OrchestrationStoreError Unit) := none

/-- What the task keeps; `now` and `nowMs` are the readings of the monotonic and the wall clock. -/
structure RunLoop where
  runner : OrchestrationRunner
  state : OrchestrationRunState
  lastSequence : Nat
  clock : RunClock
  log : List OrchestrationEventEnvelope := []
  sent : List Message := []
  controlOpen : Bool := true
  cancellation : Bool
  cancelApplied : Bool := false
  active : Option ActiveStep := none
  result : Option OrchestrationResult := none
  now : Nat
  nowMs : Nat

namespace RunLoop

def policies (loop : RunLoop) : OrchestrationPolicies := loop.runner.compiled.definition.policies

def send (loop : RunLoop) (message : Message) : RunLoop := { loop with sent := loop.sent ++ [message] }

def withActive (loop : RunLoop) (f : ActiveStep → ActiveStep) : RunLoop := { loop with active := loop.active.map f }

def persist (loop : RunLoop) (batch : EffectBatch) : Except OrchestrationStoreError Unit :=
  match loop.runner.store with
  | none => .ok ()
  | some commit =>
    commit batch.envelopes {
      state := loop.state
      lastSequence := batch.lastSequence
      elapsedMs := loop.clock.elapsedMs loop.now
      result := batch.finish }

def publishCommitted (loop : RunLoop) (envelopes : List OrchestrationEventEnvelope) : RunLoop :=
  { loop with
    sent := loop.sent ++ envelopes.map .event ++ [.state loop.state]
    log := loop.log ++ envelopes }

def cancelMatching (loop : RunLoop) (cancels : List (OrchestrationNodeId × Nat)) : RunLoop :=
  loop.withActive fun active =>
    if cancels.contains (active.nodeId, active.attempt) then { active with cancelled := true } else active

def dispatch (loop : RunLoop) (nodeId : OrchestrationNodeId) (attempt : Nat) : RunLoop :=
  { loop with
    active := some {
      nodeId, attempt
      job := { state := loop.state, node := loop.runner.compiled.node nodeId, attempt }
      startedAtMs := loop.nowMs
      lastActivity := loop.now } }

def commitDone (loop : RunLoop) (batch : EffectBatch) : RunLoop :=
  let loop := { loop with lastSequence := batch.lastSequence }
  let loop := (loop.publishCommitted batch.envelopes).cancelMatching batch.cancels
  let loop := { loop with result := batch.finish <|> loop.result }
  match batch.execute with
  | some (nodeId, attempt) => loop.dispatch nodeId attempt
  | none => loop

variable [WorkflowExternals]

def tryApply (loop : RunLoop) (command : OrchestrationCommand) : RunLoop × Except ApplyError Unit :=
  match Reducer.apply loop.runner.compiled loop.state command with
  | (state, .error e) => ({ loop with state }, .error (.rejected e))
  | (state, .ok effects) =>
    let loop := { loop with
      state
      clock := loop.clock.trackInputWait loop.now (state.status == OrchestrationStatus.waitingForInput) }
    let batch := collectEffects loop.state loop.lastSequence loop.nowMs effects
    match loop.persist batch with
    | .error e => (loop, .error (.fatal (.persistence e)))
    | .ok () => (loop.commitDone batch, .ok ())

def apply (loop : RunLoop) (command : OrchestrationCommand) : RunLoop × Except OrchestrationRuntimeError Unit :=
  let (loop, applied) := loop.tryApply command
  (loop, applied.mapError ApplyError.runtime)

omit [WorkflowExternals] in
def elapsedExhausted (loop : RunLoop) : Option OrchestrationError :=
  loop.clock.exhausted loop.now loop.policies.maxElapsedMs loop.state.status.isTerminal

omit [WorkflowExternals] in
def admission (loop : RunLoop) : Option OrchestrationCommand :=
  match loop.state.steps.entries.find? (·.2.status == .retryScheduled) with
  | some (nodeId, _) => some (.retryStep nodeId)
  | none =>
    (Reducer.readySteps loop.runner.compiled loop.state).head?.map fun nodeId =>
      .stepAdmitted nodeId (((loop.state.steps.get? nodeId).map (·.attempts.length)).getD 0 + 1)

omit [WorkflowExternals] in
/-- The command the run needs next without waiting on anything, or none when it has to wait: a step is running, or
    the run is paused. -/
def nextCommand (loop : RunLoop) : RunLoop × Except OrchestrationRuntimeError (Option OrchestrationCommand) :=
  let requested := loop.cancellation && !loop.cancelApplied
  let loop := if requested then { loop with cancelApplied := true } else loop
  if requested && loop.state.status != .cancelling then (loop, .ok (some .cancel))
  else
    match loop.elapsedExhausted with
    | some error => (loop, .ok (some (.abort error)))
    | none =>
      if loop.active.isSome then (loop, .ok none)
      else if loop.state.status = .cancelling then (loop, .ok (some .cancellationCompleted))
      else if loop.state.paused then (loop, .ok none)
      else
        match loop.admission with
        | some command => (loop, .ok (some command))
        | none => (loop, .error (.stalled loop.state.status))

omit [WorkflowExternals] in
def stallDeadline (loop : RunLoop) : Option Nat :=
  match loop.policies.stallTimeoutMs, loop.active with
  | some limit, some active =>
    if active.stalled || loop.state.paused || active.actions.callsInFlight ||
        (loop.state.steps.get? active.nodeId).any fun step =>
          !step.pendingPermissions.isEmpty || step.pendingInput.isSome then
      none
    else some (active.lastActivity + limit * 1000000)
  | _, _ => none

omit [WorkflowExternals] in
def deadline (loop : RunLoop) : Option Nat := loop.clock.deadline loop.now loop.policies.maxElapsedMs

omit [WorkflowExternals] in
def onStalled (loop : RunLoop) : RunLoop := loop.withActive fun active => { active with stalled := true, cancelled := true }

omit [WorkflowExternals] in
def correlation (loop : RunLoop) (active : ActiveStep) : StepCorrelation where
  runId := loop.state.runId
  definitionId := loop.state.definitionId
  revision := loop.state.definitionRevision
  nodeId := active.nodeId
  attempt := active.attempt
  delegated := active.delegated.getD ⟨none, none, none⟩

end RunLoop

end RustyCore
