import RustyCore.Workflow.State

/-! The reducer: how a workflow run changes in response to a command. Every operation returns the state as it
    leaves it together with its result, since an operation of the source that fails keeps what it wrote before. -/

namespace RustyCore

abbrev Applied := OrchestrationRunState × Except TransitionError (List OrchestrationEffect)

namespace Reducer

/-! ### Finding a step or attempt -/

def unknownStep (id : OrchestrationNodeId) : TransitionError := ⟨"unknown_step", "unknown step " ++ id⟩

def missingStepState (id : OrchestrationNodeId) : TransitionError :=
  ⟨"missing_step_state", "missing state for " ++ id⟩

def stepState (s : OrchestrationRunState) (id : OrchestrationNodeId) : Except TransitionError StepRun :=
  match s.steps.get? id with
  | some step => .ok step
  | none => .error (missingStepState id)

def stepMut (c : CompiledOrchestration) (s : OrchestrationRunState) (id : OrchestrationNodeId) :
    Except TransitionError StepRun :=
  if (c.node id).isNone then .error (unknownStep id) else stepState s id

def activeAttempt (c : CompiledOrchestration) (s : OrchestrationRunState) (id : OrchestrationNodeId) (attempt : Nat) :
    Except TransitionError StepRun :=
  match stepMut c s id with
  | .error e => .error e
  | .ok step =>
    if !step.status.isActive then .error ⟨"step_not_running", "step " ++ id ++ " is not running"⟩
    else if step.attempts.getLast?.map (·.attempt) ≠ some attempt then
      .error ⟨"stale_attempt", "attempt " ++ toString attempt ++ " is not active"⟩
    else .ok step

def currentAttempt (step : StepRun) : Except TransitionError StepAttempt :=
  match step.attempts.getLast? with
  | some attempt => .ok attempt
  | none => .error ⟨"no_active_attempt", "active step has no attempt"⟩

def setCurrent (step : StepRun) (attempt : StepAttempt) : StepRun :=
  { step with attempts := step.attempts.dropLast ++ [attempt] }

def requireStatus (actual expected : OrchestrationStatus) : Except TransitionError Unit :=
  if actual = expected then .ok ()
  else .error ⟨"invalid_run_status", "expected run status " ++ expected.debug ++ ", got " ++ actual.debug⟩

/-! ### The status of the run -/

/-- The status a run that is neither over nor being cancelled has by its steps and the pause flag. -/
def derivedStatus (s : OrchestrationRunState) : OrchestrationStatus :=
  match s.activeStep.map fun (_, step) => step.status with
  | some .waitingForPermission => .waitingForPermission
  | some .waitingForInput => .waitingForInput
  | some _ => .running
  | none => if s.paused then .paused else .ready

def settle (s : OrchestrationRunState) : OrchestrationRunState :=
  if s.status.isTerminal || s.status == .cancelling then s else { s with status := derivedStatus s }

def abandonStep (step : StepRun) : StepRun :=
  match step.status with
  | .pending => { step with status := .skipped }
  | .ready | .retryScheduled => { step with status := .cancelled }
  | _ => step

def terminateFailed (s : OrchestrationRunState) (error : OrchestrationError) (effects : List OrchestrationEffect) :
    Applied :=
  let s := { s with
    status := .failed
    error := some error
    steps := s.steps.mapEntries fun _ step => abandonStep step }
  (s, .ok (effects ++ [.emit (.runFailed error), .finish (.fromState s .failed)]))

/-! ### Starting a run and admitting each step -/

def start (c : CompiledOrchestration) (s : OrchestrationRunState) (input : Value) : Applied :=
  match requireStatus s.status .created with
  | .error e => (s, .error e)
  | .ok () =>
    let s := { s with input := some input }
    match stepState s c.entryNode with
    | .error e => (s, .error e)
    | .ok step =>
      (settle (s.setStep c.entryNode fun _ => { step with status := .ready }),
        .ok [.emit .runStarted, .emit (.stepReady c.entryNode)])

def budgetCheck (name : String) (limit : Option Nat) (used : Nat) : Option String :=
  limit.bind fun limit =>
    if limit ≤ used then
      some (name ++ " budget of " ++ toString limit ++ " exhausted (" ++ toString used ++ " used)")
    else none

def exhaustedBudget [WorkflowExternals] (c : CompiledOrchestration) (s : OrchestrationRunState) : Option String :=
  let policies := c.definition.policies
  match policies.maxTotalAttempts.filter (· ≤ s.totalAttempts) with
  | some limit => some ("attempt budget of " ++ toString limit ++ " exhausted")
  | none =>
    match budgetCheck "model request" policies.maxModelRequests s.usage.modelRequests <|>
        budgetCheck "tool call" policies.maxToolCalls s.usage.toolCalls <|>
        budgetCheck "token" policies.maxTokens s.usage.tokens with
    | some reason => some reason
    | none =>
      policies.maxCostUsd.bind fun limit =>
        if limit ≤ s.usage.costUsd then
          some ("cost budget of $" ++ WorkflowExternals.displayFloat limit ++ " exhausted ($" ++
            WorkflowExternals.displayFloat s.usage.costUsd ++ " used)")
        else none

def admitStep [WorkflowExternals] (c : CompiledOrchestration) (s : OrchestrationRunState) (id : OrchestrationNodeId)
    (attempt : Nat) : Applied :=
  if s.status ≠ .ready || s.paused then
    (s, .error ⟨"run_not_ready", "run in status " ++ s.status.debug ++ " cannot admit work"⟩)
  else
    match stepMut c s id with
    | .error e => (s, .error e)
    | .ok step =>
      if step.status ≠ .ready then (s, .error ⟨"step_not_ready", "step " ++ id ++ " is not ready"⟩)
      else if attempt ≠ step.attempts.length + 1 then
        (s, .error ⟨"invalid_attempt",
          "expected attempt " ++ toString (step.attempts.length + 1) ++ ", got " ++ toString attempt⟩)
      else
        match exhaustedBudget c s with
        | some reason => terminateFailed s { code := ErrorCodes.budgetExhausted, message := reason } []
        | none =>
          let s := s.setStep id fun _ =>
            { step with status := .running, attempts := step.attempts ++ [{ attempt, status := .running }] }
          (settle { s with totalAttempts := s.totalAttempts + 1 },
            .ok [.emit (.stepStarted id attempt), .executeStep id attempt])

/-- Adds what an attempt used to the run's totals; nothing is reported for an attempt that used nothing. -/
def recordUsage [WorkflowExternals] (s : OrchestrationRunState) (details : AttemptDetails) :
    OrchestrationRunState × Option OrchestrationEffect :=
  if details.usage = {} then (s, none)
  else
    let s := { s with usage := s.usage.add details.usage }
    (s, some (.emit (.budgetUpdated s.usage)))

/-! ### Making a step active, and trying it again -/

def activate (s : OrchestrationRunState) (source target : OrchestrationNodeId) (condition : EdgeCondition) : Applied :=
  match stepState s target with
  | .error e => (s, .error e)
  | .ok next =>
    if next.status ≠ .pending then
      (s, .error ⟨"target_not_pending", "target step " ++ target ++ " is not pending"⟩)
    else
      (s.setStep target fun _ => { next with status := .ready },
        .ok [.emit (.transitionSelected source target condition), .emit (.stepReady target)])

def follow (s : OrchestrationRunState) (source target : OrchestrationNodeId) (condition : EdgeCondition)
    (effects : List OrchestrationEffect) : Applied :=
  match activate s source target condition with
  | (s, .error e) => (s, .error e)
  | (s, .ok more) => (settle s, .ok (effects ++ more))

def retry (c : CompiledOrchestration) (s : OrchestrationRunState) (id : OrchestrationNodeId) : Applied :=
  match stepMut c s id with
  | .error e => (s, .error e)
  | .ok step =>
    if step.status ≠ .retryScheduled then (s, .error ⟨"retry_not_scheduled", "step has no scheduled retry"⟩)
    else (settle (s.setStep id fun _ => { step with status := .ready }), .ok [.emit (.stepReady id)])

/-! ### How a step ends -/

def succeedStep (step : StepRun) (current : StepAttempt) (output : Value) (details : AttemptDetails) : StepRun :=
  { setCurrent step { current with status := .succeeded, output := some output, details } with
    status := .succeeded
    output := some output
    error := none }

def succeed [WorkflowExternals] (c : CompiledOrchestration) (s : OrchestrationRunState) (id : OrchestrationNodeId)
    (attempt : Nat) (output : Value) (details : AttemptDetails) : Applied :=
  let isOutput := (c.node id).any (·.kind.isOutput)
  let (s, usageEffect) := recordUsage s details
  match activeAttempt c s id attempt with
  | .error e => (s, .error e)
  | .ok step =>
    if step.status ≠ .running then
      (s, .error ⟨"step_not_running", "step " ++ id ++ " cannot succeed while " ++ step.status.debug⟩)
    else
      match currentAttempt step with
      | .error e => (s, .error e)
      | .ok current =>
        let s := s.setStep id fun _ => succeedStep step current output details
        let effects := usageEffect.toList ++ [.emit (.stepSucceeded id attempt)]
        if isOutput then
          let s := { s with finalOutput := some output, status := .completed }
          (s, .ok (effects ++ [.emit .runCompleted, .finish (.fromState s .completed)]))
        else
          match c.outgoingFor id .onSuccess with
          | some edge => follow s id edge.target .onSuccess effects
          | none =>
            terminateFailed s
              { code := ErrorCodes.missingTransition, message := "step " ++ id ++ " has no success route" } effects

structure FailedAttempt where
  compiled : CompiledOrchestration
  node : OrchestrationNode
  nodeId : OrchestrationNodeId
  attempt : Nat
  error : OrchestrationError
  budgetLeft : Bool

def failStep (step : StepRun) (current : StepAttempt) (error : OrchestrationError) (details : AttemptDetails) :
    StepRun :=
  { setCurrent step { current with status := .failed, error := some error, details } with
    status := .failed
    error := some error
    pendingPermissions := []
    pendingInput := none }

def markAttemptFailed (c : CompiledOrchestration) (s : OrchestrationRunState) (id : OrchestrationNodeId)
    (attempt : Nat) (error : OrchestrationError) (details : AttemptDetails) :
    Except TransitionError OrchestrationRunState :=
  match activeAttempt c s id attempt with
  | .error e => .error e
  | .ok step =>
    match currentAttempt step with
    | .error e => .error e
    | .ok current => .ok (s.setStep id fun _ => failStep step current error details)

def retriesSame (policy : RetryPolicy) (error : OrchestrationError) (attempt retryBase : Nat) (budgetLeft : Bool) :
    Bool :=
  error.retryReason.any policy.retryOn.contains && decide (attempt - retryBase < policy.maxAttempts) && budgetLeft

def retrySameStep (s : OrchestrationRunState) (failed : FailedAttempt) : Option Applied :=
  match stepState s failed.nodeId with
  | .error e => some (s, .error e)
  | .ok step =>
    if retriesSame failed.node.retry failed.error failed.attempt step.retryBase failed.budgetLeft then
      some (settle (s.setStep failed.nodeId fun _ =>
          { step with status := .retryScheduled, feedback := step.feedback ++ [failed.error] }),
        .ok [.emit (.stepRetryScheduled failed.nodeId (failed.attempt + 1) failed.nodeId)])
    else none

def eachStep (f : OrchestrationNodeId → StepRun → Except TransitionError StepRun) :
    List OrchestrationNodeId → OrchestrationRunState → OrchestrationRunState × Except TransitionError Unit
  | [], s => (s, .ok ())
  | id :: rest, s =>
    match stepState s id with
    | .error e => (s, .error e)
    | .ok step =>
      match f id step with
      | .error e => (s, .error e)
      | .ok step => eachStep f rest (s.setStep id fun _ => step)

/-- A step between the one that sent work back and the target: it runs again, and only the target keeps its
    checkpoint. -/
def resetStep (target id : OrchestrationNodeId) (step : StepRun) : StepRun :=
  { step with
    status := .pending
    output := none
    checkpoint := if id = target then step.checkpoint else none }

/-- Re-run `target` with `error` as feedback, resetting every step between it and `source`, which sent the work
    back. The source indexes its span, which every node that gets here has. -/
def sendBack (c : CompiledOrchestration) (s : OrchestrationRunState) (source target : OrchestrationNodeId)
    (error : OrchestrationError) : Applied :=
  match eachStep (fun id step => .ok (resetStep target id step)) ((c.retrySpans.get? source).getD []) s with
  | (s, .error e) => (s, .error e)
  | (s, .ok ()) =>
    match stepState s target with
    | .error e => (s, .error e)
    | .ok step =>
      (settle (s.setStep target fun _ =>
          { step with status := .retryScheduled, feedback := step.feedback ++ [error] }),
        .ok [.emit (.stepRetryScheduled target (step.attempts.length + 1) source)])

def retryTarget (node : OrchestrationNode) (error : OrchestrationError) : Option OrchestrationNodeId :=
  match node.kind, error.retryReason with
  | .verify config, some .verificationFailed => config.retryTarget
  | _, _ => none

def sendBackToRetryTarget (s : OrchestrationRunState) (failed : FailedAttempt) : Option Applied :=
  match retryTarget failed.node failed.error with
  | none => none
  | some targetId =>
    match failed.compiled.node targetId with
    | none => some (s, .error ⟨"unknown_step", "unknown retry target " ++ targetId⟩)
    | some target =>
      match stepState s targetId with
      | .error e => some (s, .error e)
      | .ok step =>
        if decide (step.attempts.length - step.retryBase < target.retry.maxAttempts) && failed.budgetLeft then
          some (sendBack failed.compiled s failed.nodeId targetId failed.error)
        else none

/-- Where a request for changes goes: an approval's revise target while revisions are left, or the step that
    wrote a task queue's plan. -/
def reviseTarget (node : OrchestrationNode) (error : OrchestrationError) (attempt : Nat) :
    Option OrchestrationNodeId :=
  match node.kind, error.retryReason with
  | .approval config, some .changesRequested => if attempt ≤ config.maxRevisions then config.reviseTarget else none
  | .agent _, some .changesRequested => node.taskPlanSource
  | _, _ => none

def sendBackForChanges (s : OrchestrationRunState) (failed : FailedAttempt) : Option Applied :=
  match reviseTarget failed.node failed.error failed.attempt with
  | none => none
  | some targetId =>
    if failed.budgetLeft && failed.compiled.retrySpans.contains failed.nodeId then
      match stepState s targetId with
      | .error e => some (s, .error e)
      | .ok step =>
        some (sendBack failed.compiled (s.setStep targetId fun _ => { step with retryBase := step.attempts.length })
          failed.nodeId targetId failed.error)
    else none

/-- An explicit `on_failure` edge takes the run elsewhere instead of ending it. -/
def takeFailureRoute (s : OrchestrationRunState) (failed : FailedAttempt) : Option Applied :=
  (failed.compiled.outgoingFor failed.nodeId .onFailure).map fun edge =>
    follow s failed.nodeId edge.target .onFailure []

/-- The error the run ends with: the step's own, unless the budget is why it was not retried. -/
def runError (failed : FailedAttempt) : OrchestrationError :=
  if failed.budgetLeft then failed.error
  else
    { code := ErrorCodes.budgetExhausted, message := "retry denied by budget after: " ++ failed.error.message }

def afterEffects (effects : List OrchestrationEffect) (applied : Applied) : Applied :=
  (applied.1, applied.2.map (effects ++ ·))

/-- Records a failed attempt, then tries the ways out in order: retry the step, send work back to a retry
    target, ask for changes, take the failure route. With none of those the run fails. -/
def fail [WorkflowExternals] (c : CompiledOrchestration) (s : OrchestrationRunState) (id : OrchestrationNodeId)
    (attempt : Nat) (error : OrchestrationError) (details : AttemptDetails) : Applied :=
  match c.node id with
  | none => (s, .error (unknownStep id))
  | some node =>
    let (s, usageEffect) := recordUsage s details
    match markAttemptFailed c s id attempt error details with
    | .error e => (s, .error e)
    | .ok s =>
      let effects := usageEffect.toList ++ [.emit (.stepFailed id attempt error)]
      let failed : FailedAttempt :=
        { compiled := c, node, nodeId := id, attempt, error, budgetLeft := (exhaustedBudget c s).isNone }
      match retrySameStep s failed <|> sendBackToRetryTarget s failed <|> sendBackForChanges s failed <|>
          takeFailureRoute s failed with
      | some applied => afterEffects effects applied
      | none => terminateFailed { s with failedStep := some id } (runError failed) effects

/-! ### Permissions and questions -/

def permissionRequired (c : CompiledOrchestration) (s : OrchestrationRunState) (id : OrchestrationNodeId)
    (attempt : Nat) (permissionId : String) : Applied :=
  match activeAttempt c s id attempt with
  | .error e => (s, .error e)
  | .ok step =>
    if step.pendingPermissions.contains permissionId then
      (s, .error ⟨"duplicate_permission", "permission " ++ permissionId ++ " is already pending"⟩)
    else
      (settle (s.setStep id fun _ =>
          { step with
            status := .waitingForPermission
            pendingPermissions := step.pendingPermissions ++ [permissionId] }),
        .ok [.emit (.permissionRequested id attempt permissionId)])

/-- A denial is returned to the agent; the step only fails if the agent cannot continue without the tool. -/
def permissionResolved (c : CompiledOrchestration) (s : OrchestrationRunState) (id : OrchestrationNodeId)
    (attempt : Nat) (permissionId : String) (approved : Bool) : Applied :=
  match activeAttempt c s id attempt with
  | .error e => (s, .error e)
  | .ok step =>
    if !step.pendingPermissions.contains permissionId then
      (s, .error ⟨"unknown_permission",
        "step " ++ id ++ " is not waiting on permission " ++ permissionId⟩)
    else
      let left := step.pendingPermissions.erase permissionId
      (settle (s.setStep id fun _ =>
          { step with pendingPermissions := left, status := if left.isEmpty then .running else step.status }),
        .ok [.emit (.permissionResolved id attempt permissionId approved)])

def inputRequired (c : CompiledOrchestration) (s : OrchestrationRunState) (id : OrchestrationNodeId)
    (attempt : Nat) (request : InputRequest) : Applied :=
  match activeAttempt c s id attempt with
  | .error e => (s, .error e)
  | .ok step =>
    if step.pendingInput.isSome then
      (s, .error ⟨"input_pending", "step " ++ id ++ " is already waiting for an answer"⟩)
    else if request.decisions.isEmpty then
      (s, .error ⟨"invalid_input_request", "a question needs at least one possible answer"⟩)
    else
      (settle (s.setStep id fun _ => { step with status := .waitingForInput, pendingInput := some request }),
        .ok [.emit (.inputRequested id attempt request)])

def inputResolved (c : CompiledOrchestration) (s : OrchestrationRunState) (id : OrchestrationNodeId)
    (attempt : Nat) (requestId : String) (response : InputResponse) : Applied :=
  match activeAttempt c s id attempt with
  | .error e => (s, .error e)
  | .ok step =>
    match step.pendingInput.filter (·.id == requestId) with
    | none =>
      (s, .error ⟨"unknown_input", "step " ++ id ++ " is not waiting on question " ++ requestId⟩)
    | some request =>
      match request.decisions.find? (·.id == response.decision) with
      | none =>
        (s, .error ⟨"invalid_decision",
          response.decision ++ " is not one of the answers to question " ++ requestId⟩)
      | some decision =>
        if decision.requiresText && !response.text.any (!Text.isBlank ·) then
          (s, .error ⟨"missing_text", "the answer " ++ decision.id ++ " needs text"⟩)
        else
          (settle (s.setStep id fun _ =>
              { step with
                pendingInput := none
                status := if step.pendingPermissions.isEmpty then .running else .waitingForPermission }),
            .ok [.emit (.inputResolved id attempt requestId response)])

/-! ### Checkpoints -/

def arrayLength : Option Value → Nat
  | some (.array items) => items.length
  | _ => 0

/-- Stores `value` as the step's checkpoint and reports how many of the plan's tasks are done. -/
def recordCheckpoint (c : CompiledOrchestration) (s : OrchestrationRunState) (id : OrchestrationNodeId)
    (attempt : Nat) (value : Value) : Applied :=
  match activeAttempt c s id attempt with
  | .error e => (s, .error e)
  | .ok step =>
    (s.setStep id fun _ => { step with checkpoint := some value },
      .ok [.emit (.taskProgress id attempt (arrayLength (value.get "completed"))
        (arrayLength ((value.get "plan").bind (·.get "tasks"))))])

/-! ### Pausing, cancelling and recovering a run -/

def pause (s : OrchestrationRunState) : Applied :=
  if s.paused then (s, .error ⟨"already_paused", "run is already paused"⟩)
  else if s.status = .created ∨ s.status = .cancelling then
    (s, .error ⟨"invalid_run_status", "cannot pause a run in status " ++ s.status.debug⟩)
  else (settle { s with paused := true }, .ok [.emit .runPaused])

def resume (s : OrchestrationRunState) : Applied :=
  if !s.paused then (s, .error ⟨"not_paused", "run is not paused"⟩)
  else (settle { s with paused := false }, .ok [.emit .runResumed])

def cancelActive (id : OrchestrationNodeId) (step : StepRun) :
    Except TransitionError (StepRun × List OrchestrationEffect) :=
  match currentAttempt step with
  | .error e => .error e
  | .ok attempt =>
    .ok ({ setCurrent step { attempt with status := .cancelled } with
        status := .cancelled
        pendingPermissions := []
        pendingInput := none },
      [.cancelStep id attempt.attempt])

def abort (s : OrchestrationRunState) (error : OrchestrationError) : Applied :=
  let (steps, effects) := s.steps.updateEach fun id step =>
    if step.status.isActive then cancelActive id step else .ok (step, [])
  let s := { s with steps }
  match effects with
  | .error e => (s, .error e)
  | .ok effects => terminateFailed s error effects

def cancellationCompleted (s : OrchestrationRunState) : Applied :=
  match requireStatus s.status .cancelling with
  | .error e => (s, .error e)
  | .ok () =>
    let s := { s with status := .cancelled }
    (s, .ok [.emit .runCancelled, .finish (.fromState s .cancelled)])

def cancelStep (id : OrchestrationNodeId) (step : StepRun) :
    Except TransitionError (StepRun × List OrchestrationEffect) :=
  match step.status with
  | .running | .waitingForPermission | .waitingForInput => cancelActive id step
  | .ready | .retryScheduled => .ok ({ step with status := .cancelled }, [])
  | .pending => .ok ({ step with status := .skipped }, [])
  | _ => .ok (step, [])

def cancel (s : OrchestrationRunState) : Applied :=
  if s.status = .cancelling then (s, .error ⟨"already_cancelling", "run is already cancelling"⟩)
  else
    let (steps, effects) := s.steps.updateEach cancelStep
    let s := { s with status := .cancelling, steps }
    match effects with
    | .error e => (s, .error e)
    | .ok [] => cancellationCompleted s
    | .ok effects => (s, .ok effects)

def checkRestorable (c : CompiledOrchestration) (s : OrchestrationRunState) : Except TransitionError Unit :=
  if s.definitionId ≠ c.definitionId ∨ s.definitionRevision ≠ c.revision then
    .error ⟨"definition_mismatch", "run was started on " ++ s.definitionId ++ "@" ++ toString s.definitionRevision ++
      ", not " ++ c.definitionId ++ "@" ++ toString c.revision⟩
  else if s.definitionHash ≠ c.contentHash then
    .error ⟨"definition_hash_mismatch", "definition content changed since the run started"⟩
  else if s.steps.size ≠ c.nodes.size || !c.nodes.keys.all s.steps.contains then
    .error ⟨"definition_mismatch", "run step set does not match the definition"⟩
  else .ok ()

def isIndeterminate (c : CompiledOrchestration) (id : OrchestrationNodeId) : Bool :=
  (c.node id).any fun node =>
    match node.kind with
    | .agent _ | .subflow _ => true
    | _ => false

def replayStep (step : StepRun) (attempt : StepAttempt) : StepRun :=
  { setCurrent step { attempt with status := .cancelled } with
    status := .ready
    pendingPermissions := []
    pendingInput := none }

def failInterrupted (error : OrchestrationError) (step : StepRun) (attempt : StepAttempt) : StepRun :=
  { setCurrent step { attempt with status := .failed, error := some error } with
    status := .failed
    error := some error
    pendingPermissions := []
    pendingInput := none }

def withCurrent (f : StepRun → StepAttempt → StepRun) (_ : OrchestrationNodeId) (step : StepRun) :
    Except TransitionError StepRun :=
  match currentAttempt step with
  | .error e => .error e
  | .ok attempt => .ok (f step attempt)

def indeterminateError (ids : List OrchestrationNodeId) : OrchestrationError where
  code := ErrorCodes.indeterminateAttempt
  message := "step(s) " ++ Text.join ", " ids ++ " were in flight when the run stopped; side effects are unknown"

/-- Input, verify, approval and output steps are pure functions of persisted state, so an interrupted attempt is
    made again; an agent's or a flow's is failed closed. -/
def recover (c : CompiledOrchestration) (s : OrchestrationRunState) : Applied :=
  match checkRestorable c s with
  | .error e => (s, .error e)
  | .ok () =>
    if s.status = .cancelling then
      let s := { s with
        steps := s.steps.mapEntries fun _ step =>
          if step.status.isActive then { step with status := .cancelled } else step }
      afterEffects [.emit .runRestored] (cancellationCompleted s)
    else
      let inFlight := (s.steps.entries.filter (·.2.status.isActive)).map Prod.fst
      let indeterminate := inFlight.filter (isIndeterminate c)
      let replayable := inFlight.filter (!isIndeterminate c ·)
      match eachStep (withCurrent replayStep) replayable s with
      | (s, .error e) => (s, .error e)
      | (s, .ok ()) =>
        let effects := .emit .runRestored :: replayable.map fun id => .emit (.stepReady id)
        if indeterminate.isEmpty then (settle s, .ok effects)
        else
          let error := indeterminateError indeterminate
          match eachStep (withCurrent (failInterrupted error)) indeterminate s with
          | (s, .error e) => (s, .error e)
          | (s, .ok ()) => terminateFailed s error effects

/-! ### The command table -/

def terminalRun : TransitionError := ⟨"terminal_run", "terminal orchestration runs cannot transition"⟩

def apply [WorkflowExternals] (c : CompiledOrchestration) (s : OrchestrationRunState)
    (command : OrchestrationCommand) : Applied :=
  if s.status.isTerminal then (s, .error terminalRun)
  else
    match command with
    | .recordCheckpoint id attempt value => recordCheckpoint c s id attempt value
    | .start input => start c s input
    | .stepAdmitted id attempt => admitStep c s id attempt
    | .stepSucceeded id attempt output details => succeed c s id attempt output details
    | .stepFailed id attempt error details => fail c s id attempt error details
    | .permissionRequired id attempt permissionId => permissionRequired c s id attempt permissionId
    | .permissionResolved id attempt permissionId approved => permissionResolved c s id attempt permissionId approved
    | .inputRequired id attempt request => inputRequired c s id attempt request
    | .inputResolved id attempt requestId response => inputResolved c s id attempt requestId response
    | .retryStep id => retry c s id
    | .pause => pause s
    | .resume => resume s
    | .abort error => abort s error
    | .cancel => cancel s
    | .cancellationCompleted => cancellationCompleted s
    | .recover => recover c s

/-- Steps eligible for admission: at most one, the first by topological rank and then by id. -/
def readySteps (c : CompiledOrchestration) (s : OrchestrationRunState) : List OrchestrationNodeId :=
  if s.status ≠ .ready || s.paused then []
  else
    let rank := fun id => (c.topologicalRank.get? id).getD maxU64
    (((s.steps.entries.filter (·.2.status == .ready)).map Prod.fst).insertionSort
      fun a b => rank a < rank b ∨ (rank a = rank b ∧ a ≤ b)).take 1

end Reducer

end RustyCore
