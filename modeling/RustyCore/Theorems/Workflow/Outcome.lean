import RustyCore.Theorems.Workflow.Frame

/-! What one command can do to a run. `Outcome` lists the outcomes of every command with their guards, as
    states and effects; the invariants of runs are proved by cases on it. -/

namespace RustyCore

open Reducer WorkflowCompiler

namespace Reducer

def spend [WorkflowExternals] (s : OrchestrationRunState) (details : AttemptDetails) : OrchestrationRunState :=
  { s with usage := usageTotal s.usage details.usage }

def budgetLeft [WorkflowExternals] (c : CompiledOrchestration) (s : OrchestrationRunState) (details : AttemptDetails) :
    Bool :=
  (exhaustedBudget c (spend s details)).isNone

def stopStep (step : StepRun) : StepRun :=
  match step.attempts.getLast? with
  | some attempt =>
    if step.status.isActive then
      { setCurrent step { attempt with status := .cancelled } with
        status := .cancelled
        pendingPermissions := []
        pendingInput := none }
    else step
  | none => step

def closeStep (step : StepRun) : StepRun := abandonStep (stopStep step)

def targetStep (target : OrchestrationNodeId) (error : OrchestrationError) (revise : Bool) (step : StepRun) : StepRun :=
  { resetStep target target step with
    status := .retryScheduled
    feedback := step.feedback ++ [error]
    retryBase := if revise then step.attempts.length else step.retryBase }

/-- What a send-back from `source`, whose step is now `failed`, leaves of a step. -/
def sentBackStep (source target : OrchestrationNodeId) (span : List OrchestrationNodeId) (failed : StepRun)
    (error : OrchestrationError) (revise : Bool) (id : OrchestrationNodeId) (step : StepRun) : StepRun :=
  if id = target then targetStep target error revise step
  else if id = source then resetStep target id failed
  else if id ∈ span then resetStep target id step
  else step

def failedRun (s : OrchestrationRunState) (error : OrchestrationError) : OrchestrationRunState :=
  { s with
    status := .failed
    error := some error
    steps := s.steps.mapEntries fun _ step => abandonStep step }

def failedEffects (s : OrchestrationRunState) (error : OrchestrationError) : List OrchestrationEffect :=
  [.emit (.runFailed error), .finish (.fromState (failedRun s error) .failed)]

inductive Touch : OrchestrationCommand → OrchestrationNodeId → Nat → StepRun → StepRun → OrchestrationEvent → Prop
  | permissionRequired {id attempt permissionId step} (hnew : permissionId ∉ step.pendingPermissions) :
      Touch (.permissionRequired id attempt permissionId) id attempt step
        { step with
          status := .waitingForPermission
          pendingPermissions := step.pendingPermissions ++ [permissionId] }
        (.permissionRequested id attempt permissionId)
  | permissionResolved {id attempt permissionId approved step} (hmem : permissionId ∈ step.pendingPermissions) :
      Touch (.permissionResolved id attempt permissionId approved) id attempt step
        { step with
          pendingPermissions := step.pendingPermissions.erase permissionId
          status := if (step.pendingPermissions.erase permissionId).isEmpty then .running else step.status }
        (.permissionResolved id attempt permissionId approved)
  | inputRequired {id attempt request step} (hnone : step.pendingInput = none) :
      Touch (.inputRequired id attempt request) id attempt step
        { step with status := .waitingForInput, pendingInput := some request }
        (.inputRequested id attempt request)
  | inputResolved {id attempt requestId response step request} (hsome : step.pendingInput = some request) :
      Touch (.inputResolved id attempt requestId response) id attempt step
        { step with
          pendingInput := none
          status := if step.pendingPermissions.isEmpty then .running else .waitingForPermission }
        (.inputResolved id attempt requestId response)

def Emits (effects : List OrchestrationEffect) : Prop := ∀ e ∈ effects, ∃ event, e = .emit event

def Stops (effects : List OrchestrationEffect) : Prop := ∀ e ∈ effects, ∃ id attempt, e = .cancelStep id attempt

/-- The failure of the attempt sends work back to `target`: from a verifier, or as a request for changes. -/
inductive SendsBack [WorkflowExternals] (c : CompiledOrchestration) (s : OrchestrationRunState)
    (id : OrchestrationNodeId) (attempt : Nat) (error : OrchestrationError) (details : AttemptDetails)
    (node : OrchestrationNode) : OrchestrationNodeId → Bool → Prop
  | retry {target targetNode step} (htarget : retryTarget node error = some target)
      (hnode : c.node target = some targetNode) (hstep : s.steps.get? target = some step)
      (hleft : step.attempts.length - step.retryBase < targetNode.retry.maxAttempts)
      (hbudget : budgetLeft c s details = true) :
      SendsBack c s id attempt error details node target false
  | revise {target} (htarget : reviseTarget node error attempt = some target)
      (hspan : c.retrySpans.contains id = true) (hbudget : budgetLeft c s details = true) :
      SendsBack c s id attempt error details node target true

/-- The command is never just refused while the run is not over: it reports the end of an attempt at a step of the
    workflow, or it aborts or recovers the run. -/
def Heeded (c : CompiledOrchestration) : OrchestrationCommand → Prop
  | .stepSucceeded .. | .abort _ | .recover => True
  | .stepFailed id .. => id ∈ c.nodes.keys
  | _ => False

end Reducer

inductive Outcome [WorkflowExternals] (c : CompiledOrchestration) (s : OrchestrationRunState) :
    OrchestrationCommand → Applied → Prop
  | rejected {command e} (hplain : Plain e) (hheeded : ¬ Heeded c command) :
      Outcome c s command (s, .error e)
  /-- A success that is not of the running attempt has its usage counted before it is refused. -/
  | leakedSuccess {id attempt output details e} (hplain : Plain e)
      (hno : ∀ step current, InFlight c s id attempt step current → step.status ≠ .running) :
      Outcome c s (.stepSucceeded id attempt output details) (spend s details, .error e)
  | leakedFailure {id attempt error details e} (hplain : Plain e) (hknown : id ∈ c.nodes.keys)
      (hno : ∀ step current, ¬ InFlight c s id attempt step current) :
      Outcome c s (.stepFailed id attempt error details) (spend s details, .error e)
  /-- The step has been marked when its route turns out to be blocked. -/
  | stuckSuccess {id attempt output details step next current edge e} (hin : InFlight c s id attempt step current)
      (hrunning : step.status = .running) (hkind : (c.node id).any (·.kind.isOutput) = false)
      (hedge : c.outgoingFor id .onSuccess = some edge) (hnext : s.steps.get? edge.target = some next)
      (hblocked : next.status ≠ .pending) :
      Outcome c s (.stepSucceeded id attempt output details)
        ((spend s details).setStep id fun _ => succeedStep step current output details, .error e)
  | stuckFailure {id attempt error details node step next current edge e} (hnode : c.node id = some node)
      (hin : InFlight c s id attempt step current)
      (hretry : retriesSame node.retry error attempt step.retryBase (budgetLeft c s details) = false)
      (hback : ∀ target revise, ¬ SendsBack c s id attempt error details node target revise)
      (hedge : c.outgoingFor id .onFailure = some edge) (hnext : s.steps.get? edge.target = some next)
      (hblocked : next.status ≠ .pending) :
      Outcome c s (.stepFailed id attempt error details)
        ((spend s details).setStep id fun _ => failStep step current error details, .error e)
  | started {input step es} (hcreated : s.status = .created) (hstep : s.steps.get? c.entryNode = some step)
      (hes : Emits es) :
      Outcome c s (.start input)
        (settle (({ s with input := some input } : OrchestrationRunState).setStep c.entryNode fun _ =>
          { step with status := .ready }), .ok es)
  /-- The step is ready, but the budget is used up. -/
  | denied {id attempt step error} (hready : s.status = .ready) (hpaused : s.paused = false)
      (hstep : s.steps.get? id = some step) (hstatus : step.status = .ready) :
      Outcome c s (.stepAdmitted id attempt) (failedRun s error, .ok (failedEffects s error))
  | admitted {id attempt step} (hready : s.status = .ready) (hpaused : s.paused = false)
      (hstep : s.steps.get? id = some step) (hstatus : step.status = .ready)
      (hattempt : attempt = step.attempts.length + 1) (hbudget : exhaustedBudget c s = none) :
      Outcome c s (.stepAdmitted id attempt)
        (settle (({ s with totalAttempts := s.totalAttempts + 1 } : OrchestrationRunState).setStep id fun _ =>
            { step with status := .running, attempts := step.attempts ++ [{ attempt, status := .running }] }),
          .ok [.emit (.stepStarted id attempt), .executeStep id attempt])
  | completed {id attempt output details step current result es} (hin : InFlight c s id attempt step current)
      (hrunning : step.status = .running) (hkind : (c.node id).any (·.kind.isOutput) = true)
      (hresult : result.status = .completed) (hes : Emits es) :
      Outcome c s (.stepSucceeded id attempt output details)
        (({ spend s details with finalOutput := some output, status := .completed } : OrchestrationRunState).setStep id
          fun _ => succeedStep step current output details, .ok (es ++ [.finish result]))
  | advanced {id attempt output details step next current edge es} (hin : InFlight c s id attempt step current)
      (hrunning : step.status = .running) (hkind : (c.node id).any (·.kind.isOutput) = false)
      (hedge : c.outgoingFor id .onSuccess = some edge) (hnext : s.steps.get? edge.target = some next)
      (hpending : next.status = .pending) (hes : Emits es) :
      Outcome c s (.stepSucceeded id attempt output details)
        (settle (((spend s details).setStep id fun _ => succeedStep step current output details).setStep edge.target
          fun _ => { next with status := .ready }), .ok es)
  | retried {id attempt error details node step current es} (hnode : c.node id = some node)
      (hin : InFlight c s id attempt step current)
      (hretry : retriesSame node.retry error attempt step.retryBase (budgetLeft c s details) = true) (hes : Emits es) :
      Outcome c s (.stepFailed id attempt error details)
        (settle ((spend s details).setStep id fun _ =>
          { failStep step current error details with
            status := .retryScheduled
            feedback := step.feedback ++ [error] }), .ok es)
  | sentBack {id target attempt error details node step current span revise es} (hnode : c.node id = some node)
      (hin : InFlight c s id attempt step current)
      (hretry : retriesSame node.retry error attempt step.retryBase (budgetLeft c s details) = false)
      (hback : SendsBack c s id attempt error details node target revise) (hlink : c.Link id target span)
      (hes : Emits es) :
      Outcome c s (.stepFailed id attempt error details)
        (settle { spend s details with
          steps := s.steps.mapEntries
            (sentBackStep id target span (failStep step current error details) error revise) }, .ok es)
  | rerouted {id attempt error details node step next current edge es} (hnode : c.node id = some node)
      (hin : InFlight c s id attempt step current)
      (hretry : retriesSame node.retry error attempt step.retryBase (budgetLeft c s details) = false)
      (hback : ∀ target revise, ¬ SendsBack c s id attempt error details node target revise)
      (hedge : c.outgoingFor id .onFailure = some edge) (hnext : s.steps.get? edge.target = some next)
      (hpending : next.status = .pending) (hes : Emits es) :
      Outcome c s (.stepFailed id attempt error details)
        (settle (((spend s details).setStep id fun _ => failStep step current error details).setStep edge.target
          fun _ => { next with status := .ready }), .ok es)
  | failed {id attempt error runError details node step current es} (hnode : c.node id = some node)
      (hin : InFlight c s id attempt step current)
      (hretry : retriesSame node.retry error attempt step.retryBase (budgetLeft c s details) = false)
      (hback : ∀ target revise, ¬ SendsBack c s id attempt error details node target revise)
      (hedge : c.outgoingFor id .onFailure = none) (hes : Emits es) :
      Outcome c s (.stepFailed id attempt error details)
        (failedRun (({ spend s details with failedStep := some id } : OrchestrationRunState).setStep id fun _ =>
            failStep step current error details) runError,
          .ok (es ++ failedEffects (({ spend s details with failedStep := some id } : OrchestrationRunState).setStep id
            fun _ => failStep step current error details) runError))
  | touched {command id attempt step step' current event} (hin : InFlight c s id attempt step current)
      (htouch : Touch command id attempt step step' event) :
      Outcome c s command (settle (s.setStep id fun _ => step'), .ok [.emit event])
  | checkpointed {id attempt value step current event} (hin : InFlight c s id attempt step current) :
      Outcome c s (.recordCheckpoint id attempt value)
        (s.setStep id fun _ => { step with checkpoint := some value }, .ok [.emit event])
  | woken {id step} (hstep : s.steps.get? id = some step) (hstatus : step.status = .retryScheduled) :
      Outcome c s (.retryStep id)
        (settle (s.setStep id fun _ => { step with status := .ready }), .ok [.emit (.stepReady id)])
  | paused (hpaused : s.paused = false) (hcreated : s.status ≠ .created) (hcancelling : s.status ≠ .cancelling) :
      Outcome c s .pause (settle { s with paused := true }, .ok [.emit .runPaused])
  | resumed (hpaused : s.paused = true) :
      Outcome c s .resume (settle { s with paused := false }, .ok [.emit .runResumed])
  | aborted {error es} (hes : Stops es) :
      Outcome c s (.abort error)
        (failedRun { s with steps := s.steps.mapEntries fun _ step => stopStep step } error,
          .ok (es ++ failedEffects { s with steps := s.steps.mapEntries fun _ step => stopStep step } error))
  /-- Cancelled with an attempt in flight: the run waits for it to wind down. -/
  | cancelling {es id step} (hcancelling : s.status ≠ .cancelling) (hstep : s.steps.get? id = some step)
      (hactive : step.status.isActive = true) (hes : Stops es) :
      Outcome c s .cancel
        ({ s with status := .cancelling, steps := s.steps.mapEntries fun _ step => closeStep step }, .ok es)
  | cancelled {result} (hcancelling : s.status ≠ .cancelling)
      (hnone : ∀ id step, s.steps.get? id = some step → step.status.isActive = false)
      (hresult : result.status = .cancelled) :
      Outcome c s .cancel
        ({ s with status := .cancelled, steps := s.steps.mapEntries fun _ step => closeStep step },
          .ok [.emit .runCancelled, .finish result])
  | cancellationCompleted {result} (hcancelling : s.status = .cancelling) (hresult : result.status = .cancelled) :
      Outcome c s .cancellationCompleted
        ({ s with status := .cancelled }, .ok [.emit .runCancelled, .finish result])
  | restoredCancelling {result} (hcancelling : s.status = .cancelling) (hresult : result.status = .cancelled) :
      Outcome c s .recover
        ({ s with status := .cancelled }, .ok [.emit .runRestored, .emit .runCancelled, .finish result])
  | restored (hcancelling : s.status ≠ .cancelling)
      (hnone : ∀ id step, s.steps.get? id = some step → step.status.isActive = false) :
      Outcome c s .recover (settle s, .ok [.emit .runRestored])
  | replayed {id attempt step current} (hcancelling : s.status ≠ .cancelling)
      (hin : InFlight c s id attempt step current) (hpure : isIndeterminate c id = false) :
      Outcome c s .recover
        (settle (s.setStep id fun _ => replayStep step current), .ok [.emit .runRestored, .emit (.stepReady id)])
  | interrupted {id attempt step current} (hcancelling : s.status ≠ .cancelling)
      (hin : InFlight c s id attempt step current) (hunknown : isIndeterminate c id = true) :
      Outcome c s .recover
        (failedRun (s.setStep id fun _ => failInterrupted (indeterminateError [id]) step current)
            (indeterminateError [id]),
          .ok (.emit .runRestored :: failedEffects
            (s.setStep id fun _ => failInterrupted (indeterminateError [id]) step current) (indeterminateError [id])))

end RustyCore
