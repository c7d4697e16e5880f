import RustyCore.Workflow.Compiler

/-! The state of a workflow run and of each of its steps, what goes into the reducer (commands) and what comes
    out of it (effects and events). -/

namespace RustyCore

inductive OrchestrationStatus where
  | created
  | ready
  | running
  | waitingForPermission
  | waitingForInput
  | paused
  | cancelling
  | completed
  | failed
  | cancelled
deriving DecidableEq

def OrchestrationStatus.isTerminal : OrchestrationStatus → Bool
  | .completed | .failed | .cancelled => true
  | _ => false

def OrchestrationStatus.debug : OrchestrationStatus → String
  | .created => "Created"
  | .ready => "Ready"
  | .running => "Running"
  | .waitingForPermission => "WaitingForPermission"
  | .waitingForInput => "WaitingForInput"
  | .paused => "Paused"
  | .cancelling => "Cancelling"
  | .completed => "Completed"
  | .failed => "Failed"
  | .cancelled => "Cancelled"

inductive StepStatus where
  | pending
  | ready
  | running
  | waitingForPermission
  | waitingForInput
  | retryScheduled
  | succeeded
  | failed
  | skipped
  | cancelled
deriving DecidableEq

def StepStatus.isActive : StepStatus → Bool
  | .running | .waitingForPermission | .waitingForInput => true
  | _ => false

def StepStatus.debug : StepStatus → String
  | .pending => "Pending"
  | .ready => "Ready"
  | .running => "Running"
  | .waitingForPermission => "WaitingForPermission"
  | .waitingForInput => "WaitingForInput"
  | .retryScheduled => "RetryScheduled"
  | .succeeded => "Succeeded"
  | .failed => "Failed"
  | .skipped => "Skipped"
  | .cancelled => "Cancelled"

inductive AttemptStatus where
  | running
  | succeeded
  | failed
  | cancelled
deriving DecidableEq

structure OrchestrationError where
  code : String
  message : String
  retryReason : Option RetryReason := none
deriving DecidableEq

namespace ErrorCodes

def budgetExhausted : String := "BUDGET_EXHAUSTED"

def indeterminateAttempt : String := "INDETERMINATE_ATTEMPT"

def missingTransition : String := "MISSING_TRANSITION"

end ErrorCodes

structure TransitionError where
  code : String
  message : String
deriving DecidableEq

/-- Resource consumption. Tokens and costs sum only known values; the flags record that some were missing. -/
structure UsageSummary where
  modelRequests : Nat := 0
  toolCalls : Nat := 0
  tokens : Nat := 0
  tokensUnknown : Bool := false
  costUsd : Rat := 0
  costUnknown : Bool := false
deriving DecidableEq

/-- A counter that leaves `u64` wraps; with overflow checks it panics. -/
def UsageSummary.add [WorkflowExternals] (a b : UsageSummary) : UsageSummary where
  modelRequests := (a.modelRequests + b.modelRequests) % 2 ^ 64
  toolCalls := (a.toolCalls + b.toolCalls) % 2 ^ 64
  tokens := (a.tokens + b.tokens) % 2 ^ 64
  tokensUnknown := a.tokensUnknown || b.tokensUnknown
  costUsd := WorkflowExternals.addFloat a.costUsd b.costUsd
  costUnknown := a.costUnknown || b.costUnknown

structure CommandRun where
  command : String
  failed : Bool

structure StepActions where
  filesChanged : List String := []
  filesRead : List String := []
  commands : List CommandRun := []
  research : List String := []
  locations : List String := []
  toolErrors : Nat := 0

structure DelegatedRunRef where
  sessionId : Option String
  agentId : Option String
  agentRunId : Option String

structure Evidence where
  check : String
  passed : Bool
  detail : String

structure AttemptDetails where
  startedAtMs : Option Nat := none
  endedAtMs : Option Nat := none
  input : Option Value := none
  delegated : Option DelegatedRunRef := none
  tools : Option (List String) := none
  usage : UsageSummary := {}
  evidence : List Evidence := []
  actions : StepActions := {}

structure StepAttempt where
  attempt : Nat
  status : AttemptStatus
  output : Option Value := none
  error : Option OrchestrationError := none
  details : AttemptDetails := {}

structure InputDecision where
  id : String
  label : String
  requiresText : Bool := false

structure InputRequest where
  id : String
  kind : String
  prompt : String
  subject : Value := .null
  decisions : List InputDecision

inductive Responder where
  | user
  | auto
deriving DecidableEq

structure InputResponse where
  decision : String
  text : Option String := none
  answeredBy : Responder := .user

structure StepRun where
  checkpoint : Option Value := none
  status : StepStatus := .pending
  attempts : List StepAttempt := []
  output : Option Value := none
  error : Option OrchestrationError := none
  feedback : List OrchestrationError := []
  pendingPermissions : List String := []
  pendingInput : Option InputRequest := none
  retryBase : Nat := 0

structure RunOptions where
  autoApprove : Bool := false

structure OrchestrationRunState where
  runId : OrchestrationRunId
  definitionId : OrchestrationDefinitionId
  definitionRevision : Nat
  definitionHash : String
  status : OrchestrationStatus := .created
  paused : Bool := false
  input : Option Value := none
  steps : OrdMap OrchestrationNodeId StepRun
  finalOutput : Option Value := none
  error : Option OrchestrationError := none
  failedStep : Option OrchestrationNodeId := none
  totalAttempts : Nat := 0
  usage : UsageSummary := {}
  options : RunOptions := {}

namespace OrchestrationRunState

def new (runId : OrchestrationRunId) (c : CompiledOrchestration) : OrchestrationRunState where
  runId := runId
  definitionId := c.definitionId
  definitionRevision := c.revision
  definitionHash := c.contentHash
  steps := c.nodes.mapEntries fun _ _ => {}

def activeStep (s : OrchestrationRunState) : Option (OrchestrationNodeId × StepRun) :=
  s.steps.entries.find? (·.2.status.isActive)

def setStep (s : OrchestrationRunState) (id : OrchestrationNodeId) (f : StepRun → StepRun) : OrchestrationRunState :=
  { s with steps := s.steps.modify id f }

end OrchestrationRunState

inductive OrchestrationCommand where
  | recordCheckpoint (nodeId : OrchestrationNodeId) (attempt : Nat) (value : Value)
  | start (input : Value)
  | stepAdmitted (nodeId : OrchestrationNodeId) (attempt : Nat)
  | stepSucceeded (nodeId : OrchestrationNodeId) (attempt : Nat) (output : Value) (details : AttemptDetails)
  | stepFailed (nodeId : OrchestrationNodeId) (attempt : Nat) (error : OrchestrationError) (details : AttemptDetails)
  | permissionRequired (nodeId : OrchestrationNodeId) (attempt : Nat) (permissionId : String)
  | permissionResolved (nodeId : OrchestrationNodeId) (attempt : Nat) (permissionId : String) (approved : Bool)
  | inputRequired (nodeId : OrchestrationNodeId) (attempt : Nat) (request : InputRequest)
  | inputResolved (nodeId : OrchestrationNodeId) (attempt : Nat) (requestId : String) (response : InputResponse)
  | retryStep (nodeId : OrchestrationNodeId)
  | pause
  | resume
  | abort (error : OrchestrationError)
  | cancel
  | cancellationCompleted
  | recover

inductive OrchestrationOutcome where
  | completed
  | failed
  | cancelled
deriving DecidableEq

structure OrchestrationResult where
  runId : OrchestrationRunId
  definitionId : OrchestrationDefinitionId
  revision : Nat
  status : OrchestrationOutcome
  output : Option Value
  usage : UsageSummary
  error : Option OrchestrationError

def OrchestrationResult.fromState (s : OrchestrationRunState) (status : OrchestrationOutcome) : OrchestrationResult where
  runId := s.runId
  definitionId := s.definitionId
  revision := s.definitionRevision
  status := status
  output := s.finalOutput
  usage := s.usage
  error := s.error

inductive OrchestrationEvent where
  | taskProgress (nodeId : OrchestrationNodeId) (attempt completed total : Nat)
  | runStarted
  | runRestored
  | runPaused
  | runResumed
  | stepReady (nodeId : OrchestrationNodeId)
  | stepStarted (nodeId : OrchestrationNodeId) (attempt : Nat)
  | stepSucceeded (nodeId : OrchestrationNodeId) (attempt : Nat)
  | stepFailed (nodeId : OrchestrationNodeId) (attempt : Nat) (error : OrchestrationError)
  | stepRetryScheduled (nodeId : OrchestrationNodeId) (nextAttempt : Nat) (triggeredBy : OrchestrationNodeId)
  | transitionSelected (source target : OrchestrationNodeId) (condition : EdgeCondition)
  | permissionRequested (nodeId : OrchestrationNodeId) (attempt : Nat) (permissionId : String)
  | permissionResolved (nodeId : OrchestrationNodeId) (attempt : Nat) (permissionId : String) (approved : Bool)
  | inputRequested (nodeId : OrchestrationNodeId) (attempt : Nat) (request : InputRequest)
  | inputResolved (nodeId : OrchestrationNodeId) (attempt : Nat) (requestId : String) (response : InputResponse)
  | budgetUpdated (usage : UsageSummary)
  | runCompleted
  | runFailed (error : OrchestrationError)
  | runCancelled

inductive OrchestrationEffect where
  | executeStep (nodeId : OrchestrationNodeId) (attempt : Nat)
  | cancelStep (nodeId : OrchestrationNodeId) (attempt : Nat)
  | emit (event : OrchestrationEvent)
  | finish (result : OrchestrationResult)

namespace OrchestrationRunState

variable {s : OrchestrationRunState} {id k : OrchestrationNodeId} {f : StepRun → StepRun}

@[simp] theorem keys_setStep : (s.setStep id f).steps.keys = s.steps.keys := OrdMap.keys_modify

theorem step_setStep : (s.setStep id f).steps.get? k = if k = id then (s.steps.get? k).map f else s.steps.get? k :=
  OrdMap.get?_modify

theorem step_setStep_self {step : StepRun} (h : s.steps.get? id = some step) :
    (s.setStep id f).steps.get? id = some (f step) := by
  rw [step_setStep, if_pos rfl, h, Option.map_some]

theorem step_setStep_ne (h : k ≠ id) : (s.setStep id f).steps.get? k = s.steps.get? k := by
  rw [step_setStep, if_neg h]

end OrchestrationRunState

end RustyCore
