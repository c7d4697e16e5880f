import RustyCore.Protocol.Backend

/-! The commands that drive an agent, the events it emits and the effects it asks the runtime for. -/

namespace RustyCore

structure Attachment where
  mimeType : String
  data : List UInt8

structure UserInput where
  text : String
  attachments : List Attachment

/-- The outcome of a completed agent run. `gatePassed` is `none` when the profile has no gate, and
    `some false` when the run finished (accepted) with checks still failing. -/
structure AgentResult where
  summary : String
  usage : AgentUsageSummary
  gatePassed : Option Bool

inductive PermissionDecision where
  | approved
  | denied
deriving DecidableEq

structure AgentError where
  message : String
  code : String
  details : Option Value

inductive AgentStatus where
  | idle
  | preparingContext
  | waitingForBackend
  | streaming
  | executing
  | waitingForPermission
  | waitingForChildren
  | verifying
  | paused
  | completed
  | cancelled
  | failed
deriving DecidableEq

inductive BackendPolicy where
  | inherit
  | explicit (reference : BackendReference)

inductive ToolInheritance where
  | inheritAll
  | subset (ids : List ToolId)
  | replace (toolset : AgentToolset)

inductive WorkspacePolicy where
  | inherit
  | readOnly
  | snapshot
  | newWorktree
deriving DecidableEq

inductive SpawnMode where
  | awaitResult
  | concurrent
deriving DecidableEq

structure SpawnAgentSpec where
  role : Option String
  backend : BackendPolicy
  tools : ToolInheritance
  workspace : WorkspacePolicy
  budget : AgentBudget
  mode : SpawnMode
  task : Option String
  executionParams : ExecutionParams
  originToolCallId : Option ToolCallId

inductive VerdictOutcome where
  | pass
  | fail (feedback : String)
  | error (message : String)
deriving DecidableEq

structure CheckVerdict where
  id : String
  outcome : VerdictOutcome

inductive AgentCommand where
  | startRun (input : UserInput)
  | steer (input : UserInput)
  | followUp (input : UserInput)
  | startNextQueuedRun
  | backendEvent (runId : RunId) (event : ExecutionEvent)
  | toolCompleted (callId : ToolCallId) (result : ToolResult)
  | toolFailed (callId : ToolCallId) (error : ToolError)
  | permissionResolved (id : PermissionId) (decision : PermissionDecision)
  | spawnChild (spec : SpawnAgentSpec)
  | childSpawned (agentId : AgentId) (awaiting : Bool)
  | childCompleted (agentId : AgentId) (result : AgentResult)
  | childFailed (agentId : AgentId) (error : AgentError)
  | cancel
  | pause
  | resume
  | configureExecution (params : ExecutionParams)
  | setBehaviorProfile (profile : Value) (library : List Value) (allowCommands : Bool)
  | completionEvaluated (runId : RunId) (attempt : Nat) (verdicts : List CheckVerdict) (usage : List UsageRecord)

inductive AgentOutcome where
  | success
  | cancelled
  | failed
deriving DecidableEq

structure PermissionRequest where
  id : PermissionId
  toolCall : ToolCall
  agentId : AgentId

structure ToolProgress where
  status : String
  fraction : Rat

inductive AgentEvent where
  | modelRequestPrepared (request : ExecutionRequest)
  | stateChanged (from_ to_ : AgentStatus)
  | runStarted (runId : RunId)
  | backendRequestStarted (requestId : RequestId)
  | assistantMessageStarted (messageId : MessageId)
  | assistantTextDelta (messageId : MessageId) (delta : String)
  | reasoningDelta (messageId : MessageId) (delta : String)
  | assistantMessageCompleted (messageId : MessageId)
  | toolCallRequested (call : ToolCall)
  | toolCallStarted (callId : ToolCallId)
  | toolCallProgress (callId : ToolCallId) (progress : ToolProgress)
  | toolCallCompleted (callId : ToolCallId) (result : ToolResultSummary)
  | permissionRequested (request : PermissionRequest)
  | promptPrefixChanged (runId : RunId) (requestId : RequestId) (changed : List String)
  | usageUpdated (usage : AgentUsageSnapshot)
  | childAgentSpawned (agentId : AgentId) (toolCallId : Option ToolCallId)
  | childAgentCompleted (agentId : AgentId) (outcome : AgentOutcome)
  | failed (error : AgentError)
  | completed (outcome : AgentOutcome)
  | behaviorRuleFired (profile ruleId event action : String)
  | contextInjected (source placement : String) (chars : Nat)
  | toolCallDenied (callId : ToolCallId) (ruleId : Option String) (reason : String)
  | completionGateEvaluated (attempt : Nat) (passed continuing : Bool) (failedChecks : List String)
  | profileChanged (from_ to_ : String)

inductive EventVisibility where
  | user
  | developer
  | internal
deriving DecidableEq

/-- A fully qualified event emitted by an agent: routing metadata, time and the two ordering counters
    around the payload. -/
structure AgentEventEnvelope where
  eventId : EventId
  sessionId : SessionId
  agentId : AgentId
  parentAgentId : Option AgentId
  runId : Option RunId
  agentSequence : Nat
  sessionSequence : Option Nat
  timestamp : Timestamp
  visibility : EventVisibility
  event : AgentEvent

structure ToolRequest where
  call : ToolCall
  permission : PermissionMode

structure CompletionCheckSpec where
  id : String
  evaluator : Value

structure CompletionEvaluationRequest where
  runId : RunId
  attempt : Nat
  checks : List CompletionCheckSpec
  finalResponse : String
  transcript : List AgentMessage

inductive SessionMutation where
  | appendEvent (envelope : AgentEventEnvelope)
  | saveSnapshot (payload : Value)

inductive AgentEffect where
  | executeBackend (request : ExecutionRequest)
  | executeTool (request : ToolRequest)
  | spawnAgent (spec : SpawnAgentSpec)
  | requestPermission (request : PermissionRequest)
  | cancelBackend (runId : RunId)
  | cancelTool (callId : ToolCallId)
  | cancelChild (agentId : AgentId)
  | persist (mutation : SessionMutation)
  | emit (event : AgentEvent)
  | finishRun (result : AgentResult)
  | evaluateCompletion (request : CompletionEvaluationRequest)
  | cancelEvaluation (runId : RunId)

end RustyCore
