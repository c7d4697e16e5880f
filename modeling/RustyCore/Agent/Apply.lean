import RustyCore.Agent.Completion
import RustyCore.Lib.Machine

/-! The reducer: starting runs, the backend's events, control commands and children, and the table that
    turns one command into its effects. -/

namespace RustyCore

def maxAttachmentBytes : Nat := 10 * 1024 * 1024

def validateAttachments : Nat → List Attachment → Except String Unit
  | _, [] => .ok ()
  | index, attachment :: rest =>
    if attachment.data.length > maxAttachmentBytes then
      .error ("attachment " ++ toString index ++ " (" ++ toString attachment.data.length ++ " bytes, " ++
        attachment.mimeType ++ ") exceeds the " ++ toString maxAttachmentBytes ++ "-byte limit")
    else validateAttachments (index + 1) rest

def attachmentToContentBlock (attachment : Attachment) : ContentBlock :=
  if Text.startsWith attachment.mimeType "image/" then .image attachment.mimeType attachment.data
  else .text ("[attachment: " ++ toString attachment.data.length ++ " bytes, " ++ attachment.mimeType ++
    " — non-image attachments are not yet forwarded as model input]")

section

variable [Externals]

def ExecutionError.debug : ExecutionError → String
  | .backendError message code =>
    "BackendError \x7b message: " ++ Externals.escapeDebug message ++ ", code: " ++ Externals.escapeDebug code ++ " \x7d"
  | .rateLimited (some retryAfter) => "RateLimited \x7b retry_after: Some(" ++ toString retryAfter ++ ") \x7d"
  | .rateLimited none => "RateLimited \x7b retry_after: None \x7d"
  | .invalidRequest message => "InvalidRequest \x7b message: " ++ Externals.escapeDebug message ++ " \x7d"
  | .cancelled => "Cancelled"
  | .timeout => "Timeout"
  | .unsupportedCapability capability detail =>
    "UnsupportedCapability \x7b capability: " ++ Externals.escapeDebug capability ++ ", detail: " ++
      Externals.escapeDebug detail ++ " \x7d"

namespace Agent

def userContent (input : UserInput) : List ContentBlock :=
  .text input.text :: input.attachments.map attachmentToContentBlock

/-- Open a run: a new run id, the user's message, and the status that says context is being prepared. -/
def openRun (a : Agent) (input : UserInput) : Agent × RunId :=
  let (a, runId) := (a.withBehavior a.state.behavior.resetRun).nextRunId
  let (a, _) := a.pushMessage .user (userContent input)
  ((a.withStatus .preparingContext).withActiveRun (some runId), runId)

/-- The part of `start_run` after the checks and the pending switch. -/
def beginRun (a : Agent) (input : UserInput) : Agent × List AgentEffect :=
  let from_ := a.state.status
  let (a, runId) := a.openRun input
  let (a, effects, outcome) := a.runRules .runStart none none
  match outcome.stop with
  | some stop => andThen (a, effects) fun a => a.behaviorStop stop
  | none =>
    match a.beginTurn with
    | (a, .error failure) => (a, effects ++ failure)
    | (a, .ok turnEffects) =>
      let (a, request) := a.executionRequest runId
      (a, effects ++ turnEffects ++
        [stateChanged from_ .preparingContext, .executeBackend request, .emit (.runStarted runId)])

def startRun (a : Agent) (input : UserInput) : Agent × List AgentEffect :=
  match validateTranscript a.state.messages with
  | .error error => a.fail "INVALID_TRANSCRIPT" error.display
  | .ok () =>
    match validateAttachments 0 input.attachments with
    | .error error => a.fail "ATTACHMENT_TOO_LARGE" error
    | .ok () => andThen a.takePendingSwitch fun a => a.beginRun input

def startOrQueue (a : Agent) (input : UserInput) : Agent × List AgentEffect :=
  if a.state.activeRun.isSome then (a.withQueuedInputs (a.state.queuedInputs ++ [input]), [])
  else a.startRun input

def startNextQueuedRun (a : Agent) : Agent × List AgentEffect :=
  match a.state.queuedInputs with
  | [] => (a, [])
  | input :: rest => (a.withQueuedInputs rest).startRun input

def changedTo (from_ to_ : AgentStatus) : List AgentEffect := if from_ ≠ to_ then [stateChanged from_ to_] else []

def textDelta (a : Agent) (delta : String) : Agent × List AgentEffect :=
  let from_ := a.state.status
  let (a, messageId) := (a.withStatus .streaming).appendAssistantText delta
  (a, changedTo from_ .streaming ++ [.emit (.assistantTextDelta messageId delta)])

def reasoningDelta (a : Agent) (delta : String) : Agent × List AgentEffect :=
  let (a, messageId) := a.assistantMessageId
  (a, [.emit (.reasoningDelta messageId delta)])

def backendToolStarted (a : Agent) (call : ToolCall) : Agent × List AgentEffect :=
  let from_ := a.state.status
  let (a, _) := (a.withStatus .executing).pushToolUse call
  (a, changedTo from_ .executing ++ [.emit (.toolCallRequested call), .emit (.toolCallStarted call.id)])

def backendToolCompleted (a : Agent) (callId : ToolCallId) (result : ToolResultSummary) : Agent × List AgentEffect :=
  let from_ := a.state.status
  let a := (a.withStatus .streaming).withUsage { a.usage with toolCalls := saturatingAdd a.usage.toolCalls 1 }
  let (a, _) := a.pushMessage .tool [.toolResult callId result]
  (a, changedTo from_ .streaming ++ [.emit (.toolCallCompleted callId result)])

def usageUpdate (a : Agent) (usage : ModelUsage) : Agent × List AgentEffect :=
  let (a, timestamp) := a.nextTimestamp
  (a, [.emit (.usageUpdated {
    agentId := a.id.display
    model := a.state.executionParams.model
    metrics := {
      totalRuns := a.usage.runs
      totalRequests := a.usage.records.length
      totalToolCalls := a.usage.toolCalls
      totalTokens := usage.totalTokens
      inputTokens := usage.inputTokens
      outputTokens := usage.outputTokens
      cacheReadTokens := usage.cacheReadTokens
      cacheWriteTokens := usage.cacheWriteTokens
      reasoningTokens := usage.reasoningTokens
      totalCost := none }
    timestamp := Externals.toRfc3339 timestamp })])

def outputLimitReasons : List String := ["max_tokens", "length", "max_output_tokens"]

def completed (a : Agent) (runId : RunId) (result : ExecutionResult) : Agent × List AgentEffect :=
  let a := (a.withInFlight false).discardTrailingEmptyAssistantMessage
  let record : UsageRecord := ⟨result.usage, result.cost, none⟩
  let a := a.withUsage { a.usage with records := a.usage.records ++ [record] }
  if outputLimitReasons.contains result.finishReason then
    a.fail "OUTPUT_LIMIT_REACHED" ("The model stopped at its output token limit (" ++ result.finishReason ++
      "); the response is incomplete.")
  else if result.finishReason = "tool_use" then a.continueAfterTools
  else a.proposeCompletion runId ("Run completed: " ++ result.finishReason)

def handleBackendEvent (a : Agent) (runId : RunId) : ExecutionEvent → Agent × List AgentEffect
  | .textDelta _ delta => a.textDelta delta
  | .reasoningDelta _ delta => a.reasoningDelta delta
  | .toolCallRequested _ call => a.toolRequested call
  | .toolCallStarted _ call => a.backendToolStarted call
  | .toolCallCompleted _ callId result => a.backendToolCompleted callId result
  | .usageUpdate _ usage => a.usageUpdate usage
  | .completed _ result => a.completed runId result
  | .error _ error => a.fail "BACKEND_ERROR" error.debug

def backendEvent (a : Agent) (runId : RunId) (event : ExecutionEvent) : Agent × List AgentEffect :=
  if a.state.activeRun ≠ some runId then (a, []) else a.handleBackendEvent runId event

def nothingToCancel (a : Agent) : Bool :=
  (a.state.status == .idle || a.state.status == .cancelled || a.state.status == .failed) && a.state.activeRun.isNone

def cancel (a : Agent) : Agent × List AgentEffect :=
  let from_ := a.state.status
  if a.nothingToCancel then (a, [])
  else
    let backend : List AgentEffect := match a.state.activeRun with
      | some runId => .cancelBackend runId :: if from_ = .verifying then [.cancelEvaluation runId] else []
      | none => []
    let calls := (Id.sort a.state.pendingTools.keys).map AgentEffect.cancelTool
    let children := (Id.sort a.state.children).map AgentEffect.cancelChild
    ({ a with
      state.status := .cancelled
      state.activeRun := none
      state.backendInFlight := false
      state.pendingTools := ∅
      state.pendingPermissions := ∅
      state.children := [] },
      backend ++ calls ++ children ++ [stateChanged from_ .cancelled, .emit (.completed .cancelled)])

def pause (a : Agent) : Agent × List AgentEffect :=
  match a.state.status with
  | .paused | .cancelled | .failed | .verifying => (a, [])
  | from_ => (a.withStatus .paused, [stateChanged from_ .paused])

def resume (a : Agent) : Agent × List AgentEffect :=
  if a.state.status ≠ .paused then (a, [])
  else
    match a.state.activeRun with
    | some runId =>
      let (a, request) := (a.withStatus .waitingForBackend).buildRequest runId true
      (a, [stateChanged .paused .waitingForBackend, .executeBackend request])
    | none => (a.withStatus .idle, [stateChanged .paused .idle])

def childDone (a : Agent) (agentId : AgentId) (outcome : AgentOutcome) : Agent × List AgentEffect :=
  let a := a.withChildren (a.state.children.filter (· != agentId))
  let done : AgentEffect := .emit (.childAgentCompleted agentId outcome)
  if a.state.children.isEmpty ∧ a.state.status = .waitingForChildren then
    (a.withStatus .idle, [done, .emit (.stateChanged .waitingForChildren .idle)])
  else (a, [done])

def childCompleted (a : Agent) (agentId : AgentId) (result : AgentResult) : Agent × List AgentEffect :=
  (a.withUsage { a.usage with childUsage := a.usage.childUsage.insert agentId result.usage }).childDone agentId .success

def childFailed (a : Agent) (agentId : AgentId) (error : AgentError) : Agent × List AgentEffect :=
  (a.withLastError (some error)).childDone agentId .failed

def childSpawned (a : Agent) (agentId : AgentId) (awaiting : Bool) : Agent × List AgentEffect :=
  let a := if a.state.children.contains agentId then a
    else a.withChildren (a.state.children ++ [agentId])
  if !awaiting || a.state.status = .waitingForChildren then (a, [])
  else (a.withStatus .waitingForChildren, [stateChanged a.state.status .waitingForChildren])

def apply (a : Agent) : AgentCommand → Agent × List AgentEffect
  | .startRun input | .steer input | .followUp input => a.startOrQueue input
  | .startNextQueuedRun => a.startNextQueuedRun
  | .backendEvent runId event => a.backendEvent runId event
  | .toolCompleted callId result => a.toolCompleted callId result
  | .toolFailed callId error => a.toolFailed callId error
  | .permissionResolved id decision => a.permissionResolved id decision
  | .spawnChild spec => (a, [.spawnAgent spec])
  | .childSpawned agentId awaiting => a.childSpawned agentId awaiting
  | .childCompleted agentId result => a.childCompleted agentId result
  | .childFailed agentId error => a.childFailed agentId error
  | .cancel => a.cancel
  | .pause => a.pause
  | .resume => a.resume
  | .configureExecution params => a.configureExecution params
  | .setBehaviorProfile profile library allowCommands => a.setBehaviorProfile profile library allowCommands
  | .completionEvaluated runId attempt verdicts usage => a.completionEvaluated runId attempt verdicts usage

def machine : Machine Agent AgentCommand AgentEffect := ⟨apply⟩

abbrev Step := Machine.Step Agent AgentCommand AgentEffect

def Reachable : Agent → Prop := machine.Reachable Fresh

end Agent

end

end RustyCore
