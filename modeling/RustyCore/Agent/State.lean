import RustyCore.Behavior.Rules

/-! The agent: its durable state, its usage ledger, and where its next ids and timestamps come from. -/

namespace RustyCore

structure PendingToolCall where
  call : ToolCall
  startedAt : Timestamp

structure WorkspaceCapabilities where
  canRead : Bool
  canWrite : Bool
  canSearch : Bool

structure AgentCapabilities where
  tools : AgentToolset
  canSpawnAgents : Bool
  maxChildDepth : Option Nat
  workspace : WorkspaceCapabilities

/-- `toolCalls` counts completed tool calls, `runs` completed runs; `records` has one entry for each
    backend request. -/
structure UsageLedger where
  records : List UsageRecord := []
  toolCalls : Nat := 0
  runs : Nat := 0
  childUsage : Table.Map AgentId AgentUsageSummary := ∅

section

variable [Externals]

structure AgentState where
  status : AgentStatus
  systemPrompt : String
  executionParams : ExecutionParams
  messages : List AgentMessage
  activeRun : Option RunId
  /-- Tools may finish while the backend is still emitting the current batch. Do not dispatch another
      inference until that backend turn has ended. -/
  backendInFlight : Bool
  queuedInputs : List UserInput
  pendingTools : Table.Map ToolCallId PendingToolCall
  /-- Exact correlation from a permission request to its pending tool call. -/
  pendingPermissions : Table.Map PermissionId ToolCallId
  children : List AgentId
  lastError : Option AgentError
  consecutiveToolTimeouts : Nat
  transitionSequence : Nat
  depth : Nat
  behavior : BehaviorState
  /-- A switch requested while a run is active (by a rule or the host), with the library it brings. -/
  pendingProfile : Option (CompiledProfile × ProfileRegistry)

structure Agent where
  id : AgentId
  sessionId : SessionId
  parentId : Option AgentId
  state : AgentState
  capabilities : AgentCapabilities
  usage : UsageLedger

namespace Agent

def new (id : AgentId) (sessionId : SessionId) (parentId : Option AgentId) (depth : Nat) (systemPrompt : String)
    (capabilities : AgentCapabilities) : Agent where
  id := id
  sessionId := sessionId
  parentId := parentId
  state := {
    status := .idle
    systemPrompt := systemPrompt
    executionParams := {}
    messages := []
    activeRun := none
    backendInFlight := false
    queuedInputs := []
    pendingTools := ∅
    pendingPermissions := ∅
    children := []
    lastError := none
    consecutiveToolTimeouts := 0
    transitionSequence := 0
    depth := depth
    behavior := BehaviorState.new defaultProfile
    pendingProfile := none }
  capabilities := capabilities
  usage := {}

/-- An agent as the runtime hands it out before its first command: `Agent.new`, with the behavior and the
    execution parameters the host or the parent's spawn chose. -/
def Fresh (a : Agent) : Prop :=
  ∃ id sessionId parentId depth systemPrompt capabilities profile library trusted params,
    a = { new id sessionId parentId depth systemPrompt capabilities with
      state := { (new id sessionId parentId depth systemPrompt capabilities).state with
        behavior := ((BehaviorState.new profile).withLibrary library).withCommandsTrusted trusted
        executionParams := params } }

section

variable (a : Agent)

def withStatus (status : AgentStatus) : Agent := { a with state.status := status }

def withMessages (messages : List AgentMessage) : Agent := { a with state.messages := messages }

def withActiveRun (activeRun : Option RunId) : Agent := { a with state.activeRun := activeRun }

def withInFlight (inFlight : Bool) : Agent := { a with state.backendInFlight := inFlight }

def withQueuedInputs (inputs : List UserInput) : Agent := { a with state.queuedInputs := inputs }

def withPendingTools (tools : Table.Map ToolCallId PendingToolCall) : Agent := { a with state.pendingTools := tools }

def withPendingPermissions (permissions : Table.Map PermissionId ToolCallId) : Agent :=
  { a with state.pendingPermissions := permissions }

def withChildren (children : List AgentId) : Agent := { a with state.children := children }

def withLastError (error : Option AgentError) : Agent := { a with state.lastError := error }

def withTimeouts (timeouts : Nat) : Agent := { a with state.consecutiveToolTimeouts := timeouts }

def withBehavior (behavior : BehaviorState) : Agent := { a with state.behavior := behavior }

def withRun (run : RunCounters) : Agent := a.withBehavior { a.state.behavior with run := run }

def withPendingProfile (profile : Option (CompiledProfile × ProfileRegistry)) : Agent :=
  { a with state.pendingProfile := profile }

def withUsage (usage : UsageLedger) : Agent := { a with usage := usage }

end

def takeSequence (a : Agent) : Agent × Nat :=
  ({ a with state.transitionSequence := saturatingAdd a.state.transitionSequence 1 }, a.state.transitionSequence)

def nextRunId (a : Agent) : Agent × RunId := let (a', n) := a.takeSequence; (a', .derived a.id.uuid n 1)

def nextRequestId (a : Agent) : Agent × RequestId := let (a', n) := a.takeSequence; (a', .derived a.id.uuid n 2)

def nextMessageId (a : Agent) : Agent × MessageId := let (a', n) := a.takeSequence; (a', .derived a.id.uuid n 3)

def nextPermissionId (a : Agent) : Agent × PermissionId :=
  let (a', n) := a.takeSequence
  (a', .derived a.id.uuid n 4)

def nextTimestamp (a : Agent) : Agent × Timestamp := let (a', n) := a.takeSequence; (a', .fromSequence n)

/-- Go on with `next` from the agent an operation left, and put its effects after those already there
    (`effects.extend(..)`). -/
def andThen (r : Agent × List AgentEffect) (next : Agent → Agent × List AgentEffect) : Agent × List AgentEffect :=
  ((next r.1).1, r.2 ++ (next r.1).2)

def stateChanged (from_ to_ : AgentStatus) : AgentEffect := .emit (.stateChanged from_ to_)

end Agent

namespace UsageLedger

def checkedAddCost (left right : Option Rat) : Option Rat :=
  match left, right with
  | some left, some right => some (left + right)
  | _, _ => none

def addMetrics (left right : AgentUsageMetrics) : AgentUsageMetrics where
  totalRuns := saturatingAdd left.totalRuns right.totalRuns
  totalRequests := saturatingAdd left.totalRequests right.totalRequests
  totalToolCalls := saturatingAdd left.totalToolCalls right.totalToolCalls
  totalTokens := UsageValue.checkedAdd left.totalTokens right.totalTokens
  inputTokens := UsageValue.checkedAdd left.inputTokens right.inputTokens
  outputTokens := UsageValue.checkedAdd left.outputTokens right.outputTokens
  cacheReadTokens := UsageValue.checkedAdd left.cacheReadTokens right.cacheReadTokens
  cacheWriteTokens := UsageValue.checkedAdd left.cacheWriteTokens right.cacheWriteTokens
  reasoningTokens := UsageValue.checkedAdd left.reasoningTokens right.reasoningTokens
  totalCost := checkedAddCost left.totalCost right.totalCost

def aggregateMetrics : List AgentUsageMetrics → AgentUsageMetrics
  | [] => {}
  | first :: rest => rest.foldl addMetrics first

def addModelUsage (total usage : ModelUsage) : ModelUsage where
  inputTokens := UsageValue.checkedAdd total.inputTokens usage.inputTokens
  outputTokens := UsageValue.checkedAdd total.outputTokens usage.outputTokens
  cacheReadTokens := UsageValue.checkedAdd total.cacheReadTokens usage.cacheReadTokens
  cacheWriteTokens := UsageValue.checkedAdd total.cacheWriteTokens usage.cacheWriteTokens
  reasoningTokens := UsageValue.checkedAdd total.reasoningTokens usage.reasoningTokens
  totalTokens := UsageValue.checkedAdd total.totalTokens usage.totalTokens

def aggregateModelUsage : List ModelUsage → ModelUsage
  | [] => {}
  | first :: rest => rest.foldl addModelUsage first

def totalCost : List (Option Rat) → Option Rat
  | [] => none
  | first :: rest => rest.foldl checkedAddCost first

def selfMetrics (ledger : UsageLedger) : AgentUsageMetrics :=
  let aggregated := aggregateModelUsage (ledger.records.map (·.modelUsage))
  { totalRuns := ledger.runs
    totalRequests := ledger.records.length
    totalToolCalls := ledger.toolCalls
    totalTokens := aggregated.totalTokens
    inputTokens := aggregated.inputTokens
    outputTokens := aggregated.outputTokens
    cacheReadTokens := aggregated.cacheReadTokens
    cacheWriteTokens := aggregated.cacheWriteTokens
    reasoningTokens := aggregated.reasoningTokens
    totalCost := totalCost (ledger.records.map (·.cost.amountUsd)) }

/-- Combines this agent's own usage with its children's inclusive usage, with no double counting. An empty
    side of the sum means "just use the other side". -/
def computeAgentUsageSummary (selfMetrics : AgentUsageMetrics) (children : List AgentUsageSummary) :
    AgentUsageSummary :=
  let descendants := aggregateMetrics (children.map (·.inclusiveUsage))
  { selfUsage := selfMetrics
    descendantUsage := descendants
    inclusiveUsage :=
      if children.isEmpty then selfMetrics
      else if selfMetrics.totalRequests = 0 then descendants
      else addMetrics selfMetrics descendants }

end UsageLedger

def Agent.terminalUsageSummary (a : Agent) : AgentUsageSummary :=
  UsageLedger.computeAgentUsageSummary a.usage.selfMetrics (Table.values a.usage.childUsage)

end

end RustyCore
