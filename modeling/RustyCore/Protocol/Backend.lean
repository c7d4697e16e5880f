import RustyCore.Protocol.Tools

/-! Usage, cost and budget types. -/

namespace RustyCore

/-- A reported counter. `none` means unknown and is distinct from `some 0`. -/
abbrev UsageValue := Option Nat

/-- Adds reported contributions without treating an unknown value as zero; a sum that leaves `u64` is
    unknown too. -/
def UsageValue.checkedAdd (a b : UsageValue) : UsageValue :=
  match a, b with
  | some left, some right => if left + right ≤ maxU64 then some (left + right) else none
  | _, _ => none

structure ModelUsage where
  inputTokens : UsageValue := none
  outputTokens : UsageValue := none
  cacheReadTokens : UsageValue := none
  cacheWriteTokens : UsageValue := none
  reasoningTokens : UsageValue := none
  totalTokens : UsageValue := none

inductive CostSource where
  | providerReported
  | calculated
  | estimated

structure Cost where
  amountUsd : Option Rat := none
  source : Option CostSource := none

structure UsageRecord where
  modelUsage : ModelUsage
  cost : Cost
  toolUsage : Option ModelUsage

structure AgentBudget where
  maxInputTokens : Option Nat := none
  maxOutputTokens : Option Nat := none
  maxTotalTokens : Option Nat := none
  maxCostUsd : Option Rat := none
  maxRequests : Option Nat := none
  maxToolCalls : Option Nat := none
  maxChildren : Option Nat := none
  maxDepth : Option Nat := none

structure AgentUsageMetrics where
  totalRuns : Nat := 0
  totalRequests : Nat := 0
  totalToolCalls : Nat := 0
  totalTokens : UsageValue := none
  inputTokens : UsageValue := none
  outputTokens : UsageValue := none
  cacheReadTokens : UsageValue := none
  cacheWriteTokens : UsageValue := none
  reasoningTokens : UsageValue := none
  totalCost : Option Rat := none

/-- Separates direct, descendant and inclusive usage. The core keeps a copy of this type with the same
    fields; the model has the one. -/
structure AgentUsageSummary where
  selfUsage : AgentUsageMetrics := {}
  descendantUsage : AgentUsageMetrics := {}
  inclusiveUsage : AgentUsageMetrics := {}

structure AgentUsageSnapshot where
  agentId : String
  model : Option String
  metrics : AgentUsageMetrics
  timestamp : String

/-! Execution requests and the events a backend reports back. -/

structure BackendReference where
  integration : IntegrationId
  configuration : ConfigurationId
  model : Option ModelId

inductive ReasoningEffort where
  | minimal
  | low
  | medium
  | high
  | xhigh
  | max
  | ultra

inductive ResponseFormat where
  | text
  | jsonObject
  | jsonSchema (name : String) (schema : Value) (strict : Bool)

/-- Model selection and sampling/output parameters for one execution request. Unset fields mean "use the
    provider's own default". -/
structure ExecutionParams where
  model : Option String := none
  maxTokens : Option Nat := none
  temperature : Option Rat := none
  stopSequences : List String := []
  reasoningEffort : Option ReasoningEffort := none
  extendedThinking : Option Bool := none
  responseFormat : Option ResponseFormat := none
  providerOptions : Value := .null

/-- Applies `update` over `params`, keeping the value of any field `update` leaves unset. -/
def ExecutionParams.mergeOver (params update : ExecutionParams) : ExecutionParams where
  model := update.model.or params.model
  maxTokens := update.maxTokens.or params.maxTokens
  temperature := update.temperature.or params.temperature
  stopSequences := if update.stopSequences.isEmpty then params.stopSequences else update.stopSequences
  reasoningEffort := update.reasoningEffort.or params.reasoningEffort
  extendedThinking := update.extendedThinking.or params.extendedThinking
  responseFormat := update.responseFormat.or params.responseFormat
  providerOptions := if update.providerOptions.isNull then params.providerOptions else update.providerOptions

structure ExecutionRequest where
  requestId : RequestId
  runId : RunId
  systemPrompt : String
  messages : List AgentMessage
  tools : List ToolDescriptor
  extendedThinking : Bool
  params : ExecutionParams

structure ExecutionResult where
  requestId : RequestId
  usage : ModelUsage
  cost : Cost
  finishReason : String

inductive ExecutionError where
  | backendError (message code : String)
  | rateLimited (retryAfter : Option Nat)
  | invalidRequest (message : String)
  | cancelled
  | timeout
  | unsupportedCapability (capability detail : String)

inductive ExecutionEvent where
  | textDelta (requestId : RequestId) (delta : String)
  | reasoningDelta (requestId : RequestId) (delta : String)
  | toolCallRequested (requestId : RequestId) (call : ToolCall)
  | toolCallStarted (requestId : RequestId) (call : ToolCall)
  | toolCallCompleted (requestId : RequestId) (callId : ToolCallId) (result : ToolResultSummary)
  | usageUpdate (requestId : RequestId) (usage : ModelUsage)
  | completed (requestId : RequestId) (result : ExecutionResult)
  | error (requestId : RequestId) (error : ExecutionError)

def ExecutionEvent.requestId : ExecutionEvent → RequestId
  | .textDelta id _ | .reasoningDelta id _ | .toolCallRequested id _ | .toolCallStarted id _
  | .toolCallCompleted id _ _ | .usageUpdate id _ | .completed id _ | .error id _ => id

end RustyCore
