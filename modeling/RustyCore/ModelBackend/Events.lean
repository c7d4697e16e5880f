import RustyCore.Protocol.Backend

/-! What a model client is asked and what it answers: requests, streamed events, results and errors, and how the
    execution protocol sees them. Spans of time are counted in nanoseconds. -/

namespace RustyCore.ModelBackend

def fromMillis (millis : Nat) : Nat := millis * 1000000

def fromSecs (secs : Nat) : Nat := secs * 1000000000

def asMillis (duration : Nat) : Nat := duration / 1000000

inductive ModelError where
  | backendError (message code : String)
  | rateLimited (retryAfter : Option Nat)
  | invalidRequest (message : String)
  | cancelled
  | timeout
  | circuitOpen (retryAfter : Nat)
  | protocol (message : String)
  | streamInterrupted (message : String)
  | unsupportedCapability (capability detail : String)
deriving DecidableEq

/-- `str::parse::<u16>`: decimal digits with an optional plus sign before them. -/
def parseU16 (code : String) : Option Nat :=
  let digits := match code.toList with
    | '+' :: rest => rest
    | chars => chars
  if digits.isEmpty || !digits.all Char.isDigit then none
  else
    let value := digits.foldl (fun n c => 10 * n + (c.toNat - '0'.toNat)) 0
    if value < 2 ^ 16 then some value else none

def ModelError.isRetryable : ModelError → Bool
  | .rateLimited _ | .timeout | .streamInterrupted _ => true
  | .backendError _ code =>
    code == "request_failed" || code == "408" ||
      -- transient failures reported in-stream
      ["server_is_overloaded", "service_unavailable_error", "server_error", "internal_server_error",
        "slow_down"].contains code ||
      (parseU16 code).any fun status => 500 ≤ status && status < 600
  | .invalidRequest _ | .cancelled | .circuitOpen _ | .protocol _ | .unsupportedCapability _ _ => false

def ModelError.retryAfter : ModelError → Option Nat
  | .rateLimited retryAfter => retryAfter
  | _ => none

structure ModelResult where
  stopReason : String
  usage : ModelUsage
  cost : Cost

inductive ModelEvent where
  | textDelta (delta : String)
  | reasoningDelta (delta : String)
  | toolCallStarted (id : ToolCallId) (name : String)
  | toolCallDelta (id : ToolCallId) (delta : String)
  | toolCallCompleted (id : ToolCallId) (name : String) (input : Value)
  | usageUpdate (usage : ModelUsage)
  | completed (result : ModelResult)
  | error (error : ModelError)

structure ModelRequest where
  systemPrompt : String
  messages : List AgentMessage
  tools : List ToolDescriptor
  model : Option String
  maxTokens : Option Nat
  temperature : Option Rat
  stopSequences : List String
  extendedThinking : Bool
  reasoningEffort : Option ReasoningEffort
  responseFormat : Option ResponseFormat
  providerOptions : Value
  cacheKey : Option String

def prepareModelRequest (request : ExecutionRequest) : ModelRequest where
  systemPrompt := request.systemPrompt
  messages := request.messages
  tools := request.tools
  model := request.params.model
  maxTokens := request.params.maxTokens
  temperature := request.params.temperature
  stopSequences := request.params.stopSequences
  extendedThinking := request.extendedThinking
  reasoningEffort := request.params.reasoningEffort
  responseFormat := request.params.responseFormat
  providerOptions := request.params.providerOptions
  cacheKey := some request.runId.display

def toExecutionResult (requestId : RequestId) (result : ModelResult) : ExecutionResult where
  requestId := requestId
  usage := result.usage
  cost := result.cost
  -- the agent loop keeps the run alive on `tool_use` only
  finishReason :=
    if result.stopReason == "tool_calls" || result.stopReason == "function_call" then "tool_use" else result.stopReason

def wholeSecondsRoundedUp (delay : Nat) : Nat :=
  let millis := min (asMillis delay) (2 ^ 64 - 1)
  min (millis + 999) (2 ^ 64 - 1) / 1000

def toExecutionError : ModelError → ExecutionError
  | .backendError message code => .backendError message code
  | .rateLimited retryAfter => .rateLimited (retryAfter.map wholeSecondsRoundedUp)
  | .invalidRequest message => .invalidRequest message
  | .cancelled => .cancelled
  | .timeout => .timeout
  | .circuitOpen retryAfter =>
    .backendError ("provider circuit is open; retry after " ++ toString (asMillis retryAfter) ++ " ms") "CIRCUIT_OPEN"
  | .protocol message => .backendError message "PROTOCOL_ERROR"
  | .streamInterrupted message => .backendError message "STREAM_INTERRUPTED"
  | .unsupportedCapability capability detail => .unsupportedCapability capability detail

theorem toExecutionError_eq_timeout {error : ModelError} (h : toExecutionError error = .timeout) : error = .timeout := by
  cases error with
  | timeout => rfl
  | _ => cases h

def terminalEvent (requestId : RequestId) : Except ExecutionError ExecutionResult → ExecutionEvent
  | .ok result => .completed requestId result
  | .error error => .error requestId error

def isTerminal : ExecutionEvent → Bool
  | .completed _ _ | .error _ _ => true
  | _ => false

@[simp] theorem isTerminal_terminalEvent (requestId : RequestId) (result : Except ExecutionError ExecutionResult) :
    isTerminal (terminalEvent requestId result) = true := by
  cases result <;> rfl

end RustyCore.ModelBackend
