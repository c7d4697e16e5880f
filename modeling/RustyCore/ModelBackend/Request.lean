import RustyCore.Lib.Machine
import RustyCore.ModelBackend.Attempt

/-! One request end to end: admission and the attempt/retry loop. The loop touches the circuit breaker, which other
    requests share, between its awaits: a request is a machine whose outputs are its calls of the breaker, and the
    backend runs any interleaving of them. -/

namespace RustyCore.ModelBackend

inductive CircuitCall where
  | recordSuccess
  | recordFailure (error : ModelError)

inductive Phase where
  | attempting
  | waiting
  | concluding (result : Except ExecutionError ExecutionResult)
  | ended (result : Except ExecutionError ExecutionResult)
  | rejected (error : ExecutionError)

inductive Exchange where
  | call (request : ModelRequest)
  | sent (event : ExecutionEvent)

structure RequestRun where
  request : ExecutionRequest
  modelRequest : ModelRequest
  attempt : Nat
  log : List Exchange
  phase : Phase

inductive RequestInput where
  | attempt (script : AttemptScript) (moment : RetryMoment)
  | wait (elapsed : Bool)
  | conclude

def prepareRetry (policy : RecoveryPolicy) (error : ModelError) (attempt : Nat) (request : ModelRequest)
    (progress : AttemptProgress) (moment : RetryMoment) : Option ModelRequest :=
  if retryDelay attempt error moment.subsecMillis ≥ policy.idleTimeout then none
  else if progress.text != "" then some (appendInterruptedResponse moment request progress.text)
  else some request

/-- Final result for any decision that ends the loop, and the call of the breaker that it makes. -/
def settle (requestId : RequestId) : AttemptDecision → Except ExecutionError ExecutionResult × List CircuitCall
  | .completed result => (.ok (toExecutionResult requestId result), [.recordSuccess])
  | .cancelled => (.error .cancelled, [])
  | .failed error | .retry error => (.error (toExecutionError error), [.recordFailure error])

namespace RequestRun

def attemptOnce (policy : RecoveryPolicy) (r : RequestRun) (script : AttemptScript) : AttemptOutcome × AttemptDecision :=
  let outcome := runAttempt r.request.requestId script
  (outcome, classifyAttempt outcome.result script.cancelled
    ⟨outcome.progress, r.modelRequest.responseFormat, r.attempt, policy.maxAttempts⟩)

/-- An attempt of the loop in `execute_attempts`, up to its next await. -/
def attemptStep (policy : RecoveryPolicy) (r : RequestRun) (script : AttemptScript) (moment : RetryMoment) :
    RequestRun × List CircuitCall :=
  let (outcome, decision) := r.attemptOnce policy script
  let r := { r with log := r.log ++ Exchange.call r.modelRequest :: outcome.sent.map Exchange.sent }
  match decision with
  | .retry error =>
    match prepareRetry policy error r.attempt r.modelRequest outcome.progress moment with
    | some modelRequest => ({ r with modelRequest := modelRequest, phase := .waiting }, [])
    | none => ({ r with phase := .concluding (.error (toExecutionError error)) }, [.recordFailure error])
  | decision =>
    let (result, calls) := settle r.request.requestId decision
    ({ r with phase := .concluding result }, calls)

def waitStep (r : RequestRun) (elapsed : Bool) : RequestRun :=
  if elapsed then { r with attempt := r.attempt + 1, phase := .attempting }
  else { r with phase := .concluding (.error .cancelled) }

/-- The end of `execute_request`: a timeout is recorded, and the terminal event sent. -/
def concludeStep (r : RequestRun) (result : Except ExecutionError ExecutionResult) : RequestRun × List CircuitCall :=
  let calls := match result with
    | .error .timeout => [.recordFailure .timeout]
    | _ => []
  ({ r with
      log := r.log ++ [.sent (terminalEvent r.request.requestId result)]
      phase := .ended result }, calls)

def step (policy : RecoveryPolicy) (r : RequestRun) (input : RequestInput) : RequestRun × List CircuitCall :=
  match r.phase, input with
  | .attempting, .attempt script moment => r.attemptStep policy script moment
  | .waiting, .wait elapsed => (r.waitStep elapsed, [])
  | .concluding result, .conclude => r.concludeStep result
  | _, _ => (r, [])

def submitted (request : ExecutionRequest) : RequestRun where
  request := request
  modelRequest := prepareModelRequest request
  attempt := 1
  log := []
  phase := .attempting

/-- `reject_request`: the one thing sent is the error. -/
def reject (request : ExecutionRequest) (error : ModelError) : RequestRun where
  request := request
  modelRequest := prepareModelRequest request
  attempt := 0
  log := [.sent (terminalEvent request.requestId (.error (toExecutionError error)))]
  phase := .rejected (toExecutionError error)

end RequestRun

def requestMachine (policy : RecoveryPolicy) : Machine RequestRun RequestInput CircuitCall where
  step r input := r.step policy input

structure BackendCapabilities where
  reasoningStream : Bool
  toolCalls : Bool
  images : Bool
  structuredOutput : Bool

structure BackendConfig where
  name : String
  capabilities : BackendCapabilities
  recovery : RecoveryPolicy

namespace BackendConfig

def unsupported (config : BackendConfig) (capability what : String) : ModelError :=
  .unsupportedCapability capability (config.name ++ " " ++ what)

def checkReasoningCapability (config : BackendConfig) (request : ExecutionRequest) : Option ModelError :=
  if (request.extendedThinking || request.params.reasoningEffort.isSome) && !config.capabilities.reasoningStream then
    some (config.unsupported "reasoning" "does not support reasoning/extended thinking")
  else none

def checkImageCapability (config : BackendConfig) (request : ExecutionRequest) : Option ModelError :=
  let wantsImages := request.messages.any fun message => message.content.any fun block => match block with
    | .image _ _ => true
    | _ => false
  if wantsImages && !config.capabilities.images then some (config.unsupported "images" "does not support image input")
  else none

def checkToolCapability (config : BackendConfig) (request : ExecutionRequest) : Option ModelError :=
  if !request.tools.isEmpty && !config.capabilities.toolCalls then
    some (config.unsupported "tool_calls" "does not support tool calls")
  else none

def checkStructuredOutputCapability (config : BackendConfig) (request : ExecutionRequest) : Option ModelError :=
  if !plainTextResponse request.params.responseFormat && !config.capabilities.structuredOutput then
    some (config.unsupported "structured_output" "cannot constrain its response format")
  else none

def checkCapabilities (config : BackendConfig) (request : ExecutionRequest) : Option ModelError :=
  (config.checkReasoningCapability request).or <| (config.checkImageCapability request).or <|
    (config.checkToolCapability request).or (config.checkStructuredOutputCapability request)

end BackendConfig

structure Backend where
  circuit : CircuitState := {}
  now : Nat := 0
  requests : List RequestRun := []

inductive BackendInput where
  | elapse (span : Nat)
  | submit (request : ExecutionRequest)
  | proceed (index : Nat) (input : RequestInput)

namespace Backend

def perform (policy : RecoveryPolicy) (now : Nat) (circuit : CircuitState) : CircuitCall → CircuitState
  | .recordSuccess => circuit.recordSuccess
  | .recordFailure error => circuit.recordFailure policy now error

/-- Admission in `execute_request`: the capabilities first, then the circuit. -/
def submit (config : BackendConfig) (b : Backend) (request : ExecutionRequest) : Backend :=
  match config.checkCapabilities request with
  | some error => { b with requests := b.requests ++ [.reject request error] }
  | none =>
    match b.circuit.allowRequest config.recovery b.now with
    | .error error => { b with requests := b.requests ++ [.reject request error] }
    | .ok circuit => { b with circuit := circuit, requests := b.requests ++ [.submitted request] }

def step (config : BackendConfig) (b : Backend) : BackendInput → Backend
  | .elapse span => { b with now := b.now + span }
  | .submit request => b.submit config request
  | .proceed index input =>
    match b.requests[index]? with
    | none => b
    | some r =>
      let (r', calls) := (requestMachine config.recovery).step r input
      { b with circuit := calls.foldl (perform config.recovery b.now) b.circuit, requests := b.requests.set index r' }

end Backend

def backendMachine (config : BackendConfig) : Machine Backend BackendInput Empty where
  step b input := (b.step config input, [])

end RustyCore.ModelBackend
