import RustyCore.ModelBackend.Events

/-! The circuit breaker shared by every request on one backend instance. -/

namespace RustyCore.ModelBackend

/-- Bounded recovery settings for one provider backend instance. The timeouts of the stream decide only when an
    attempt times out, which the attempt's script says. -/
structure RecoveryPolicy where
  maxAttempts : Nat := 2
  idleTimeout : Nat := fromSecs 120
  circuitFailureThreshold : Nat := 3
  circuitOpenDuration : Nat := fromSecs 30

structure CircuitState where
  consecutiveFailures : Nat := 0
  openUntil : Option Nat := none
  halfOpenProbeInFlight : Bool := false
deriving DecidableEq

namespace CircuitState

def allowRequest (policy : RecoveryPolicy) (now : Nat) (state : CircuitState) : Except ModelError CircuitState :=
  match state.openUntil with
  | none => .ok state
  | some openUntil =>
    if openUntil > now then .error (.circuitOpen (openUntil - now))
    else if state.halfOpenProbeInFlight then .error (.circuitOpen policy.circuitOpenDuration)
    else .ok { state with halfOpenProbeInFlight := true }

def recordSuccess (_ : CircuitState) : CircuitState := {}

def recordFailure (policy : RecoveryPolicy) (now : Nat) (error : ModelError) (state : CircuitState) : CircuitState :=
  let state := { state with halfOpenProbeInFlight := false }
  if !error.isRetryable then state
  else
    let state := { state with consecutiveFailures := (state.consecutiveFailures + 1) % 2 ^ 32 }
    if state.consecutiveFailures ≥ policy.circuitFailureThreshold then
      { state with openUntil := some (now + policy.circuitOpenDuration) }
    else state

section

variable {policy : RecoveryPolicy} {now : Nat} {error : ModelError} {state state' : CircuitState}

theorem allowRequest_ok (h : state.allowRequest policy now = .ok state') :
    (state.openUntil = none ∧ state' = state) ∨
      (∃ openUntil, state.openUntil = some openUntil ∧ openUntil ≤ now ∧ state.halfOpenProbeInFlight = false ∧
        state' = { state with halfOpenProbeInFlight := true }) := by
  unfold allowRequest at h
  split at h
  · rename_i hopen
    exact .inl ⟨hopen, (Except.ok.inj h).symm⟩
  · rename_i openUntil hopen
    split at h
    · cases h
    · rename_i hdue
      split at h
      · cases h
      · rename_i hfree
        exact .inr ⟨openUntil, hopen, Nat.le_of_not_lt hdue, by simpa using hfree, (Except.ok.inj h).symm⟩

theorem allowRequest_of_free (hfree : state.halfOpenProbeInFlight = false)
    (hdue : ∀ openUntil, state.openUntil = some openUntil → openUntil ≤ now) :
    ∃ admitted, state.allowRequest policy now = .ok admitted := by
  unfold allowRequest
  split
  · exact ⟨_, rfl⟩
  · rename_i openUntil hopen
    rw [if_neg (Nat.not_lt.mpr (hdue openUntil hopen)), hfree]
    exact ⟨_, rfl⟩

@[simp] theorem recordFailure_probe :
    (state.recordFailure policy now error).halfOpenProbeInFlight = false := by
  unfold recordFailure
  dsimp only
  split
  · rfl
  · split <;> rfl

theorem recordFailure_open (h : state.openUntil.isSome) : (state.recordFailure policy now error).openUntil.isSome := by
  unfold recordFailure
  dsimp only
  split
  · exact h
  · split
    · rfl
    · exact h

theorem recordFailure_failures : (state.recordFailure policy now error).consecutiveFailures =
    if error.isRetryable then (state.consecutiveFailures + 1) % 2 ^ 32 else state.consecutiveFailures := by
  unfold recordFailure
  cases error.isRetryable with
  | false => rfl
  | true =>
    dsimp only
    rw [if_neg (by simp)]
    split <;> rfl

end

end CircuitState

end RustyCore.ModelBackend

/-! One provider call, whether a failed one may be retried, and how the request is reshaped so that a retry continues
    instead of replaying. -/

namespace RustyCore.ModelBackend

structure AttemptProgress where
  text : String := ""
  requestedTools : Bool := false
  emittedOutput : Bool := false

inductive AttemptExit where
  | completed (result : ModelResult)
  | error (error : ModelError)
  | closed
  | cancelled
  | timedOut

/-- What cuts a stream that has not sent a terminal event: its channel closes, the caller cancels, or the next event is
    late. -/
inductive StreamCut where
  | closed
  | cancelled
  | timedOut

def StreamCut.exit : StreamCut → AttemptExit
  | .closed => .closed
  | .cancelled => .cancelled
  | .timedOut => .timedOut

structure AttemptScript where
  events : List ModelEvent
  cut : StreamCut
  /-- What joining the client's task gives: an error of the task itself, or what `stream` returned. -/
  stream : Except String (Except ModelError ModelResult)
  cancelled : Bool

def eventProducesOutput : ModelEvent → Bool
  | .textDelta _ | .reasoningDelta _ | .toolCallCompleted _ _ _ | .usageUpdate _ => true
  | _ => false

def translateEvent (requestId : RequestId) : ModelEvent → List ExecutionEvent
  | .textDelta delta => [.textDelta requestId delta]
  | .reasoningDelta delta => [.reasoningDelta requestId delta]
  | .toolCallStarted _ _ | .toolCallDelta _ _ => []
  | .toolCallCompleted id name input => [.toolCallRequested requestId ⟨id, name, input⟩]
  | .usageUpdate usage => [.usageUpdate requestId usage]
  -- ends the attempt; the one terminal event is sent once retries are settled
  | .completed _ | .error _ => []

def AttemptProgress.note (progress : AttemptProgress) (event : ModelEvent) : AttemptProgress where
  text := match event with
    | .textDelta delta => progress.text ++ delta
    | _ => progress.text
  requestedTools := progress.requestedTools || match event with
    | .toolCallCompleted _ _ _ => true
    | _ => false
  emittedOutput := progress.emittedOutput || eventProducesOutput event

/-- The exit an event forces, the progress after it and the events it sends to the caller. -/
def processAttemptEvent (requestId : RequestId) (progress : AttemptProgress) :
    ModelEvent → Option AttemptExit × AttemptProgress × List ExecutionEvent
  | .completed result =>
    let result := if progress.requestedTools then { result with stopReason := "tool_use" } else result
    (some (.completed result), progress, [])
  | .error error => (some (.error error), progress, [])
  | event => (none, progress.note event, translateEvent requestId event)

def receiveAttemptEvents (requestId : RequestId) (cut : StreamCut) (progress : AttemptProgress) :
    List ModelEvent → AttemptExit × AttemptProgress × List ExecutionEvent
  | [] => (cut.exit, progress, [])
  | event :: events =>
    match processAttemptEvent requestId progress event with
    | (some exit, progress, sent) => (exit, progress, sent)
    | (none, progress, sent) =>
      let rest := receiveAttemptEvents requestId cut progress events
      (rest.1, rest.2.1, sent ++ rest.2.2)

def finishClosedAttempt (stream : Except String (Except ModelError ModelResult)) (requestedTools : Bool) :
    Except ModelError ModelResult :=
  match stream with
  | .error error => .error (.backendError ("model client task failed: " ++ error) "TASK_PANIC")
  | .ok (.error error) => .error error
  | .ok (.ok result) => .ok (if requestedTools then { result with stopReason := "tool_use" } else result)

def finishAttempt (exit : AttemptExit) (stream : Except String (Except ModelError ModelResult)) (requestedTools : Bool) :
    Except ModelError ModelResult :=
  match exit with
  | .completed result => .ok result
  | .error error => .error error
  | .closed => finishClosedAttempt stream requestedTools
  | .cancelled => .error .cancelled
  | .timedOut => .error .timeout

structure AttemptOutcome where
  result : Except ModelError ModelResult
  progress : AttemptProgress
  sent : List ExecutionEvent

def runAttempt (requestId : RequestId) (script : AttemptScript) : AttemptOutcome :=
  let (exit, progress, sent) := receiveAttemptEvents requestId script.cut {} script.events
  { result := finishAttempt exit script.stream progress.requestedTools, progress := progress, sent := sent }

inductive AttemptDecision where
  | completed (result : ModelResult)
  | cancelled
  | retry (error : ModelError)
  | failed (error : ModelError)

structure RetryContext where
  progress : AttemptProgress
  responseFormat : Option ResponseFormat
  attempt : Nat
  maxAttempts : Nat

def plainTextResponse : Option ResponseFormat → Bool
  | none | some .text => true
  | _ => false

/-- A retry is safe when nothing reached the caller yet, or when only plain text did and the model can be asked to
    continue it. -/
def shouldRetry (error : ModelError) (context : RetryContext) : Bool :=
  let canResumeText := context.progress.text != "" && !context.progress.requestedTools &&
    plainTextResponse context.responseFormat
  (!context.progress.emittedOutput || canResumeText) && error.isRetryable && context.attempt < context.maxAttempts

def classifyAttempt (result : Except ModelError ModelResult) (cancelled : Bool) (context : RetryContext) :
    AttemptDecision :=
  match result with
  | .ok result => .completed result
  | .error error =>
    if cancelled || error == .cancelled then .cancelled
    else if shouldRetry error context then .retry error
    else .failed error

/-- Exponential backoff from 250 ms with up to 50% jitter, unless the provider said how long to wait.
    `subsecMillis` is the clock's millisecond part. The shift, and the sum, wrap as a release build's do. -/
def retryDelay (attempt : Nat) (error : ModelError) (subsecMillis : Nat) : Nat :=
  match error.retryAfter with
  | some delay => delay
  | none =>
    let baseMs := min (250 * 2 ^ ((attempt - 1) % 64)) (2 ^ 64 - 1)
    let jitterMs := subsecMillis % (baseMs / 2 + 1)
    fromMillis ((baseMs + jitterMs) % 2 ^ 64)

/-- The base of the delay in milliseconds. The attempt is cast to 32 bits, and a shift by 64 or more overflows. -/
def checkedBaseMs (attempt : Nat) : Option Nat :=
  let shift := (attempt - 1) % 2 ^ 32
  if shift < 64 then some (min (250 * 2 ^ shift) (2 ^ 64 - 1)) else none

/-- `retryDelay` with the checks of a build that has them: no result where the shift or an addition overflows or
    the modulus is zero. -/
def checkedRetryDelay (attempt : Nat) (error : ModelError) (subsecMillis : Nat) : Option Nat :=
  match error.retryAfter with
  | some delay => some delay
  | none => (checkedBaseMs attempt).bind fun baseMs =>
    let modulus := baseMs / 2 + 1
    if modulus = 0 ∨ 2 ^ 64 ≤ modulus then none
    else
      let jitterMs := subsecMillis % modulus
      if baseMs + jitterMs < 2 ^ 64 then some (fromMillis (baseMs + jitterMs)) else none

def continueInstruction : String :=
  "The response stream was interrupted. Continue exactly where your previous answer stopped. Output only the remaining text, without repeating earlier content or adding an introduction. Use the research and tool results already in this conversation; do not perform further tool calls."

structure RetryMoment where
  subsecMillis : Nat
  messageIds : MessageId × MessageId
  timestamps : Timestamp × Timestamp

/-- Continue the answer in context, never replay the original request after visible output or repeat side effects. -/
def appendInterruptedResponse (moment : RetryMoment) (request : ModelRequest) (partialText : String) : ModelRequest :=
  { request with
    messages := request.messages ++
      [⟨moment.messageIds.1, .assistant, [.text partialText], moment.timestamps.1⟩,
        ⟨moment.messageIds.2, .user, [.text continueInstruction], moment.timestamps.2⟩]
    tools := [] }

end RustyCore.ModelBackend
