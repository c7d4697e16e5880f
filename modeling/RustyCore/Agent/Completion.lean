import RustyCore.Agent.Tools

/-! Finishing a run: the completion gate and the final answer. When the model ends a turn without tool
    calls, the gate judges the failed checks: declarative ones at once, evaluator ones after their verdicts
    come back. -/

namespace RustyCore

def commandTranscriptMessages : Nat := 20

abbrev CheckFailure := String × String

def optionalField (key : String) (text : Option String) : List (String × Value) :=
  match text with
  | some text => [(key, .string text)]
  | none => []

/-- The JSON form of an evaluator (`serde_json::to_value`), with the fields in key order. Serializing it
    never fails. -/
def EvaluatorSpec.toValue : EvaluatorSpec → Except String Value
  | .tool name args answerArg =>
    .ok (.object (optionalField "answer_arg" answerArg ++
      [("args", args), ("tool", .string name), ("type", .string "tool")]))
  | .model instructions modelName transcriptMessages =>
    .ok (.object ([("instructions", .string instructions)] ++ optionalField "model" modelName ++
      [("transcript_messages", .number (.posInt transcriptMessages)), ("type", .string "model")]))
  | .agent instructions tools modelName maxTurns transcriptMessages =>
    .ok (.object ([("instructions", .string instructions), ("max_turns", .number (.posInt maxTurns))] ++
      optionalField "model" modelName ++
      (if tools.isEmpty then [] else [("tools", .array (tools.map .string))]) ++
      [("transcript_messages", .number (.posInt transcriptMessages)), ("type", .string "agent")]))
  | .command line timeoutMs =>
    .ok (.object [("command", .string line), ("timeout_ms", .number (.posInt timeoutMs)), ("type", .string "command")])

/-- The evaluator checks as the runtime will run them. A spec that cannot be prepared is reported as a
    failed check, never dropped. -/
def evaluatorSpecs : List GateCheck → List CompletionCheckSpec × List CheckFailure
  | [] => ([], [])
  | check :: rest =>
    let (specs, unpreparable) := evaluatorSpecs rest
    match check.evaluator with
    | none => (specs, unpreparable)
    | some evaluator =>
      match evaluator.toValue with
      | .ok value => (⟨check.id, value⟩ :: specs, unpreparable)
      | .error error => (specs, (check.id, "the check could not be prepared: " ++ error) :: unpreparable)

def EvaluatorSpec.transcriptNeeded : EvaluatorSpec → Option Nat
  | .model _ _ transcriptMessages | .agent _ _ _ _ transcriptMessages => some transcriptMessages
  | .command _ _ => some commandTranscriptMessages
  | .tool _ _ _ => none

def longestTranscriptNeeded (gate : CompletionGate) : Nat :=
  (gate.checks.filterMap fun check => check.evaluator.bind EvaluatorSpec.transcriptNeeded).foldl max 0

def verdictFor (verdicts : List CheckVerdict) (check : GateCheck) : VerdictOutcome :=
  ((verdicts.find? (·.id == check.id)).map (·.outcome)).getD (.error "no verdict was produced")

def evaluatorFailure (check : GateCheck) (outcome : VerdictOutcome) : Option CheckFailure :=
  match outcome with
  | .pass => none
  | .fail feedback => some (check.id, check.feedback.getD feedback)
  | .error message =>
    if check.errorPolicy = .pass then none
    else some (check.id, check.feedback.getD ("the check could not be evaluated: " ++ message))

inductive GateStep where
  | accept
  | sendBack
  | exhausted
deriving DecidableEq

namespace Agent

variable [Externals]

def finishSuccess (a : Agent) (summary : String) (gatePassed : Option Bool) : Agent × List AgentEffect :=
  let from_ := a.state.status
  let a := { a with
    state.status := .idle
    state.activeRun := none
    usage.runs := saturatingAdd a.usage.runs 1 }
  (a, [stateChanged from_ .idle, .emit (.completed .success), .finishRun ⟨summary, a.terminalUsageSummary, gatePassed⟩])

def finalResponseText (a : Agent) : String :=
  match a.state.messages.reverse.find? (·.role == .assistant) with
  | some message =>
    Text.join "" (message.content.filterMap fun block => match block with
      | .text text => some text
      | _ => none)
  | none => ""

def gateStep (a : Agent) (gate : CompletionGate) (failedChecks : List String) : GateStep :=
  let run := a.state.behavior.run
  if failedChecks.isEmpty then .accept
  else if run.gateContinuations < gate.maxContinuations && !run.finalTurn then .sendBack
  else if failedChecks.all fun id => gate.checks.any fun check => check.id == id && check.waiveWhenExhausted then .accept
  else .exhausted

def gateEvaluated (a : Agent) (step : GateStep) (failedChecks : List String) : AgentEffect :=
  .emit (.completionGateEvaluated a.state.behavior.run.gateAttempts (step == .accept) (step == .sendBack) failedChecks)

/-- The gate still fails with no continuations left: accept the answer as it is, or fail the run, as the
    profile says. -/
def endExhaustedGate (a : Agent) (gate : CompletionGate) (failedChecks : List String) (summary : String) :
    Agent × List AgentEffect :=
  match gate.onExhausted.getD .accept with
  | .accept => a.finishSuccess summary (some false)
  | .fail => a.fail "GATE_EXHAUSTED" ("completion gate still failing after " ++
      toString a.state.behavior.run.gateContinuations ++ " continuation(s): " ++ Text.join ", " failedChecks)

def pushGateRejection (a : Agent) (reference : ProfileRef) (failures : List CheckFailure) : Agent :=
  let text := failures.foldl (fun text failure => text ++ "\n- [" ++ failure.1 ++ "] " ++ failure.2)
    "Your answer was not accepted yet. Address the following before finishing:"
  (a.pushMessage .user [.text (Rules.systemReminder ("gate:" ++ reference.display) text)]).1

def sendAnswerBack (a : Agent) (runId : RunId) (reference : ProfileRef) (failures : List CheckFailure) :
    Agent × List AgentEffect :=
  let run := a.state.behavior.run
  let a := a.withRun { run with gateContinuations := run.gateContinuations + 1 }
  match (a.pushGateRejection reference failures).beginTurn with
  | (a, .error failure) => (a, failure)
  | (a, .ok effects) =>
    let from_ := a.state.status
    let (a, request) := (a.withStatus .waitingForBackend).executionRequest runId
    (a, effects ++ [stateChanged from_ .waitingForBackend, .executeBackend request])

def gateDecided (a : Agent) (runId : RunId) (failures : List CheckFailure) (summary : String) :
    Agent × List AgentEffect :=
  let profile := a.state.behavior.profile
  match profile.profile.completionGate with
  | none => a.finishSuccess summary none
  | some gate =>
    let failedChecks := failures.map (·.1)
    let step := a.gateStep gate failedChecks
    andThen (a, [a.gateEvaluated step failedChecks]) fun a =>
      match step with
      | .accept => a.finishSuccess summary (some true)
      | .exhausted => a.endExhaustedGate gate failedChecks summary
      | .sendBack => a.sendAnswerBack runId profile.reference failures

def noteGateAttempt (a : Agent) : Agent :=
  a.withRun { a.state.behavior.run with
    gateAttempts := a.state.behavior.run.gateAttempts + 1
    finalStatus := some (Rules.finalStatus a.finalResponseText) }

def failedDeclarativeChecks (a : Agent) (gate : CompletionGate) : List CheckFailure :=
  gate.checks.filterMap fun check =>
    match check.require with
    | none => none
    | some condition =>
      if a.state.behavior.conditionHolds condition then none else some (check.id, check.feedback.getD "")

def transcriptTail (a : Agent) (count : Nat) : List AgentMessage :=
  a.state.messages.drop (a.state.messages.length - count)

def startVerifying (a : Agent) (runId : RunId) (gate : CompletionGate) (evaluators : List CompletionCheckSpec) :
    Agent × List AgentEffect :=
  (a.withStatus .verifying,
    [stateChanged a.state.status .verifying,
      .evaluateCompletion ⟨runId, a.state.behavior.run.gateAttempts, evaluators, a.finalResponseText,
        a.transcriptTail (longestTranscriptNeeded gate)⟩])

/-- The model produced a turn with no tool calls. Without a gate the run finishes. With one, declarative
    checks are decided now; evaluator checks are handed to the runtime and the agent waits in `verifying`. -/
def proposeCompletion (a : Agent) (runId : RunId) (summary : String) : Agent × List AgentEffect :=
  match a.state.behavior.profile.profile.completionGate with
  | none => a.finishSuccess summary none
  | some gate =>
    let a := a.noteGateAttempt
    let (evaluators, unpreparable) := evaluatorSpecs gate.checks
    let failures := a.failedDeclarativeChecks gate ++ unpreparable
    if !failures.isEmpty || evaluators.isEmpty then a.gateDecided runId failures summary
    else a.startVerifying runId gate evaluators

/-- The verdicts of the gate's evaluator checks coming back. Evaluator requests were made either way, so
    they always count; stale or unexpected verdicts (cancelled, superseded) are ignored. -/
def completionEvaluated (a : Agent) (runId : RunId) (attempt : Nat) (verdicts : List CheckVerdict)
    (usage : List UsageRecord) : Agent × List AgentEffect :=
  let counted := if usage.isEmpty then (a, []) else
    let a := a.withUsage { a.usage with records := a.usage.records ++ usage }
    let (a', timestamp) := a.nextTimestamp
    (a', [AgentEffect.emit (.usageUpdated
      ⟨a.id.display, a.state.executionParams.model, a.usage.selfMetrics, Externals.toRfc3339 timestamp⟩)])
  if a.state.status ≠ .verifying ∨ a.state.activeRun ≠ some runId ∨ a.state.behavior.run.gateAttempts ≠ attempt then
    counted
  else
    match a.state.behavior.profile.profile.completionGate with
    | none => (counted.1, [])
    | some gate =>
      let failures := (gate.checks.filter (·.evaluator.isSome)).filterMap fun check =>
        evaluatorFailure check (verdictFor verdicts check)
      andThen counted fun a => a.gateDecided runId failures "Run completed: end_turn"

end Agent

end RustyCore
