import RustyCore.Workflow.Reducer

/-! Explicit user retry of a failed run from its failed-step checkpoint. -/

namespace RustyCore

open Reducer

inductive RestartError where
  | transition (code message : String)
  | unknownTools (missing : List String)
  | restore (message : String)
deriving DecidableEq

namespace OrchestrationRunner

/-- Fails when the definition references tools that are not registered; without a list of tools nothing is checked.
    The list is sorted, so the search of the source finds what is in it. -/
def checkToolReferences (c : CompiledOrchestration) (availableTools : Option (List String)) : Except RestartError Unit :=
  match availableTools with
  | none => .ok ()
  | some available =>
    let missing := (c.nodes.values.flatMap fun node =>
      match node.kind with
      | .agent config =>
        match config.tools with
        | .allowList tools => tools
        | _ => []
      | _ => []).filter (!available.contains ·)
    if missing.isEmpty then .ok () else .error (.unknownTools (missing.insertionSort (· ≤ ·)).dedup)

def takeFailedCheckpoint (s : OrchestrationRunState) :
    Except RestartError (OrchestrationRunState × OrchestrationNodeId) :=
  if s.status ≠ .failed then .error (.restore "only failed runs can be retried")
  else
    match s.failedStep with
    | none => .error (.restore "no failed step checkpoint is available")
    | some id =>
      match s.steps.get? id with
      | none => .error (.restore "failed step is missing")
      | some step =>
        if step.status ≠ .failed then .error (.restore "checkpoint step is not failed")
        else .ok ({ s with failedStep := none }, id)

/-- A verify step that failed its check sends the work back to its repair target, if it has one. -/
def repairTarget (c : CompiledOrchestration) (s : OrchestrationRunState) (id : OrchestrationNodeId) :
    Option OrchestrationNodeId :=
  let verificationFailed := s.error.any (·.code == "verification_failed")
  match (c.node id).map OrchestrationNode.kind with
  | some (.verify config) => if verificationFailed then config.retryTarget else none
  | _ => none

/-- A step between the failed one and the repair target, for the next review to check the repaired workspace, not
    stale output. -/
def resetSpanStep (target id : OrchestrationNodeId) (step : StepRun) : StepRun :=
  { step with
    status := .pending
    output := none
    pendingPermissions := []
    pendingInput := none
    checkpoint := if id = target then step.checkpoint else none }

/-- An explicit continuation sends the work back to the repair target after its automatic retries have run out. The
    failed step indexes its span, which every node with a repair target has. -/
def resetRetrySpan (c : CompiledOrchestration) (s : OrchestrationRunState) (id target : OrchestrationNodeId) :
    OrchestrationRunState :=
  ((c.retrySpans.get? id).getD []).foldl (fun s id => s.setStep id (resetSpanStep target id)) s

def continuation (guidance : String) : OrchestrationError where
  code := "USER_CONTINUATION"
  message := "Resume this step. Earlier successful steps and their outputs are retained. The failed attempt may have " ++
    "changed the workspace: inspect current state before repeating actions. User guidance: " ++ guidance

/-- Readies the resumed step with the failure and the user's guidance as feedback. Its retries count afresh from
    here. -/
def continueStep (error : Option OrchestrationError) (guidance : String) (step : StepRun) : StepRun :=
  { step with
    feedback := step.feedback ++ error.toList ++ [continuation guidance]
    retryBase := step.attempts.length
    status := .ready
    pendingPermissions := []
    pendingInput := none }

def reopenStep (step : StepRun) : StepRun :=
  if step.status = .skipped then { step with status := .pending } else step

def reopenRun (s : OrchestrationRunState) (runId : OrchestrationRunId) : OrchestrationRunState :=
  { s with
    steps := s.steps.mapEntries fun _ step => reopenStep step
    runId
    status := .ready
    paused := false
    error := none
    finalOutput := none }

def retryFailed (c : CompiledOrchestration) (availableTools : Option (List String)) (s : OrchestrationRunState)
    (runId : OrchestrationRunId) (guidance : String) : Except RestartError OrchestrationRunState := do
  (checkRestorable c s).mapError fun e => .transition e.code e.message
  checkToolReferences c availableTools
  let (s, id) ← takeFailedCheckpoint s
  let target := repairTarget c s id
  let error := (s.steps.get? id).bind (·.error)
  let s := s.setStep id fun step => { step with error := none }
  let (s, resumed) :=
    match target with
    | some target => (resetRetrySpan c s id target, target)
    | none => (s, id)
  return reopenRun (s.setStep resumed (continueStep error guidance)) runId

end OrchestrationRunner

end RustyCore
