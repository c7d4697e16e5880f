import RustyCore.Agent.Turn

/-! Tool calls: a call the model asks for is run, asked about or refused; its outcome is recorded; and when
    all calls of a turn are in, the next turn begins. -/

namespace RustyCore

def maxConsecutiveToolTimeouts : Nat := 3

namespace ToolError

def executed : ToolError → Bool
  | .permissionDenied | .denied _ => false
  | _ => true

def isTimeout : ToolError → Bool
  | .timeout => true
  | _ => false

def preview (toolName : String) : ToolError → String
  | .denied reason => "Denied: " ++ reason
  | .timeout =>
    "Tool call `" ++ toolName ++ "` timed out and was cancelled. Try a narrower request or a different approach."
  | .executionFailed => "ExecutionFailed"
  | .permissionDenied => "PermissionDenied"
  | .internal => "Internal"

end ToolError

inductive Approval where
  | allow
  | ask
deriving DecidableEq

namespace Agent

variable [Externals]

def continueAfterTools (a : Agent) : Agent × List AgentEffect :=
  if Table.isEmpty a.state.pendingTools && !a.state.backendInFlight then
    match a.state.activeRun with
    | none => (a, [])
    | some runId =>
      match a.beginTurn with
      | (a, .error failure) => (a, failure)
      | (a, .ok effects) =>
        let from_ := a.state.status
        let (a, request) := (a.withStatus .waitingForBackend).executionRequest runId
        (a, effects ++ (if from_ ≠ .waitingForBackend then [stateChanged from_ .waitingForBackend] else []) ++
          [.executeBackend request])
  else (a, [])

def nextAfterResult (a : Agent) (stop : Option RuleStop) : Agent × List AgentEffect :=
  match stop with
  | some stop => a.behaviorStop stop
  | none =>
    if a.state.consecutiveToolTimeouts ≥ maxConsecutiveToolTimeouts then
      (a.withTimeouts 0).fail "TOOL_TIMEOUT"
        (toString a.state.consecutiveToolTimeouts ++ " consecutive tool calls timed out")
    else a.continueAfterTools

def runPostToolRules (a : Agent) (call : ToolCall) (hasError : Bool) (preview : String) :
    Agent × List AgentEffect × String × Option RuleStop :=
  let a := a.withBehavior (a.state.behavior.noteExecutedWith call.name hasError)
  let event : RuleEvent := if hasError then .postToolUseFailure else .postToolUse
  let (a, effects, outcome) := a.runRules event (some ⟨call, some preview⟩) (some call.id)
  (a, effects, outcome.rewriteResult.foldl (fun preview rewrite => rewrite.2.apply preview) preview, outcome.stop)

def appendPendingNotes (a : Agent) (callId : ToolCallId) (preview : String) : Agent × String :=
  let notes := a.state.behavior.run.pendingResults
  (a.withRun { a.state.behavior.run with pendingResults := notes.filter (·.1 != callId) },
    (notes.filter (·.1 == callId)).foldl (fun preview note => preview ++ "\n\n" ++ note.2) preview)

/-- Records a tool call's outcome: lets the rules see it, adds the result to the transcript, announces it,
    then decides what the agent does next. -/
def recordToolResult (a : Agent) (call : ToolCall) (executed hasError : Bool) (preview : String) :
    Agent × List AgentEffect :=
  let (a, effects, preview, stop) :=
    if executed then a.runPostToolRules call hasError preview else (a, [], preview, none)
  let (a, preview) := a.appendPendingNotes call.id preview
  let a := a.withUsage { a.usage with toolCalls := saturatingAdd a.usage.toolCalls 1 }
  let (a, _) := a.pushMessage .tool [.toolResult call.id ⟨hasError, preview⟩]
  andThen (a, effects ++ [.emit (.toolCallCompleted call.id ⟨hasError, preview⟩)]) fun a => a.nextAfterResult stop

def forgetCall (a : Agent) (callId : ToolCallId) : Agent :=
  (a.withPendingTools (a.state.pendingTools.erase callId)).withPendingPermissions
    (Table.retain (fun _ id => id != callId) a.state.pendingPermissions)

def toolCompleted (a : Agent) (callId : ToolCallId) (result : ToolResult) : Agent × List AgentEffect :=
  match a.state.pendingTools.lookup callId with
  | none => (a, [])
  | some pending =>
    ((a.forgetCall callId).withTimeouts 0).recordToolResult pending.call true result.isError
      result.output.display

def toolFailed (a : Agent) (callId : ToolCallId) (error : ToolError) : Agent × List AgentEffect :=
  match a.state.pendingTools.lookup callId with
  | none => (a, [])
  | some pending =>
    let timeouts := if error.isTimeout then a.state.consecutiveToolTimeouts + 1 else 0
    ((a.forgetCall callId).withTimeouts timeouts).recordToolResult pending.call error.executed
      true (error.preview pending.call.name)

def denyTool (a : Agent) (callId : ToolCallId) (ruleId : Option String) (reason : String) :
    Agent × List AgentEffect :=
  andThen (a, [.emit (.toolCallDenied callId ruleId reason)]) fun a => a.toolFailed callId (.denied reason)

def sessionCapability (a : Agent) (name : String) : Option ToolCapability :=
  (Table.values a.capabilities.tools.tools).find? fun capability =>
    capability.descriptor.name == name && capability.policy.enabled

/-- What the session grants for this tool. A tool the session does not offer, or has disabled, is a failed
    call. -/
def sessionPermission (a : Agent) (call : ToolCall) : Agent × Except (List AgentEffect) PermissionMode :=
  match a.sessionCapability call.name with
  | some capability => (a, .ok capability.policy.permission)
  | none =>
    let r := a.toolFailed call.id .permissionDenied
    (r.1, .error r.2)

/-- The profile narrows what the session grants: a tool outside its scope cannot run even if the model
    names it. -/
def requireProfileScope (a : Agent) (call : ToolCall) : Agent × Except (List AgentEffect) Unit :=
  let profile := a.state.behavior.profile
  if profile.allowsTool call.name then (a, .ok ())
  else
    let r := a.denyTool call.id none
      ("Tool " ++ call.name ++ " is not available under profile " ++ profile.reference.display ++ ".")
    (r.1, .error r.2)

/-- Lets the profile's rules see the request. The effects of the rules stand whether or not the call is
    admitted. A rule that stops the run refuses the call. -/
def evaluateRequestRules (a : Agent) (call : ToolCall) :
    Agent × List AgentEffect × Except (List AgentEffect) RuleOutcome :=
  let a := a.withBehavior (a.state.behavior.noteToolRequest call)
  let (a, effects, outcome) := a.runRules .preToolUse (some ⟨call, none⟩) (some call.id)
  match outcome.stop with
  | none => (a, effects, .ok outcome)
  | some stop =>
    let r := andThen (a.denyTool call.id (some stop.ruleId) stop.reason) fun a => a.behaviorStop stop
    (r.1, effects, .error r.2)

/-- The mode the session and the profile give, as a rule's decision changes it. A rule can tighten the
    permission to `ask`, and can relax `ask` to `allow`, but cannot lift a denial. -/
def decidedMode (mode : PermissionMode) (decision : Option ToolDecision) : PermissionMode :=
  match decision, mode with
  | some (.ask _), .allow => .ask
  | some (.allow _), .ask => .allow
  | _, mode => mode

def approvalFor (a : Agent) (call : ToolCall) (sessionMode : PermissionMode) (outcome : RuleOutcome) :
    Agent × Except (List AgentEffect) Approval :=
  let profile := a.state.behavior.profile
  match outcome.decision with
  | some (.deny ruleId reason) =>
    let r := a.denyTool call.id (some ruleId) reason
    (r.1, .error r.2)
  | decision =>
    match decidedMode (profile.permission call.name sessionMode) decision with
    | .allow => (a, .ok .allow)
    | .ask => (a, .ok .ask)
    | .deny =>
      let r := if sessionMode = .deny then a.toolFailed call.id .permissionDenied
        else a.denyTool call.id none
          ("Tool " ++ call.name ++ " is denied by profile " ++ profile.reference.display ++ ".")
      (r.1, .error r.2)

def rewritten (call : ToolCall) (outcome : RuleOutcome) : ToolCall :=
  { call with arguments := outcome.rewriteArgs.foldl (fun args patch => Rules.mergePatch args patch.2) call.arguments }

def patchPending (a : Agent) (call : ToolCall) : Agent :=
  match a.state.pendingTools.lookup call.id with
  | some pending =>
    a.withPendingTools (a.state.pendingTools.insert call.id { pending with call.arguments := call.arguments })
  | none => a

/-- Apply `rewrite_args` merge patches. The pending call is replaced, so approval prompts and execution see
    the rewritten arguments; the model is told what ran through a note on the result. -/
def rewriteArguments (a : Agent) (call : ToolCall) (outcome : RuleOutcome) : Agent × ToolCall :=
  if outcome.rewriteArgs.isEmpty then (a, call)
  else
    let call := rewritten call outcome
    let rules := Text.join "," (outcome.rewriteArgs.map (·.1))
    let note := Rules.systemReminder ("profile:" ++ a.state.behavior.reference.display ++ " rule:" ++ rules)
      ("The harness adjusted this call's arguments before running it: " ++ call.arguments.display)
    let run := a.state.behavior.run
    ((a.patchPending call).withRun { run with pendingResults := run.pendingResults ++ [(call.id, note)] }, call)

def requireToolBudget (a : Agent) (callId : ToolCallId) : Agent × Except (List AgentEffect) Unit :=
  match a.state.behavior.admitToolCall with
  | (behavior, true) => (a.withBehavior behavior, .ok ())
  | (behavior, false) =>
    let reason := if behavior.run.finalTurn then "No tools are available on the final turn. Answer in text."
      else "The tool-call budget for this run is exhausted. Answer with what you have."
    let r := (a.withBehavior behavior).denyTool callId none reason
    (r.1, .error r.2)

/-- Runs every check, in order. The effects the rules produce along the way come first, whether or not the
    call is finally admitted. -/
def admitToolCall (a : Agent) (call : ToolCall) :
    Agent × List AgentEffect × Except (List AgentEffect) (ToolCall × Approval) :=
  match a.sessionPermission call with
  | (a, .error refusal) => (a, [], .error refusal)
  | (a, .ok sessionMode) =>
    match a.requireProfileScope call with
    | (a, .error refusal) => (a, [], .error refusal)
    | (a, .ok ()) =>
      match a.evaluateRequestRules call with
      | (a, effects, .error refusal) => (a, effects, .error refusal)
      | (a, effects, .ok outcome) =>
        match a.approvalFor call sessionMode outcome with
        | (a, .error refusal) => (a, effects, .error refusal)
        | (a, .ok approval) =>
          let (a, call) := a.rewriteArguments call outcome
          match a.requireToolBudget call.id with
          | (a, .error refusal) => (a, effects, .error refusal)
          | (a, .ok ()) => (a, effects, .ok (call, approval))

def recordToolRequest (a : Agent) (call : ToolCall) : Agent × List AgentEffect :=
  let (a, _) := a.pushToolUse call
  let (a, startedAt) := a.nextTimestamp
  (a.withPendingTools (a.state.pendingTools.insert call.id ⟨call, startedAt⟩),
    [.emit (.toolCallRequested call)])

def executeNow (a : Agent) (from_ : AgentStatus) (call : ToolCall) : Agent × List AgentEffect :=
  (a.withStatus .executing, [stateChanged from_ .executing, .executeTool ⟨call, .allow⟩])

def askPermission (a : Agent) (from_ : AgentStatus) (call : ToolCall) : Agent × List AgentEffect :=
  let (a, permissionId) := (a.withStatus .waitingForPermission).nextPermissionId
  let request : PermissionRequest := ⟨permissionId, call, a.id⟩
  (a.withPendingPermissions (a.state.pendingPermissions.insert permissionId call.id),
    [stateChanged from_ .waitingForPermission, .emit (.permissionRequested request), .requestPermission request])

def startAdmittedCall (a : Agent) (from_ : AgentStatus) (call : ToolCall) : Approval → Agent × List AgentEffect
  | .allow => a.executeNow from_ call
  | .ask => a.askPermission from_ call

def toolRequested (a : Agent) (call : ToolCall) : Agent × List AgentEffect :=
  let from_ := a.state.status
  andThen (a.recordToolRequest call) fun a =>
    match a.admitToolCall call with
    | (a, effects, .ok (call, approval)) => andThen (a, effects) fun a => a.startAdmittedCall from_ call approval
    | (a, effects, .error refusal) => (a, effects ++ refusal)

def permissionResolved (a : Agent) (id : PermissionId) (decision : PermissionDecision) : Agent × List AgentEffect :=
  match a.state.pendingPermissions.lookup id with
  | none => (a, [])
  | some callId =>
    let a := a.withPendingPermissions (a.state.pendingPermissions.erase id)
    match a.state.pendingTools.lookup callId with
    | none => (a, [])
    | some pending =>
      match decision with
      | .approved =>
        (a.withStatus .executing,
          [stateChanged .waitingForPermission .executing, .executeTool ⟨pending.call, .allow⟩])
      | .denied => a.toolFailed callId .permissionDenied

end Agent

end RustyCore
