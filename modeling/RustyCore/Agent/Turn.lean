import RustyCore.Agent.Transcript

/-! Failing a run, applying what a rule decides, switching profiles, and preparing one turn. -/

namespace RustyCore

def appendToLastResult (text : String) (content : List ContentBlock) : Option (List ContentBlock) :=
  (go content.reverse).map List.reverse
where
  go : List ContentBlock → Option (List ContentBlock)
    | [] => none
    | .toolResult callId result :: rest =>
      some (.toolResult callId { result with outputPreview := result.outputPreview ++ "\n\n" ++ text } :: rest)
    | block :: rest => (go rest).map (block :: ·)

/-- Append harness text to the end of an outgoing request without touching the canonical transcript. A
    request ending in tool results carries the text on the last result. -/
def appendToRequestTail (messages : List AgentMessage) (text : String) : List AgentMessage :=
  match messages.getLast? with
  | none => messages
  | some last =>
    let content := match (if last.role = .tool then appendToLastResult text last.content else none) with
      | some content => content
      | none => last.content ++ [.text text]
    messages.dropLast ++ [{ last with content := content }]

section

variable [Externals]

/-- Compile a profile and its switch library, and check that every switch target reachable from the
    profile resolves within the library. -/
def installBundle (profile : Value) (library : List Value) : Option (CompiledProfile × ProfileRegistry) := do
  let profile ← (compile (← Externals.decodeProfile profile)).toOption
  let documents ← library.mapM Externals.decodeProfile
  let registry ← (ProfileRegistry.fromLibrary (documents ++ [profile.profile])).toOption
  let _ ← (registry.resolveClosure profile).toOption
  pure (profile, registry)

namespace Agent

def fail (a : Agent) (code message : String) : Agent × List AgentEffect :=
  let a := a.discardTrailingEmptyAssistantMessage
  let from_ := a.state.status
  let error : AgentError := ⟨message, code, none⟩
  let a := { a with
    state.status := .failed
    state.activeRun := none
    state.backendInFlight := false
    state.lastError := some error
    usage.runs := saturatingAdd a.usage.runs 1 }
  (a, [stateChanged from_ .failed, .emit (.failed error), .finishRun ⟨message, a.terminalUsageSummary, none⟩])

def behaviorStop (a : Agent) (stop : RuleStop) : Agent × List AgentEffect :=
  a.fail "BEHAVIOR_STOP" ("stopped by rule " ++ stop.ruleId ++ ": " ++ stop.reason)

def queueRequestText (a : Agent) (text : String) : Agent :=
  a.withRun { a.state.behavior.run with pendingRequest := a.state.behavior.run.pendingRequest ++ [text] }

/-- Route injected context to where its placement says. `with_result` text is held for `callId` until its
    result is recorded. -/
def placeInjection (a : Agent) (injection : Injection) (callId : Option ToolCallId) : Agent :=
  match injection.placement, callId with
  | .withResult, some callId =>
    a.withRun { a.state.behavior.run with
      pendingResults := a.state.behavior.run.pendingResults ++ [(callId, injection.text)] }
  | .persistent, _ =>
    match a.state.messages.getLast?.filter (·.role == .user) with
    | some message => a.setTrailingMessage { message with content := message.content ++ [.text injection.text] }
    | none => a
  | _, _ => a.queueRequestText injection.text

def ruleFired (profile : String) (fired : FiredRule) : AgentEffect :=
  .emit (.behaviorRuleFired profile fired.ruleId fired.event.name fired.action)

def contextInjected (profile : String) (injection : Injection) : AgentEffect :=
  .emit (.contextInjected ("profile:" ++ profile ++ " rule:" ++ injection.ruleId) injection.placement.name
    injection.text.length)

/-- The switch a rule asked for waits for the next request. A target missing from the library is only
    asserted against in debug builds. -/
def requestSwitch (a : Agent) (outcome : RuleOutcome) : Agent :=
  match outcome.switch with
  | none => a
  | some (_, target) =>
    match a.state.behavior.resolveSwitch target with
    | some next => a.withPendingProfile (some (next, a.state.behavior.library))
    | none => a

def applyRuleOutcome (a : Agent) (outcome : RuleOutcome) (callId : Option ToolCallId) : Agent × List AgentEffect :=
  let profile := a.state.behavior.reference.display
  let placed := outcome.injections.foldl (fun a injection => a.placeInjection injection callId) a
  (placed.requestSwitch outcome,
    outcome.fired.map (ruleFired profile) ++ outcome.injections.map (contextInjected profile))

def runRules (a : Agent) (event : RuleEvent) (tool : Option ToolEvent) (callId : Option ToolCallId) :
    Agent × List AgentEffect × RuleOutcome :=
  let (behavior, outcome) := a.state.behavior.evaluate event tool
  let (a, effects) := (a.withBehavior behavior).applyRuleOutcome outcome callId
  (a, effects, outcome)

/-- Make `profile` active. Counters start fresh and the switch is announced (and `ProfileEntered` rules
    fire) before the next request. -/
def applySwitch (a : Agent) (profile : CompiledProfile) (library : ProfileRegistry) : Agent × List AgentEffect :=
  let from_ := a.state.behavior.reference
  if a.state.behavior.profile.contentHash = profile.contentHash then
    (a.withBehavior (a.state.behavior.withLibrary library), [])
  else
    let a := a.withBehavior (a.state.behavior.switchedTo profile library)
    let changed : AgentEffect := .emit (.profileChanged from_.display a.state.behavior.reference.display)
    if a.state.activeRun.isSome ∧ a.state.behavior.run.switches > maxSwitchesPerRun then
      andThen (a, [changed]) fun a => a.fail "BEHAVIOR_SWITCH_LOOP"
        ("more than " ++ toString maxSwitchesPerRun ++ " profile switches in one run (last to " ++
          a.state.behavior.reference.display ++ ")")
    else (a, [changed])

def takePendingSwitch (a : Agent) : Agent × List AgentEffect :=
  match a.state.pendingProfile with
  | some (profile, library) => (a.withPendingProfile none).applySwitch profile library
  | none => (a, [])

/-- Install a profile and its switch library. An invalid bundle is ignored (and only asserted against in
    debug builds). An idle agent switches at once; during a run the switch applies before the next model
    request. -/
def setBehaviorProfile (a : Agent) (profile : Value) (library : List Value) (allowCommands : Bool) :
    Agent × List AgentEffect :=
  let a := a.withBehavior (a.state.behavior.withCommandsTrusted allowCommands)
  match installBundle profile library with
  | none => (a, [])
  | some (compiled, library) =>
    if a.state.activeRun.isSome then (a.withPendingProfile (some (compiled, library)), [])
    else a.applySwitch compiled library

def enteredRules (a : Agent) (from_ : ProfileRef) : Agent × Except (List AgentEffect) (List AgentEffect) :=
  let (behavior, outcome) := a.state.behavior.evaluateEntered from_.id
  let r := (a.withBehavior behavior).applyRuleOutcome outcome none
  match outcome.stop with
  | some stop =>
    let r := andThen r fun a => a.behaviorStop stop
    (r.1, .error r.2)
  | none => (r.1, .ok r.2)

def modeReminder (a : Agent) (from_ : EnteredFrom) : String :=
  let behavior := a.state.behavior
  let tools := ((a.capabilities.tools.enabledDescriptors.map (·.name)).filter behavior.profile.allowsTool).insertionSort
    (· ≤ ·)
  "Your operating mode changed from " ++ from_.name ++ " to " ++ behavior.profile.profile.name ++
    ". Tools available now: " ++ (if tools.isEmpty then "none" else Text.join ", " tools) ++
    ". Follow the instructions for this mode from here on."

/-- Tell the model its mode changed (only when there is earlier conversation to reinterpret) and fire
    `ProfileEntered` rules. When they stop the run, the injection is not announced. -/
def enterProfile (a : Agent) (from_ : EnteredFrom) : Agent × Except (List AgentEffect) (List AgentEffect) :=
  if a.state.messages.any (·.role == .assistant) then
    let source := "profile:" ++ a.state.behavior.reference.display
    let reminder := Rules.systemReminder source (a.modeReminder from_)
    let injected : AgentEffect := .emit (.contextInjected source Placement.nextRequest.name reminder.length)
    let r := (a.queueRequestText reminder).enteredRules from_.profile
    (r.1, r.2.map (injected :: ·))
  else a.enteredRules from_.profile

def announceProfile (a : Agent) : Agent × Except (List AgentEffect) (List AgentEffect) :=
  match a.state.behavior.enteredFrom with
  | some from_ => (a.withBehavior { a.state.behavior with enteredFrom := none }).enterProfile from_
  | none => (a, .ok [])

/-- Count a new model request against the profile's limits. Fails with the effects of the failure: the
    model kept calling tools after its final turn, or a rule or a switch loop stopped the run. On success,
    returns the effects of the switch and of the rules. -/
def beginTurn (a : Agent) : Agent × Except (List AgentEffect) (List AgentEffect) :=
  let switched := a.takePendingSwitch
  -- only a switch that was made can have failed the run
  if a.state.pendingProfile.isSome ∧ switched.1.state.status = .failed then (switched.1, .error switched.2)
  else
    match switched.1.announceProfile with
    | (a, .error failure) => (a, .error (switched.2 ++ failure))
    | (a, .ok entered) =>
      match a.state.behavior.beginTurn with
      | (behavior, .exceeded) =>
        -- the effects collected so far are dropped here
        let r := (a.withBehavior behavior).fail "BEHAVIOR_LIMIT_EXCEEDED"
          ("the model requested tools after its final turn under profile " ++ behavior.reference.display)
        (r.1, .error r.2)
      | (behavior, _) =>
        let (a, effects, outcome) := (a.withBehavior behavior).runRules .beforeModelRequest none none
        let effects := switched.2 ++ entered ++ effects
        match outcome.stop with
        | some stop =>
          let r := andThen (a, effects) fun a => a.behaviorStop stop
          (r.1, .error r.2)
        | none => (a, .ok effects)

def configureExecution (a : Agent) (params : ExecutionParams) : Agent × List AgentEffect :=
  ({ a with state.executionParams := a.state.executionParams.mergeOver params }, [])

def offeredTools (a : Agent) : List ToolDescriptor :=
  if a.state.behavior.run.finalTurn then []
  else
    (a.capabilities.tools.enabledDescriptors.filter fun d => a.state.behavior.profile.allowsTool d.name).map fun d =>
      { d with description := a.state.behavior.profile.toolDescription d.name d.description }

/-- Build the request for a model call. `reissue` rebuilds the request for a turn already counted (resume
    after pause): it repeats that turn's injected context instead of consuming new pending context. -/
def buildRequest (a : Agent) (runId : RunId) (reissue : Bool) : Agent × ExecutionRequest :=
  let profile := a.state.behavior.profile
  let finalTurn := a.state.behavior.run.finalTurn
  let tools := a.offeredTools
  let behavior := if finalTurn then a.state.behavior else a.state.behavior.noteOffered (tools.map (·.name))
  let behavior := if reissue then behavior else
    { behavior with run.lastRequest := behavior.run.pendingRequest, run.pendingRequest := [] }
  let params := profile.executionParams a.state.executionParams
  let messages := behavior.run.lastRequest.foldl appendToRequestTail a.state.messages
  let messages := match finalTurn, profile.profile.limits.finalTurnPrompt with
    | true, some prompt =>
      appendToRequestTail messages (Rules.systemReminder ("profile:" ++ profile.reference.display) prompt)
    | _, _ => messages
  let (a, requestId) := ((a.withInFlight true).withBehavior behavior).nextRequestId
  (a, {
    requestId := requestId
    runId := runId
    systemPrompt := profile.systemPrompt a.state.systemPrompt params.model
    messages := messages
    tools := tools
    extendedThinking := params.extendedThinking.getD false
    params := params })

def executionRequest (a : Agent) (runId : RunId) : Agent × ExecutionRequest := a.buildRequest runId false

end Agent

end

end RustyCore
