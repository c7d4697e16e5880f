import RustyCore.Behavior.Definition

/-! Tools that share another tool's grant without being the same tool. An alias follows another tool
    everywhere; a granted-with tool is merely admitted wherever another tool is. -/

namespace RustyCore

/-- `(alias, the tool it follows)`. -/
def aliases : List (String × String) :=
  [("edit_file", "write_file"), ("run_check", "run_command"), ("install_dependencies", "run_command")]

/-- `(tool, the tool whose grant admits it)`. -/
def grantedWith : List (String × String) :=
  [("project_info", "read_file"), ("request_research", "read_file"), ("repo_context", "read_file"),
    ("repo_wiki", "read_file"), ("spec_context", "read_file"), ("repo_overview", "read_file"),
    ("repo_health", "read_file"), ("repo_risk", "read_file"), ("repo_symbol", "read_file"),
    ("code_guidelines", "read_file"), ("job_output", "run_command")]

def alwaysAdmitted : List String :=
  ["repo_overview", "repo_health", "repo_risk", "repo_symbol", "code_guidelines"]

/-- The tool `name` follows in rules, history, allow-lists and permissions, when `name` is an alias. -/
def followedTool (name : String) : Option String := aliases.lookup name

/-- The tool whose grant also admits `name`: what it follows, or what it is granted with. -/
def grantedBy (name : String) : Option String := (followedTool name).or (grantedWith.lookup name)

/-- `all` with `tool` at its end, unless it is listed. -/
def pushNew (all : List String) (tool : String) : List String := if all.contains tool then all else all ++ [tool]

/-- `tools` plus every tool a listed tool's grant also admits. Any tool at all brings those always admitted. Order is
    kept and nothing is listed twice. -/
def withAliases (tools : List String) : List String :=
  let granted := (aliases ++ grantedWith).foldl
    (fun all (admitted, granting) => if tools.contains granting then pushNew all admitted else all) tools
  if tools.isEmpty then granted else alwaysAdmitted.foldl pushNew granted

/-! Turning a profile document into a compiled profile, or reporting everything wrong with it, and what a
    compiled profile answers. -/

/-- One problem in a profile document, located by a path such as `rules[2].when`. -/
structure ProfileIssue where
  path : String
  code : String
  message : String
deriving DecidableEq

namespace Compiler

def issue (path code message : String) : List ProfileIssue := [⟨path, code, message⟩]

def reject (bad : Bool) (path code message : String) : List ProfileIssue :=
  if bad then issue path code message else []

def requireText (path text message : String) : List ProfileIssue :=
  reject (Text.isBlank text) path "empty_text" message

def isBlankOption (text : Option String) : Bool := text.any Text.isBlank

def atIndex (path : String) (index : Nat) : String := path ++ "[" ++ toString index ++ "]"

/-! ### Profile checks -/

def checkIdentity (p : BehaviorProfile) : List ProfileIssue :=
  reject (p.schemaVersion != behaviorSchemaVersion) "schema_version" "unsupported_schema_version"
      ("expected version " ++ toString behaviorSchemaVersion ++ ", got " ++ toString p.schemaVersion) ++
    reject (Text.isBlank p.id) "id" "empty_id" "profile id cannot be empty" ++
    reject (p.revision == 0) "revision" "invalid_revision" "revision must be at least 1" ++
    reject (Text.isBlank p.name) "name" "empty_name" "profile name cannot be empty"

def checkInstructions [Externals] (p : BehaviorProfile) : List ProfileIssue :=
  (p.instructions.variants.flatMap fun (family, text) =>
    let path := "instructions.variants." ++ family
    reject (Text.isBlank family || family != Externals.toLowercase family) path "invalid_variant_key"
        "variant keys must be non-empty lowercase model-family substrings" ++
      reject (Text.isBlank text) path "empty_variant" "variant text cannot be empty") ++
    reject (p.instructions.mode == .replace && Text.isBlank p.instructions.text && p.instructions.variants.isEmpty)
      "instructions.text" "empty_replacement"
      "replace mode needs instruction text; it would otherwise erase the system prompt"

def checkAllowList (seen : List String) : List String → List ProfileIssue
  | [] => []
  | tool :: rest =>
    if Text.isBlank tool then
      issue "tools" "invalid_tool_reference" "tool ids cannot be empty" ++ checkAllowList seen rest
    else if seen.contains tool then
      issue "tools" "duplicate_tool" ("tool " ++ tool ++ " is listed twice") ++ checkAllowList seen rest
    else checkAllowList (tool :: seen) rest

def checkTools (p : BehaviorProfile) : List ProfileIssue :=
  (match p.tools with
    | .allowList tools => checkAllowList [] tools
    | _ => []) ++
    p.toolOverrides.flatMap fun (tool, override) =>
      let path := "tool_overrides." ++ tool
      reject (Text.isBlank tool) path "invalid_tool_reference" "tool ids cannot be empty" ++
        reject (isBlankOption override.descriptionAppend) path "empty_description_append"
          "description_append cannot be empty"

def checkExecutionAndLimits (p : BehaviorProfile) : List ProfileIssue :=
  reject (p.execution.temperature.any fun t => !(decide (0 ≤ t) && decide (t ≤ 2))) "execution.temperature"
      "invalid_temperature" "temperature must be between 0 and 2" ++
    reject (p.execution.maxTokens == some 0) "execution.max_tokens" "invalid_max_tokens"
      "max_tokens must be at least 1" ++
    reject (isBlankOption p.execution.model) "execution.model" "empty_model" "model cannot be empty" ++
    reject (p.limits.maxTurns == some 0) "limits.max_turns" "invalid_limit" "max_turns must be at least 1" ++
    reject (isBlankOption p.limits.finalTurnPrompt) "limits.final_turn_prompt" "empty_final_turn_prompt"
      "final_turn_prompt cannot be empty"

/-! ### Condition checks -/

def checkNames (names : NameMatch) (path : String) : List ProfileIssue :=
  reject (names.patterns.isEmpty || names.patterns.any Text.isBlank) path "invalid_tool_reference"
    "tool patterns cannot be empty"

def checkComparison (comparison : Comparison) (path : String) : List ProfileIssue :=
  reject comparison.isEmpty path "empty_comparison" "give at least one of eq, gte, lte"

def checkArg (arg : ArgMatch) (path : String) : List ProfileIssue :=
  reject (!arg.pointer.isEmpty && !Text.startsWith arg.pointer "/") (path ++ ".arg.pointer") "invalid_pointer"
      "use JSON Pointer syntax: empty or starting with '/'" ++
    reject (arg.glob.isNone && arg.contains.isNone && arg.equals.isNone) (path ++ ".arg") "empty_match"
      "give at least one of glob, contains, equals"

def checkFinalStatus (names : NameMatch) (path : String) : List ProfileIssue :=
  reject (names.patterns.isEmpty || names.patterns.any Text.isBlank) (path ++ ".final_status") "empty_match"
    "final_status patterns cannot be empty"

def requireToolEvent (event : RuleEvent) (what path : String) : List ProfileIssue :=
  reject (!event.isToolEvent) path "condition_not_available"
    (what ++ " needs a tool event, not " ++ event.name)

def requirePostToolEvent (event : RuleEvent) (path : String) : List ProfileIssue :=
  reject (!(event == .postToolUse || event == .postToolUseFailure)) path "condition_not_available"
    ("result_contains needs a post-tool event, not " ++ event.name)

def requireEvent (event wanted : RuleEvent) (needs path : String) : List ProfileIssue :=
  reject (event != wanted) path "condition_not_available" (needs ++ ", not " ++ event.name)

mutual

def checkCondition (event : RuleEvent) (path : String) : Condition → List ProfileIssue
  | .tool names => requireToolEvent event "tool" path ++ checkNames names (path ++ ".tool")
  | .arg arg => requireToolEvent event "arg" path ++ checkArg arg path
  | .resultContains _ => requirePostToolEvent event path
  | .repeatedCall comparison =>
    requireEvent event .preToolUse "repeated_call needs PreToolUse" path ++
      checkComparison comparison (path ++ ".repeated_call")
  | .turn comparison => checkComparison comparison (path ++ ".turn")
  | .toolOffered names => checkNames names (path ++ ".tool_offered")
  | .calls count | .turnsSinceCall count =>
    checkNames count.tool (path ++ ".tool") ++ checkComparison count.comparison path
  | .sinceLastCall since =>
    checkNames since.of (path ++ ".since_last_call.of") ++
      checkNames since.called (path ++ ".since_last_call.called") ++
      checkComparison since.comparison (path ++ ".since_last_call")
  | .finalStatus names => checkFinalStatus names path
  | .all conditions | .any conditions =>
    reject conditions.isEmpty path "empty_combinator" "all/any need at least one condition" ++
      checkConditions event path 0 conditions
  | .not inner => checkCondition event (path ++ ".not") inner
  | .profileEnteredFrom names =>
    requireEvent event .profileEntered "profile_entered_from needs ProfileEntered" path ++
      checkNames names (path ++ ".profile_entered_from")

def checkConditions (event : RuleEvent) (path : String) (index : Nat) : List Condition → List ProfileIssue
  | [] => []
  | c :: rest => checkCondition event (atIndex path index) c ++ checkConditions event path (index + 1) rest

end

/-! ### Gate checks -/

def maxTranscriptMessages : Nat := 200

mutual

/-- Gate conditions run when the model proposes to finish, so there is no tool call to inspect. -/
def checkGateCondition (path : String) : Condition → List ProfileIssue
  | .tool names => gateUnavailable path ++ checkCondition .beforeModelRequest path (.tool names)
  | .arg arg => gateUnavailable path ++ checkCondition .beforeModelRequest path (.arg arg)
  | .resultContains needle =>
    gateUnavailable path ++ checkCondition .beforeModelRequest path (.resultContains needle)
  | .repeatedCall comparison =>
    gateUnavailable path ++ checkCondition .beforeModelRequest path (.repeatedCall comparison)
  | .profileEnteredFrom names =>
    gateUnavailable path ++ checkCondition .beforeModelRequest path (.profileEnteredFrom names)
  | .all conditions =>
    checkGateConditions path 0 conditions ++ checkCondition .beforeModelRequest path (.all conditions)
  | .any conditions =>
    checkGateConditions path 0 conditions ++ checkCondition .beforeModelRequest path (.any conditions)
  | .not inner =>
    checkGateCondition (path ++ ".not") inner ++ checkCondition .beforeModelRequest path (.not inner)
  | c => checkCondition .beforeModelRequest path c

def checkGateConditions (path : String) (index : Nat) : List Condition → List ProfileIssue
  | [] => []
  | c :: rest => checkGateCondition (atIndex path index) c ++ checkGateConditions path (index + 1) rest

def gateUnavailable (path : String) : List ProfileIssue :=
  issue path "condition_not_available"
    "tool, arg, result_contains and repeated_call are not available in a completion gate"

end

def checkModelName (model : Option String) (path : String) : List ProfileIssue :=
  reject (isBlankOption model) path "empty_model" "model cannot be empty"

def checkTranscriptLimit (transcriptMessages : Nat) (path : String) : List ProfileIssue :=
  reject (maxTranscriptMessages < transcriptMessages) path "invalid_limit" "transcript_messages must be at most 200"

def checkEvaluator (path : String) : EvaluatorSpec → List ProfileIssue
  | .tool tool _ _ =>
    reject (Text.isBlank tool) path "invalid_tool_reference" "evaluator tool cannot be empty"
  | .model instructions model transcriptMessages =>
    requireText path instructions "model evaluator instructions cannot be empty" ++
      checkModelName model path ++ checkTranscriptLimit transcriptMessages path
  | .agent instructions tools model maxTurns transcriptMessages =>
    requireText path instructions "agent evaluator instructions cannot be empty" ++
      reject (tools.any Text.isBlank) path "invalid_tool_reference" "tool ids cannot be empty" ++
      checkModelName model path ++
      reject (!(1 ≤ maxTurns && maxTurns ≤ 50)) path "invalid_limit" "max_turns must be between 1 and 50" ++
      checkTranscriptLimit transcriptMessages path
  | .command command timeoutMs =>
    requireText path command "command cannot be empty" ++
      reject (!(1 ≤ timeoutMs && timeoutMs ≤ 600000)) path "invalid_limit" "timeout_ms must be between 1 and 600000"

/-- A check is either a `require` condition with feedback, or an `evaluator`; never both or neither. -/
def checkCheckBody (check : GateCheck) (path : String) : List ProfileIssue :=
  match check.require, check.evaluator with
  | some condition, none =>
    checkGateCondition (path ++ ".require") condition ++
      reject (check.feedback.all Text.isBlank) (path ++ ".feedback") "missing_feedback"
        "a `require` check needs feedback to send back when it fails"
  | none, some evaluator => checkEvaluator (path ++ ".evaluator") evaluator
  | _, _ => issue path "invalid_check" "a check needs exactly one of `require` or `evaluator`"

def checkId (seen : List String) (id path emptyMessage duplicateCode duplicateMessage : String) : List ProfileIssue :=
  if Text.isBlank id then issue path "empty_id" emptyMessage
  else reject (seen.contains id) path duplicateCode duplicateMessage

def nextSeen (seen : List String) (id : String) : List String := if Text.isBlank id then seen else id :: seen

def checkChecks (seen : List String) (index : Nat) : List GateCheck → List ProfileIssue
  | [] => []
  | check :: rest =>
    let path := atIndex "completion_gate.checks" index
    checkId seen check.id (path ++ ".id") "check id cannot be empty" "duplicate_check_id"
        ("check id " ++ check.id ++ " is used twice") ++
      checkCheckBody check path ++ checkChecks (nextSeen seen check.id) (index + 1) rest

def checkGate (gate : CompletionGate) : List ProfileIssue :=
  reject gate.checks.isEmpty "completion_gate.checks" "empty_gate" "a completion gate needs at least one check" ++
    checkChecks [] 0 gate.checks

/-! ### Rule checks -/

def requirePreToolUse (event : RuleEvent) (action path : String) : List ProfileIssue :=
  reject (event != .preToolUse) path "action_not_available" (action ++ " is only available on PreToolUse")

def checkInject (inject : Inject) (event : RuleEvent) (path : String) : List ProfileIssue :=
  requireText path inject.text "inject text cannot be empty" ++
    match inject.placement with
    | some placement =>
      reject (!placement.allowedOn event) path "placement_not_available"
        ("placement " ++ placement.name ++ " is not available on " ++ event.name)
    | none => []

def checkAction (action : Action) (event : RuleEvent) (path : String) : List ProfileIssue :=
  match action with
  | .inject inject => checkInject inject event path
  | .deny reason =>
    requireText path reason "deny reason cannot be empty" ++ requirePreToolUse event "deny" path
  | .ask _ | .allow => requirePreToolUse event action.name path
  | .stopRun reason => requireText path reason "stop_run reason cannot be empty"
  | .switchProfile profile =>
    reject (Text.isBlank profile.id) path "invalid_profile_reference" "switch target id cannot be empty"
  | .rewriteArgs merge =>
    requirePreToolUse event "rewrite_args" path ++
      reject (!merge.isObject) path "invalid_merge_patch"
        "rewrite_args.merge must be a JSON object (RFC 7396 merge patch)"
  | .rewriteResult replace append =>
    reject (!(event == .postToolUse || event == .postToolUseFailure)) path "action_not_available"
        "rewrite_result is only available on post-tool events" ++
      reject (replace.isSome == append.isSome) path "invalid_rewrite"
        "rewrite_result needs exactly one of replace or append"

def checkRules (seen : List String) (index : Nat) : List Rule → List ProfileIssue
  | [] => []
  | rule :: rest =>
    let path := atIndex "rules" index
    checkId seen rule.id (path ++ ".id") "rule id cannot be empty" "duplicate_rule_id"
        ("rule id " ++ rule.id ++ " is used twice") ++
      reject (rule.maxFires == some 0) (path ++ ".max_fires") "invalid_limit" "max_fires must be at least 1" ++
      (match rule.when with
        | some condition => checkCondition rule.on (path ++ ".when") condition
        | none => []) ++
      checkAction rule.action rule.on (path ++ ".do") ++ checkRules (nextSeen seen rule.id) (index + 1) rest

def checkRulesAndChildren (p : BehaviorProfile) : List ProfileIssue :=
  checkRules [] 0 p.rules ++
    (match p.completionGate with
      | some gate => checkGate gate
      | none => []) ++
    match p.children with
    | .inherit => []
    | policy =>
      issue "children.type" "unsupported_child_policy"
        ("child policy `" ++ policy.typeName ++ "` is reserved; only `inherit` is supported")

def issues [Externals] (p : BehaviorProfile) : List ProfileIssue :=
  checkIdentity p ++ checkInstructions p ++ checkTools p ++ checkExecutionAndLimits p ++ checkRulesAndChildren p

end Compiler

/-- A validated profile plus its content hash. Only `compile` builds one in the source, so a value carries
    what `compile` checked. -/
structure CompiledProfile [Externals] where
  profile : BehaviorProfile
  contentHash : String
  valid : Compiler.issues profile = []
  hashed : contentHash = RustyCore.contentHash profile

def compile [Externals] (profile : BehaviorProfile) : Except (List ProfileIssue) CompiledProfile :=
  if h : Compiler.issues profile = [] then .ok ⟨profile, contentHash profile, h, rfl⟩
  else .error (Compiler.issues profile)

theorem compile_profile [Externals] (p : CompiledProfile) : compile p.profile = .ok p := by
  obtain ⟨profile, hash, hvalid, rfl⟩ := p
  rw [compile, dif_pos hvalid]

theorem compile_eq [Externals] {profile : BehaviorProfile} {compiled : CompiledProfile}
    (h : compile profile = .ok compiled) : compiled.profile = profile := by
  unfold compile at h
  split at h
  · cases h
    rfl
  · cases h

theorem issues_defaultProfileDefinition [Externals] : Compiler.issues defaultProfileDefinition = [] := rfl

def defaultProfile [Externals] : CompiledProfile :=
  ⟨defaultProfileDefinition, contentHash defaultProfileDefinition, issues_defaultProfileDefinition, rfl⟩

namespace CompiledProfile

variable [Externals] (p : CompiledProfile)

def switchTargets : List ProfileRef :=
  p.profile.rules.filterMap fun rule =>
    match rule.action with
    | .switchProfile profile => some profile
    | _ => none

def reference : ProfileRef := ⟨p.profile.id, some p.profile.revision⟩

/-- The system prompt with the profile's instructions applied, choosing a per-model variant when one
    matches `model`. -/
def systemPrompt (base : String) (model : Option String) : String :=
  let instructions := p.profile.instructions
  let variant := (model.map Externals.toLowercase).bind fun model =>
    (instructions.variants.find? fun (family, _) => Text.contains model family).map (·.2)
  let text := variant.getD instructions.text
  match instructions.mode with
  | .replace => text
  | .append => if text.isEmpty then base else if base.isEmpty then text else base ++ "\n\n" ++ text

def allowsTool (tool : String) : Bool :=
  match p.profile.tools with
  | .none => false
  | .allowList tools =>
    (!tools.isEmpty && alwaysAdmitted.contains tool) ||
      tools.any fun allowed => allowed == tool || grantedBy tool == some allowed
  | .inherit => true

def sessionLevel : PermissionMode → ToolPermission
  | .allow => .allow
  | .ask => .ask
  | .deny => .deny

def modeOf : ToolPermission → PermissionMode
  | .allow => .allow
  | .ask => .ask
  | .deny => .deny

/-- The effective permission: the stricter of the session's and the profile's. An override on the tool
    whose grant covers this one binds it too. -/
def permission (tool : String) (session : PermissionMode) : PermissionMode :=
  let overrideLevel := fun name => (p.profile.toolOverrides.lookup name).bind (·.permission)
  let profileLevel := match overrideLevel tool, (grantedBy tool).bind overrideLevel with
    | some a, some b => a.max b
    | some a, none | none, some a => a
    | none, none => .allow
  modeOf ((sessionLevel session).max profileLevel)

def toolDescription (tool description : String) : String :=
  match (p.profile.toolOverrides.lookup tool).bind (·.descriptionAppend) with
  | some extra => if description.isEmpty then extra else description ++ "\n\n" ++ extra
  | none => description

def executionParams (session : ExecutionParams) : ExecutionParams :=
  let overlay := p.profile.execution
  { session with
    model := overlay.model.or session.model
    maxTokens := overlay.maxTokens.or session.maxTokens
    temperature := overlay.temperature.or session.temperature
    reasoningEffort := overlay.reasoningEffort.or session.reasoningEffort }

end CompiledProfile

end RustyCore
