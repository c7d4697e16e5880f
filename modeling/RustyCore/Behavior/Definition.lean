import RustyCore.Protocol.Commands

/-! Behavior profiles: the documents that say what an agent is told, which tools it may use, how its loop is
    bounded and what a final answer must pass. -/

namespace RustyCore

def behaviorSchemaVersion : Nat := 1

abbrev ProfileId := String

structure ProfileRef where
  id : ProfileId
  revision : Option Nat
deriving DecidableEq

def ProfileRef.display (ref : ProfileRef) : String :=
  match ref.revision with
  | some revision => ref.id ++ "@" ++ toString revision
  | none => ref.id ++ "@latest"

inductive DefinitionStatus where
  | draft
  | published
  | deprecated
deriving DecidableEq

inductive InstructionMode where
  | append
  | replace
deriving DecidableEq

structure Instructions where
  mode : InstructionMode := .append
  text : String := ""
  variants : List (String × String) := []

inductive ToolScope where
  | none
  | allowList (tools : List String)
  | inherit

inductive ToolPermission where
  | allow
  | ask
  | deny
deriving DecidableEq

def ToolPermission.rank : ToolPermission → Nat
  | .allow => 0
  | .ask => 1
  | .deny => 2

def ToolPermission.max (a b : ToolPermission) : ToolPermission := if a.rank ≤ b.rank then b else a

structure ToolOverride where
  permission : Option ToolPermission := none
  descriptionAppend : Option String := none

structure ExecutionOverlay where
  model : Option String := none
  maxTokens : Option Nat := none
  temperature : Option Rat := none
  reasoningEffort : Option ReasoningEffort := none

structure Limits where
  maxTurns : Option Nat := none
  maxToolCalls : Option Nat := none
  finalTurnPrompt : Option String := none

inductive ChildPolicy where
  | inherit
  | named (profile : ProfileRef)
  | derived (overrides : Value)
  | policy (reference : ProfileRef)

def ChildPolicy.typeName : ChildPolicy → String
  | .inherit => "inherit"
  | .named _ => "named"
  | .derived _ => "derived"
  | .policy _ => "policy"

inductive RuleEvent where
  | runStart
  | beforeModelRequest
  | preToolUse
  | postToolUse
  | postToolUseFailure
  | profileEntered
deriving DecidableEq

def RuleEvent.name : RuleEvent → String
  | .runStart => "RunStart"
  | .beforeModelRequest => "BeforeModelRequest"
  | .preToolUse => "PreToolUse"
  | .postToolUse => "PostToolUse"
  | .postToolUseFailure => "PostToolUseFailure"
  | .profileEntered => "ProfileEntered"

def RuleEvent.isToolEvent : RuleEvent → Bool
  | .preToolUse | .postToolUse | .postToolUseFailure => true
  | _ => false

inductive NameMatch where
  | one (pattern : String)
  | any (patterns : List String)

def NameMatch.patterns : NameMatch → List String
  | .one pattern => [pattern]
  | .any patterns => patterns

structure ArgMatch where
  pointer : String
  glob : Option String := none
  contains : Option String := none
  equals : Option Value := none

structure Comparison where
  eq : Option Nat := none
  gte : Option Nat := none
  lte : Option Nat := none

namespace Comparison

def isEmpty (c : Comparison) : Bool := c.eq.isNone && c.gte.isNone && c.lte.isNone

def holds (c : Comparison) (value : Nat) : Bool :=
  c.eq.all (value == ·) && c.gte.all (· ≤ value) && c.lte.all (value ≤ ·)

end Comparison

inductive CallOutcome where
  | any
  | succeeded
  | failed

def CallOutcome.admits : CallOutcome → Bool → Bool
  | .any, _ => true
  | .succeeded, isError => !isError
  | .failed, isError => isError

structure ToolCount where
  tool : NameMatch
  outcome : CallOutcome := .any
  comparison : Comparison

structure SinceLastCall where
  of : NameMatch
  called : NameMatch
  outcome : CallOutcome := .any
  comparison : Comparison

inductive Condition where
  | tool (names : NameMatch)
  | arg (arg : ArgMatch)
  | resultContains (needle : String)
  | turn (comparison : Comparison)
  | calls (count : ToolCount)
  | turnsSinceCall (count : ToolCount)
  | sinceLastCall (since : SinceLastCall)
  | toolOffered (names : NameMatch)
  | repeatedCall (comparison : Comparison)
  | profileEnteredFrom (names : NameMatch)
  | finalStatus (names : NameMatch)
  | all (conditions : List Condition)
  | any (conditions : List Condition)
  | not (condition : Condition)

/-- Where injected text goes: on the tool call's result, on the next outgoing request only, or on the
    run's user message. -/
inductive Placement where
  | withResult
  | nextRequest
  | persistent
deriving DecidableEq

namespace Placement

def name : Placement → String
  | .withResult => "with_result"
  | .nextRequest => "next_request"
  | .persistent => "persistent"

def defaultFor (event : RuleEvent) : Placement := if event.isToolEvent then .withResult else .nextRequest

def allowedOn (placement : Placement) (event : RuleEvent) : Bool :=
  match placement with
  | .withResult => event.isToolEvent
  | .nextRequest => true
  | .persistent => event == .runStart

end Placement

structure Inject where
  text : String
  placement : Option Placement := none

inductive Action where
  | inject (inject : Inject)
  | deny (reason : String)
  | ask (reason : Option String)
  | allow
  | stopRun (reason : String)
  | switchProfile (profile : ProfileRef)
  | rewriteArgs (merge : Value)
  | rewriteResult (replace append : Option String)

def Action.name : Action → String
  | .inject _ => "inject"
  | .deny _ => "deny"
  | .ask _ => "ask"
  | .allow => "allow"
  | .stopRun _ => "stop_run"
  | .switchProfile _ => "switch_profile"
  | .rewriteArgs _ => "rewrite_args"
  | .rewriteResult _ _ => "rewrite_result"

structure Rule where
  id : String
  on : RuleEvent
  when : Option Condition := none
  action : Action
  maxFires : Option Nat := none
  metadata : Value := .null

inductive OnExhausted where
  | fail
  | accept
deriving DecidableEq

inductive ErrorPolicy where
  | fail
  | pass
deriving DecidableEq

inductive EvaluatorSpec where
  | tool (tool : String) (args : Value) (answerArg : Option String)
  | model (instructions : String) (model : Option String) (transcriptMessages : Nat)
  | agent (instructions : String) (tools : List String) (model : Option String) (maxTurns transcriptMessages : Nat)
  | command (command : String) (timeoutMs : Nat)

/-- One check: either a declarative `require` condition (evaluated instantly, no I/O) or an `evaluator`
    (runs a tool or asks a model). -/
structure GateCheck where
  id : String
  require : Option Condition := none
  evaluator : Option EvaluatorSpec := none
  feedback : Option String := none
  errorPolicy : ErrorPolicy := .fail
  waiveWhenExhausted : Bool := false
  metadata : Value := .null

structure CompletionGate where
  checks : List GateCheck
  maxContinuations : Nat := 3
  onExhausted : Option OnExhausted := none

structure BehaviorProfile where
  schemaVersion : Nat
  id : ProfileId
  revision : Nat
  name : String
  description : Option String := none
  status : DefinitionStatus := .published
  instructions : Instructions := {}
  tools : ToolScope := .inherit
  toolOverrides : List (String × ToolOverride) := []
  execution : ExecutionOverlay := {}
  limits : Limits := {}
  rules : List Rule := []
  completionGate : Option CompletionGate := none
  children : ChildPolicy := .inherit
  metadata : Value := .null

def defaultProfileId : String := "rusty.default"

def reservedProfilePrefix : String := "rusty."

/-- The built-in default profile. It is deliberately neutral: no instructions, inherited tools and
    parameters, no limits. -/
def defaultProfileDefinition : BehaviorProfile where
  schemaVersion := behaviorSchemaVersion
  id := defaultProfileId
  revision := 1
  name := "Default"
  description := some "Behavior-neutral built-in profile"

/-- What the core takes from its libraries and the model does not look into: reading a profile document
    (`serde_json::from_value`) and its canonical encoding (`serde_json::to_vec`), parsing JSON text, Unicode
    lower case, the `Debug` form of a string, the RFC 3339 form of a time, and the standard library's hash of a
    text. -/
class Externals where
  decodeProfile : Value → Option BehaviorProfile
  encodeProfile : BehaviorProfile → List UInt8
  parseJson : String → Option Value
  toLowercase : String → String
  escapeDebug : String → String
  toRfc3339 : Timestamp → String
  hashText : String → Nat

def contentHash [Externals] (profile : BehaviorProfile) : String :=
  let hash := (Externals.encodeProfile profile).foldl
    (fun hash byte => (hash ^^^ byte.toNat) * 0x100000001b3 % 2 ^ 64) 0xcbf29ce484222325
  "fnv1a64:" ++ String.ofList (Text.hex 16 hash)

end RustyCore
