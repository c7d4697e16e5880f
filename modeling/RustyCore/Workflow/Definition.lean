import RustyCore.Behavior.Definition
import RustyCore.Lib.OrdMap

/-! Workflow documents: nodes with their configurations, edges, bindings, policies, and the task queues an
    agent step may run. -/

namespace RustyCore

def orchestrationSchemaVersion : Nat := 1

abbrev OrchestrationDefinitionId := String
abbrev OrchestrationNodeId := String
abbrev OrchestrationEdgeId := String
abbrev OrchestrationRunId := String

inductive EdgeCondition where
  | onSuccess
  | onFailure
deriving DecidableEq

def EdgeCondition.debug : EdgeCondition → String
  | .onSuccess => "OnSuccess"
  | .onFailure => "OnFailure"

structure OrchestrationEdge where
  id : OrchestrationEdgeId
  source : OrchestrationNodeId
  target : OrchestrationNodeId
  condition : EdgeCondition
  metadata : Value := .null

inductive OutputBinding where
  | runInput (pointer : String)
  | nodeOutput (nodeId : OrchestrationNodeId) (pointer : String)
deriving DecidableEq

structure InputBinding where
  target : String
  source : OutputBinding
deriving DecidableEq

inductive SchemaReference where
  | inline (name : String) (schema : Value)
  | registry (schemaId : String) (revision : Nat)

structure OutputContract where
  schema : SchemaReference := .inline "result" (.object [("type", .string "string")])
  source : Option OutputBinding := none
  strict : Bool := false

inductive RetryReason where
  | backendRateLimited
  | backendTimeout
  | toolTimeout
  | invalidStructuredOutput
  | verificationFailed
  | changesRequested
deriving DecidableEq

structure RetryPolicy where
  maxAttempts : Nat := 1
  retryOn : List RetryReason := []
deriving DecidableEq

def maxStepAttempts : Nat := 10

structure ResearchPolicy where
  maxPerAttempt : Nat := 2
  profile : Option ProfileRef := none

structure OrchestrationPolicies where
  maxSteps : Option Nat := none
  maxTotalAttempts : Option Nat := none
  maxElapsedMs : Option Nat := none
  stallTimeoutMs : Option Nat := none
  maxModelRequests : Option Nat := none
  maxToolCalls : Option Nat := none
  maxTokens : Option Nat := none
  maxCostUsd : Option Rat := none
  research : Option ResearchPolicy := none

inductive SubflowTarget where
  | flow (id : OrchestrationDefinitionId) (revision : Option Nat)
  | step (instructions : String) (profile : Option ProfileRef) (tools : ToolScope) (model : Option String)

structure TaskPlannerConfig where
  profile : ProfileRef
  instructions : String

inductive TaskFailurePolicy where
  | ask
  | stop
  | skip
deriving DecidableEq

/-- Runs a plan's tasks one at a time. `planPointer` points to the plan in the bound input; its first segment
    names the input binding the plan comes from. -/
structure TaskQueueConfig where
  planPointer : String
  reviewProfile : ProfileRef
  reviewInstructions : String
  taskPlanner : Option TaskPlannerConfig := none
  maxRepairs : Nat
  onTaskFailure : TaskFailurePolicy := .ask
  flows : OrdMap String SubflowTarget := .empty

def TaskQueueConfig.planBinding (queue : TaskQueueConfig) : Option String :=
  match queue.planPointer.toList with
  | '/' :: rest =>
    match Text.splitOn (· == '/') rest with
    | segment :: _ => if segment.isEmpty then none else some (String.ofList segment)
    | [] => none
  | _ => none

inductive AgentContextMode where
  | sharedSession
  | isolatedChild
deriving DecidableEq

inductive StructuredOutputMode where
  | text
  | require
  | hostValidatedFallback
  | hostValidated
deriving DecidableEq

inductive ContextAccess where
  | own
  | all
  | steps (steps : List OrchestrationNodeId)
deriving DecidableEq

structure InputNodeConfig where
  defaults : OrdMap String Value := .empty

structure AgentNodeConfig where
  instructions : String
  taskQueue : Option TaskQueueConfig := none
  tools : ToolScope := .none
  contextMode : AgentContextMode := .isolatedChild
  model : Option String := none
  structuredOutput : StructuredOutputMode := .require
  profile : Option ProfileRef := none
  contextAccess : ContextAccess := .own

inductive VerificationCheck where
  | requirementsSatisfied (planPointer resultsPointer : String)
  | schema
  | requiredStatus (pointer equals : String)
  | artifactExists (pointer : String)
  | artifactsResolvable (pointer : String)
  | criteria (pointer : String) (planPointer : Option String) (blockOn defer : List String) (maxDeferred : Option Nat)
deriving DecidableEq

def VerificationCheck.id : VerificationCheck → String
  | .requirementsSatisfied .. => "requirements_satisfied"
  | .schema => "schema"
  | .requiredStatus pointer _ => "required_status:" ++ pointer
  | .artifactExists pointer => "artifact_exists:" ++ pointer
  | .artifactsResolvable pointer => "artifacts_resolvable:" ++ pointer
  | .criteria pointer .. => "criteria:" ++ pointer

/-- A failed verification goes back to the upstream `retryTarget`, bounded by that node's retry policy. -/
structure VerifyNodeConfig where
  checks : List VerificationCheck := []
  retryTarget : Option OrchestrationNodeId := none

structure ApprovalNodeConfig where
  subject : OutputBinding
  prompt : String := ""
  explicitTarget : Option OrchestrationNodeId := none
  maxRevisions : Nat := 5
  allowAutoApprove : Bool := true
  skipIfEmpty : Option String := none
  reviseOnNotes : Bool := false

/-- Where requested changes go: the explicit target (the document's `revise_target`), else the subject's
    producer. -/
def ApprovalNodeConfig.reviseTarget (config : ApprovalNodeConfig) : Option OrchestrationNodeId :=
  match config.explicitTarget, config.subject with
  | some target, _ => some target
  | none, .nodeOutput nodeId _ => some nodeId
  | none, .runInput _ => none

def maxRevisionsLimit : Nat := 10

structure SubflowNodeConfig where
  target : SubflowTarget

structure OutputNodeConfig where
  source : OutputBinding
  strict : Bool := true

inductive OrchestrationNodeKind where
  | input (config : InputNodeConfig)
  | agent (config : AgentNodeConfig)
  | verify (config : VerifyNodeConfig)
  | approval (config : ApprovalNodeConfig)
  | subflow (config : SubflowNodeConfig)
  | output (config : OutputNodeConfig)

namespace OrchestrationNodeKind

def isInput : OrchestrationNodeKind → Bool
  | .input _ => true
  | _ => false

def isAgent : OrchestrationNodeKind → Bool
  | .agent _ => true
  | _ => false

def isOutput : OrchestrationNodeKind → Bool
  | .output _ => true
  | _ => false

def taskQueue : OrchestrationNodeKind → Option TaskQueueConfig
  | .agent config => config.taskQueue
  | _ => none

end OrchestrationNodeKind

structure OrchestrationNode where
  id : OrchestrationNodeId
  name : String
  kind : OrchestrationNodeKind
  inputBindings : List InputBinding := []
  outputSchema : Option SchemaReference := none
  retry : RetryPolicy := {}
  timeoutMs : Option Nat := none
  metadata : Value := .null

/-- The step that produced a task queue's plan, when the plan is bound from a step's output. -/
def OrchestrationNode.taskPlanSource (node : OrchestrationNode) : Option OrchestrationNodeId := do
  let queue ← node.kind.taskQueue
  let target ← queue.planBinding
  let binding ← node.inputBindings.find? (·.target == target)
  match binding.source with
  | .nodeOutput nodeId _ => some nodeId
  | .runInput _ => none

structure OrchestrationDefinition where
  schemaVersion : Nat
  id : OrchestrationDefinitionId
  revision : Nat
  name : String
  description : Option String := none
  status : DefinitionStatus := .published
  inputSchema : Option SchemaReference := none
  outputContract : OutputContract := {}
  nodes : List OrchestrationNode
  edges : List OrchestrationEdge
  policies : OrchestrationPolicies := {}
  metadata : Value := .null

/-- What the workflow core takes from its libraries and the model does not look into: the canonical encoding of
    a document (`serde_json::to_vec`), the text of a float and the sum of two floats. -/
class WorkflowExternals where
  encodeDefinition : OrchestrationDefinition → List UInt8
  displayFloat : Rat → String
  addFloat : Rat → Rat → Rat

def OrchestrationDefinition.contentHash [WorkflowExternals] (definition : OrchestrationDefinition) : String :=
  let hash := (WorkflowExternals.encodeDefinition definition).foldl
    (fun hash byte => (hash ^^^ byte.toNat) * 0x100000001b3 % 2 ^ 64) 0xcbf29ce484222325
  "fnv1a64:" ++ String.ofList (Text.hex 16 hash)

def taskPlanSchemaId : String := "rusty.task_plan"

def taskPlanSchemaRevision : Nat := 1

/-- Whether `schema` describes a task plan: the registered one, or an inline object schema with requirements
    and tasks. -/
def isTaskPlanSchema : SchemaReference → Bool
  | .registry schemaId _ => schemaId == taskPlanSchemaId
  | .inline _ schema =>
    ((schema.get "properties").bind (·.get "requirements")).isSome && ((schema.get "properties").bind (·.get "tasks")).isSome

end RustyCore
