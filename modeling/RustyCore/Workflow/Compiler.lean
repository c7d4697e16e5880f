import RustyCore.Lib.Graph
import RustyCore.Workflow.Definition

/-! Turning a workflow definition into a compiled workflow, or reporting everything wrong with it. The checks
    run in the order of the source and every issue is collected. -/

namespace RustyCore

structure DefinitionIssue where
  path : String
  code : String
  message : String
deriving DecidableEq

abbrev Nodes := OrdMap OrchestrationNodeId OrchestrationNode

abbrev Edges := OrdMap OrchestrationNodeId (List OrchestrationEdge)

abbrev Ranks := OrdMap OrchestrationNodeId Nat

structure CompiledOrchestration where
  definitionId : OrchestrationDefinitionId
  revision : Nat
  entryNode : OrchestrationNodeId
  nodes : Nodes
  outgoing : Edges
  incoming : Edges
  topologicalRank : Ranks
  retrySpans : OrdMap OrchestrationNodeId (List OrchestrationNodeId)
  contentHash : String
  definition : OrchestrationDefinition

def CompiledOrchestration.node (c : CompiledOrchestration) (id : OrchestrationNodeId) : Option OrchestrationNode :=
  c.nodes.get? id

def CompiledOrchestration.outgoingFor (c : CompiledOrchestration) (id : OrchestrationNodeId)
    (condition : EdgeCondition) : Option OrchestrationEdge :=
  (c.outgoing.get? id).bind fun edges => edges.find? (·.condition == condition)

namespace WorkflowCompiler

def reject (bad : Bool) (path code message : String) : List DefinitionIssue :=
  if bad then [⟨path, code, message⟩] else []

def atIndex (path : String) (index : Nat) : String := path ++ "[" ++ toString index ++ "]"

/-! ### Schemas -/

def supportedSchemaKeywords : List String :=
  ["type", "enum", "const", "required", "properties", "additionalProperties", "items", "minLength", "maxLength",
    "minimum", "maximum", "minItems", "maxItems", "default", "description", "title"]

def primitiveTypes : List String := ["null", "boolean", "object", "array", "number", "integer", "string"]

def checkKeywords (fields : List (String × Value)) (path : String) : List DefinitionIssue :=
  fields.flatMap fun (keyword, _) =>
    reject (!supportedSchemaKeywords.contains keyword) (path ++ "." ++ keyword) "unsupported_schema_keyword"
      ("schema keyword " ++ keyword ++ " is not supported by the host validator")

def checkType (fields : List (String × Value)) (path : String) : List DefinitionIssue :=
  match fields.lookup "type" with
  | none => []
  | some schemaType =>
    reject (!schemaType.asStr.any primitiveTypes.contains) (path ++ ".type") "invalid_schema"
      "type must be a supported JSON Schema primitive"

def checkRequired (fields : List (String × Value)) (path : String) : List DefinitionIssue :=
  match fields.lookup "required" with
  | none => []
  | some (.array values) =>
    reject (!values.all (·.asStr.isSome)) (path ++ ".required") "invalid_schema" "required must be an array of strings"
  | some _ => [⟨path ++ ".required", "invalid_schema", "required must be an array of strings"⟩]

def checkAdditionalProperties (fields : List (String × Value)) (path : String) : List DefinitionIssue :=
  match fields.lookup "additionalProperties" with
  | none | some (.bool _) | some (.object _) => []
  | some _ =>
    [⟨path ++ ".additionalProperties", "invalid_schema", "additionalProperties must be a boolean or schema object"⟩]

def checkEnum (fields : List (String × Value)) (path : String) : List DefinitionIssue :=
  match fields.lookup "enum" with
  | none | some (.array (_ :: _)) => []
  | some _ => [⟨path ++ ".enum", "invalid_schema", "enum must be a non-empty array"⟩]

mutual

def checkSchemaValue (path : String) : Value → List DefinitionIssue
  | .object fields =>
    checkKeywords fields path ++ checkType fields path ++ checkRequired fields path ++ checkProperties path fields ++
      checkItems path fields ++ checkAdditionalProperties fields path ++ checkEnum fields path
  | _ => [⟨path, "invalid_schema", "inline schema must be a JSON object"⟩]

def checkProperties (path : String) : List (String × Value) → List DefinitionIssue
  | [] => []
  | (key, child) :: rest =>
    if key = "properties" then checkPropertyMap path child else checkProperties path rest

def checkPropertyMap (path : String) : Value → List DefinitionIssue
  | .object properties => checkEachProperty path properties
  | _ => [⟨path ++ ".properties", "invalid_schema", "properties must be an object"⟩]

def checkEachProperty (path : String) : List (String × Value) → List DefinitionIssue
  | [] => []
  | (name, child) :: rest => checkSchemaValue (path ++ ".properties." ++ name) child ++ checkEachProperty path rest

def checkItems (path : String) : List (String × Value) → List DefinitionIssue
  | [] => []
  | (key, child) :: rest => if key = "items" then checkSchemaValue (path ++ ".items") child else checkItems path rest

end

def checkSchemaReference (reference : SchemaReference) (path : String) : List DefinitionIssue :=
  match reference with
  | .inline name schema =>
    reject (Text.isBlank name) path "empty_schema_name" "schema name cannot be empty" ++ checkSchemaValue path schema
  | .registry schemaId revision =>
    reject (Text.isBlank schemaId || revision == 0) path "invalid_schema_reference"
      "registry schema requires a non-empty id and positive revision"

/-! ### Pointers -/

def bindingPointer : OutputBinding → String
  | .runInput pointer => pointer
  | .nodeOutput _ pointer => pointer

/-- A pointer is empty (the whole value) or starts with `/`. -/
def checkPointer (pointer path : String) : List DefinitionIssue :=
  reject (!pointer.isEmpty && !Text.startsWith pointer "/") path "invalid_pointer"
    "bindings use JSON Pointer syntax: empty or starting with '/'"

/-! ### The document and its nodes -/

def checkBudgets (d : OrchestrationDefinition) : List DefinitionIssue :=
  (match d.policies.maxSteps with
    | some limit =>
      reject (limit < d.nodes.length) "nodes" "step_budget_exceeded"
        ("definition has " ++ toString d.nodes.length ++ " nodes but max_steps is " ++ toString limit)
    | none => []) ++
    reject (d.policies.maxSteps == some 0 || d.policies.maxTotalAttempts == some 0) "policies" "invalid_budget"
      "step and attempt budgets must be greater than zero"

def checkHeader (d : OrchestrationDefinition) : List DefinitionIssue :=
  reject (d.schemaVersion != orchestrationSchemaVersion) "schema_version" "unsupported_schema_version"
      ("expected version " ++ toString orchestrationSchemaVersion ++ ", got " ++ toString d.schemaVersion) ++
    reject (Text.isBlank d.id) "id" "empty_id" "definition id cannot be empty" ++
    reject (Text.isBlank d.name) "name" "empty_name" "definition name cannot be empty" ++
    checkBudgets d ++
    checkSchemaReference d.outputContract.schema "output_contract.schema" ++
    (match d.inputSchema with
      | some schema => checkSchemaReference schema "input_schema"
      | none => [])

def checkAgentConfig (config : AgentNodeConfig) (path : String) : List DefinitionIssue :=
  (match config.taskQueue with
    | some queue =>
      checkPointer queue.planPointer (path ++ ".config.task_queue.plan_pointer") ++
        reject (5 < queue.maxRepairs || Text.isBlank queue.reviewInstructions) (path ++ ".config.task_queue")
          "invalid_task_queue" "task queues require reviewer instructions and at most five repairs"
    | none => []) ++
    reject (Text.isBlank config.instructions) (path ++ ".config.instructions") "empty_instructions"
      "agent nodes require instructions" ++
    (match config.tools with
      | .allowList tools =>
        reject (tools.any Text.isBlank) (path ++ ".config.tools") "invalid_tool_reference" "tool ids cannot be empty"
      | _ => [])

def checkOutputSchema (node : OrchestrationNode) (path : String) : List DefinitionIssue :=
  let answersInStructure :=
    match node.kind with
    | .agent config => config.structuredOutput != .text
    | _ => false
  reject (answersInStructure && node.outputSchema.isNone) (path ++ ".output_schema") "missing_output_schema"
      "agent nodes require an output schema" ++
    (match node.outputSchema with
      | some schema => checkSchemaReference schema (path ++ ".output_schema")
      | none => [])

def checkNode (node : OrchestrationNode) (path : String) : List DefinitionIssue :=
  reject (Text.isBlank node.id) (path ++ ".id") "empty_id" "node id cannot be empty" ++
    reject (Text.isBlank node.name) (path ++ ".name") "empty_name" "node name cannot be empty" ++
    reject (node.retry.maxAttempts == 0 || maxStepAttempts < node.retry.maxAttempts) (path ++ ".retry.max_attempts")
      "invalid_retry" ("max_attempts must be between 1 and " ++ toString maxStepAttempts) ++
    (match node.kind with
      | .agent config => checkAgentConfig config path
      | _ => []) ++
    (node.inputBindings.zipIdx.flatMap fun (binding, index) =>
      checkPointer (bindingPointer binding.source) (atIndex (path ++ ".input_bindings") index ++ ".source.pointer")) ++
    checkOutputSchema node path

def nodesById (d : OrchestrationDefinition) : Nodes := OrdMap.ofList (d.nodes.map fun node => (node.id, node))

def checkNodes (d : OrchestrationDefinition) : List DefinitionIssue :=
  d.nodes.zipIdx.flatMap fun (node, index) =>
    checkNode node (atIndex "nodes" index) ++
      reject ((d.nodes.take index).any (·.id == node.id)) (atIndex "nodes" index ++ ".id") "duplicate_node_id"
        ("duplicate node id " ++ node.id)

def checkContextAccess (d : OrchestrationDefinition) (nodes : Nodes) : List DefinitionIssue :=
  d.nodes.zipIdx.flatMap fun (node, index) =>
    match node.kind with
    | .agent config =>
      match config.contextAccess with
      | .steps steps =>
        steps.flatMap fun step =>
          reject (step == node.id || !nodes.contains step) (atIndex "nodes" index ++ ".config.context_access")
            "invalid_context_access"
            ("context_access names " ++ step ++ ", which is not another step of this flow")
      | _ => []
    | _ => []

def entryNode (d : OrchestrationDefinition) : Option OrchestrationNodeId :=
  (d.nodes.find? (·.kind.isInput)).map (·.id)

def checkEntryAndExit (d : OrchestrationDefinition) : List DefinitionIssue :=
  let inputNodes := d.nodes.filter (·.kind.isInput)
  reject (inputNodes.length != 1) "nodes" "input_count"
      ("expected exactly one input node, found " ++ toString inputNodes.length) ++
    reject (!d.nodes.any (·.kind.isOutput)) "nodes" "missing_output" "at least one output node is required"

/-! ### Edges -/

structure EdgeBuild where
  outgoing : Edges
  incoming : Edges
  edgeIds : List OrchestrationEdgeId := []
  transitionKeys : List (OrchestrationNodeId × EdgeCondition) := []
  issues : List DefinitionIssue := []

def pushEdge (edges : Edges) (id : OrchestrationNodeId) (edge : OrchestrationEdge) : Edges :=
  edges.upsert id fun known => known.getD [] ++ [edge]

def addEdge (nodes : Nodes) (b : EdgeBuild) (edge : OrchestrationEdge) (index : Nat) : EdgeBuild :=
  let path := atIndex "edges" index
  let issues := b.issues ++
    reject (b.edgeIds.contains edge.id) (path ++ ".id") "duplicate_edge_id" ("duplicate edge id " ++ edge.id)
  let edgeIds := edge.id :: b.edgeIds
  if !nodes.contains edge.source then
    { b with
      edgeIds
      issues := issues ++
        [⟨path ++ ".source", "dangling_edge", "source node " ++ edge.source ++ " does not exist"⟩] }
  else if !nodes.contains edge.target then
    { b with
      edgeIds
      issues := issues ++
        [⟨path ++ ".target", "dangling_edge", "target node " ++ edge.target ++ " does not exist"⟩] }
  else
    { outgoing := pushEdge b.outgoing edge.source edge
      incoming := pushEdge b.incoming edge.target edge
      edgeIds
      transitionKeys := (edge.source, edge.condition) :: b.transitionKeys
      issues := issues ++
        reject (b.transitionKeys.contains (edge.source, edge.condition)) path "ambiguous_transition"
          ("node " ++ edge.source ++ " has multiple " ++ edge.condition.debug ++ " edges") }

def buildEdges (d : OrchestrationDefinition) (nodes : Nodes) : EdgeBuild :=
  d.edges.zipIdx.foldl (fun b (edge, index) => addEdge nodes b edge index)
    { outgoing := nodes.mapEntries fun _ _ => [], incoming := nodes.mapEntries fun _ _ => [] }

def checkRoutes (nodes : Nodes) (outgoing : Edges) : List DefinitionIssue :=
  nodes.values.flatMap fun node =>
    let routes := (outgoing.get? node.id).getD []
    let path := "nodes." ++ node.id ++ ".outgoing"
    match node.kind with
    | .output _ => reject (!routes.isEmpty) path "terminal_has_route" "output nodes must be terminal"
    | _ =>
      reject (!routes.any (·.condition == .onSuccess)) path "missing_success_route"
        "non-terminal nodes require an on_success route"

/-! ### The shape of the graph -/

def allEdges (outgoing : Edges) : List OrchestrationEdge := outgoing.values.flatten

def successors (outgoing : Edges) (id : OrchestrationNodeId) : List OrchestrationNodeId :=
  ((outgoing.get? id).getD []).map (·.target)

def predecessors (outgoing : Edges) (id : OrchestrationNodeId) : List OrchestrationNodeId :=
  ((allEdges outgoing).filter (·.target == id)).map (·.source)

def topologicalRanks (nodes : Nodes) (outgoing : Edges) : Ranks :=
  Graph.ranks (successors outgoing) nodes.keys ((allEdges outgoing).map (·.target))
    (nodes.size + (allEdges outgoing).length)

/-- Nodes reachable from `node`, excluding itself unless it is on a cycle. The order is that of the search; only
    membership is read from it, or it is sorted by rank. -/
def descendants (outgoing : Edges) (node : OrchestrationNodeId) : List OrchestrationNodeId :=
  Graph.reach (successors outgoing) ((allEdges outgoing).length + 1) node

/-- Nodes from which `node` is reachable. -/
def ancestors (outgoing : Edges) (node : OrchestrationNodeId) : List OrchestrationNodeId :=
  Graph.reach (predecessors outgoing) ((allEdges outgoing).length + 1) node

def checkReachability (entry : OrchestrationNodeId) (nodes : Nodes) (outgoing : Edges) : List DefinitionIssue :=
  reject ((topologicalRanks nodes outgoing).size != nodes.size) "edges" "cycle"
      "cycles are not supported in schema version 1" ++
    nodes.keys.flatMap fun id =>
      reject (id != entry && !(descendants outgoing entry).contains id) ("nodes." ++ id) "unreachable_node"
        "node is not reachable from the input node"

/-! ### What each node may read -/

def checkBindingSource (source : OutputBinding) (upstream : List OrchestrationNodeId) (nodes : Nodes)
    (path : String) : List DefinitionIssue :=
  match source with
  | .runInput _ => []
  | .nodeOutput nodeId _ =>
    if !nodes.contains nodeId then
      [⟨path, "unknown_binding_source", "binding references unknown node " ++ nodeId⟩]
    else
      reject (!upstream.contains nodeId) path "unavailable_binding_source"
        ("node " ++ nodeId ++ " is not guaranteed to have run before this binding")

/-- A schema check compares an output with its schema, so some bound node must have one. -/
def checkSchemaCheckHasSchema (node : OrchestrationNode) (nodes : Nodes) (checksPath : String) :
    List DefinitionIssue :=
  let hasSchema := node.inputBindings.any fun binding =>
    match binding.source with
    | .nodeOutput nodeId _ => (nodes.get? nodeId).any (·.outputSchema.isSome)
    | .runInput _ => false
  reject (!hasSchema) checksPath "schema_check_without_schema"
    "schema check requires a binding to a node with an output schema"

def checkCriteriaStatuses (blockOn defer : List String) (path : String) : List DefinitionIssue :=
  let namesBlankOrPass := (blockOn ++ defer).any fun status => Text.isBlank status || status == "pass"
  let overlap := blockOn.any defer.contains
  reject (blockOn.isEmpty || namesBlankOrPass || overlap) path "invalid_criteria_check"
    "criteria checks need at least one block_on status; block_on and defer must not overlap or name pass"

def checkVerification (node : OrchestrationNode) (check : VerificationCheck) (nodes : Nodes)
    (checksPath : String) : List DefinitionIssue :=
  let checkPath := checksPath ++ "." ++ check.id
  match check with
  | .requirementsSatisfied planPointer resultsPointer =>
    checkPointer planPointer checksPath ++ checkPointer resultsPointer checkPath
  | .schema => checkSchemaCheckHasSchema node nodes checksPath
  | .criteria pointer planPointer blockOn defer _ =>
    (match planPointer with
      | some planPointer => checkPointer planPointer checkPath
      | none => []) ++
      checkCriteriaStatuses blockOn defer checkPath ++ checkPointer pointer checkPath
  | .requiredStatus pointer _ | .artifactExists pointer | .artifactsResolvable pointer =>
    checkPointer pointer checkPath

def checkVerifyNode (node : OrchestrationNode) (config : VerifyNodeConfig) (nodes : Nodes) : List DefinitionIssue :=
  let checksPath := "nodes." ++ node.id ++ ".config.checks"
  reject config.checks.isEmpty checksPath "empty_verification" "verify nodes require at least one check" ++
    config.checks.flatMap fun check => checkVerification node check nodes checksPath

def checkSubflowTarget (target : SubflowTarget) (path : String) : List DefinitionIssue :=
  match target with
  | .flow id _ => reject (Text.isBlank id) path "invalid_subflow" "a flow target needs the id of a saved flow"
  | .step instructions _ _ _ =>
    reject (Text.isBlank instructions) path "invalid_subflow" "a step target needs instructions"

def producesStructuredPlan (nodes : Nodes) (producerId : OrchestrationNodeId) : Bool :=
  (nodes.get? producerId).any fun producer =>
    (match producer.kind with
      | .agent config => config.structuredOutput != .text
      | _ => false) && producer.outputSchema.any isTaskPlanSchema

/-- The plan must come from one of the step's bindings, and a plan bound whole from a step must be that step's
    typed task plan. -/
def checkPlanSource (node : OrchestrationNode) (queue : TaskQueueConfig) (nodes : Nodes) : List DefinitionIssue :=
  let path := "nodes." ++ node.id ++ ".config.task_queue.plan_pointer"
  match queue.planBinding.bind fun target => node.inputBindings.find? (·.target == target) with
  | none =>
    [⟨path, "task_plan_source",
      "plan_pointer " ++ queue.planPointer ++ " must start with the name of one of this step's input bindings"⟩]
  | some binding =>
    match binding.source with
    | .runInput _ => []
    | .nodeOutput nodeId pointer =>
      reject (pointer.isEmpty && !producesStructuredPlan nodes nodeId) path "task_plan_source"
        (nodeId ++ " must produce a task plan: give it a structured response format (e.g. host_validated) and the " ++
          "output schema \x7b\"type\": \"registry\", \"schema_id\": \"" ++ taskPlanSchemaId ++ "\", \"revision\": " ++
          toString taskPlanSchemaRevision ++ "\x7d")

/-- A task queue needs named flows to send tasks to, and a plan that one of its bindings supplies. -/
def checkTaskQueue (node : OrchestrationNode) (queue : TaskQueueConfig) (nodes : Nodes) : List DefinitionIssue :=
  (queue.flows.entries.flatMap fun (name, target) =>
    let path := "nodes." ++ node.id ++ ".config.task_queue.flows." ++ name
    if Text.isBlank name then [⟨path, "invalid_subflow", "a flow needs a name for tasks to refer to"⟩]
    else checkSubflowTarget target path) ++
    checkPlanSource node queue nodes

def checkApprovalNode (node : OrchestrationNode) (config : ApprovalNodeConfig) (upstream : List OrchestrationNodeId)
    (nodes : Nodes) : List DefinitionIssue :=
  let subjectPath := "nodes." ++ node.id ++ ".config.subject"
  checkPointer (bindingPointer config.subject) (subjectPath ++ ".pointer") ++
    checkBindingSource config.subject upstream nodes subjectPath ++
    (match config.skipIfEmpty with
      | some pointer => checkPointer pointer ("nodes." ++ node.id ++ ".config.skip_if_empty")
      | none => []) ++
    reject (maxRevisionsLimit < config.maxRevisions) ("nodes." ++ node.id ++ ".config.max_revisions")
      "invalid_max_revisions" ("max_revisions must be at most " ++ toString maxRevisionsLimit)

def checkNodeDataFlow (node : OrchestrationNode) (nodes : Nodes) (outgoing : Edges) : List DefinitionIssue :=
  let upstream := ancestors outgoing node.id
  (node.inputBindings.zipIdx.flatMap fun (binding, index) =>
    checkBindingSource binding.source upstream nodes
      (atIndex ("nodes." ++ node.id ++ ".input_bindings") index ++ ".source")) ++
    (match node.kind with
      | .output config =>
        let path := "nodes." ++ node.id ++ ".config.source"
        checkPointer (bindingPointer config.source) (path ++ ".pointer") ++
          checkBindingSource config.source upstream nodes path
      | .verify config => checkVerifyNode node config nodes
      | .agent config =>
        match config.taskQueue with
        | some queue => checkTaskQueue node queue nodes
        | none => []
      | .subflow config => checkSubflowTarget config.target ("nodes." ++ node.id ++ ".config.target")
      | .approval config => checkApprovalNode node config upstream nodes
      | .input _ => [])

def checkOutputContract (d : OrchestrationDefinition) (nodes : Nodes) (outgoing : Edges) : List DefinitionIssue :=
  match d.outputContract.source with
  | none => []
  | some source =>
    checkPointer (bindingPointer source) "output_contract.source.pointer" ++
      (match source with
        | .runInput _ => []
        | .nodeOutput nodeId _ =>
          let upstreamOfEveryOutput := (nodes.values.filter (·.kind.isOutput)).all fun output =>
            (ancestors outgoing output.id).contains nodeId
          reject (!nodes.contains nodeId || !upstreamOfEveryOutput) "output_contract.source"
            "unavailable_binding_source"
            ("output contract source " ++ nodeId ++ " must run before every output node"))

def checkDataFlow (d : OrchestrationDefinition) (nodes : Nodes) (outgoing : Edges) : List DefinitionIssue :=
  (nodes.values.flatMap fun node => checkNodeDataFlow node nodes outgoing) ++ checkOutputContract d nodes outgoing

/-! ### Retry spans -/

/-- Where a node can send work back to: the config field that names the target, and whether the target must
    list `verification_failed` in its `retry_on`. -/
structure RetryLink where
  targetId : OrchestrationNodeId
  field : String
  needsPolicy : Bool

def retryLink (node : OrchestrationNode) (nodes : Nodes) : Option RetryLink :=
  match node.kind with
  | .verify config => config.retryTarget.map fun target => ⟨target, "retry_target", true⟩
  | .approval config => config.reviseTarget.map fun target => ⟨target, "revise_target", false⟩
  | .agent _ =>
    node.taskPlanSource.bind fun target =>
      if (nodes.get? target).any (·.kind.isAgent) then some ⟨target, "task_queue", false⟩ else none
  | _ => none

/-- The steps a send-back resets, in topological order, or what is wrong with its target. -/
def spanFor (node : OrchestrationNode) (link : RetryLink) (nodes : Nodes) (outgoing : Edges) (ranks : Ranks) :
    Except DefinitionIssue (List OrchestrationNodeId) :=
  let path := "nodes." ++ node.id ++ ".config." ++ link.field
  match nodes.get? link.targetId with
  | none =>
    .error ⟨path, "unknown_retry_target", "retry target " ++ link.targetId ++ " does not exist"⟩
  | some target =>
    let upstream := ancestors outgoing node.id
    if !target.kind.isAgent then
      .error ⟨path, "invalid_retry_target", "retry targets must be agent nodes"⟩
    else if !upstream.contains link.targetId then
      .error ⟨path, "invalid_retry_target",
        "retry target " ++ link.targetId ++ " must be upstream of " ++ node.id⟩
    else if link.needsPolicy && !target.retry.retryOn.contains .verificationFailed then
      .error ⟨path, "retry_target_policy",
        "retry target " ++ link.targetId ++ " must list verification_failed in retry_on"⟩
    else
      .ok (((descendants outgoing link.targetId).filter upstream.contains ++ [link.targetId, node.id]).insertionSort
        fun a b => (ranks.get? a).getD maxU64 ≤ (ranks.get? b).getD maxU64)

def checkRetrySpans (nodes : Nodes) (outgoing : Edges) (ranks : Ranks) : List DefinitionIssue :=
  nodes.values.flatMap fun node =>
    match retryLink node nodes with
    | none => []
    | some link =>
      match spanFor node link nodes outgoing ranks with
      | .error issue => [issue]
      | .ok _ => []

def compileRetrySpans (nodes : Nodes) (outgoing : Edges) (ranks : Ranks) :
    OrdMap OrchestrationNodeId (List OrchestrationNodeId) :=
  OrdMap.ofList <| nodes.values.filterMap fun node =>
    match retryLink node nodes with
    | none => none
    | some link =>
      match spanFor node link nodes outgoing ranks with
      | .error _ => none
      | .ok span => some (node.id, span)

end WorkflowCompiler

open WorkflowCompiler

/-- Everything wrong with the definition. Data-flow checks only make sense on an acyclic graph. -/
def OrchestrationDefinition.issues (d : OrchestrationDefinition) : List DefinitionIssue :=
  let nodes := nodesById d
  let built := buildEdges d nodes
  let ranks := if (entryNode d).isSome then topologicalRanks nodes built.outgoing else .empty
  checkHeader d ++ checkNodes d ++ checkContextAccess d nodes ++ checkEntryAndExit d ++ built.issues ++
    checkRoutes nodes built.outgoing ++
    (match entryNode d with
      | some entry => checkReachability entry nodes built.outgoing
      | none => []) ++
    (if ranks.size = nodes.size then
      checkDataFlow d nodes built.outgoing ++ checkRetrySpans nodes built.outgoing ranks
    else [])

def OrchestrationDefinition.lookups [WorkflowExternals] (d : OrchestrationDefinition) (entry : OrchestrationNodeId) :
    CompiledOrchestration :=
  let nodes := nodesById d
  let built := buildEdges d nodes
  let ranks := topologicalRanks nodes built.outgoing
  { definitionId := d.id
    revision := d.revision
    entryNode := entry
    nodes
    outgoing := built.outgoing
    incoming := built.incoming
    topologicalRank := ranks
    retrySpans := compileRetrySpans nodes built.outgoing ranks
    contentHash := d.contentHash
    definition := d }

/-- Validates a definition and builds the lookups the reducer uses, reporting every issue found. -/
def OrchestrationDefinition.compile [WorkflowExternals] (d : OrchestrationDefinition) :
    Except (List DefinitionIssue) CompiledOrchestration :=
  match entryNode d with
  | some entry => if d.issues = [] then .ok (d.lookups entry) else .error d.issues
  | none => .error d.issues

end RustyCore
