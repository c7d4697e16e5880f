import RustyCore.Workflow.State

/-! What a step reads from the run when it is executed: its bound inputs, and the source of an output or the
    subject of an approval. -/

namespace RustyCore

/-- Everything the node reads: its input bindings, and the source of an output or the subject of an approval. -/
def OrchestrationNode.reads (node : OrchestrationNode) : List OutputBinding :=
  node.inputBindings.map (·.source) ++
    match node.kind with
    | .output config => [config.source]
    | .approval config => [config.subject]
    | _ => []

namespace Steps

def missingInput : OrchestrationError := { code := "missing_input", message := "run input is unavailable" }

def missingOutput (id : OrchestrationNodeId) : OrchestrationError where
  code := "missing_output"
  message := "node " ++ id ++ " has no output"

def invalidPointer (pointer : String) : OrchestrationError where
  code := "invalid_pointer"
  message := "JSON pointer " ++ pointer ++ " did not resolve"

def pointerValue (value : Value) (pointer : String) : Except OrchestrationError Value :=
  match value.pointer pointer with
  | some value => .ok value
  | none => .error (invalidPointer pointer)

def resolveBinding (s : OrchestrationRunState) : OutputBinding → Except OrchestrationError Value
  | .runInput pointer =>
    match s.input with
    | some value => pointerValue value pointer
    | none => .error missingInput
  | .nodeOutput nodeId pointer =>
    match (s.steps.get? nodeId).bind (·.output) with
    | some value => pointerValue value pointer
    | none => .error (missingOutput nodeId)

def resolveInputs (s : OrchestrationRunState) (bindings : List InputBinding) : Except OrchestrationError Value := do
  let fields ← bindings.foldlM (fun fields binding => do
    return Value.insertField binding.target (← resolveBinding s binding.source) fields) []
  return .object fields

theorem pointerValue_error {value : Value} {pointer : String} {e : OrchestrationError}
    (h : pointerValue value pointer = .error e) : e = invalidPointer pointer := by
  unfold pointerValue at h
  split at h
  · cases h
  · cases h
    rfl

theorem resolveBinding_missing {s : OrchestrationRunState} {id : OrchestrationNodeId} {pointer : String} :
    resolveBinding s (.nodeOutput id pointer) = .error (missingOutput id) ↔ (s.steps.get? id).bind (·.output) = none := by
  rw [resolveBinding]
  split
  · rename_i value hvalue
    rw [hvalue]
    refine iff_of_false (fun h => ?_) (by simp)
    have hcode := congrArg OrchestrationError.code (pointerValue_error h)
    simp [missingOutput, invalidPointer] at hcode
  · rename_i hnone
    exact iff_of_true rfl hnone

end Steps

/-! The output step: it computes the final output of a run from its own source, and checks it against the schema
    of the workflow's output contract. -/

/-- The host's schema registry and JSON-schema validator; an error is its text. -/
class SchemaExternals where
  resolve : SchemaReference → Except String Value
  validate : (schema value : Value) → Except String Unit

namespace Steps

variable [SchemaExternals]

def resolveSchema (reference : SchemaReference) : Except OrchestrationError Value :=
  (SchemaExternals.resolve reference).mapError fun message => { code := "schema_resolution_failed", message }

def checkValue (schema value : Value) (code : String) : Except OrchestrationError Unit :=
  (SchemaExternals.validate schema value).mapError fun message => { code, message }

def executeOutput (c : CompiledOrchestration) (s : OrchestrationRunState) (config : OutputNodeConfig) :
    Except OrchestrationError Value :=
  match resolveBinding s config.source with
  | .error e => .error e
  | .ok value =>
    if config.strict || c.definition.outputContract.strict then
      match resolveSchema c.definition.outputContract.schema with
      | .error e => .error e
      | .ok schema =>
        match checkValue schema value "invalid_final_output" with
        | .error e => .error e
        | .ok () => .ok value
    else .ok value

end Steps

end RustyCore
