import RustyCore.Workflow.Criteria
import RustyCore.Workflow.Inputs

/-! What a check of the deterministic `verify` step is given, and the check that the bound outputs match their producers'
    schemas. -/

namespace RustyCore

namespace Steps

structure CheckInputs where
  node : OrchestrationNode
  input : Value
  producers : OrchestrationNodeId → Option Value
  validate : (schema value : Value) → Except String Unit
  resolveArtifact : (kind reference : String) → Except String Unit

def checkProducerSchemas (inputs : CheckInputs) : Bool × String :=
  let issues := inputs.node.inputBindings.flatMap fun binding =>
    match binding.source with
    | .runInput _ => []
    | .nodeOutput nodeId _ =>
      match inputs.producers nodeId with
      | none => []
      | some schema =>
        match inputs.validate schema ((inputs.input.get binding.target).getD .null) with
        | .ok () => []
        | .error message => [binding.target ++ ": " ++ message]
  if issues.isEmpty then (true, "bound outputs match their producers' schemas") else (false, Text.join "; " issues)

end Steps

end RustyCore
