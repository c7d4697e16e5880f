import Mathlib.Data.Prod.Lex
import RustyCore.Workflow.Compiler

/-! The registry of compiled definition revisions: what it takes in, and what a reference resolves to. -/

namespace RustyCore

instance {κ ν : Type} [LinearOrder κ] [BEq ν] : BEq (OrdMap κ ν) := ⟨fun a b => a.entries == b.entries⟩

deriving instance BEq for ToolScope, SchemaReference, OutputContract, ResearchPolicy, OrchestrationPolicies, SubflowTarget,
  TaskPlannerConfig, TaskQueueConfig, InputNodeConfig, AgentNodeConfig, VerifyNodeConfig, ApprovalNodeConfig,
  SubflowNodeConfig, OutputNodeConfig, OrchestrationNodeKind, OrchestrationNode, OrchestrationEdge,
  OrchestrationDefinition

/-- A definition as it is held: its revision is a `u64`. -/
structure RevisionedDefinition where
  definition : OrchestrationDefinition
  revision_lt : definition.revision < 2 ^ 64

inductive DefinitionRef where
  | exact (id : OrchestrationDefinitionId) (revision : Nat)
  /-- The highest published revision. -/
  | latestPublished (id : OrchestrationDefinitionId)
  /-- The highest revision that is not deprecated; a draft counts when the registry allows drafts. -/
  | latest (id : OrchestrationDefinitionId)

inductive RegistryError where
  | immutableRevision (id : OrchestrationDefinitionId) (revision : Nat)
  | notFound (reference : String)
  | draftNotExecutable (id : OrchestrationDefinitionId) (revision : Nat)
  | invalid (issues : List DefinitionIssue)
deriving DecidableEq

abbrev RevisionKey := OrchestrationDefinitionId ×ₗ Nat

structure DefinitionRegistry where
  revisions : OrdMap RevisionKey CompiledOrchestration := .empty
  allowDrafts : Bool := false

namespace DefinitionRegistry

def maxU64 : Nat := 2 ^ 64 - 1

def key (id : OrchestrationDefinitionId) (revision : Nat) : RevisionKey := toLex (id, revision)

variable [WorkflowExternals]

/-- The registry after the call, and its result: what was compiled when the revision was first registered. -/
def register (registry : DefinitionRegistry) (definition : RevisionedDefinition) :
    DefinitionRegistry × Except RegistryError CompiledOrchestration :=
  match registry.revisions.get? (key definition.1.id definition.1.revision) with
  | some existing =>
    if existing.definition != definition.1 then
      (registry, .error (.immutableRevision definition.1.id definition.1.revision))
    else (registry, .ok existing)
  | none =>
    match definition.1.compile with
    | .error issues => (registry, .error (.invalid issues))
    | .ok compiled =>
      ({ registry with revisions := registry.revisions.insert (key definition.1.id definition.1.revision) compiled },
        .ok compiled)

def highest (registry : DefinitionRegistry) (id : OrchestrationDefinitionId) (wanted : DefinitionStatus → Bool) :
    Except RegistryError CompiledOrchestration :=
  match registry.revisions.findLast (key id 0) (key id maxU64) fun compiled => wanted compiled.definition.status with
  | none => .error (.notFound id)
  | some (_, compiled) => .ok compiled

def find (registry : DefinitionRegistry) : DefinitionRef → Except RegistryError CompiledOrchestration
  | .exact id revision =>
    match registry.revisions.get? (key id revision) with
    | none => .error (.notFound (id ++ "@" ++ toString revision))
    | some compiled => .ok compiled
  | .latestPublished id => registry.highest id (· == .published)
  | .latest id => registry.highest id (· != .deprecated)

def resolve (registry : DefinitionRegistry) (reference : DefinitionRef) : Except RegistryError CompiledOrchestration :=
  match registry.find reference with
  | .error e => .error e
  | .ok compiled =>
    if compiled.definition.status = .draft ∧ registry.allowDrafts = false then
      .error (.draftNotExecutable compiled.definitionId compiled.revision)
    else .ok compiled

def registerAll (registry : DefinitionRegistry) (definitions : List RevisionedDefinition) : DefinitionRegistry :=
  definitions.foldl (fun registry definition => (registry.register definition).1) registry

end DefinitionRegistry

end RustyCore
