import RustyCore.Agent.State

/-! Spawning a child: what its parent's capabilities and budget let it have, and the supervisor's books of who has
    which children. -/

namespace RustyCore

inductive CapabilityError where
  | toolNotFound (id : ToolId)
  | notDelegatable (id : ToolId)
  | notEnabled (id : ToolId)

def PermissionMode.stricter : PermissionMode → PermissionMode → PermissionMode
  | .deny, _ | _, .deny => .deny
  | .ask, _ | _, .ask => .ask
  | _, _ => .allow

def ToolCapability.narrowed (parent requested : ToolCapability) : ToolCapability :=
  { parent with
    policy := ⟨parent.policy.permission.stricter requested.policy.permission,
      parent.policy.enabled && requested.policy.enabled⟩
    delegatable := parent.delegatable && requested.delegatable }

namespace AgentCapabilities

def canDelegate (c : AgentCapabilities) (toolId : ToolId) : Bool :=
  match c.tools.tools.lookup toolId with
  | some capability => capability.delegatable && capability.policy.enabled
  | none => false

/-- The tools of a `Subset`, added to those already taken. -/
def takeSubset (c : AgentCapabilities) :
    List ToolId → Table.Map ToolId ToolCapability → Except CapabilityError (Table.Map ToolId ToolCapability)
  | [], tools => .ok tools
  | id :: ids, tools =>
    match c.tools.tools.lookup id with
    | none => .error (.toolNotFound id)
    | some capability =>
      if !capability.delegatable then .error (.notDelegatable id)
      else if !capability.policy.enabled then .error (.notEnabled id)
      else c.takeSubset ids (tools.insert id capability)

def deriveChildCapabilities (c : AgentCapabilities) : ToolInheritance → Except CapabilityError AgentToolset
  | .inheritAll =>
    .ok ⟨Table.retain (fun _ capability => capability.delegatable && capability.policy.enabled) c.tools.tools⟩
  | .subset ids => (c.takeSubset ids ∅).map AgentToolset.mk
  | .replace toolset =>
    match toolset.tools.keys.find? fun id => !c.canDelegate id with
    | some id => .error (.notDelegatable id)
    | none =>
      -- every id has passed `canDelegate`, so the parent has it
      .ok ⟨Table.mapEntries (fun id requested => match c.tools.tools.lookup id with
        | some parent => parent.narrowed requested
        | none => requested) toolset.tools⟩

def deriveChildAgentCapabilities (c : AgentCapabilities) (inheritance : ToolInheritance)
    (workspaceOverride : Option WorkspaceCapabilities) : Except CapabilityError AgentCapabilities := do
  let tools ← c.deriveChildCapabilities inheritance
  let maxChildDepth := match c.maxChildDepth with
    | some 0 => some 0
    | some (d + 1) => some d
    | none => none
  return {
    tools
    canSpawnAgents := c.canSpawnAgents && maxChildDepth != some 0
    maxChildDepth
    workspace := workspaceOverride.getD c.workspace }

end AgentCapabilities

inductive BudgetError where
  | tooManyChildren (limit current : Nat)
  | maxDepthExceeded (limit current : Nat)

namespace AgentBudget

def checkChildren (budget : AgentBudget) (currentChildren : Nat) : Except BudgetError Unit :=
  match budget.maxChildren with
  | some limit => if currentChildren ≥ limit then .error (.tooManyChildren limit currentChildren) else .ok ()
  | none => .ok ()

def checkDepth (budget : AgentBudget) (currentDepth : Nat) : Except BudgetError Unit :=
  match budget.maxDepth with
  | some limit => if currentDepth ≥ limit then .error (.maxDepthExceeded limit currentDepth) else .ok ()
  | none => .ok ()

end AgentBudget

inductive SupervisorError where
  | budget (error : BudgetError)
  | capability (error : CapabilityError)
  | integration (error : String)
  | workspace (error : String)
  | spawnNotAllowed (id : AgentId)
  | budgetEscalation (field : String)
  | childBehavior (error : String)

def noLooser {α : Type} [LE α] [DecidableLE α] (field : String) (parent child : Option α) :
    Except SupervisorError Unit :=
  match parent, child with
  | some parentLimit, some childLimit => if childLimit ≤ parentLimit then .ok () else .error (.budgetEscalation field)
  | some _, none => .error (.budgetEscalation field)
  | none, _ => .ok ()

/-- Refuses a child budget that is looser than the parent's for any limit the parent sets. -/
def validateChildBudget (parent child : AgentBudget) : Except SupervisorError Unit := do
  noLooser "max_input_tokens" parent.maxInputTokens child.maxInputTokens
  noLooser "max_output_tokens" parent.maxOutputTokens child.maxOutputTokens
  noLooser "max_total_tokens" parent.maxTotalTokens child.maxTotalTokens
  noLooser "max_cost_usd" parent.maxCostUsd child.maxCostUsd
  noLooser "max_requests" parent.maxRequests child.maxRequests
  noLooser "max_tool_calls" parent.maxToolCalls child.maxToolCalls
  noLooser "max_children" parent.maxChildren child.maxChildren
  noLooser "max_depth" parent.maxDepth child.maxDepth

structure SupervisedAgent where
  id : AgentId
  parentId : Option AgentId
  depth : Nat
  capabilities : AgentCapabilities
  budget : AgentBudget

structure AgentHandle where
  parentId : Option AgentId
  depth : Nat

structure AgentSupervisor where
  agents : Table.Map AgentId AgentHandle := ∅
  childrenOf : Table.Map AgentId (List AgentId) := ∅
  childCapabilities : Table.Map AgentId AgentCapabilities := ∅

/-- How the steps that rest on the host's services end: the child's backend, its workspace, its behavior. -/
structure SpawnServices where
  backend : Except String Unit
  workspace : Except String Unit
  behavior : Except String Unit

namespace AgentSupervisor

def maxChildrenDepthCheck (s : AgentSupervisor) (parentId : AgentId) (parentDepth : Nat) (parentBudget : AgentBudget) :
    Except SupervisorError Unit := do
  let current := ((s.childrenOf.lookup parentId).getD []).length % 2 ^ 32
  (parentBudget.checkChildren current).mapError .budget
  (parentBudget.checkDepth parentDepth).mapError .budget

/-- Gate before creating anything: the parent may spawn, the tree has room, the budget fits. -/
def admitSpawn (s : AgentSupervisor) (parent : SupervisedAgent) (spec : SpawnAgentSpec) : Except SupervisorError Unit :=
  if !parent.capabilities.canSpawnAgents then .error (.spawnNotAllowed parent.id)
  else do
    s.maxChildrenDepthCheck parent.id parent.depth parent.budget
    validateChildBudget parent.budget spec.budget

def register (s : AgentSupervisor) (childId : AgentId) (handle : AgentHandle) : AgentSupervisor :=
  { s with
    agents := s.agents.insert childId handle
    childrenOf := match handle.parentId with
      | some parentId => s.childrenOf.insert parentId ((s.childrenOf.lookup parentId).getD [] ++ [childId])
      | none => s.childrenOf }

def spawnChild (s : AgentSupervisor) (services : SpawnServices) (parent : SupervisedAgent) (childId : AgentId)
    (spec : SpawnAgentSpec) : Except SupervisorError (AgentSupervisor × SupervisedAgent) := do
  s.admitSpawn parent spec
  services.backend.mapError .integration
  let capabilities ← (parent.capabilities.deriveChildAgentCapabilities spec.tools none).mapError .capability
  services.workspace.mapError .workspace
  services.behavior.mapError .childBehavior
  let child : SupervisedAgent := ⟨childId, some parent.id, parent.depth + 1, capabilities, spec.budget⟩
  let s := s.register childId ⟨some parent.id, parent.depth + 1⟩
  return ({ s with childCapabilities := s.childCapabilities.insert childId capabilities }, child)

end AgentSupervisor

end RustyCore
