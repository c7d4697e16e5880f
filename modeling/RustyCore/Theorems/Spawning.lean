import Mathlib.Algebra.Order.Ring.Rat
import Mathlib.Logic.Relation
import Mathlib.Order.WithBot
import RustyCore.Lib.Except
import RustyCore.Supervisor.Spawn
import RustyCore.Theorems.Transition

/-! A child is never given more than its parent has: what one spawn hands on, and so what any chain of spawns does. -/

namespace RustyCore

open Except

def bound {α : Type} (limit : Option α) : WithTop α := limit

theorem bound_le {α : Type} [LE α] {child parent : Option α}
    (h : ∀ limit, parent = some limit → ∃ l, child = some l ∧ l ≤ limit) : bound child ≤ bound parent := by
  cases parent with
  | none => exact le_top
  | some limit =>
    obtain ⟨l, rfl, hle⟩ := h limit rfl
    exact WithTop.coe_le_coe.mpr hle

theorem bound_noLooser {α : Type} [LE α] [DecidableLE α] {field : String} {parent child : Option α}
    (h : noLooser field parent child = .ok ()) : bound child ≤ bound parent := by
  refine bound_le fun limit hparent => ?_
  subst hparent
  unfold noLooser at h
  cases child with
  | none => cases h
  | some l =>
    dsimp only at h
    split at h
    · exact ⟨l, rfl, ‹_›⟩
    · cases h

def PermissionMode.strictness : PermissionMode → Nat
  | .allow => 0
  | .ask => 1
  | .deny => 2

theorem PermissionMode.strictness_stricter (parent requested : PermissionMode) :
    parent.strictness ≤ (parent.stricter requested).strictness := by
  cases parent <;> cases requested <;> decide

structure ToolCapability.Narrows (child parent : ToolCapability) : Prop where
  descriptor : child.descriptor = parent.descriptor
  enabled : parent.policy.enabled = true
  delegatable : parent.delegatable = true
  permission : parent.policy.permission.strictness ≤ child.policy.permission.strictness

structure AgentBudget.Within (child parent : AgentBudget) : Prop where
  inputTokens : bound child.maxInputTokens ≤ bound parent.maxInputTokens
  outputTokens : bound child.maxOutputTokens ≤ bound parent.maxOutputTokens
  totalTokens : bound child.maxTotalTokens ≤ bound parent.maxTotalTokens
  costUsd : bound child.maxCostUsd ≤ bound parent.maxCostUsd
  requests : bound child.maxRequests ≤ bound parent.maxRequests
  toolCalls : bound child.maxToolCalls ≤ bound parent.maxToolCalls
  children : bound child.maxChildren ≤ bound parent.maxChildren
  depth : bound child.maxDepth ≤ bound parent.maxDepth

theorem AgentBudget.Within.trans {a b c : AgentBudget} (h : c.Within b) (h' : b.Within a) : c.Within a where
  inputTokens := h.inputTokens.trans h'.inputTokens
  outputTokens := h.outputTokens.trans h'.outputTokens
  totalTokens := h.totalTokens.trans h'.totalTokens
  costUsd := h.costUsd.trans h'.costUsd
  requests := h.requests.trans h'.requests
  toolCalls := h.toolCalls.trans h'.toolCalls
  children := h.children.trans h'.children
  depth := h.depth.trans h'.depth

structure AgentCapabilities.Within (child parent : AgentCapabilities) : Prop where
  tools : ∀ id tool, child.tools.tools.lookup id = some tool →
    ∃ tool', parent.tools.tools.lookup id = some tool' ∧ tool.Narrows tool'
  depth : bound child.maxChildDepth ≤ bound parent.maxChildDepth
  spawning : child.canSpawnAgents = true → parent.canSpawnAgents = true

theorem AgentCapabilities.Within.trans {a b c : AgentCapabilities} (h : c.Within b) (h' : b.Within a) : c.Within a where
  tools id tool hlookup := by
    obtain ⟨tool', hlookup', hnarrows⟩ := h.tools id tool hlookup
    obtain ⟨tool'', hlookup'', hnarrows'⟩ := h'.tools id tool' hlookup'
    exact ⟨tool'', hlookup'', hnarrows.descriptor.trans hnarrows'.descriptor, hnarrows'.enabled, hnarrows'.delegatable,
      hnarrows'.permission.trans hnarrows.permission⟩
  depth := h.depth.trans h'.depth
  spawning hspawns := h'.spawning (h.spawning hspawns)

theorem validateChildBudget_within {parent child : AgentBudget} (h : validateChildBudget parent child = .ok ()) :
    child.Within parent := by
  unfold validateChildBudget at h
  obtain ⟨_, hinput, h⟩ := ok_of_bind h
  obtain ⟨_, houtput, h⟩ := ok_of_bind h
  obtain ⟨_, htotal, h⟩ := ok_of_bind h
  obtain ⟨_, hcost, h⟩ := ok_of_bind h
  obtain ⟨_, hrequests, h⟩ := ok_of_bind h
  obtain ⟨_, hcalls, h⟩ := ok_of_bind h
  obtain ⟨_, hchildren, hdepth⟩ := ok_of_bind h
  exact ⟨bound_noLooser hinput, bound_noLooser houtput, bound_noLooser htotal, bound_noLooser hcost,
    bound_noLooser hrequests, bound_noLooser hcalls, bound_noLooser hchildren, bound_noLooser hdepth⟩

namespace AgentCapabilities

variable {c : AgentCapabilities}

theorem canDelegate_lookup {id : ToolId} (h : c.canDelegate id = true) : ∃ capability,
    c.tools.tools.lookup id = some capability ∧ capability.delegatable = true ∧ capability.policy.enabled = true := by
  unfold canDelegate at h
  split at h
  · rename_i capability hlookup
    exact ⟨capability, hlookup, Bool.and_eq_true_iff.mp h⟩
  · cases h

theorem takeSubset_narrows {ids : List ToolId} {tools taken : Table.Map ToolId ToolCapability}
    (h : c.takeSubset ids tools = .ok taken)
    (htools : ∀ id tool, tools.lookup id = some tool → ∃ tool', c.tools.tools.lookup id = some tool' ∧ tool.Narrows tool')
    (id : ToolId) (tool : ToolCapability) (hlookup : taken.lookup id = some tool) :
    ∃ tool', c.tools.tools.lookup id = some tool' ∧ tool.Narrows tool' := by
  induction ids generalizing tools with
  | nil =>
    cases h
    exact htools id tool hlookup
  | cons first rest ih =>
    unfold takeSubset at h
    split at h
    · cases h
    · rename_i capability hfirst
      split at h
      · cases h
      · rename_i hdelegatable
        split at h
        · cases h
        · rename_i henabled
          refine ih h fun id tool hlookup => ?_
          by_cases hid : id = first
          · subst hid
            rw [Table.lookup_insert_self] at hlookup
            cases hlookup
            exact ⟨capability, hfirst, rfl, by simpa using henabled, by simpa using hdelegatable, Nat.le_refl _⟩
          · rw [Table.lookup_insert_ne hid] at hlookup
            exact htools id tool hlookup

theorem deriveChildCapabilities_narrows {inheritance : ToolInheritance} {toolset : AgentToolset}
    (h : c.deriveChildCapabilities inheritance = .ok toolset) (id : ToolId) (tool : ToolCapability)
    (hlookup : toolset.tools.lookup id = some tool) :
    ∃ tool', c.tools.tools.lookup id = some tool' ∧ tool.Narrows tool' := by
  cases inheritance with
  | inheritAll =>
    cases h
    obtain ⟨hkept, hparent⟩ := Table.lookup_retain hlookup
    obtain ⟨hdelegatable, henabled⟩ := Bool.and_eq_true_iff.mp hkept
    exact ⟨tool, hparent, rfl, henabled, hdelegatable, Nat.le_refl _⟩
  | subset ids =>
    unfold deriveChildCapabilities at h
    dsimp only at h
    cases htaken : c.takeSubset ids ∅ with
    | error e =>
      rw [htaken] at h
      cases h
    | ok taken =>
      rw [htaken] at h
      cases h
      exact takeSubset_narrows htaken (fun id tool hnone => by simp at hnone) id tool hlookup
  | replace requested =>
    unfold deriveChildCapabilities at h
    dsimp only at h
    split at h
    · cases h
    · rename_i hall
      cases h
      obtain ⟨request, hrequest, rfl⟩ := Table.lookup_mapEntries hlookup
      have hmem : id ∈ requested.tools.keys := by
        rw [← AList.mem_keys, ← AList.lookup_isSome, hrequest]
        rfl
      have hdelegates : c.canDelegate id = true := by simpa using List.find?_eq_none.mp hall id hmem
      obtain ⟨capability, hparent, hdelegatable, henabled⟩ := canDelegate_lookup hdelegates
      refine ⟨capability, hparent, ?_⟩
      rw [hparent]
      exact ⟨rfl, henabled, hdelegatable, capability.policy.permission.strictness_stricter _⟩

theorem deriveChildAgentCapabilities_within {inheritance : ToolInheritance}
    {workspaceOverride : Option WorkspaceCapabilities} {child : AgentCapabilities}
    (h : c.deriveChildAgentCapabilities inheritance workspaceOverride = .ok child) : child.Within c ∧
      child.maxChildDepth = c.maxChildDepth.map (· - 1) ∧
      (child.canSpawnAgents = true → child.maxChildDepth ≠ some 0) := by
  unfold deriveChildAgentCapabilities at h
  obtain ⟨toolset, htools, h⟩ := ok_of_bind h
  have hdepth : child.maxChildDepth = c.maxChildDepth.map (· - 1) := by
    rw [← Except.ok.inj h]
    rcases c.maxChildDepth with _ | _ | d <;> rfl
  cases h
  refine ⟨⟨deriveChildCapabilities_narrows htools, ?_, ?_⟩, hdepth, ?_⟩
  · refine bound_le fun limit hlimit => ⟨limit - 1, ?_, Nat.sub_le limit 1⟩
    exact hdepth.trans (by rw [hlimit]; rfl)
  · intro hspawns
    exact (Bool.and_eq_true_iff.mp hspawns).1
  · intro hspawns
    exact bne_iff_ne.mp (Bool.and_eq_true_iff.mp hspawns).2

end AgentCapabilities

def Spawns (parent child : SupervisedAgent) : Prop :=
  ∃ (s s' : AgentSupervisor) (services : SpawnServices) (spec : SpawnAgentSpec),
    s.spawnChild services parent child.id spec = .ok (s', child)

structure SupervisedAgent.Within (child other : SupervisedAgent) : Prop where
  capabilities : child.capabilities.Within other.capabilities
  budget : child.budget.Within other.budget

structure Handed (parent child : SupervisedAgent) : Prop where
  within : child.Within parent
  spawning : parent.capabilities.canSpawnAgents = true
  depth : child.capabilities.maxChildDepth = parent.capabilities.maxChildDepth.map (· - 1)
  /-- A child at the end of its depth spawns no more. -/
  exhausted : child.capabilities.canSpawnAgents = true → child.capabilities.maxChildDepth ≠ some 0

theorem Spawns.handed {parent child : SupervisedAgent} (h : Spawns parent child) : Handed parent child := by
  obtain ⟨s, s', services, spec, h⟩ := h
  unfold AgentSupervisor.spawnChild at h
  obtain ⟨_, hadmitted, h⟩ := ok_of_bind h
  obtain ⟨_, -, h⟩ := ok_of_bind h
  obtain ⟨capabilities, hderive, h⟩ := ok_of_bind h
  obtain ⟨_, -, h⟩ := ok_of_bind h
  obtain ⟨_, -, h⟩ := ok_of_bind h
  obtain ⟨hwithin, hdepth, hexhausted⟩ :=
    AgentCapabilities.deriveChildAgentCapabilities_within (ok_of_mapError hderive)
  have hchild : child = ⟨child.id, some parent.id, parent.depth + 1, capabilities, spec.budget⟩ :=
    (Prod.mk.inj (Except.ok.inj h)).2.symm
  unfold AgentSupervisor.admitSpawn at hadmitted
  split at hadmitted
  · cases hadmitted
  · rename_i hmay
    obtain ⟨_, -, hbudget⟩ := ok_of_bind hadmitted
    rw [hchild]
    exact ⟨⟨hwithin, validateChildBudget_within hbudget⟩, by simpa using hmay, hdepth, hexhausted⟩

open Relation

theorem SupervisedAgent.Within.trans {a b c : SupervisedAgent} (h : c.Within b) (h' : b.Within a) : c.Within a :=
  ⟨h.capabilities.trans h'.capabilities, h.budget.trans h'.budget⟩

theorem Spawns.within {root agent child : SupervisedAgent} (h : ReflTransGen Spawns root agent)
    (hlast : Spawns agent child) : child.Within root := by
  induction h generalizing child with
  | refl => exact hlast.handed.within
  | tail _ hspawn ih => exact hlast.handed.within.trans (ih hspawn)

theorem Spawns.depth_left {root agent child : SupervisedAgent} (h : ReflTransGen Spawns root agent)
    (hlast : Spawns agent child) (hroot : root.capabilities.maxChildDepth ≠ some 0) :
    agent.capabilities.maxChildDepth ≠ some 0 := by
  cases h with
  | refl => exact hroot
  | tail _ hspawn => exact hspawn.handed.exhausted hlast.handed.spawning

theorem Spawns.limited {root agent : SupervisedAgent} (h : ReflTransGen Spawns root agent)
    (hroot : root.capabilities.maxChildDepth ≠ none) : agent.capabilities.maxChildDepth ≠ none := by
  induction h with
  | refl => exact hroot
  | tail _ hspawn ih => rwa [hspawn.handed.depth, ne_eq, Option.map_eq_none_iff]

/-- Along any chain of spawns, what the last child has is within what its parent and every agent further up have: its
    tools narrow enabled and delegatable ones, it spawns only if they could, and none of its limits is above theirs. An
    unlimited depth stays unlimited; where the first agent has a depth left, each spawn lowers it. -/
theorem spawn_never_escalates {root parent child : SupervisedAgent} (hchain : ReflTransGen Spawns root parent)
    (hspawn : Spawns parent child) : child.Within parent ∧ child.Within root ∧
      (parent.capabilities.maxChildDepth = none → child.capabilities.maxChildDepth = none) ∧
      (root.capabilities.maxChildDepth ≠ none → root.capabilities.maxChildDepth ≠ some 0 →
        bound child.capabilities.maxChildDepth < bound parent.capabilities.maxChildDepth) := by
  have hhanded := hspawn.handed
  refine ⟨hhanded.within, hspawn.within hchain, fun hnone => by rw [hhanded.depth, hnone]; rfl, fun hlimit hleft => ?_⟩
  have hpositive := hspawn.depth_left hchain hleft
  obtain ⟨depth, hdepth⟩ := Option.ne_none_iff_exists'.mp (Spawns.limited hchain hlimit)
  rw [hdepth] at hpositive
  rw [hhanded.depth, hdepth]
  have hlower : depth - 1 < depth := by
    have hzero : depth ≠ 0 := fun hzero => hpositive (congrArg some hzero)
    omega
  exact WithTop.coe_lt_coe.mpr hlower

namespace Sample

def handing (maxChildDepth : Option Nat) (canSpawnAgents : Bool) : AgentCapabilities where
  tools := ⟨(∅ : Table.Map ToolId ToolCapability).insert ⟨1⟩ ⟨⟨⟨1⟩, "fs.read", "Read files", .null⟩, ⟨.allow, true⟩, true⟩⟩
  canSpawnAgents := canSpawnAgents
  maxChildDepth := maxChildDepth
  workspace := ⟨true, true, true⟩

def spawner (maxChildDepth : Option Nat) : SupervisedAgent :=
  ⟨⟨1⟩, none, 0, handing maxChildDepth true, { maxRequests := some 5 }⟩

def spawned (maxChildDepth : Option Nat) : SupervisedAgent :=
  ⟨⟨2⟩, some ⟨1⟩, 1, handing maxChildDepth true, { maxRequests := some 3 }⟩

def inheriting : SpawnAgentSpec where
  role := none
  backend := .inherit
  tools := .inheritAll
  workspace := .inherit
  budget := { maxRequests := some 3 }
  mode := .awaitResult
  task := some "look"
  executionParams := {}
  originToolCallId := none

def spawnServices : SpawnServices := ⟨.ok (), .ok (), .ok ()⟩

theorem spawns_limited : Spawns (spawner (some 8)) (spawned (some 7)) := ⟨{}, _, spawnServices, inheriting, rfl⟩

theorem spawns_unlimited : Spawns (spawner none) (spawned none) := ⟨{}, _, spawnServices, inheriting, rfl⟩

end Sample

section

open Sample

theorem spawn_never_escalates_once : (spawned (some 7)).Within (spawner (some 8)) ∧
    bound (spawned (some 7)).capabilities.maxChildDepth < bound (spawner (some 8)).capabilities.maxChildDepth := by
  obtain ⟨hwithin, -, -, hdepth⟩ := spawn_never_escalates .refl spawns_limited
  exact ⟨hwithin, hdepth (by simp [spawner, handing]) (by simp [spawner, handing])⟩

/-- An agent without a limit on the depth has children without one. -/
theorem unlimited_depth_stays : ¬ ∀ parent child : SupervisedAgent, Spawns parent child →
    bound child.capabilities.maxChildDepth < bound parent.capabilities.maxChildDepth :=
  fun h => lt_irrefl _ (h (spawner none) (spawned none) spawns_unlimited)

end

end RustyCore
