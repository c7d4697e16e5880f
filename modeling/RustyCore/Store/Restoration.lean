import RustyCore.Store.Session

/-! The whole durable form of an agent, as a checkpoint holds it, and how an agent is rebuilt from it. The
    capabilities and the usage ledger are stored as JSON, written by derived conversions and read by hand. -/

namespace RustyCore

/-! ### Registries -/

section

variable [Externals]

def ProfileRegistry.documents (registry : ProfileRegistry) : List BehaviorProfile :=
  (registry.entries.filter fun entry => decide (entry.2.source ≠ .builtIn)).map fun entry => entry.2.compiled.profile

end

/-! ### Outside the repository -/

structure Codec (α : Type) where
  toValue : α → Value
  fromValue : Value → Except String α

def Codec.Reads {α : Type} (codec : Codec α) (value : α) : Prop := codec.fromValue (codec.toValue value) = .ok value

/-- What the derived conversions and the UUID parser do. -/
class Serde where
  toolset : Codec AgentToolset
  record : Codec UsageRecord
  metrics : Codec AgentUsageMetrics
  parseUuid : String → Except String Uuid

/-! ### JSON numbers and flags -/

namespace Value

def asBool : Value → Option Bool
  | .bool b => some b
  | _ => none

def ofNat (n : Nat) : Value := .number (.posInt n)

def required (value : Value) (key : String) : Except String Value :=
  match value.get key with
  | some field => .ok field
  | none => .error ("missing field `" ++ key ++ "`")

end Value

def inProjection {α : Type} (label : String) : Except String α → Except String α
  | .ok value => .ok value
  | .error error => .error (label ++ error)

/-! ### Capabilities -/

section

variable [Serde]

def capabilitiesToValue (c : AgentCapabilities) : Value := .object [
  ("can_spawn_agents", .bool c.canSpawnAgents),
  ("max_child_depth", match c.maxChildDepth with | none => .null | some depth => .ofNat depth),
  ("tools", Serde.toolset.toValue c.tools),
  ("workspace", .object [("can_read", .bool c.workspace.canRead), ("can_search", .bool c.workspace.canSearch),
    ("can_write", .bool c.workspace.canWrite)])]

def workspaceBool (workspace : Value) (key : String) : Except String Bool :=
  match (workspace.get key).bind Value.asBool with
  | some flag => .ok flag
  | none => .error ("`workspace." ++ key ++ "` is not a boolean")

/-- An integer is cut to `u32`. -/
def childDepth : Value → Except String (Option Nat)
  | .null => .ok none
  | value =>
    match value.asU64 with
    | some depth => .ok (some (depth % 2 ^ 32))
    | none => .error "`max_child_depth` is not an integer"

def tryCapabilities (value : Value) : Except String AgentCapabilities := do
  if !value.isObject then throw "capabilities projection is not an object"
  let tools ← inProjection "invalid `tools` projection: " (Serde.toolset.fromValue (← value.required "tools"))
  let canSpawnAgents ← match (← value.required "can_spawn_agents").asBool with
    | some flag => .ok flag
    | none => .error "`can_spawn_agents` is not a boolean"
  let maxChildDepth ← childDepth (← value.required "max_child_depth")
  let workspace ← value.required "workspace"
  if !workspace.isObject then throw "`workspace` is not an object"
  let canRead ← workspaceBool workspace "can_read"
  let canWrite ← workspaceBool workspace "can_write"
  let canSearch ← workspaceBool workspace "can_search"
  return ⟨tools, canSpawnAgents, maxChildDepth, ⟨canRead, canWrite, canSearch⟩⟩

/-- A corrupt or missing projection falls back to an empty, non-escalating capability set. -/
def capabilitiesFromValue (value : Value) : AgentCapabilities :=
  match tryCapabilities value with
  | .ok capabilities => capabilities
  | .error _ => ⟨⟨∅⟩, false, none, ⟨false, false, false⟩⟩

/-! ### Usage -/

def summaryToValue (s : AgentUsageSummary) : Value := .object [
  ("descendant_usage", Serde.metrics.toValue s.descendantUsage),
  ("inclusive_usage", Serde.metrics.toValue s.inclusiveUsage),
  ("self_usage", Serde.metrics.toValue s.selfUsage)]

def childUsageToValue (usage : Table.Map AgentId AgentUsageSummary) : Value :=
  .object ((usage.entries.insertionSort fun a b => a.1.display ≤ b.1.display).map fun entry =>
    (entry.1.display, summaryToValue entry.2))

def usageToValue (u : UsageLedger) : Value := .object [
  ("child_usage", childUsageToValue u.childUsage),
  ("records", .array (u.records.map Serde.record.toValue)),
  ("runs", .ofNat u.runs),
  ("tool_calls", .ofNat u.toolCalls)]

def usageSummaryFromValue (value : Value) : Except String AgentUsageSummary := do
  if !value.isObject then throw "child usage summary is not an object"
  let selfUsage ← inProjection "invalid `self_usage` projection: "
    (Serde.metrics.fromValue (← value.required "self_usage"))
  let descendantUsage ← inProjection "invalid `descendant_usage` projection: "
    (Serde.metrics.fromValue (← value.required "descendant_usage"))
  let inclusiveUsage ← inProjection "invalid `inclusive_usage` projection: "
    (Serde.metrics.fromValue (← value.required "inclusive_usage"))
  return ⟨selfUsage, descendantUsage, inclusiveUsage⟩

def childUsageFromFields (usage : Table.Map AgentId AgentUsageSummary) :
    List (String × Value) → Except String (Table.Map AgentId AgentUsageSummary)
  | [] => .ok usage
  | (key, summary) :: rest => do
    let uuid ← inProjection ("invalid child_usage key " ++ Value.quote key ++ ": ") (Serde.parseUuid key)
    let summary ← usageSummaryFromValue summary
    childUsageFromFields (usage.insert ⟨uuid⟩ summary) rest

def recordsFromValue (value : Value) : Except String (List UsageRecord) :=
  match value.asArray with
  | some items => items.mapM Serde.record.fromValue
  | none => .error "expected a sequence"

def tryUsage (value : Value) : Except String UsageLedger := do
  if !value.isObject then throw "usage projection is not an object"
  let records ← inProjection "invalid `records` projection: "
    (recordsFromValue ((value.get "records").getD (.array [])))
  let childUsage ← match value.get "child_usage" with
    | some (.object children) => childUsageFromFields ∅ children
    | _ => .ok ∅
  let toolCalls := ((value.get "tool_calls").bind Value.asU64).getD 0
  let runs := ((value.get "runs").bind Value.asU64).getD 0
  return { records, toolCalls, runs, childUsage }

def usageFromValue (value : Value) : UsageLedger :=
  match tryUsage value with
  | .ok usage => usage
  | .error _ => {}

end

/-! ### Behavior -/

section

variable [Externals]

/-- The behavior state as it is stored: the active profile in full, its hash and the counters. -/
structure StoredBehavior where
  profile : BehaviorProfile
  contentHash : String
  run : RunCounters
  library : List BehaviorProfile
  enteredFrom : Option EnteredFrom
  commandsTrusted : Bool

inductive BehaviorRestoreError where
  | invalid (issues : List ProfileIssue)
  | hashMismatch (reference : ProfileRef)
  | library (error : ProfileRegistryError)

namespace BehaviorState

def toStored (b : BehaviorState) : StoredBehavior where
  profile := b.profile.profile
  contentHash := b.profile.contentHash
  run := { b.run with enteredFrom := none }
  library := b.library.documents
  enteredFrom := b.enteredFrom
  commandsTrusted := b.commandsTrusted

/-- Rebuilds the state. The profile is compiled again and its hash must match. A snapshot from before the
    behavior layer restores the built-in default. -/
def fromStored : Option StoredBehavior → Except BehaviorRestoreError BehaviorState
  | none => .ok (new defaultProfile)
  | some stored =>
    match compile stored.profile with
    | .error issues => .error (.invalid issues)
    | .ok compiled =>
      if compiled.contentHash ≠ stored.contentHash then .error (.hashMismatch compiled.reference)
      else
        match ProfileRegistry.fromLibrary stored.library with
        | .error error => .error (.library error)
        | .ok library => .ok ⟨compiled, library, stored.enteredFrom, stored.commandsTrusted, stored.run⟩

end BehaviorState

/-! ### Agents -/

variable [Serde]

structure StoredAgent extends StoredAgentState where
  capabilities : Value
  usage : Value
  behavior : Option StoredBehavior

def storedAgent (a : Agent) : StoredAgent where
  toStoredAgentState := storedAgentState a
  capabilities := capabilitiesToValue a.capabilities
  usage := usageToValue a.usage
  behavior := some a.state.behavior.toStored

inductive RestoreError where
  | behavior (agent : AgentId) (error : BehaviorRestoreError)

def restoredAgent (sessionId : SessionId) (stored : StoredAgent) : Except RestoreError Agent :=
  match BehaviorState.fromStored stored.behavior with
  | .error error => .error (.behavior stored.agentId error)
  | .ok behavior => .ok {
    id := stored.agentId
    sessionId := sessionId
    parentId := stored.parentId
    state := {
      status := stored.status
      systemPrompt := stored.systemPrompt
      executionParams := stored.executionParams
      messages := stored.messages
      activeRun := stored.activeRun
      backendInFlight := false
      queuedInputs := []
      pendingTools := Table.mapValues (fun pending => ⟨pending.call, pending.startedAt⟩) stored.pendingTools
      pendingPermissions := stored.pendingPermissions
      children := stored.children
      lastError := stored.lastError
      consecutiveToolTimeouts := 0
      transitionSequence := stored.transitionSequence
      depth := stored.depth
      behavior := behavior
      pendingProfile := none }
    capabilities := capabilitiesFromValue stored.capabilities
    usage := usageFromValue stored.usage }

end

/-! The lives of one agent across restarts. Its runner takes commands and appends to the store; a checkpoint
    stores the agent as it is published; a restart loads the checkpoint, replays the events that were appended
    after it, and starts a new runner over the agent restored from them. -/

section

variable [Externals] [Serde]

structure AgentCheckpoint where
  sessionId : SessionId
  stored : StoredAgent
  sessionSequence : Nat
  timestamp : Timestamp

def AgentCheckpoint.snapshot (c : AgentCheckpoint) : DurableSessionSnapshot :=
  buildSnapshot c.sessionId c.stored.agentId [c.stored.toStoredAgentState] c.sessionSequence c.timestamp

/-- A running agent with what the store holds of it: the last checkpoint, the appends after it that earlier
    commands made, and those of the last command. -/
structure AgentHistory where
  runner : AgentRunner
  checkpoint : Option AgentCheckpoint
  settled : List Append
  recent : List Append

namespace AgentHistory

/-- A checkpoint may be taken between two appends of a command: the projection is published before the first of
    them. A process may die there too, and a restart then replays only what was appended. -/
inductive Input where
  | command (c : AgentCommand)
  | checkpoint (appended : Nat) (now : Timestamp)
  | restart (appended : Nat)

/-- A restart that restored the agent: the sequence it stood at in the checkpoint, the appends that were replayed,
    and the sequence it goes on from. -/
structure Restored where
  agentId : AgentId
  checkpointed : Nat
  replayed : List Append
  resumed : Nat

def lastSequence (h : AgentHistory) (appends : List Append) : Nat :=
  ((appends.getLast?.bind (·.event.sessionSequence)).or (h.checkpoint.map (·.sessionSequence))).getD 0

def takeCheckpoint (h : AgentHistory) (appended : Nat) (now : Timestamp) : AgentHistory :=
  { h with
    checkpoint := some ⟨h.runner.agent.sessionId, storedAgent h.runner.agent,
      h.lastSequence (h.settled ++ h.recent.take appended), now⟩
    settled := []
    recent := h.recent.drop appended }

/-- `AgentRunner::new` over a restored agent; the committer resumes after the last durable event. -/
def resume (h : AgentHistory) (agent : Agent) (trail : List Append) : AgentRunner where
  agent := agent
  committer := ⟨saturatingAdd (h.lastSequence trail) 1, h.runner.committer.snapshotEvery, 0⟩
  stamped := h.runner.stamped
  backendManagedTools := h.runner.backendManagedTools

def load (c : AgentCheckpoint) (trail : List Append) : Option Agent :=
  match Replay.restore c.snapshot (trail.map (·.event)) .allowEphemeralHoles with
  | .error _ => none
  | .ok snapshot =>
    snapshot.agents.head?.bind fun stored =>
      (restoredAgent c.sessionId { c.stored with toStoredAgentState := stored }).toOption

def restart (h : AgentHistory) (appended : Nat) : AgentHistory × List Restored :=
  let trail := h.settled ++ h.recent.take appended
  match h.checkpoint with
  | none => (h, [])
  | some c =>
    match load c trail with
    | none => (h, [])
    | some agent =>
      ({ h with runner := h.resume agent trail, settled := trail, recent := [] },
        [⟨agent.id, c.stored.transitionSequence, trail, agent.state.transitionSequence⟩])

variable (stamp : Nat → Stamp)

def step (h : AgentHistory) : Input → AgentHistory × List Restored
  | .command c =>
    let (runner, appends) := h.runner.handleCommand stamp c
    ({ h with runner := runner, settled := h.settled ++ h.recent, recent := appends }, [])
  | .checkpoint appended now => (h.takeCheckpoint appended now, [])
  | .restart appended => h.restart appended

def machine : Machine AgentHistory Input Restored := ⟨step stamp⟩

end AgentHistory

end

end RustyCore
