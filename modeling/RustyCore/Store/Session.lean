import RustyCore.Agent.Apply
import RustyCore.Store.Replay

/-! The session an agent runs in. Its runner applies each command, publishes the agent's durable projection and
    then emits the events one by one: the committer gives each a sequence number, and appends the durable ones
    to the store. A checkpoint is built from the published projections at the time of an append. -/

namespace RustyCore

section

variable [Externals]

def storedAgentState (a : Agent) : StoredAgentState where
  agentId := a.id
  parentId := a.parentId
  status := a.state.status
  systemPrompt := a.state.systemPrompt
  executionParams := a.state.executionParams
  messages := a.state.messages
  activeRun := a.state.activeRun
  pendingTools := Table.mapValues (fun pending => ⟨pending.call, pending.startedAt⟩) a.state.pendingTools
  pendingPermissions := a.state.pendingPermissions
  children := a.state.children
  lastError := a.state.lastError
  transitionSequence := a.state.transitionSequence
  depth := a.state.depth

end

def buildSnapshot (sessionId : SessionId) (rootAgentId : AgentId) (projection : List StoredAgentState)
    (atSequence : Nat) (now : Timestamp) : DurableSessionSnapshot where
  sessionId := sessionId
  rootAgentId := rootAgentId
  agents := projection
  sessionSequence := atSequence
  timestamp := now
  schemaVersion := schemaVersion

/-- What an event gets from outside: a fresh id, the time, and how many sequence numbers the other agents of the
    session took before it. -/
structure Stamp where
  eventId : EventId
  timestamp : Timestamp
  skipped : Nat

def defaultSnapshotEvery : Nat := 512

inductive CommitError where
  | invalidEvent (message : String)
deriving DecidableEq

/-- The sequencer and the checkpoint counter of one session, over a store whose appends succeed. -/
structure SessionCommitter where
  next : Nat
  snapshotEvery : Nat := defaultSnapshotEvery
  appendsSinceCheckpoint : Nat := 0

namespace SessionCommitter

def nextSequence (c : SessionCommitter) (skipped : Nat) : SessionCommitter × Nat :=
  let current := saturatingAdd c.next skipped
  ({ c with next := saturatingAdd current 1 }, current)

def noteDurableAppend (c : SessionCommitter) : SessionCommitter × Bool :=
  let count := saturatingAdd c.appendsSinceCheckpoint 1
  if c.snapshotEvery > 0 ∧ count ≥ c.snapshotEvery then ({ c with appendsSinceCheckpoint := 0 }, true)
  else ({ c with appendsSinceCheckpoint := count }, false)

def commit (c : SessionCommitter) (envelope : AgentEventEnvelope) (skipped : Nat) :
    Except CommitError (SessionCommitter × AgentEventEnvelope × Option (DurableSessionEvent × Bool)) :=
  if envelope.eventId.uuid = 0 then .error (.invalidEvent "event carries no stable event_id")
  else
    let (c, sequence) := c.nextSequence skipped
    let envelope := { envelope with sessionSequence := some sequence }
    if isDurable envelope.event then
      let (c, due) := c.noteDurableAppend
      .ok (c, envelope, some (⟨envelope, some sequence⟩, due))
    else .ok (c, envelope, none)

end SessionCommitter

/-- An append to the store, with what a checkpoint taken at that moment sees of the agent, and the events that the
    runner had emitted before. -/
structure Append where
  event : DurableSessionEvent
  projection : StoredAgentState
  checkpointDue : Bool
  before : List AgentEvent

/-- The part of a request that prompt caches reuse, hashed. -/
structure Fingerprint where
  runId : RunId
  systemPrompt : Nat
  tools : Nat

def toolsJson (tools : List ToolDescriptor) : String :=
  (Value.array (tools.map fun tool => .object [("id", .string tool.id.display), ("name", .string tool.name),
    ("description", .string tool.description), ("input_schema", tool.inputSchema)])).display

variable [Externals]

def Fingerprint.of (request : ExecutionRequest) : Fingerprint :=
  ⟨request.runId, Externals.hashText request.systemPrompt, Externals.hashText (toolsJson request.tools)⟩

/-- The parts of a request that differ from the previous one of the same run. -/
def Fingerprint.observe (last : Option Fingerprint) (current : Fingerprint) : List String :=
  match last.filter fun previous => previous.runId == current.runId with
  | none => []
  | some previous =>
    (if previous.systemPrompt ≠ current.systemPrompt then ["system_prompt"] else []) ++
      (if previous.tools ≠ current.tools then ["tools"] else [])

structure AgentRunner where
  agent : Agent
  agentSequence : Nat := 0
  committer : SessionCommitter
  stamped : Nat := 0
  fatalError : Bool := false
  promptPrefix : Option Fingerprint := none
  backendManagedTools : Bool := false
  /-- The events emitted since the runner was started. The source only counts them. -/
  emitted : List AgentEvent := []

namespace AgentRunner

variable (stamp : Nat → Stamp)

def envelope (r : AgentRunner) (event : AgentEvent) : AgentRunner × AgentEventEnvelope :=
  ({ r with
    agentSequence := (r.agentSequence + 1) % 2 ^ 64
    stamped := r.stamped + 1
    emitted := r.emitted ++ [event] }, {
    eventId := (stamp r.stamped).eventId
    sessionId := r.agent.sessionId
    agentId := r.agent.id
    parentAgentId := r.agent.parentId
    runId := r.agent.state.activeRun
    agentSequence := r.agentSequence
    sessionSequence := none
    timestamp := (stamp r.stamped).timestamp
    visibility := .user
    event := event })

def failFatally (r : AgentRunner) (code message : String) : AgentRunner :=
  { r with
    fatalError := true
    agent.state.status := .failed
    agent.state.activeRun := none
    agent.state.pendingTools := ∅
    agent.state.pendingPermissions := ∅
    agent.state.lastError := some ⟨message, code, none⟩ }

/-- Emits an event; the flag is false when it could not be committed, which fails the session. -/
def emit (r : AgentRunner) (event : AgentEvent) : AgentRunner × List Append × Bool :=
  let (r', envelope) := r.envelope stamp event
  match r'.committer.commit envelope (stamp r.stamped).skipped with
  | .error (.invalidEvent message) =>
    (r'.failFatally "PERSISTENCE_COMMIT_FAILED" ("strict event commit failed: " ++ message), [], false)
  | .ok (committer, _, none) => ({ r' with committer := committer }, [], true)
  | .ok (committer, _, some (event, due)) =>
    ({ r' with committer := committer }, [⟨event, storedAgentState r'.agent, due, r.emitted⟩], true)

def checkBackendRequest (r : AgentRunner) (request : ExecutionRequest) : Bool :=
  !r.backendManagedTools && (validateTranscript request.messages).isOk

def traceRequest (r : AgentRunner) (request : ExecutionRequest) : AgentRunner × List Append × Bool :=
  let traced := (request.params.providerOptions.get "rusty").bind (·.get "trace_model_requests")
  if traced == some (.bool true) then r.emit stamp (.modelRequestPrepared request) else (r, [], true)

def watchPrefix (r : AgentRunner) (request : ExecutionRequest) : AgentRunner × List Append × Bool :=
  let changed := Fingerprint.observe r.promptPrefix (.of request)
  let r := { r with promptPrefix := some (.of request) }
  if changed.isEmpty then (r, [], true)
  else r.emit stamp (.promptPrefixChanged request.runId request.requestId changed)

/-- Sends a request to the backend, as far as the store sees it: the notices that are emitted first. A request that
    must not reach the backend is answered to the mailbox instead. -/
def executeBackend (r : AgentRunner) (request : ExecutionRequest) : AgentRunner × List Append :=
  let request := { request with messages := repairToolHistory request.messages }
  if r.checkBackendRequest request then
    match r.traceRequest stamp request with
    | (r, appends, true) =>
      let (r, later, _) := r.watchPrefix stamp request
      (r, appends ++ later)
    | (r, appends, false) => (r, appends)
  else (r, [])

/-- Carries out effects in order, as far as the store sees them. A failed emit skips the effects after
    it. -/
def dispatchEffects (r : AgentRunner) : List AgentEffect → AgentRunner × List Append
  | [] => (r, [])
  | .emit event :: rest =>
    match r.emit stamp event with
    | (r, appends, true) =>
      let (r, later) := dispatchEffects r rest
      (r, appends ++ later)
    | (r, appends, false) => (r, appends)
  | .executeBackend request :: rest =>
    let (r, appends) := r.executeBackend stamp request
    let (r, later) := dispatchEffects r rest
    (r, appends ++ later)
  | _ :: rest => dispatchEffects r rest

/-- Applies one command and its effects. A runner that failed fatally takes no more commands. -/
def handleCommand (r : AgentRunner) (c : AgentCommand) : AgentRunner × List Append :=
  if r.fatalError then (r, [])
  else
    let (agent, effects) := r.agent.apply c
    dispatchEffects stamp { r with agent := agent } effects

def session : Machine AgentRunner AgentCommand Append := ⟨handleCommand stamp⟩

end AgentRunner

/-- The checkpoint taken at an append: the published projection, under the sequence of the append. -/
def Append.checkpoint (p : Append) (now : Timestamp) : DurableSessionSnapshot :=
  buildSnapshot p.event.envelope.sessionId p.projection.agentId [p.projection]
    (p.event.sessionSequence.getD 0) now

end RustyCore
