import RustyCore.Agent.State

/-! What a session store keeps: the events that are durable, checkpoints of the agents, and what is loaded to
    restore a session. -/

namespace RustyCore

/-- The events a store persists. The others are ephemeral: they take a sequence number and leave a hole. -/
def isDurable : AgentEvent → Bool
  | .assistantMessageCompleted _ | .toolCallStarted _ | .toolCallCompleted _ _ | .childAgentSpawned _ _
  | .childAgentCompleted _ _ | .permissionRequested _ | .usageUpdated _ | .failed _ | .completed _
  | .stateChanged _ _ | .runStarted _ => true
  | _ => false

structure DurableSessionEvent where
  envelope : AgentEventEnvelope
  sessionSequence : Option Nat

structure StoredPendingToolCall where
  call : ToolCall
  startedAt : Timestamp

structure StoredAgentState where
  agentId : AgentId
  parentId : Option AgentId
  status : AgentStatus
  systemPrompt : String
  executionParams : ExecutionParams
  messages : List AgentMessage
  activeRun : Option RunId
  pendingTools : Table.Map ToolCallId StoredPendingToolCall
  pendingPermissions : Table.Map PermissionId ToolCallId
  children : List AgentId
  lastError : Option AgentError
  transitionSequence : Nat
  depth : Nat

structure DurableSessionSnapshot where
  sessionId : SessionId
  rootAgentId : AgentId
  agents : List StoredAgentState
  sessionSequence : Nat
  timestamp : Timestamp
  schemaVersion : Nat

structure StoredSession where
  sessionId : SessionId
  snapshot : Option DurableSessionSnapshot
  events : List DurableSessionEvent

def schemaVersion : Nat := 1

def minSupportedSnapshotVersion : Nat := 0

inductive SnapshotVersionError where
  | futureVersion (found supported : Nat)
  | ancientVersion (found supported : Nat)
deriving DecidableEq

def checkSnapshotVersion (version : Nat) : Except SnapshotVersionError Unit :=
  if version > schemaVersion then .error (.futureVersion version schemaVersion)
  else if version < minSupportedSnapshotVersion then .error (.ancientVersion version minSupportedSnapshotVersion)
  else .ok ()

/-! Restoring a session: the stored events after a checkpoint are validated as they stand, and then applied to
    the checkpoint. Neither reorders corrupt input nor invents state. -/

inductive ReplayError where
  | futureSnapshotVersion (found supported : Nat)
  | ancientSnapshotVersion (found supported : Nat)
  | duplicateEventId (eventId : String) (sessionSequence : Nat)
  | duplicateSequence (sessionSequence : Nat)
  | outOfOrder (previous next : Nat)
  | gap (expected found : Nat)
  | corruptPayload (sessionSequence : Option Nat) (reason : String)
  | invalidTransition (sessionSequence : Nat) (reason : String)
deriving DecidableEq

inductive GapPolicy where
  | strict
  | allowEphemeralHoles
deriving DecidableEq

namespace AgentStatus

def debug : AgentStatus → String
  | idle => "Idle"
  | preparingContext => "PreparingContext"
  | waitingForBackend => "WaitingForBackend"
  | streaming => "Streaming"
  | executing => "Executing"
  | waitingForPermission => "WaitingForPermission"
  | waitingForChildren => "WaitingForChildren"
  | verifying => "Verifying"
  | paused => "Paused"
  | completed => "Completed"
  | cancelled => "Cancelled"
  | failed => "Failed"

def isTerminal : AgentStatus → Bool
  | cancelled | completed | failed => true
  | _ => false

end AgentStatus

namespace Replay

def finalSequence (event : DurableSessionEvent) : Except ReplayError Nat :=
  match event.sessionSequence with
  | some sequence => .ok sequence
  | none => .error (.corruptPayload none "durable event carries no final session sequence")

def validatePayload (_event : DurableSessionEvent) (_sequence : Nat) : Except ReplayError Unit := .ok ()

def checkOrder (policy : GapPolicy) (previous : Option Nat) (sequence : Nat) : Except ReplayError Unit :=
  match previous with
  | none => .ok ()
  | some value =>
    if sequence = value then .error (.duplicateSequence sequence)
    else if sequence < value then .error (.outOfOrder value sequence)
    else if policy = .strict ∧ sequence > saturatingAdd value 1 then .error (.gap (saturatingAdd value 1) sequence)
    else .ok ()

def validateEvents (sessionId : SessionId) (policy : GapPolicy) (seen : List String) (previous : Option Nat) :
    List DurableSessionEvent → Except ReplayError (List DurableSessionEvent)
  | [] => .ok []
  | event :: rest => do
    let sequence ← finalSequence event
    if event.envelope.sessionSequence ≠ some sequence then
      throw (.corruptPayload (some sequence) "durable record and envelope session sequences disagree")
    if event.envelope.sessionId ≠ sessionId then
      throw (.corruptPayload (some sequence) ("event belongs to session " ++ event.envelope.sessionId.display ++
        ", expected " ++ sessionId.display))
    let eventId := event.envelope.eventId.display
    if seen.contains eventId then throw (.duplicateEventId eventId sequence)
    checkOrder policy previous sequence
    validatePayload event sequence
    let validated ← validateEvents sessionId policy (eventId :: seen) (some sequence) rest
    return event :: validated

def mismatch (agentId : AgentId) (current from_ : AgentStatus) : String :=
  "agent " ++ agentId.display ++ " is in " ++ current.debug ++ ", event claims " ++ from_.debug

/-- A transition of an agent whose status is known must start there, and may not leave a terminal status. -/
def checkTransition (statuses : Table.Map AgentId AgentStatus) (agentId : AgentId) (from_ to_ : AgentStatus)
    (sequence : Nat) : Except ReplayError Unit :=
  match statuses.lookup agentId with
  | none => .ok ()
  | some current =>
    if current ≠ from_ then .error (.invalidTransition sequence (mismatch agentId current from_))
    else if current.isTerminal then
      .error (.invalidTransition sequence ("terminal state " ++ current.debug ++ " is absorbing; cannot transition to " ++
        to_.debug))
    else .ok ()

def checkTransitions (statuses : Table.Map AgentId AgentStatus) : List DurableSessionEvent → Except ReplayError Unit
  | [] => .ok ()
  | event :: rest => do
    let sequence ← finalSequence event
    match event.envelope.event with
    | .stateChanged from_ to_ =>
      checkTransition statuses event.envelope.agentId from_ to_ sequence
      checkTransitions (statuses.insert event.envelope.agentId to_) rest
    | _ => checkTransitions statuses rest

def statusesOf (snapshot : Option DurableSessionSnapshot) : Table.Map AgentId AgentStatus :=
  ((snapshot.map (·.agents)).getD []).foldl (fun statuses agent => statuses.insert agent.agentId agent.status) ∅

/-- Validates transitions independently for each agent, seeded from the checkpoint when one exists. -/
def validateTransitionStream (stored : StoredSession) (events : List DurableSessionEvent) : Except ReplayError Unit :=
  checkTransitions (statusesOf stored.snapshot) events

def checkVersion (snapshot : Option DurableSessionSnapshot) : Except ReplayError Unit :=
  match snapshot with
  | none => .ok ()
  | some snapshot =>
    match checkSnapshotVersion snapshot.schemaVersion with
    | .ok () => .ok ()
    | .error (.futureVersion found supported) => .error (.futureSnapshotVersion found supported)
    | .error (.ancientVersion found supported) => .error (.ancientSnapshotVersion found supported)

def validateTrailingReplay (stored : StoredSession) (policy : GapPolicy) :
    Except ReplayError (List DurableSessionEvent) := do
  checkVersion stored.snapshot
  let validated ← validateEvents stored.sessionId policy [] (stored.snapshot.map (·.sessionSequence)) stored.events
  validateTransitionStream stored validated
  return validated

/-- A transition must start from the state the agent is in; anything else means the log and the checkpoint
    disagree. -/
def changeState (agent : StoredAgentState) (from_ to_ : AgentStatus) (agentSequence sequence : Nat) :
    Except ReplayError StoredAgentState :=
  if agent.status ≠ from_ then .error (.invalidTransition sequence (mismatch agent.agentId agent.status from_))
  else .ok { agent with status := to_, transitionSequence := agentSequence }

/-- Applies an event to one agent's stored state. Events that change nothing a snapshot stores are
    ignored. -/
def applyEvent (agent : StoredAgentState) (envelope : AgentEventEnvelope) (sequence : Nat) :
    Except ReplayError StoredAgentState :=
  match envelope.event with
  | .stateChanged from_ to_ => changeState agent from_ to_ envelope.agentSequence sequence
  | .runStarted runId => .ok { agent with activeRun := some runId, lastError := none }
  | .permissionRequested request =>
    .ok { agent with pendingPermissions := agent.pendingPermissions.insert request.id request.toolCall.id }
  | .toolCallCompleted callId _ =>
    .ok { agent with
      pendingTools := agent.pendingTools.erase callId
      pendingPermissions := Table.retain (fun _ pending => pending != callId) agent.pendingPermissions }
  | .childAgentSpawned childId _ =>
    .ok (if agent.children.contains childId then agent else { agent with children := agent.children ++ [childId] })
  | .failed error => .ok { agent with lastError := some error, activeRun := none }
  | .completed _ => .ok { agent with activeRun := none }
  | _ => .ok agent

def applyTo (event : DurableSessionEvent) (sequence : Nat) :
    List StoredAgentState → Except ReplayError (List StoredAgentState)
  | [] => .error (.invalidTransition sequence ("event targets agent " ++ event.envelope.agentId.display ++
      ", which is absent from the checkpoint"))
  | agent :: rest =>
    if agent.agentId = event.envelope.agentId then do
      let agent ← applyEvent agent event.envelope sequence
      return agent :: rest
    else do
      let rest ← applyTo event sequence rest
      return agent :: rest

def replaySnapshot (snapshot : DurableSessionSnapshot) :
    List DurableSessionEvent → Except ReplayError DurableSessionSnapshot
  | [] => .ok snapshot
  | event :: rest => do
    let sequence ← finalSequence event
    let agents ← applyTo event sequence snapshot.agents
    replaySnapshot { snapshot with
      agents := agents, sessionSequence := sequence, timestamp := event.envelope.timestamp } rest

def restore (snapshot : DurableSessionSnapshot) (events : List DurableSessionEvent) (policy : GapPolicy) :
    Except ReplayError DurableSessionSnapshot := do
  let validated ← validateTrailingReplay ⟨snapshot.sessionId, some snapshot, events⟩ policy
  replaySnapshot snapshot validated

end Replay

end RustyCore
