import RustyCore.Store.Jsonl

/-! The session stores: one contract, and the in-memory store, the JSONL files and the SQLite tables that implement
    it. -/

namespace RustyCore

structure SessionStore (σ : Type) where
  loadSession : σ → SessionId → Except StoreError StoredSession
  eventsSince : σ → SessionId → Nat → Except StoreError (List DurableSessionEvent)
  currentSequence : σ → SessionId → Except StoreError Nat
  append : σ → DurableSessionEvent → Except StoreError σ
  saveSnapshot : σ → DurableSessionSnapshot → Except StoreError σ

namespace SessionStore

variable {σ : Type} (store : SessionStore σ)

def write (s : σ) : JsonlRecord → σ
  | .event event => (store.append s event).toOption.getD s
  | .snapshot snapshot => (store.saveSnapshot s snapshot).toOption.getD s

def writes (s : σ) (records : List JsonlRecord) : σ := records.foldl store.write s

end SessionStore

namespace DurableSessionEvent

def after (since : Nat) (event : DurableSessionEvent) : Bool := event.sessionSequence.any (· > since)

def unsequencedOrAfter (since : Nat) (event : DurableSessionEvent) : Bool := event.sessionSequence.all (· > since)

end DurableSessionEvent

structure MemoryStore where
  failAppends : Bool := false
  failSnapshots : Bool := false
  events : SessionId → List DurableSessionEvent := fun _ => []
  snapshots : SessionId → Option DurableSessionSnapshot := fun _ => none

namespace MemoryStore

def loadSession (s : MemoryStore) (id : SessionId) : Except StoreError StoredSession :=
  let events := s.events id
  let snapshot := s.snapshots id
  if snapshot.isNone && events.isEmpty then .error .notFound
  else .ok ⟨id, snapshot, match snapshot with
    | some snapshot => events.filter (·.after snapshot.sessionSequence)
    | none => events⟩

def currentSequence (s : MemoryStore) (id : SessionId) : Nat :=
  SessionRecords.currentSequence ⟨s.snapshots id, s.events id⟩

def append (s : MemoryStore) (event : DurableSessionEvent) : Except StoreError MemoryStore :=
  let id := event.envelope.sessionId
  if s.failAppends then .error (.backend "scripted append failure")
  else if event.sessionSequence.isSome && (s.events id).any (·.sessionSequence == event.sessionSequence) then
    .error (.invalidState "UNIQUE constraint failed: duplicate session_sequence")
  else .ok { s with events := Function.update s.events id (s.events id ++ [event]) }

def saveSnapshot (s : MemoryStore) (snapshot : DurableSessionSnapshot) : Except StoreError MemoryStore :=
  if s.failSnapshots then .error (.backend "scripted snapshot failure")
  else .ok { s with snapshots := Function.update s.snapshots snapshot.sessionId (some snapshot) }

def store : SessionStore MemoryStore where
  loadSession := loadSession
  eventsSince s id since := .ok ((s.events id).filter (·.after since))
  currentSequence s id := .ok (s.currentSequence id)
  append := append
  saveSnapshot := saveSnapshot

end MemoryStore

/-- The refusal of an event that is not durable; `debug` is the event's `Debug` text. -/
def refuseEphemeral (debug : AgentEvent → String) (event : AgentEvent) : StoreError :=
  .invalidState ("refusing to persist ephemeral event: " ++ debug event)

structure JsonlSessionStore where
  files : SessionId → Jsonl.File := fun _ => none

namespace JsonlSessionStore

section

variable [JsonlExternals] (debug : AgentEvent → String) (path : SessionId → String)

def read (s : JsonlSessionStore) (id : SessionId) : Except StoreError SessionRecords :=
  Jsonl.readRecords (path id) (s.files id)

def loadSession (s : JsonlSessionStore) (id : SessionId) : Except StoreError StoredSession := do
  let records ← s.read path id
  return ⟨id, records.snapshot, match records.snapshot with
    | some snapshot => records.events.filter (·.unsequencedOrAfter snapshot.sessionSequence)
    | none => records.events⟩

def eventsSince (s : JsonlSessionStore) (id : SessionId) (since : Nat) : Except StoreError (List DurableSessionEvent) := do
  let records ← s.read path id
  return records.events.filter (·.after since)

def currentSequence (s : JsonlSessionStore) (id : SessionId) : Except StoreError Nat :=
  match s.read path id with
  | .error .notFound => .ok 0
  | .error error => .error error
  | .ok records => .ok records.currentSequence

def writeThrough (s : JsonlSessionStore) (id : SessionId) (record : JsonlRecord) : JsonlSessionStore :=
  ⟨Function.update s.files id (Jsonl.writeRecord (s.files id) record)⟩

def store : SessionStore JsonlSessionStore where
  loadSession := loadSession path
  eventsSince := eventsSince path
  currentSequence := currentSequence path
  append s event :=
    if isDurable event.envelope.event then .ok (s.writeThrough event.envelope.sessionId (.event event))
    else .error (refuseEphemeral debug event.envelope.event)
  saveSnapshot s snapshot := .ok (s.writeThrough snapshot.sessionId (.snapshot snapshot))

end

end JsonlSessionStore

/-- `as i64`. -/
def toI64 (n : Nat) : Int := Int.bmod n (2 ^ 64)

/-- `as u64`. -/
def toU64 (i : Int) : Nat := (i % 2 ^ 64).toNat

structure EventRow where
  eventId : EventId
  sessionId : SessionId
  sessionSequence : Int
  envelope : AgentEventEnvelope

structure SnapshotRow where
  rootAgentId : AgentId
  agents : List StoredAgentState
  sessionSequence : Int
  timestamp : Timestamp
  schemaVersion : Int

structure SqliteSessionStore where
  durableEvents : List EventRow := []
  snapshots : SessionId → Option SnapshotRow := fun _ => none

namespace SqliteSessionStore

def decodeEvent (row : EventRow) : DurableSessionEvent :=
  let sequence := toU64 row.sessionSequence
  ⟨{ row.envelope with sessionSequence := some sequence }, some sequence⟩

def decodeSnapshot (id : SessionId) (row : SnapshotRow) : DurableSessionSnapshot where
  sessionId := id
  rootAgentId := row.rootAgentId
  agents := row.agents
  sessionSequence := toU64 row.sessionSequence
  timestamp := row.timestamp
  schemaVersion := toU64 row.schemaVersion

/-- The rows of a session that satisfy `p`, in the order of their sequences; no two of them have the same one. -/
def queryEvents (s : SqliteSessionStore) (id : SessionId) (p : EventRow → Bool) : List DurableSessionEvent :=
  ((s.durableEvents.filter fun row => decide (row.sessionId = id) && p row).insertionSort
    fun a b => a.sessionSequence ≤ b.sessionSequence).map decodeEvent

def allEvents (s : SqliteSessionStore) (id : SessionId) : List DurableSessionEvent := s.queryEvents id fun _ => true

def eventsSince (s : SqliteSessionStore) (id : SessionId) (since : Nat) : List DurableSessionEvent :=
  s.queryEvents id fun row => row.sessionSequence > toI64 since

def loadSession (s : SqliteSessionStore) (id : SessionId) : Except StoreError StoredSession :=
  let snapshot := (s.snapshots id).map (decodeSnapshot id)
  let events := match snapshot with
    | some snapshot => (s.allEvents id).filter (·.after snapshot.sessionSequence)
    | none => s.allEvents id
  if snapshot.isNone && events.isEmpty then .error .notFound else .ok ⟨id, snapshot, events⟩

def highest (s : SqliteSessionStore) (id : SessionId) : Option Int :=
  ((s.durableEvents.filter fun row => decide (row.sessionId = id)).map (·.sessionSequence)).max?

def currentSequence (s : SqliteSessionStore) (id : SessionId) : Nat :=
  max ((s.highest id).elim 0 toU64) ((s.snapshots id).elim 0 fun row => toU64 row.sessionSequence)

def nextSequence (s : SqliteSessionStore) (id : SessionId) : Nat :=
  match s.highest id with
  | some highest => saturatingAdd (toU64 highest) 1
  | none => 1

def append (debug : AgentEvent → String) (s : SqliteSessionStore) (event : DurableSessionEvent) :
    Except StoreError SqliteSessionStore :=
  let id := event.envelope.sessionId
  let sequence := (event.sessionSequence.or event.envelope.sessionSequence).getD (s.nextSequence id)
  if !isDurable event.envelope.event then .error (refuseEphemeral debug event.envelope.event)
  else if s.durableEvents.any fun row => decide (row.eventId = event.envelope.eventId) then
    .error (.invalidState "append durable event: UNIQUE constraint failed: durable_events.event_id")
  else if s.durableEvents.any fun row => decide (row.sessionId = id) && row.sessionSequence == toI64 sequence then
    .error (.invalidState
      "append durable event: UNIQUE constraint failed: durable_events.session_id, durable_events.session_sequence")
  else .ok { s with
    durableEvents := s.durableEvents ++ [⟨event.envelope.eventId, id, toI64 sequence, event.envelope⟩] }

def snapshotRow (snapshot : DurableSessionSnapshot) : SnapshotRow where
  rootAgentId := snapshot.rootAgentId
  agents := snapshot.agents
  sessionSequence := toI64 snapshot.sessionSequence
  timestamp := snapshot.timestamp
  schemaVersion := toI64 snapshot.schemaVersion

def saveSnapshot (s : SqliteSessionStore) (snapshot : DurableSessionSnapshot) : SqliteSessionStore :=
  { s with snapshots := Function.update s.snapshots snapshot.sessionId (some (snapshotRow snapshot)) }

def store (debug : AgentEvent → String) : SessionStore SqliteSessionStore where
  loadSession := loadSession
  eventsSince s id since := .ok (s.eventsSince id since)
  currentSequence s id := .ok (s.currentSequence id)
  append := append debug
  saveSnapshot s snapshot := .ok (s.saveSnapshot snapshot)

end SqliteSessionStore

/-! Retention: which snapshot a session should be compacted to, which events may then be deleted, and the writer of the
    SQLite store that deletes them. -/

structure RetentionPolicy where
  maxTrailingEvents : Nat := 1024
  keepFullHistory : Bool := true

structure CompactionPlan where
  sessionId : SessionId
  trailingEvents : Nat
  shouldCompact : Bool
  snapshotSequence : Nat
  pruneThrough : Nat
  nextGeneration : Nat

def CompactionPlan.idle (sessionId : SessionId) (nextGeneration : Nat) : CompactionPlan :=
  ⟨sessionId, 0, false, 0, 0, nextGeneration⟩

def planCompaction (compactionGeneration : DurableSessionSnapshot → Nat) (stored : StoredSession) (policy : RetentionPolicy) :
    CompactionPlan :=
  let generation := stored.snapshot.elim 0 compactionGeneration
  let trailing := stored.events.filterMap (·.sessionSequence)
  if policy.maxTrailingEvents = 0 || trailing.length ≤ policy.maxTrailingEvents then
    .idle stored.sessionId (saturatingAdd generation 1)
  else
    { sessionId := stored.sessionId
      trailingEvents := trailing.length
      shouldCompact := true
      snapshotSequence := trailing.getLast?.getD 0
      pruneThrough := if policy.keepFullHistory then 0 else stored.snapshot.elim 0 (·.sessionSequence)
      nextGeneration := saturatingAdd generation 1 }

/-- The first sequence that survives pruning through `sequence`, if a snapshot covers it. -/
def prunePlan (stored : StoredSession) (sequence : Nat) : Except String Nat :=
  match stored.snapshot with
  | none => .error "cannot prune without a snapshot: replay anchor would be lost"
  | some snapshot =>
    if snapshot.sessionSequence < sequence then .error "cannot prune beyond the latest snapshot's sequence"
    else .ok (saturatingAdd sequence 1)

namespace SqliteSessionStore

def pruned (id : SessionId) (sequence : Nat) (row : EventRow) : Bool :=
  decide (row.sessionId = id) && decide (row.sessionSequence ≤ toI64 sequence)

/-- Deletes the session's events up to `sequence`, and counts them; it does not check that a snapshot covers them. -/
def pruneEvents (s : SqliteSessionStore) (id : SessionId) (sequence : Nat) : Nat × SqliteSessionStore :=
  (s.durableEvents.countP (pruned id sequence),
    { s with durableEvents := s.durableEvents.filter fun row => !pruned id sequence row })

def compact (s : SqliteSessionStore) (plan : CompactionPlan) (snapshot : DurableSessionSnapshot) : SqliteSessionStore :=
  if plan.shouldCompact then
    s.saveSnapshot { snapshot with sessionId := plan.sessionId, sessionSequence := plan.snapshotSequence }
  else s

inductive WriteCommand where
  | append (event : DurableSessionEvent)
  | saveSnapshot (snapshot : DurableSessionSnapshot)
  | prune (sessionId : SessionId) (sequence : Nat)

def execute (debug : AgentEvent → String) (s : SqliteSessionStore) : WriteCommand → SqliteSessionStore
  | .append event => (s.append debug event).toOption.getD s
  | .saveSnapshot snapshot => s.saveSnapshot snapshot
  | .prune id sequence => (s.pruneEvents id sequence).2

def runWriter (debug : AgentEvent → String) (commands : List WriteCommand) : SqliteSessionStore :=
  commands.foldl (execute debug) {}

end SqliteSessionStore

end RustyCore
