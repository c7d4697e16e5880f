import RustyCore.Lib.Utf8
import RustyCore.Workflow.State

/-! The durable store of workflow runs: one directory a run, with a log of events that is only appended to and a
    snapshot that is replaced by a rename. A commit is modelled by what it does to the disk, one byte at a time, so
    that a crash can stop it anywhere. -/

namespace RustyCore

/-- A persisted event with run-level correlation; `sequence` counts the events of the run from 1. -/
structure OrchestrationEventEnvelope where
  runId : OrchestrationRunId
  definitionId : OrchestrationDefinitionId
  revision : Nat
  sequence : Nat
  timestampMs : Nat
  event : OrchestrationEvent

/-- Everything needed to resume a run; `lastSequence` is that of the last event committed with it. -/
structure OrchestrationSnapshot where
  state : OrchestrationRunState
  lastSequence : Nat
  elapsedMs : Nat
  result : Option OrchestrationResult := none

inductive OrchestrationStoreError where
  | io (message : String)
  | encoding (message : String)
  | invalidRunId (runId : String)
  | sequenceGap (runId : String) (expected actual : Nat)

/-- The JSON of envelopes and snapshots (`serde_json`), which the model does not look into. -/
class StoreExternals where
  encodeEvent : OrchestrationEventEnvelope → List Char
  decodeEvent : List Char → Except String OrchestrationEventEnvelope
  encodeSnapshot : OrchestrationSnapshot → List UInt8
  decodeSnapshot : List UInt8 → Except String OrchestrationSnapshot

/-- The directory of a run: `events.jsonl`, `snapshot.json.tmp` and `snapshot.json`, as far as they exist. -/
structure RunDir where
  events : Option (List UInt8) := none
  temp : Option (List UInt8) := none
  snapshot : Option (List UInt8) := none

inductive DiskOp where
  | createDir
  | openLog
  | append (byte : UInt8)
  | createTemp
  | writeTemp (byte : UInt8)
  | rename
deriving DecidableEq

namespace RunDir

def apply (dir : RunDir) : DiskOp → RunDir
  | .createDir => dir
  | .openLog => { dir with events := some (dir.events.getD []) }
  | .append byte => { dir with events := dir.events.map (· ++ [byte]) }
  | .createTemp => { dir with temp := some [] }
  | .writeTemp byte => { dir with temp := dir.temp.map (· ++ [byte]) }
  | .rename => { dir with snapshot := dir.temp, temp := none }

def run (dir : RunDir) (ops : List DiskOp) : RunDir := ops.foldl apply dir

theorem run_append {dir : RunDir} {ops more : List DiskOp} : dir.run (ops ++ more) = (dir.run ops).run more :=
  List.foldl_append

end RunDir

section

variable [StoreExternals]

def readEvents (dir : RunDir) : Except OrchestrationStoreError (List OrchestrationEventEnvelope) :=
  match dir.events with
  | none => .ok []
  | some bytes =>
    match Utf8.decode bytes with
    | none => .error (.io "stream did not contain valid UTF-8")
    | some contents =>
      ((Text.lines contents).filter fun line => !Text.isBlank (String.ofList line)).mapM fun line =>
        (StoreExternals.decodeEvent line).mapError .encoding

def readSnapshot (dir : RunDir) : Except OrchestrationStoreError (Option OrchestrationSnapshot) :=
  match dir.snapshot with
  | none => .ok none
  | some bytes =>
    match StoreExternals.decodeSnapshot bytes with
    | .ok snapshot => .ok (some snapshot)
    | .error message => .error (.encoding message)

omit [StoreExternals] in
def checkEvent (runId : OrchestrationRunId) (last : Nat) :
    OrchestrationEventEnvelope × Nat → Except OrchestrationStoreError Unit
  | (event, offset) =>
    let expected := last + 1 + offset
    if event.sequence = expected then .ok () else .error (.sequenceGap runId expected event.sequence)

omit [StoreExternals] in
def checkSequence (runId : OrchestrationRunId) (last : Nat) (events : List OrchestrationEventEnvelope) :
    Except OrchestrationStoreError Unit :=
  forM events.zipIdx (checkEvent runId last)

omit [StoreExternals] in
def lastSequenceOr (last : Nat) (events : List OrchestrationEventEnvelope) : Nat :=
  (events.getLast?.map (·.sequence)).getD last

def eventsBuffer (events : List OrchestrationEventEnvelope) : List UInt8 :=
  events.flatMap fun event => Utf8.encode (StoreExternals.encodeEvent event) ++ [10]

def appendOps (events : List OrchestrationEventEnvelope) : List DiskOp :=
  if events.isEmpty then [] else .openLog :: (eventsBuffer events).map .append

def snapshotOps (snapshot : OrchestrationSnapshot) : List DiskOp :=
  .createTemp :: (StoreExternals.encodeSnapshot snapshot).map .writeTemp ++ [.rename]

def commitOps (events : List OrchestrationEventEnvelope) (snapshot : OrchestrationSnapshot) : List DiskOp :=
  .createDir :: appendOps events ++ snapshotOps snapshot

def committedLast (dir : RunDir) (last : Option Nat) : Except OrchestrationStoreError Nat :=
  match last with
  | some last => .ok last
  | none => (readEvents dir).map (lastSequenceOr 0)

/-- The checks before a commit writes anything; on success, the sequence that was committed last. A commit without
    events has no sequence to check. -/
def checkCommit (dir : RunDir) (last : Option Nat) (events : List OrchestrationEventEnvelope)
    (snapshot : OrchestrationSnapshot) : Except OrchestrationStoreError Nat := do
  let last ← committedLast dir last
  if events.isEmpty then return last
  checkSequence snapshot.state.runId last events
  return last

def commitBlocking (dir : RunDir) (last : Option Nat) (events : List OrchestrationEventEnvelope)
    (snapshot : OrchestrationSnapshot) : Except OrchestrationStoreError (RunDir × Nat) := do
  let last ← checkCommit dir last events snapshot
  return (dir.run (commitOps events snapshot), lastSequenceOr last events)

end

/-- The directories on disk, and the last committed sequence of each run this process has committed. -/
structure FileOrchestrationStore where
  root : OrdMap OrchestrationRunId RunDir := .empty
  lastSequences : OrdMap OrchestrationRunId Nat := .empty

def safeRunId (id : OrchestrationRunId) : Bool :=
  !id.isEmpty && id != "." && id != ".." &&
    id.toList.all fun c => c.isAlphanum || c == '-' || c == '_' || c == '.'

namespace FileOrchestrationStore

def runDir (store : FileOrchestrationStore) (runId : OrchestrationRunId) : Except OrchestrationStoreError RunDir :=
  if safeRunId runId then .ok ((store.root.get? runId).getD {}) else .error (.invalidRunId runId)

variable [StoreExternals]

def commit (store : FileOrchestrationStore) (events : List OrchestrationEventEnvelope)
    (snapshot : OrchestrationSnapshot) : Except OrchestrationStoreError FileOrchestrationStore := do
  let runId := snapshot.state.runId
  let dir ← store.runDir runId
  let (dir, committed) ← commitBlocking dir (store.lastSequences.get? runId) events snapshot
  return { root := store.root.insert runId dir, lastSequences := store.lastSequences.insert runId committed }

def loadSnapshot (store : FileOrchestrationStore) (runId : OrchestrationRunId) :
    Except OrchestrationStoreError (Option OrchestrationSnapshot) := do
  readSnapshot (← store.runDir runId)

def loadEvents (store : FileOrchestrationStore) (runId : OrchestrationRunId) :
    Except OrchestrationStoreError (List OrchestrationEventEnvelope) := do
  readEvents (← store.runDir runId)

/-- The process ends, and with it what it knows of the runs; the next one finds the directories. -/
def reopen (store : FileOrchestrationStore) : FileOrchestrationStore := { root := store.root }

/-- The process ends after the first `cut` operations of a commit. A commit that its checks refuse writes nothing. -/
def crash (store : FileOrchestrationStore) (events : List OrchestrationEventEnvelope) (snapshot : OrchestrationSnapshot)
    (cut : Nat) : FileOrchestrationStore :=
  let runId := snapshot.state.runId
  match store.runDir runId with
  | .error _ => store.reopen
  | .ok dir =>
    match checkCommit dir (store.lastSequences.get? runId) events snapshot with
    | .error _ => store.reopen
    | .ok _ => { root := store.root.insert runId (dir.run ((commitOps events snapshot).take cut)) }

end FileOrchestrationStore

/-! What the runner does with the effects of a command: the events are numbered and committed together with a
    snapshot before anyone sees them; the rest is dispatched afterwards. -/

structure EffectBatch where
  envelopes : List OrchestrationEventEnvelope := []
  lastSequence : Nat := 0
  finish : Option OrchestrationResult := none
  execute : Option (OrchestrationNodeId × Nat) := none
  cancels : List (OrchestrationNodeId × Nat) := []

def collectEffect (s : OrchestrationRunState) (timestampMs : Nat) (batch : EffectBatch) :
    OrchestrationEffect → EffectBatch
  | .emit event =>
    { batch with
      lastSequence := batch.lastSequence + 1
      envelopes := batch.envelopes ++ [{
        runId := s.runId
        definitionId := s.definitionId
        revision := s.definitionRevision
        sequence := batch.lastSequence + 1
        timestampMs
        event }] }
  | .finish result => { batch with finish := some result }
  | .executeStep nodeId attempt => { batch with execute := some (nodeId, attempt) }
  | .cancelStep nodeId attempt => { batch with cancels := batch.cancels ++ [(nodeId, attempt)] }

def collectEffects (s : OrchestrationRunState) (lastSequence timestampMs : Nat) (effects : List OrchestrationEffect) :
    EffectBatch :=
  effects.foldl (collectEffect s timestampMs) { lastSequence }

/-- What the runner commits after a command: the state it left, its effects, and the times. -/
structure Commit where
  state : OrchestrationRunState
  effects : List OrchestrationEffect
  timestampMs : Nat
  elapsedMs : Nat

namespace Commit

def batch (commit : Commit) (lastSequence : Nat) : EffectBatch :=
  collectEffects commit.state lastSequence commit.timestampMs commit.effects

def snapshot (commit : Commit) (lastSequence : Nat) : OrchestrationSnapshot where
  state := commit.state
  lastSequence := (commit.batch lastSequence).lastSequence
  elapsedMs := commit.elapsedMs
  result := (commit.batch lastSequence).finish

/-- Commits events and the snapshot together; returns the store and the runner's new last sequence. -/
def persist [StoreExternals] (commit : Commit) (store : FileOrchestrationStore) (lastSequence : Nat) :
    Except OrchestrationStoreError (FileOrchestrationStore × Nat) := do
  let store ← store.commit (commit.batch lastSequence).envelopes (commit.snapshot lastSequence)
  return (store, (commit.batch lastSequence).lastSequence)

end Commit

theorem collectEffects_numbered {s : OrchestrationRunState} {last timestampMs : Nat} {effects : List OrchestrationEffect} :
    (collectEffects s last timestampMs effects).envelopes.map (·.sequence) =
        List.range' (last + 1) (collectEffects s last timestampMs effects).envelopes.length ∧
      (collectEffects s last timestampMs effects).lastSequence =
        last + (collectEffects s last timestampMs effects).envelopes.length := by
  have hloop : ∀ (effects : List OrchestrationEffect) (batch : EffectBatch),
      batch.envelopes.map (·.sequence) = List.range' (last + 1) batch.envelopes.length ∧
        batch.lastSequence = last + batch.envelopes.length →
      (effects.foldl (collectEffect s timestampMs) batch).envelopes.map (·.sequence) =
          List.range' (last + 1) (effects.foldl (collectEffect s timestampMs) batch).envelopes.length ∧
        (effects.foldl (collectEffect s timestampMs) batch).lastSequence =
          last + (effects.foldl (collectEffect s timestampMs) batch).envelopes.length := by
    intro effects
    induction effects with
    | nil => exact fun batch h => h
    | cons effect effects ih =>
      intro batch h
      refine ih _ ?_
      cases effect with
      | emit event =>
        obtain ⟨hnumbers, hlast⟩ := h
        simp only [collectEffect, List.map_append, hnumbers, List.map_cons, List.map_nil, List.length_append,
          List.length_singleton, hlast]
        refine ⟨?_, by omega⟩
        rw [List.range'_concat, Nat.one_mul, show last + 1 + batch.envelopes.length = last + batch.envelopes.length + 1 by omega]
      | executeStep | cancelStep | finish => exact h
  exact hloop effects { lastSequence := last } ⟨rfl, rfl⟩

end RustyCore
