import RustyCore.Store.Jsonl
import RustyCore.Store.Session

/-! The commit boundary under concurrent callers. A call waits for the commit lock, takes its number from the
    sequencer, appends a durable event to the store, and hands the committed event back to its caller, who then
    publishes it. Between any two of these, the other calls go on; a caller may be dropped; and the process may be
    restarted over the same store. -/

namespace RustyCore

namespace CommitBoundary

/-- How an append ends. An append that fails may leave its record in the file all the same, as when the file
    could not be synced. -/
inductive AppendOutcome where
  | appended
  | failed (error : StoreError) (kept : Bool)
deriving DecidableEq

def AppendOutcome.keeps : AppendOutcome → Bool
  | .appended => true
  | .failed _ kept => kept

inductive SequencerState where
  | uninitialized
  | ready (next : Nat)
deriving DecidableEq

def SequencerState.nextSequence : SequencerState → Except StoreError Nat → Except StoreError (SequencerState × Nat)
  | .ready next, _ => .ok (.ready (saturatingAdd next 1), next)
  | .uninitialized, .error e => .error e
  | .uninitialized, .ok committed =>
    let next := saturatingAdd committed 1
    .ok (.ready (saturatingAdd next 1), next)

inductive DurabilityPolicy where
  | strict
  | bestEffort
deriving DecidableEq

inductive CommitError where
  | store (error : StoreError)
  | duplicateSequence (sequence : Nat)
  | invalidEvent (message : String)
deriving DecidableEq

structure CommittedEvent where
  envelope : AgentEventEnvelope
  degraded : Bool

inductive Phase where
  | waiting (envelope : AgentEventEnvelope)
  | locked (envelope : AgentEventEnvelope)
  | sequenced (envelope : AgentEventEnvelope) (sequence : Nat)
  | returned (result : Except CommitError CommittedEvent)
  | done

def Phase.holdsLock : Phase → Bool
  | .locked _ | .sequenced .. => true
  | _ => false

inductive Input where
  | call (envelope : AgentEventEnvelope)
  | acquire (task : Nat)
  | assign (task : Nat) (fault : Option StoreError)
  | append (task : Nat) (outcome : AppendOutcome)
  | publish (task : Nat)
  | drop (task : Nat)
  | saveSnapshot (snapshot : DurableSessionSnapshot)
  | restart

inductive Effect where
  | assigned (task sequence : Nat)
  | appendFailed (task : Nat)
  | checkpointRequested (sequence : Nat)
  | published (task : Nat) (envelope : AgentEventEnvelope)

end CommitBoundary

open CommitBoundary

structure CommitBoundary where
  store : SessionRecords
  policy : DurabilityPolicy
  snapshotEvery : Nat := defaultSnapshotEvery
  sequencer : SequencerState := .uninitialized
  appendsSinceCheckpoint : Nat := 0
  lock : Option Nat := none
  tasks : List Phase := []

namespace CommitBoundary

def new (store : SessionRecords) (policy : DurabilityPolicy) (snapshotEvery : Nat) : CommitBoundary :=
  { store, policy, snapshotEvery }

def setPhase (b : CommitBoundary) (task : Nat) (phase : Phase) : CommitBoundary :=
  { b with tasks := b.tasks.set task phase }

def finish (b : CommitBoundary) (task : Nat) (result : Except CommitError CommittedEvent) : CommitBoundary :=
  { b with lock := none }.setPhase task (.returned result)

def noteDurableAppend (b : CommitBoundary) : CommitBoundary × Bool :=
  let count := saturatingAdd b.appendsSinceCheckpoint 1
  if b.snapshotEvery > 0 ∧ count ≥ b.snapshotEvery then ({ b with appendsSinceCheckpoint := 0 }, true)
  else ({ b with appendsSinceCheckpoint := count }, false)

def nilEventId : CommitError := .invalidEvent "event carries no stable event_id"

def call (b : CommitBoundary) (envelope : AgentEventEnvelope) : CommitBoundary :=
  { b with tasks := b.tasks ++
      [if envelope.eventId.uuid = 0 then .returned (.error nilEventId) else .waiting envelope] }

def acquire (b : CommitBoundary) (task : Nat) : CommitBoundary :=
  match b.lock, b.tasks[task]? with
  | none, some (.waiting envelope) => { b with lock := some task }.setPhase task (.locked envelope)
  | _, _ => b

def assign (b : CommitBoundary) (task : Nat) (fault : Option StoreError) : CommitBoundary × List Effect :=
  match b.tasks[task]? with
  | some (.locked envelope) =>
    let committed := fault.elim (.ok b.store.currentSequence) .error
    match b.sequencer.nextSequence committed with
    | .error e => (b.finish task (.error (.store e)), [])
    | .ok (sequencer, sequence) =>
      let envelope := { envelope with sessionSequence := some sequence }
      let b := { b with sequencer := sequencer }
      if isDurable envelope.event then (b.setPhase task (.sequenced envelope sequence), [.assigned task sequence])
      else (b.finish task (.ok ⟨envelope, false⟩), [.assigned task sequence])
  | _ => (b, [])

/-- What the committer makes of a failed append. The store reports a number it already holds in its message. -/
def appendError (policy : DurabilityPolicy) (envelope : AgentEventEnvelope) (sequence : Nat) (error : StoreError) :
    Except CommitError CommittedEvent :=
  let duplicate := match error with
    | .invalidState message => Text.contains message "UNIQUE" || Text.contains message "unique"
    | _ => false
  if duplicate then .error (.duplicateSequence sequence)
  else match policy with
    | .strict => .error (.store error)
    | .bestEffort => .ok ⟨envelope, true⟩

def append (b : CommitBoundary) (task : Nat) (outcome : AppendOutcome) : CommitBoundary × List Effect :=
  match b.tasks[task]? with
  | some (.sequenced envelope sequence) =>
    let b := if outcome.keeps then
        { b with store.events := b.store.events ++ [⟨envelope, some sequence⟩] } else b
    match outcome with
    | .appended =>
      let (b, due) := b.noteDurableAppend
      (b.finish task (.ok ⟨envelope, false⟩), if due then [.checkpointRequested sequence] else [])
    | .failed error _ =>
      (b.finish task (appendError b.policy envelope sequence error), [.appendFailed task])
  | _ => (b, [])

/-- The caller publishes what its call returned; an error ends it unpublished. A terminal event asks for a
    checkpoint first. -/
def publish (b : CommitBoundary) (task : Nat) : CommitBoundary × List Effect :=
  match b.tasks[task]? with
  | some (.returned (.ok committed)) =>
    let checkpoint := match committed.envelope.event, committed.envelope.sessionSequence with
      | .completed _, some sequence | .failed _, some sequence => [.checkpointRequested sequence]
      | _, _ => []
    (b.setPhase task .done, checkpoint ++ [.published task committed.envelope])
  | _ => (b, [])

def drop (b : CommitBoundary) (task : Nat) : CommitBoundary :=
  let held := (b.tasks[task]?).any (·.holdsLock)
  { b with lock := if held then none else b.lock }.setPhase task .done

def step (b : CommitBoundary) : Input → CommitBoundary × List Effect
  | .call envelope => (b.call envelope, [])
  | .acquire task => (b.acquire task, [])
  | .assign task fault => b.assign task fault
  | .append task outcome => b.append task outcome
  | .publish task => b.publish task
  | .drop task => (b.drop task, [])
  | .saveSnapshot snapshot => ({ b with store.snapshot := some snapshot }, [])
  | .restart => (.new b.store b.policy b.snapshotEvery, [])

def machine : Machine CommitBoundary Input Effect := ⟨step⟩

def Effect.number? : Effect → Option Nat
  | .assigned _ sequence => some sequence
  | _ => none

def numbers (effects : List Effect) : List Nat := effects.filterMap Effect.number?

end CommitBoundary

end RustyCore
