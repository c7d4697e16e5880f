import Mathlib.Data.List.Destutter
import RustyCore.Behavior.Compiler

/-! The registry a profile's switches resolve in, and the behavior state of one agent: its active profile
    and the counters of the current run. -/

namespace RustyCore

/-- Where a profile came from. Later variants take precedence when the same id and revision are registered
    from several sources. -/
inductive ProfileSource where
  | builtIn
  | workspace
  | host
deriving DecidableEq

def ProfileSource.rank : ProfileSource → Nat
  | .builtIn => 0
  | .workspace => 1
  | .host => 2

inductive ProfileRegistryError where
  | invalid (issues : List ProfileIssue)
  | immutableRevision (reference : ProfileRef)
  | reserved (id : ProfileId)
  | notFound (reference : ProfileRef)
  | draftNotExecutable (reference : ProfileRef)

section

variable [Externals]

structure Entry where
  compiled : CompiledProfile
  source : ProfileSource

structure ProfileRegistry where
  entries : List ((ProfileId × Nat) × Entry)
  default : Option ProfileRef
  allowDrafts : Bool

namespace ProfileRegistry

def keyLt (a b : ProfileId × Nat) : Bool := a.1 < b.1 || (a.1 == b.1 && a.2 < b.2)

def insertEntry (key : ProfileId × Nat) (entry : Entry) :
    List ((ProfileId × Nat) × Entry) → List ((ProfileId × Nat) × Entry)
  | [] => [(key, entry)]
  | (k, e) :: rest =>
    if key = k then (key, entry) :: rest
    else if keyLt key k then (key, entry) :: (k, e) :: rest
    else (k, e) :: insertEntry key entry rest

def new : ProfileRegistry where
  entries := [((defaultProfile.profile.id, defaultProfile.profile.revision), ⟨defaultProfile, .builtIn⟩)]
  default := none
  allowDrafts := false

def register (registry : ProfileRegistry) (profile : BehaviorProfile) (source : ProfileSource) :
    Except ProfileRegistryError (ProfileRegistry × CompiledProfile) :=
  if source ≠ .builtIn ∧ Text.startsWith profile.id reservedProfilePrefix then .error (.reserved profile.id)
  else
    match compile profile with
    | .error issues => .error (.invalid issues)
    | .ok compiled =>
      let key := (compiled.profile.id, compiled.profile.revision)
      let insert := .ok ({ registry with entries := insertEntry key ⟨compiled, source⟩ registry.entries }, compiled)
      match registry.entries.lookup key with
      | none => insert
      | some existing =>
        if existing.source.rank > source.rank then .ok (registry, existing.compiled)
        else if existing.source = source ∧ existing.compiled.profile.status ≠ .draft ∧
            existing.compiled.contentHash ≠ compiled.contentHash then
          .error (.immutableRevision existing.compiled.reference)
        else insert

/-- A registry holding exactly `profiles` (plus the built-ins), for an agent's switch library. Drafts are
    allowed: the host already chose them. -/
def fromLibrary (profiles : List BehaviorProfile) : Except ProfileRegistryError ProfileRegistry :=
  profiles.foldlM (fun registry profile =>
    if Text.startsWith profile.id reservedProfilePrefix then .ok registry
    else (registry.register profile .host).map (·.1)) { new with allowDrafts := true }

def isLatest (registry : ProfileRegistry) (entry : Entry) : Bool :=
  match entry.compiled.profile.status with
  | .published => true
  | .draft => registry.allowDrafts
  | .deprecated => false

def resolve (registry : ProfileRegistry) (reference : ProfileRef) : Except ProfileRegistryError CompiledProfile :=
  let entry : Option Entry := match reference.revision with
    | some revision => registry.entries.lookup (reference.id, revision)
    | none =>
      ((registry.entries.filter fun e => e.1.1 == reference.id).reverse.map (·.2)).find? registry.isLatest
  match entry with
  | none => .error (.notFound reference)
  | some entry =>
    if entry.compiled.profile.status = .draft ∧ !registry.allowDrafts then
      .error (.draftNotExecutable entry.compiled.reference)
    else .ok entry.compiled

def resolveTargets (registry : ProfileRegistry) :
    List ProfileRef → List ProfileRef → Except ProfileRegistryError (List CompiledProfile × List ProfileRef)
  | [], seen => .ok ([], seen)
  | target :: rest, seen =>
    match registry.resolve target with
    | .error e => .error e
    | .ok compiled =>
      if seen.contains compiled.reference then resolveTargets registry rest seen
      else (resolveTargets registry rest (compiled.reference :: seen)).map fun (new, seen) => (compiled :: new, seen)

/-- The loop of `resolve_closure` over the profiles not yet visited. A profile enters the queue at most
    once per entry, so `entries.length + 1` rounds are enough. -/
def resolveQueue (registry : ProfileRegistry) :
    Nat → List CompiledProfile → List ProfileRef → Except ProfileRegistryError (List CompiledProfile)
  | 0, _, _ => .ok []
  | _ + 1, [], _ => .ok []
  | fuel + 1, profile :: queue, seen =>
    match resolveTargets registry profile.switchTargets seen with
    | .error e => .error e
    | .ok (new, seen) => (resolveQueue registry fuel (queue ++ new) seen).map (profile :: ·)

def resolveClosure (registry : ProfileRegistry) (root : CompiledProfile) :
    Except ProfileRegistryError (List CompiledProfile) :=
  resolveQueue registry (registry.entries.length + 1) [root] [root.reference]

end ProfileRegistry

end

structure ExecutedCall where
  turn : Nat
  tool : String
  failed : Bool

structure CallStreak where
  signature : String
  count : Nat

structure RunCounters where
  turns : Nat := 0
  toolCalls : Nat := 0
  finalTurn : Bool := false
  finalGraceUsed : Nat := 0
  fired : Table.Map String Nat := ∅
  executed : List ExecutedCall := []
  offeredTools : List String := []
  streak : Option CallStreak := none
  pendingRequest : List String := []
  lastRequest : List String := []
  pendingResults : List (ToolCallId × String) := []
  gateAttempts : Nat := 0
  gateContinuations : Nat := 0
  finalStatus : Option String := none
  switches : Nat := 0
  enteredFrom : Option String := none

structure EnteredFrom where
  profile : ProfileRef
  name : String

def maxSwitchesPerRun : Nat := 16

def finalTurnGrace : Nat := 2

inductive TurnPlan where
  | normal
  | final (prompt : Option String)
  | exceeded

section

variable [Externals]

structure BehaviorState where
  profile : CompiledProfile
  library : ProfileRegistry
  enteredFrom : Option EnteredFrom
  commandsTrusted : Bool
  run : RunCounters

namespace BehaviorState

def new (profile : CompiledProfile) : BehaviorState where
  profile := profile
  library := ProfileRegistry.new
  enteredFrom := none
  commandsTrusted := false
  run := {}

def withCommandsTrusted (b : BehaviorState) (trusted : Bool) : BehaviorState := { b with commandsTrusted := trusted }

def withLibrary (b : BehaviorState) (library : ProfileRegistry) : BehaviorState := { b with library := library }

def reference (b : BehaviorState) : ProfileRef := b.profile.reference

/-- The state after switching to `profile`: counters start fresh, the run's switch count carries over, and
    the switch is pending announcement. -/
def switchedTo (b : BehaviorState) (profile : CompiledProfile) (library : ProfileRegistry) : BehaviorState :=
  let next := ((new profile).withLibrary library).withCommandsTrusted b.commandsTrusted
  { next with
    run := { next.run with switches := b.run.switches + 1 }
    enteredFrom := some ⟨b.reference, b.profile.profile.name⟩ }

def resolveSwitch (b : BehaviorState) (target : ProfileRef) : Option CompiledProfile :=
  (b.library.resolve target).toOption

def resetRun (b : BehaviorState) : BehaviorState := { b with run := {} }

/-- Account for a new model request (not a re-issue after resume) and decide its shape against the
    profile's limits. -/
def beginTurn (b : BehaviorState) : BehaviorState × TurnPlan :=
  if b.run.finalTurn then
    if b.run.finalGraceUsed ≥ finalTurnGrace then (b, .exceeded)
    else
      ({ b with run.finalGraceUsed := b.run.finalGraceUsed + 1 }, .final b.profile.profile.limits.finalTurnPrompt)
  else
    let turns := b.run.turns + 1
    let limits := b.profile.profile.limits
    if limits.maxTurns.any (· ≤ turns) || limits.maxToolCalls.any (· ≤ b.run.toolCalls) then
      ({ b with run.turns := turns, run.finalTurn := true }, .final limits.finalTurnPrompt)
    else ({ b with run.turns := turns }, .normal)

def overBudget (b : BehaviorState) : Bool := b.profile.profile.limits.maxToolCalls.any (· ≤ b.run.toolCalls)

/-- Count a tool call, or refuse it when the run is out of tool calls or on its final turn. -/
def admitToolCall (b : BehaviorState) : BehaviorState × Bool :=
  if b.run.finalTurn || b.overBudget then (b, false)
  else ({ b with run.toolCalls := b.run.toolCalls + 1 }, true)

def noteToolRequest (b : BehaviorState) (call : ToolCall) : BehaviorState :=
  let signature := call.name ++ "\x00" ++ call.arguments.display
  let count := match b.run.streak with
    | some streak => if streak.signature = signature then streak.count + 1 else 1
    | none => 1
  { b with run.streak := some ⟨signature, count⟩ }

/-- Record that a tool actually executed (not denied) in this turn. `failed` is whether its result was an
    error. -/
def noteExecutedWith (b : BehaviorState) (tool : String) (failed : Bool) : BehaviorState :=
  { b with run.executed := b.run.executed ++ [⟨b.run.turns, tool, failed⟩] }

def noteOffered (b : BehaviorState) (tools : List String) : BehaviorState :=
  { b with run.offeredTools := (tools.insertionSort (· ≤ ·)).destutter (· ≠ ·) }

end BehaviorState

end

end RustyCore
