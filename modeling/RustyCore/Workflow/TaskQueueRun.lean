import RustyCore.Lib.Procedure
import RustyCore.Workflow.TaskQueue

/-! A run of the task queue: the tasks of a plan are worked through one after the other, each built and reviewed
    until it is accepted or skipped, with the progress checkpointed after every change. The sessions, the snapshots
    and the typecheck are what the outside answers. -/

namespace RustyCore

namespace TaskQueue

inductive Built where
  | replied (reply : Value)
  | stopped (reason : String)

structure AfterBuild where
  added : List String
  note : Option String
  results : List (String × CheckErrors)

/-- What the step planner replied: a plan, steps to build instead, or a question for the person. -/
inductive Planned where
  | plan (text : String)
  | split (steps : List String)
  | gap (question : String)

/-- What the sessions, the snapshots, the typecheck, the flows, the user and the run answer to each call of the
    queue, numbered in order. -/
structure World where
  build : Nat → Except QueueError Built
  review : Nat → Except QueueError Value
  planTask : Nat → Except QueueError Planned
  splitTask : Nat → Except QueueError (List String)
  fingerprint : Nat → List (String × String)
  snapshot : Nat → Option Value
  isSnapshot : Value → Bool
  undo : Nat → (why : String) → Option Value
  checkBefore : Nat → OrdMap String CheckErrors → OrdMap String CheckErrors
  checkAfter : Nat → AfterBuild
  validate : (review : Bool) → Value → Except QueueError Unit
  subflows : Bool
  flow : Nat → Except QueueError Value
  respond : Nat → Except QueueError (String × Option String)
  cancelled : Nat → Bool
  commit : Nat → Except QueueError Unit

/-- The progress is checkpointed; work on a planned task starts; a builder or a flow does a task, with the
    completed tasks as they are then. -/
inductive Event where
  | checkpoint (saved : Progress)
  | started (task : Task) (completed : List Value)
  | built (task : Task) (completed : List Value)

structure Run where
  progress : Progress
  calls : Nat := 0

abbrev QueueM : Type → Type := Procedure Run Event QueueError

namespace Queue

open Procedure (get modify log throw ofExcept)

def ask {α : Type} (answer : Nat → α) : QueueM α := do
  let r ← get
  modify fun r => { r with calls := r.calls + 1 }
  pure (answer r.calls)

def perform {α : Type} (answer : Nat → Except QueueError α) : QueueM α := do
  let result ← ask answer
  ofExcept result

def change (f : Progress → Progress) : QueueM Unit := modify fun r => { r with progress := f r.progress }

variable (w : World)

def checkpoint : QueueM Unit := do
  log fun r => .checkpoint r.progress
  perform w.commit

def hasBaseline (p : Progress) (task : Task) : Bool :=
  (p.baseline.filter task.owns).any fun kept => w.isSnapshot ((kept.get "snapshot").getD .null)

def record (task : Task) (key : String) (value : Value) : Value :=
  .object (Value.insertField key value [("task_id", .string task.id)])

def advanceBaseline (task : Task) : QueueM Unit := do
  match ← ask w.snapshot with
  | none => pure ()
  | some taken => change fun p => { p with baseline := some (record task "snapshot" taken) }

/-- The tree the task started from is the one kept from an earlier attempt of it, else the current one. -/
def baseline (task : Task) : QueueM Unit := do
  let r ← get
  if hasBaseline w r.progress task then pure () else advanceBaseline w task

def undoAttempt (task : Task) (why : String) : QueueM Unit := do
  let r ← get
  if hasBaseline w r.progress task then
    match (← ask w.undo) why with
    | none => pure ()
    | some note =>
      change fun p =>
        { p with current := some (p.current.getD (.object [("task_id", .string task.id)])) }.annotateCurrent "undone" note
  else pure ()

def needsUndo (p : Progress) (task : Task) (guidance : Option String) : Bool :=
  match p.current.filter task.owns with
  | none => false
  | some current =>
    if (current.get "undone").isSome || flag current "kept" then false
    else guidance.isSome || (current.get "stopped").isSome ||
      ((current.get "build").bind fun built => field built "status") != some "complete"

def summaryOf (value : Value) : String := (field value "summary").getD "no summary"

def designGapText (task : Task) (question : String) : String :=
  designGap ++ " Task " ++ task.id ++ " needs a decision before it can be built. The step planner asks:\n" ++ question ++
    "\nTry again with your answer as guidance, or revise the design and the task list"

/-- Why the build is kept rather than undone, when the review is what keeps rejecting it. -/
def keptText (ended : Ended) (maxRepairs : Nat) (p : Progress) : Option String :=
  match ended with
  | .disagreement reason =>
    some ("the review sent it back again after a repair that changed nothing, so the builder and the reviewer disagree. " ++
      "The review said: " ++ reason)
  | .rejected =>
    some ("the review still sends it back after " ++ toString (maxRepairs + 1) ++
      " attempts, although the build adds no typecheck errors. The last review said: " ++
      summaryOf ((p.current.bind (·.get "review")).getD .null))
  | _ => none

def keptWork (task : Task) (why : String) : String :=
  "Task " ++ task.id ++ " was not accepted: " ++ why ++
    ". Its work is kept: try again with guidance for the builder, skip the task, or revise the plan"

def undoneText (ended : Ended) (maxRepairs : Nat) : String :=
  let attempts := toString (maxRepairs + 1)
  match ended with
  | .stopped reason => "the workflow stopped its build: " ++ reason
  | .newErrors => "its build still added typecheck errors after " ++ attempts ++ " attempts"
  | _ => "the builder did not finish it in " ++ attempts ++ " attempts"

def notCompleted (task : Task) (why : String) : String :=
  "Task " ++ task.id ++ " could not be completed: " ++ why ++
    ". Its last attempt was undone; completed tasks are checkpointed"

def builderStopped (task : Task) (status : String) (built : Value) : String :=
  let why := if status == "blocked_user" then "it needs something from you" else "the builder could not finish it"
  "Task " ++ task.id ++ " stopped because " ++ why ++ ": " ++ summaryOf built

def reviewUnfinished (task : Task) (reviewed : Value) : String :=
  "The review of task " ++ task.id ++ " could not finish: " ++ summaryOf reviewed

def buildWatched (task : Task) : QueueM Built := do
  log fun r => .built task r.progress.completed
  perform w.build

def finishStep (task : Task) (index : Nat) : QueueM Unit := do
  change fun p => { p with
    split := p.split.map fun
      | .object fields => .object (Value.insertField "done" (.ofNat (index + 1)) fields)
      | split => split }
  advanceBaseline w task
  checkpoint w

def buildSteps (task : Task) (total : Nat) : Nat → List String → QueueM Built
  | 0, summaries =>
    pure (.replied (.object [("status", .string "complete"),
      ("summary", .string ("Built in " ++ toString total ++ " steps.\n" ++ Text.join "\n" summaries))]))
  | remaining + 1, summaries => do
    let index := total - (remaining + 1)
    let place := "Step " ++ toString (index + 1) ++ " of " ++ toString total
    match ← buildWatched w task with
    | .stopped reason => pure (.stopped (place ++ ": " ++ reason))
    | .replied reply =>
      let summary := summaryOf reply
      let status := (field reply "status").getD "invalid"
      if status != "complete" && status != "blocked_environment" then
        pure (.replied (.object [("status", .string status), ("summary", .string (place ++ ": " ++ summary))]))
      else do
        finishStep w task index
        buildSteps task total remaining (summaries ++ [place ++ ": " ++ summary])

def buildTask (task : Task) : QueueM Built := do
  let r ← get
  match r.progress.pendingSplit task with
  | none => buildWatched w task
  | some (steps, done) => buildSteps w task steps.length (steps.length - done) []

inductive Attempt where
  | finished (outcome : TaskOutcome)
  | stop (ended : Ended)
  | retry (ended : Ended)

def recordBuild (task : Task) (built : Value) (status : String) (before : List (String × String)) (repair : Nat) :
    QueueM Unit := do
  let unfinished := status == "checkpoint" || status == "needs_repair"
  let now ← if unfinished && !before.isEmpty then ask w.fingerprint else pure []
  let unchanged := unfinished && !before.isEmpty && now == before
  change fun p =>
    let p := { p with
      current := some (.object [("build", built), ("repair", .ofNat repair), ("task_id", .string task.id)]) }
    if unchanged then p.annotateCurrent "unchanged" (.bool true) else p
  checkpoint w

variable [CharTables]

def acceptedEntry (task : Task) (built reviewed : Value) (snapshot : Option Value) : Value :=
  .object ([("build", built)] ++ (snapshot.toList.map fun taken => ("checkpoint", taken)) ++
    [("review", reviewed), ("task_id", .string task.id)])

def recordAcceptance (task : Task) (planned : Bool) (built reviewed : Value) (results : List (String × CheckErrors)) :
    QueueM Unit := do
  if planned then
    let taken ← ask w.snapshot
    change fun p => { p with completed := p.completed ++ [acceptedEntry task built reviewed taken] }
  else
    change fun p => { p with
      repairs := p.repairs ++ [.object [("build", built), ("instructions", .string task.instructions),
        ("review", reviewed), ("task_id", .string task.id)]] }
  change fun p => { p with
    current := none
    stepPlan := none
    baseline := none
    split := none
    checkErrors := results.foldl (fun errors (repo, found) => errors.insert repo found) p.checkErrors }

/-- Acts on the review: accepts the task, fails it, or sends it back for another attempt. -/
def judge (task : Task) (planned : Bool) (built reviewed : Value) (results : List (String × CheckErrors))
    (changed afterRejection : Bool) : QueueM Attempt := do
  if reviewComplete task reviewed then
    recordAcceptance w task planned built reviewed results
    checkpoint w
    pure (.finished .accepted)
  else
    checkpoint w
    let status := field reviewed "status"
    if status == some "blocked_environment" || status == some "blocked_user" || status == some "checkpoint" then
      pure (.finished (.failed (reviewUnfinished task reviewed)))
    else if afterRejection && !changed then pure (.stop (.disagreement (summaryOf reviewed)))
    else pure (.retry .rejected)

def attempt (task : Task) (planned : Bool) (repair : Nat) (afterRejection : Bool) : QueueM Attempt := do
  let before ← ask w.fingerprint
  match ← buildTask w task with
  | .stopped reason =>
    change fun p => { p with
      current := some (.object [("repair", .ofNat repair), ("stopped", .string reason), ("task_id", .string task.id)]) }
    pure (.stop (.stopped reason))
  | .replied built =>
    ofExcept (w.validate false built)
    let status := (field built "status").getD "invalid"
    recordBuild w task built status before repair
    if status == "checkpoint" || status == "needs_repair" then pure (.retry .unfinished)
    else if status != "complete" && status != "blocked_environment" then
      pure (.finished (.failed (builderStopped task status built)))
    else
      let checked ← ask w.checkAfter
      if !checked.added.isEmpty then
        change fun p => p.annotateCurrent "new_errors" (.array (checked.added.map .string))
        checkpoint w
        pure (.retry .newErrors)
      else
        let now ← ask w.fingerprint
        -- without a git repository nothing can be compared: count it as changed
        let changed := before.isEmpty || now != before
        let reviewed ← perform w.review
        ofExcept (w.validate true reviewed)
        change fun p => p.annotateCurrent "review" reviewed
        judge w task planned built reviewed checked.results changed afterRejection

inductive Rounds where
  | settled (outcome : TaskOutcome)
  | ended (ended : Ended)

def rounds (task : Task) (planned : Bool) (maxRepairs : Nat) : Nat → Ended → QueueM Rounds
  | 0, last => pure (.ended last)
  | left + 1, last => do
    let cancelled ← ask w.cancelled
    if cancelled then throw ⟨"cancelled", "task queue cancelled"⟩
    else
      let afterRejection := match last with
        | .rejected => true
        | _ => false
      match ← attempt w task planned (maxRepairs - left) afterRejection with
      | .finished outcome => pure (.settled outcome)
      | .stop ended => pure (.ended ended)
      | .retry ended => rounds task planned maxRepairs left ended

def recordSplit (task : Task) (steps : List String) : QueueM Unit :=
  change fun p => { p with
    split := some (.object [("done", .ofNat 0), ("steps", .array (steps.map .string)), ("task_id", .string task.id)])
    stepPlan := none }

variable (settings : TaskQueueConfig)

def keptStepPlan (p : Progress) (task : Task) (guidance : Option String) : Option String :=
  if guidance.isNone then (p.stepPlan.filter task.owns).bind fun kept => field kept "plan" else none

def planTask (task : Task) (guidance : Option String) : QueueM (Except String (Option String)) := do
  let r ← get
  let kept := keptStepPlan r.progress task guidance
  if settings.taskPlanner.isNone || (r.progress.pendingSplit task).isSome then pure (.ok none)
  else if kept.isSome then pure (.ok kept)
  else
    match ← perform w.planTask with
    | .gap question => pure (.error question)
    | .split steps =>
      recordSplit task steps
      checkpoint w
      pure (.ok none)
    | .plan text =>
      change fun p => { p with stepPlan := some (record task "plan" (.string text)) }
      checkpoint w
      pure (.ok (some text))

def trySplit (task : Task) : QueueM Bool := do
  let r ← get
  if r.progress.splitTried task || settings.taskPlanner.isNone then pure false
  else
    let steps ← perform w.splitTask
    if steps.isEmpty then pure false
    else
      recordSplit task steps
      checkpoint w
      pure true

def startFromTheBaseline (task : Task) (guidance : Option String) : QueueM Unit := do
  baseline w task
  let r ← get
  if needsUndo r.progress task guidance then undoAttempt w task "the task is tried again"
  checkpoint w

def runTaskFlow (task : Task) (name : String) (planned : Bool) : QueueM TaskOutcome := do
  if !w.subflows then throw ⟨"subflows_unavailable", "this host cannot run flows inside flows"⟩
  else
    log fun r => .built task r.progress.completed
    match ← ask w.flow with
    | .ok output =>
      if planned then
        change fun p => { p with
          completed := p.completed ++
            [.object [("flow", .string name), ("result", output), ("task_id", .string task.id)]] }
      change fun p => { p with current := none }
      checkpoint w
      pure .accepted
    | .error error =>
      if error.code == "cancelled" then throw error
      else pure (.failed ("Task " ++ task.id ++ " could not be done by the flow " ++ name ++ ": " ++ error.message))

def runRounds (task : Task) (planned : Bool) : Nat → QueueM TaskOutcome
  | 0 => throw ⟨"unreachable", "a task is split once"⟩
  | fuel + 1 => do
    match ← rounds w task planned settings.maxRepairs (settings.maxRepairs + 1) .unfinished with
    | .settled outcome => pure outcome
    | .ended ended =>
      let r ← get
      match keptText ended settings.maxRepairs r.progress with
      | some why =>
        change fun p => p.annotateCurrent "kept" (.bool true)
        checkpoint w
        pure (.failed (keptWork task why))
      | none =>
        let why := undoneText ended settings.maxRepairs
        undoAttempt w task why
        checkpoint w
        if ← trySplit w settings task then runRounds task planned fuel
        else pure (.failed (notCompleted task why))

def runTask (task : Task) (guidance : Option String) (planned : Bool) : QueueM TaskOutcome := do
  match task.flow.filter fun name => settings.flows.contains name with
  | some name => runTaskFlow w task name planned
  | none =>
    startFromTheBaseline w task guidance
    match ← planTask w settings task guidance with
    | .error question => pure (.failed (designGapText task question))
    | .ok _ =>
      let checkBefore ← ask w.checkBefore
      change fun p => { p with checkErrors := checkBefore p.checkErrors }
      runRounds w settings task planned 2

def withoutDesignGap (reason : String) : String :=
  if Text.startsWith reason designGap then
    String.ofList ((reason.toList.drop designGap.length).dropWhile Text.isWhitespace)
  else reason

def afterFailure (reason : String) : QueueM AfterFailure :=
  match settings.onTaskFailure with
  | .stop => throw ⟨"task_failed", withoutDesignGap reason⟩
  | .skip => pure .skip
  | .ask => do
    let (decision, text) ← perform w.respond
    let notes := text.filter fun text => !Text.isBlank text
    if decision == "retry" then pure (.retry notes)
    else if decision == "skip" then pure .skip
    else if decision == "revise_plan" then pure (.revisePlan (notes.getD ""))
    else throw ⟨"task_stopped", withoutDesignGap reason ++ ". Stopped at your request; completed tasks are checkpointed."⟩

def skippedEntry (task : Task) (reason : String) : Value :=
  .object [("reason", .string reason), ("skipped", .bool true), ("task_id", .string task.id)]

def skip (task : Task) (reason : String) (planned : Bool) : QueueM Unit := do
  change fun p =>
    if planned then { p with completed := p.completed ++ [skippedEntry task (withoutDesignGap reason)] }
    else { p with pendingRepair := none }
  change fun p => { p with current := none, stepPlan := none }
  checkpoint w

/-- Tries the task until it is accepted or the failure policy skips it, for as many tries as there is fuel. -/
def tryTask (task : Task) (planned : Bool) : Nat → Option String → QueueM Unit
  | 0, _ => throw ⟨"running", "the task is still being tried"⟩
  | fuel + 1, guidance => do
    match ← runTask w settings task guidance planned with
    | .accepted => pure ()
    | .failed reason =>
      match ← afterFailure w settings reason with
      | .retry notes => tryTask task planned fuel notes
      | .skip => skip w task reason planned
      | .revisePlan changes => throw ⟨"changes_requested", changes⟩

def workOn (fuel : Nat) (task : Task) (planned : Bool) : QueueM Unit := do
  if planned then log fun r => .started task r.progress.completed
  let r ← get
  match if planned then r.progress.skippedDependency task else none with
  | some gap =>
    change fun p => { p with
      completed := p.completed ++ [skippedEntry task
        ("Task " ++ task.id ++ " builds on " ++ gap ++ ", which was skipped, so it was not built.")] }
    checkpoint w
  | none => tryTask w settings task planned fuel none

def workOnAll (fuel : Nat) : List Task → QueueM Unit
  | [] => pure ()
  | task :: rest => do
    workOn w settings fuel task true
    workOnAll fuel rest

def repairTask (p : Progress) : Option Task :=
  p.pendingRepair.map fun instructions => ⟨"final-repair", [], [], [], instructions, none⟩

def repair (fuel : Nat) : Option Task → QueueM Unit
  | none => pure ()
  | some task => do
    workOn w settings fuel task false
    change fun p => { p with pendingRepair := none }
    checkpoint w

/-- Works through the planned tasks that are not done yet, then the repair task as it was due at the start. -/
def workThrough (fuel : Nat) (plan : Plan) : QueueM Unit := do
  let r ← get
  workOnAll w settings fuel (plan.tasks.drop r.progress.completed.length)
  repair w settings fuel (repairTask r.progress)

/-- A run of the queue from what was read: the feedback is folded in, and the tasks are worked through. -/
def runQueue [Externals] (fuel : Nat) (feedback : List StepFeedback) (plan : Plan) : QueueM Unit := do
  change (absorb feedback plan)
  checkpoint w
  workThrough w settings fuel plan

end Queue

end TaskQueue

end RustyCore
