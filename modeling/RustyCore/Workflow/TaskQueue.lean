import RustyCore.Workflow.Criteria

/-! The records of a task queue: the plan it is given, the progress it checkpoints, what is checked of both before
    a run continues from them, and how the feedback that a run received is folded in. -/

namespace RustyCore

namespace TaskQueue

structure Criterion where
  id : String
  text : String
deriving DecidableEq

structure Requirement where
  id : String
  text : String
  criteria : List Criterion
deriving DecidableEq

structure Task where
  id : String
  requirementIds : List String
  criterionIds : List String
  dependsOn : List String
  instructions : String
  flow : Option String := none
deriving DecidableEq

structure Plan where
  status : String
  requirements : List Requirement
  tasks : List Task
  summary : String
deriving DecidableEq

structure CheckErrors where
  tree : String
  count : Nat
  errors : List String

/-- The progress as it is saved; the derived conversions to JSON and back lose nothing. -/
structure Progress where
  plan : Option Plan := none
  completed : List Value := []
  current : Option Value := none
  handledRejections : Nat := 0
  pendingRepair : Option String := none
  handledChanges : Nat := 0
  repairs : List Value := []
  stepPlan : Option Value := none
  baseline : Option Value := none
  split : Option Value := none
  checkErrors : OrdMap String CheckErrors := .empty

def designGap : String := "[design gap]"

inductive Ended where
  | stopped (reason : String)
  | unfinished
  | newErrors
  | rejected
  | disagreement (reason : String)

inductive TaskOutcome where
  | accepted
  | failed (reason : String)

inductive AfterFailure where
  | retry (notes : Option String)
  | skip
  | revisePlan (changes : String)

structure QueueError where
  code : String
  message : String

def invalid (message : String) : QueueError := ⟨"invalid_task_plan", message⟩

def field (value : Value) (key : String) : Option String := (value.get key).bind Value.asStr

def flag (value : Value) (key : String) : Bool := ((value.get key).bind Value.asBool).getD false

def Task.owns (task : Task) (record : Value) : Bool := field record "task_id" == some task.id

namespace Progress

def annotateCurrent (p : Progress) (key : String) (value : Value) : Progress :=
  { p with current := some (match p.current with
      | some (.object fields) => .object (Value.insertField key value fields)
      | _ => .object [(key, value)]) }

def splitTried (p : Progress) (task : Task) : Bool := p.split.any task.owns

def pendingSplit (p : Progress) (task : Task) : Option (List String × Nat) :=
  match p.split.filter task.owns with
  | none => none
  | some split =>
    match ((split.get "steps").bind Value.asArray).bind fun steps => steps.mapM Value.asStr with
    | none => none
    | some steps =>
      let done := ((split.get "done").bind Value.asU64).getD 0
      if done < steps.length then some (steps, done) else none

def skippedDependency (p : Progress) (task : Task) : Option String :=
  task.dependsOn.find? fun id => p.completed.any fun done => flag done "skipped" && field done "task_id" == some id

end Progress

def maxTasks : Nat := 128

def checkBounds (plan : Plan) : Except QueueError Unit :=
  if plan.status == "ready" && !plan.requirements.isEmpty && !plan.tasks.isEmpty && plan.tasks.length ≤ maxTasks then .ok ()
  else .error (invalid "plan needs requirements and 1–128 bounded tasks")

def checkCriteria (requirement : Requirement) (owners : List (String × String)) :
    List Criterion → Except QueueError (List (String × String))
  | [] => .ok owners
  | criterion :: rest =>
    if Text.isBlank criterion.id || Text.isBlank criterion.text || (owners.lookup criterion.id).isSome then
      .error (invalid "criteria need unique IDs and observable text")
    else checkCriteria requirement ((criterion.id, requirement.id) :: owners) rest

/-- Maps each criterion to its requirement while checking requirements and criteria are complete. -/
def checkRequirements (seen : List String) (owners : List (String × String)) :
    List Requirement → Except QueueError (List (String × String))
  | [] => .ok owners
  | requirement :: rest =>
    if Text.isBlank requirement.id || Text.isBlank requirement.text || seen.contains requirement.id ||
        requirement.criteria.isEmpty then
      .error (invalid "requirements must have unique IDs, text and criteria")
    else
      match checkCriteria requirement owners requirement.criteria with
      | .error e => .error e
      | .ok owners => checkRequirements (requirement.id :: seen) owners rest

def checkCoverage (task : Task) (owners : List (String × String)) : List String → Except QueueError Unit
  | [] => .ok ()
  | criterion :: rest =>
    match owners.lookup criterion with
    | none => .error (invalid "task references unknown criterion")
    | some owner =>
      if task.requirementIds.contains owner then checkCoverage task owners rest
      else .error (invalid "criterion is not owned by a task requirement")

def checkTask (task : Task) (earlier requirements : List String) (owners : List (String × String)) :
    Except QueueError Unit :=
  if Text.isBlank task.instructions then
    .error (invalid ("task " ++ task.id ++
      " has empty instructions: write them as the task's body, not on the flow line"))
  else if Text.isBlank task.id || earlier.contains task.id || task.criterionIds.isEmpty || task.requirementIds.isEmpty then
    .error (invalid "tasks need unique IDs, instructions and coverage")
  else if task.dependsOn.any fun d => !earlier.contains d then
    .error (invalid (task.id ++ " depends on a missing, later or cyclic task"))
  else if task.requirementIds.any fun r => !requirements.contains r then
    .error (invalid "task references unknown requirement")
  else checkCoverage task owners task.criterionIds

def checkTasks (requirements : List String) (owners : List (String × String)) (seen covered : List String) :
    List Task → Except QueueError Unit
  | [] =>
    if covered.dedup.length = owners.length then .ok ()
    else .error (invalid "plan leaves acceptance criteria without a task")
  | task :: rest =>
    match checkTask task seen requirements owners with
    | .error e => .error e
    | .ok () => checkTasks requirements owners (task.id :: seen) (covered ++ task.criterionIds) rest

def checkPlan (plan : Plan) : Except QueueError Unit :=
  match checkBounds plan with
  | .error e => .error e
  | .ok () =>
    match checkRequirements [] [] plan.requirements with
    | .error e => .error e
    | .ok owners => checkTasks (plan.requirements.map (·.id)) owners [] [] plan.tasks

section

variable [CharTables]

/-- Whether a review found every criterion of `task` met, each with evidence. -/
def reviewComplete (task : Task) (result : Value) : Bool :=
  if field result "status" != some "complete" then false
  else
    match (result.get "criteria").bind Value.asArray with
    | none => false
    | some items =>
      (Criteria.matchResults task.criterionIds items fun item => field item "id").all fun found =>
        found.any fun item => (field item "evidence").any fun text => !Text.isBlank text

def settles (task : Task) (done : Value) : Bool :=
  (flag done "skipped" || (field done "flow").isSome || reviewComplete task ((done.get "review").getD .null)) &&
    task.owns done

/-- A checkpoint is only good for the plan it was made for, with each finished task in order. -/
def checkMatchesPlan (progress : Progress) (plan : Plan) : Except QueueError Unit :=
  if progress.plan != some plan || progress.completed.length > plan.tasks.length then
    .error (invalid "checkpoint does not match the task plan")
  else if (plan.tasks.zip progress.completed).any fun (task, done) => !settles task done then
    .error (invalid "checkpoint contains unverified or out-of-order tasks")
  else .ok ()

def readProgress (checkpoint : Option Progress) (plan : Plan) : Except QueueError Progress :=
  let progress := checkpoint.getD { plan := some plan }
  match checkMatchesPlan progress plan with
  | .error e => .error e
  | .ok () => .ok progress

structure StepFeedback where
  code : String
  message : String

def isUserChange (code : String) : Bool := code == "changes_requested" || code == "changes_approved"

variable [Externals]

def reopenAfterRejection (feedback : List StepFeedback) (plan : Plan) (p : Progress) : Progress :=
  let rejections := feedback.filter fun f => f.code == "verification_failed"
  match rejections.getLast?.filter fun _ => rejections.length > p.handledRejections with
  | none => p
  | some rejection =>
    let failed := Feedback.unmetCriteria rejection.message
    match plan.tasks.findIdx? fun task => task.criterionIds.any fun id => failed.contains (idKey id) with
    | some at_ =>
      { p with
        handledRejections := rejections.length
        completed := p.completed.take at_
        current := some (.object [("rejection", .string rejection.message)]) }
    | none =>
      { p with
        handledRejections := rejections.length
        pendingRepair := some ("Fix what the final verification of the completed tasks found:\n" ++ rejection.message)
        current := none }

def queueUserChanges (feedback : List StepFeedback) (p : Progress) : Progress :=
  let changes := feedback.filter fun f => isUserChange f.code
  match changes.getLast?.filter fun _ => changes.length > p.handledChanges with
  | none => p
  | some change =>
    let asked := "The user tried the result and asked for these changes; make them and keep everything else as it is:\n" ++
      change.message
    { p with
      handledChanges := changes.length
      pendingRepair := some (match p.pendingRepair with
        | some earlier => earlier ++ "\n\n" ++ asked
        | none => asked) }

/-- Folds the feedback this run received into `progress`. -/
def absorb (feedback : List StepFeedback) (plan : Plan) (p : Progress) : Progress :=
  queueUserChanges feedback (reopenAfterRejection feedback plan p)

end

end TaskQueue

end RustyCore
