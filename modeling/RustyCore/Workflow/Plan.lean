import RustyCore.Workflow.TaskQueue

/-! Reading the plan a queue runs: repairs the planner's slips, then checks what is left. Ids are the host's bookkeeping,
    not the model's: missing or repeated ones are numbered, references are matched loosely and dropped when they point at
    nothing, and a criterion no task names goes to the task that owns its requirement, or the last task. -/

namespace RustyCore

namespace TaskQueue

/-- How a step ends that returns nothing: it indexes mutably into a value that is neither an object nor `null`, or a
    loop does not end. -/
inductive Crash where
  | access (key : String) (found : Value)
  | endless

/-- `value[key]` as a place: the fields of the object with one for the key; `null` becomes an object. -/
def entry (key : String) : Value → Except Crash (List (String × Value))
  | .null => .ok [(key, .null)]
  | .object fields => .ok (if (fields.lookup key).isSome then fields else Value.insertField key .null fields)
  | found => .error (.access key found)

/-- `value[key] = new`. -/
def assign (key : String) (new value : Value) : Except Crash Value := do
  let fields ← entry key value
  return .object (Value.insertField key new fields)

/-- Changes the elements of the array at `value[key]`; anything else has none. -/
def modifyItems {α : Type} (key : String) (change : List Value → Except Crash (List Value × α)) (none_ : α) (value : Value) :
    Except Crash (Value × α) := do
  let fields ← entry key value
  match fields.lookup key with
  | some (.array items) =>
    let (items, result) ← change items
    return (.object (Value.insertField key (.array items) fields), result)
  | _ => return (.object fields, none_)

def changeItems (key : String) (change : List Value → Except Crash (List Value)) (value : Value) : Except Crash Value := do
  let (value, _) ← modifyItems key (fun items => do return (← change items, ())) () value
  return value

def text (value : Value) (name : String) : String := Text.trim ((field value name).getD "")

def names (value : Value) (name : String) : List String := (Criteria.elements (value.get name)).filterMap Value.asStr

def strings (ids : List String) : Value := .array (ids.map .string)

section

variable [CharTables]

structure Numbering where
  head : String
  used : List String := []

namespace Numbering

def taken (n : Numbering) (id : String) : Bool := id.isEmpty || n.used.contains (idKey id)

def search (n : Numbering) : (turns number : Nat) → Except Crash String
  | 0, _ => .error .endless
  | turns + 1, number =>
    let id := n.head ++ toString (number + 1)
    if n.taken id then n.search turns (number + 1) else .ok id

def claim (n : Numbering) (wanted : String) : Except Crash (String × Numbering) := do
  let id ← if n.taken wanted then n.search (n.used.length + 1) n.used.length else .ok wanted
  return (id, { n with used := idKey id :: n.used })

end Numbering

def find (known : List String) (wanted : String) : Option String := known.find? fun id => idKey id == idKey wanted

abbrev Owners := List (String × String)

namespace Owners

def criterionIds (owners : Owners) : List String := owners.map (·.1)

def requirementIds (owners : Owners) : List String :=
  owners.foldl (fun seen owner => if seen.contains owner.2 then seen else seen ++ [owner.2]) []

def requirementOf (owners : Owners) (criterion : String) : Option String := owners.lookup criterion

def criteriaOf (owners : Owners) (requirements : List String) : List String :=
  (owners.filter fun owner => requirements.contains owner.2).map (·.1)

end Owners

def claimEach (ids : Numbering) : List Value → Except Crash (List Value × List String × Numbering)
  | [] => .ok ([], [], ids)
  | criterion :: rest => do
    let (id, ids) ← ids.claim (text criterion "id")
    let criterion ← assign "id" (.string id) criterion
    let (rest, known, ids) ← claimEach ids rest
    return (criterion :: rest, id :: known, ids)

/-- The requirement's criteria with ids; a requirement without any gets its own text as one. -/
def numberCriteria (requirement : Value) (ids : Numbering) : Except Crash (List Value × List String × Numbering) :=
  let criteria := (Criteria.elements (requirement.get "criteria")).filter fun criterion => !(text criterion "text").isEmpty
  claimEach ids <|
    if criteria.isEmpty then [.object [("id", .string ""), ("text", .string (text requirement "text"))]] else criteria

def numberEach (requirementIds criterionIds : Numbering) : List Value → Except Crash (List Value × Owners)
  | [] => .ok ([], [])
  | requirement :: rest => do
    let (id, requirementIds) ← requirementIds.claim (text requirement "id")
    let requirement ← assign "id" (.string id) requirement
    let (criteria, known, criterionIds) ← numberCriteria requirement criterionIds
    let requirement ← assign "criteria" (.array criteria) requirement
    let (rest, owners) ← numberEach requirementIds criterionIds rest
    return (requirement :: rest, known.map (·, id) ++ owners)

def numberRequirements (value : Value) : Except Crash (Value × Owners) :=
  modifyItems "requirements" (numberEach { head := "R" } { head := "C" }) [] value

/-- The criteria and requirements a task names, matched loosely against the real ones; naming only a requirement covers
    its criteria. -/
def coverage (task : Value) (owners : Owners) : List String × List String :=
  let named := (names task "criterion_ids").filterMap (find owners.criterionIds)
  let needs := (names task "requirement_ids").filterMap (find owners.requirementIds)
  let covers := if named.isEmpty then owners.criteriaOf needs else named
  (covers, covers.foldl (fun needs criterion =>
    match owners.requirementOf criterion with
    | some requirement => if needs.contains requirement then needs else needs ++ [requirement]
    | none => needs) needs)

def numberTask (owners : Owners) (id : String) (known : List String) (task : Value) : Except Crash Value := do
  let (covers, needs) := coverage task owners
  let depends := (names task "depends_on").filterMap (find known)
  let task ← assign "id" (.string id) task
  let task ← assign "criterion_ids" (strings covers) task
  let task ← assign "requirement_ids" (strings needs) task
  assign "depends_on" (strings depends) task

def numberTaskList (owners : Owners) (numbers : Numbering) (known : List String) : List Value → Except Crash (List Value)
  | [] => .ok []
  | task :: rest => do
    let (id, numbers) ← numbers.claim (text task "id")
    let task ← numberTask owners id known task
    let rest ← numberTaskList owners numbers (known ++ [id]) rest
    return task :: rest

def numberTasks (owners : Owners) (value : Value) : Except Crash Value :=
  changeItems "tasks" (numberTaskList owners { head := "T" } []) value

def addOnce (key id : String) (task : Value) : Except Crash Value := do
  let fields ← entry key task
  match fields.lookup key with
  | some (.array list) =>
    if list.any fun known => known.asStr == some id then return .object fields
    else return .object (Value.insertField key (.array (list ++ [.string id])) fields)
  | _ => return .object fields

def placeFor (requirement : String) (tasks : List Value) : Nat :=
  match tasks.reverse.findIdx? fun task => (names task "requirement_ids").contains requirement with
  | some fromEnd => tasks.length - 1 - fromEnd
  | none => tasks.length - 1

def coverOrphan (tasks : List Value) (criterion requirement : String) : Except Crash (List Value) := do
  let place := placeFor requirement tasks
  match tasks[place]? with
  | none => return tasks
  | some task =>
    let task ← addOnce "criterion_ids" criterion task
    let task ← addOnce "requirement_ids" requirement task
    return tasks.set place task

def coverTasks (owners : Owners) (tasks : List Value) : Except Crash (List Value) :=
  if tasks.isEmpty then .ok tasks
  else
    let covered := tasks.flatMap (names · "criterion_ids")
    owners.foldlM (fun tasks (criterion, requirement) =>
      if covered.contains criterion then .ok tasks else coverOrphan tasks criterion requirement) tasks

def coverOrphans (owners : Owners) (value : Value) : Except Crash Value := changeItems "tasks" (coverTasks owners) value

def canonicalize (value : Value) : Except Crash Value := do
  let (value, owners) ← numberRequirements value
  let value ← numberTasks owners value
  coverOrphans owners value

end

/-- The text of the error with which a value is not read as a plan. -/
class PlanExternals where
  error : Value → String

def onlyFields (known : List String) (value : Value) : Bool :=
  match value with
  | .object fields => fields.all fun field => known.contains field.1
  | _ => false

def readStrings (value : Option Value) : Option (List String) := (value.bind Value.asArray).bind (·.mapM Value.asStr)

def readCriterion (value : Value) : Option Criterion :=
  if onlyFields ["id", "text"] value then do return ⟨← field value "id", ← field value "text"⟩ else none

def readRequirement (value : Value) : Option Requirement :=
  if onlyFields ["id", "text", "criteria"] value then do
    let criteria ← ((value.get "criteria").bind Value.asArray).bind (·.mapM readCriterion)
    return ⟨← field value "id", ← field value "text", criteria⟩
  else none

/-- A flow is a string, `null` or left out. -/
def readFlow (value : Value) : Option (Option String) :=
  match value.get "flow" with
  | none | some .null => some none
  | some flow => flow.asStr.map some

def readTask (value : Value) : Option Task :=
  if onlyFields ["id", "requirement_ids", "criterion_ids", "depends_on", "instructions", "flow"] value then do
    return ⟨← field value "id", ← readStrings (value.get "requirement_ids"), ← readStrings (value.get "criterion_ids"),
      ← readStrings (value.get "depends_on"), ← field value "instructions", ← readFlow value⟩
  else none

def readPlan (value : Value) : Option Plan :=
  if onlyFields ["status", "requirements", "tasks", "summary"] value then do
    let requirements ← ((value.get "requirements").bind Value.asArray).bind (·.mapM readRequirement)
    let tasks ← ((value.get "tasks").bind Value.asArray).bind (·.mapM readTask)
    return ⟨← field value "status", requirements, tasks, ← field value "summary"⟩
  else none

variable [CharTables] [PlanExternals]

/-- The plan in `value`, repaired and checked. -/
def plan (value : Value) : Except Crash (Except QueueError Plan) := do
  let value ← canonicalize value
  match readPlan value with
  | none => return .error (invalid (PlanExternals.error value))
  | some plan => return (checkPlan plan).map fun _ => plan

omit [CharTables] [PlanExternals] in
def unmixFlow (offered : String → Bool) (task : Value) : Except Crash Value :=
  match (field task "flow").map Text.trim with
  | none => return task
  | some flow =>
    if flow.isEmpty || offered flow || !flow.toList.any Text.isWhitespace then return task
    else do
      let task ← if (field task "instructions").all Text.isBlank then assign "instructions" (.string flow) task else return task
      match task with
      | .object fields => return .object (Value.removeField "flow" fields)
      | _ => return task

omit [CharTables] [PlanExternals] in
/-- A flow value that is not an offered name and contains whitespace is prose: it becomes the task's instructions when
    those are empty, and is dropped otherwise. -/
def unmixFlows (offered : String → Bool) (value : Value) : Except Crash Value :=
  changeItems "tasks" (·.mapM (unmixFlow offered)) value

end TaskQueue

end RustyCore
