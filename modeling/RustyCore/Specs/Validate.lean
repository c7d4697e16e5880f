import RustyCore.Lib.Graph

/-! Deterministic checks for the tasks of one change, shown as warnings next to its documents: ids used twice,
    references to what does not exist, criteria no task names, and a task that comes after itself. -/

namespace RustyCore.Specs.Validate

inductive Severity where
  | note
  | warning
  | error
deriving DecidableEq

structure Warning where
  file : String
  line : Option Nat
  severity : Severity
  message : String
deriving DecidableEq

structure Task where
  id : String
  line : Nat
  requirements : List String
  criteria : List String
  after : List String

structure TasksDoc where
  tasks : List Task

structure Criterion where
  id : String
  line : Nat

structure Requirement where
  id : String
  criteria : List Criterion

structure SpecDoc where
  requirements : List Requirement

namespace TasksDoc

def ids (doc : TasksDoc) : List String := doc.tasks.map (·.id)

def byId (doc : TasksDoc) (id : String) : Option Task := doc.tasks.reverse.find? (·.id == id)

/-- The tasks `visit` goes on to from an id. -/
def next (doc : TasksDoc) (id : String) : List String :=
  match doc.byId id with
  | some task => task.after.filter fun a => (doc.byId a).isSome
  | none => []

/-- A task on a cycle of `after` references: (id, line). The search is given one call more than there are tasks. -/
def findCycle (doc : TasksDoc) : Option (Option (String × Nat)) :=
  (Graph.exploreAll (Graph.explore doc.next (doc.tasks.length + 1)) doc.ids []).map fun (found, _) =>
    found.bind fun id => (doc.byId id).map fun task => (id, task.line)

def repeated (seen : List String) : List Task → List Task
  | [] => []
  | task :: rest => if task.id ∈ seen then task :: repeated seen rest else repeated (task.id :: seen) rest

end TasksDoc

def usedTwice (path : String) (task : Task) : Warning :=
  ⟨path, some task.line, .warning, task.id ++ " is used more than once"⟩

def afterMissing (path : String) (task : Task) (after : String) : Warning :=
  ⟨path, some task.line, .warning, task.id ++ " comes after " ++ after ++ ", which does not exist"⟩

def dependsOnItself (path : String) (task : String × Nat) : Warning :=
  ⟨path, some task.2, .error, task.1 ++ " depends on itself through its 'after' list"⟩

def notInSpec (path : String) (task : Task) (id : String) : Warning :=
  ⟨path, some task.line, .warning, task.id ++ " names " ++ id ++ ", which is not in spec.md"⟩

def notNamed (specPath : String) (criterion : Criterion) : Warning :=
  ⟨specPath, some criterion.line, .warning, criterion.id ++ " is not named by any task"⟩

def checkReferences (path specPath : String) (doc : TasksDoc) (spec : SpecDoc) : List Warning :=
  let knownRequirements := spec.requirements.map (·.id)
  let criteria := spec.requirements.flatMap (·.criteria)
  let knownCriteria := criteria.map (·.id)
  let named := doc.tasks.flatMap (·.criteria)
  doc.tasks.flatMap (fun task =>
    (task.requirements.filter (· ∉ knownRequirements)).map (notInSpec path task) ++
      (task.criteria.filter (· ∉ knownCriteria)).map (notInSpec path task)) ++
    (criteria.filter (·.id ∉ named)).map (notNamed specPath)

def taskWarnings (path specPath : String) (doc : TasksDoc) (spec : Option SpecDoc) (cycle : Option (String × Nat)) :
    List Warning :=
  (TasksDoc.repeated [] doc.tasks).map (usedTwice path) ++
    doc.tasks.flatMap (fun task => (task.after.filter (· ∉ doc.ids)).map (afterMissing path task)) ++
    (cycle.map (dependsOnItself path)).toList ++
    (spec.map (checkReferences path specPath doc)).getD []

def checkTasks (path specPath : String) (doc : TasksDoc) (spec : Option SpecDoc) (out : List Warning) :
    Option (List Warning) :=
  doc.findCycle.map fun cycle => out ++ taskWarnings path specPath doc spec cycle

end RustyCore.Specs.Validate
