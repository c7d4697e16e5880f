import RustyCore.Lib.Search
import RustyCore.Store.Restoration
import RustyCore.Workflow.Definition

/-! Acceptance criteria: which of the reported ones are unmet, the message that tells a producer sent back by a failed
    verification which of them to fix, and the verdicts of the checks that judge them. -/

namespace RustyCore

def idKey [CharTables] (id : String) : String :=
  String.ofList ((id.toList.filter CharTables.isAlphanumeric).flatMap CharTables.toLowercase)

/-- The fields of a `criteria` check that decide what a producer must fix. -/
structure CriteriaCheck where
  pointer : String
  planPointer : Option String
  blockOn : List String
  defer : List String

namespace Criteria

variable [Externals]

def criterionStatus (criterion : Value) : String :=
  Externals.toLowercase (Text.trim (((criterion.get "status").bind Value.asStr).getD "unverified"))

def criterionId (criterion : Value) (index : Nat) : String :=
  match ((criterion.get "id").bind Value.asStr).filter fun id => !Text.isBlank id with
  | some id => id
  | none => "criterion " ++ toString (index + 1)

def isDeferred (status : String) (blockOn defer : List String) : Bool := !blockOn.contains status && defer.contains status

def unmetCriteria (criteria : List Value) : List (Nat × Value × String) :=
  criteria.zipIdx.filterMap fun (criterion, index) =>
    let status := criterionStatus criterion
    if status != "pass" then some (index, criterion, status) else none

def elements (value : Option Value) : List Value := (value.bind Value.asArray).getD []

def planCriteria (plan : Option Value) : List String :=
  ((elements (plan.bind (·.get "requirements"))).flatMap fun requirement => elements (requirement.get "criteria")).filterMap
    fun criterion => (criterion.get "id").bind Value.asStr

variable [CharTables]

/-- Which result answers which expected criterion. When the results carry none of the expected ids, the same
    number of results answers the criteria in order. -/
def matchResults (expected : List String) (results : List Value) (idOf : Value → Option String) : List (Option Value) :=
  let byId := expected.map fun id => results.find? fun result => (idOf result).any fun found => idKey found == idKey id
  if byId.all Option.isNone && results.length == expected.length then results.map some else byId

/-- The `expected` plan criterion ids no reported criterion answers. -/
def missingPlanCriteria (expected : List String) (criteria : List Value) : List String :=
  let found := matchResults expected criteria fun criterion => (criterion.get "id").bind Value.asStr
  ((expected.zip found).filter fun answer => answer.2.isNone).map (·.1)

def criteriaChecks (checks : List VerificationCheck) : List CriteriaCheck :=
  checks.filterMap fun
    | .criteria pointer planPointer blockOn defer _ => some ⟨pointer, planPointer, blockOn, defer⟩
    | _ => none

def focusLine (index : Nat) (criterion : Value) (status : String) : String :=
  let evidence := ((criterion.get "evidence").bind Value.asStr).getD "No evidence supplied"
  "- " ++ criterionId criterion index ++ " [" ++ status ++ "]: " ++ evidence

def sortForRepair (input : Value) (check : CriteriaCheck) (unresolved manual : List String) :
    List String × List String :=
  let criteria := elements (input.pointer check.pointer)
  -- plan criteria nobody reported are unmet too
  let missing := match check.planPointer with
    | some planPointer =>
      (missingPlanCriteria (planCriteria (input.pointer planPointer)) criteria).map fun id =>
        "- " ++ id ++ " [missing]: the review did not report it"
    | none => []
  (unmetCriteria criteria).foldl
    (fun (unresolved, manual) (index, criterion, status) =>
      let line := focusLine index criterion status
      if isDeferred status check.blockOn check.defer then (unresolved, manual ++ [line])
      else (unresolved ++ [line], manual))
    (unresolved ++ missing, manual)

def repairMessage (input : Value) (issues unresolved manual : List String) : String :=
  Text.join "\n\n" <|
    ["Verification did not pass: " ++ Text.join "; " issues] ++
      (if unresolved.isEmpty then [] else ["Focus on these unmet criteria:\n" ++ Text.join "\n" unresolved]) ++
      (if manual.isEmpty then []
        else ["Left for the user to check by hand; do not try to fix these:\n" ++ Text.join "\n" manual]) ++
      match ((input.get "check").bind (·.get "summary")).bind Value.asStr with
      | some summary => ["Review summary: " ++ summary]
      | none => []

/-- What a producer sent back by a failed verification should fix. Criteria a `criteria` check defers are listed
    apart. -/
def verificationRepairFocus (input : Value) (issues : List String) (checks : List VerificationCheck) : String :=
  let criteriaChecks := criteriaChecks checks
  let unresolved :=
    if criteriaChecks.isEmpty then
      (unmetCriteria (elements ((input.get "check").bind (·.get "criteria")))).map fun (index, criterion, status) =>
        focusLine index criterion status
    else []
  let (unresolved, manual) := criteriaChecks.foldl
    (fun (unresolved, manual) check => sortForRepair input check unresolved manual) (unresolved, [])
  repairMessage input issues unresolved manual

structure JudgedCriteria where
  passed : Bool
  detail : String
  /-- `{id, how_to_test, evidence}` of every deferred criterion. -/
  deferred : List Value

def JudgedCriteria.failed (detail : String) : JudgedCriteria := ⟨false, detail, []⟩

def manualCheck (criterion : Value) (id : String) : Value :=
  let text (field : String) := (((criterion.get field).bind Value.asStr).map Text.trim).filter fun text => !text.isEmpty
  .object [("evidence", .string ((text "evidence").getD "")),
    ("how_to_test", .string (((text "how_to_test").or (text "evidence")).getD "Check this by hand.")),
    ("id", .string id)]

def tooManyDeferred (maxDeferred : Option Nat) (deferred : Nat) : List String :=
  match maxDeferred with
  | some max =>
    if deferred > max then
      [toString deferred ++ " criteria were left for manual checks, at most " ++ toString max ++ " may be"]
    else []
  | none => []

/-- Judges the reported criteria. With `expected`, the ids of a plan's criteria, every one must also have been
    reported. -/
def judgeCriteria (value : Option Value) (blockOn defer : List String) (maxDeferred : Option Nat)
    (expected : Option (List String)) : JudgedCriteria :=
  match value.bind Value.asArray with
  | none => .failed "criteria are missing or not an array"
  | some [] => .failed "no criteria were reported"
  | some criteria =>
    let unmet := unmetCriteria criteria
    let deferred := (unmet.filter fun (_, _, status) => isDeferred status blockOn defer).map fun (index, criterion, _) =>
      manualCheck criterion (criterionId criterion index)
    let failing := (unmet.filter fun (_, _, status) => !isDeferred status blockOn defer).map fun (index, criterion, status) =>
      criterionId criterion index ++ " [" ++ status ++ "]"
    let missing := (expected.map fun expected => (missingPlanCriteria expected criteria).map (· ++ " [missing]")).getD []
    let blocking := failing ++ missing ++ tooManyDeferred maxDeferred deferred.length
    if !blocking.isEmpty then .failed ("not met: " ++ Text.join ", " blocking)
    else
      let passed := criteria.length - deferred.length
      ⟨true,
        if deferred.isEmpty then toString passed ++ " criteria passed"
        else toString passed ++ " criteria passed, " ++ toString deferred.length ++ " left for manual checks",
        deferred⟩

def isEvidenced (result : Value) : Bool :=
  (result.get "status").bind Value.asStr == some "pass" &&
    ((result.get "evidence").bind Value.asStr).any fun evidence => !Text.isBlank evidence

def requirementCoverage (plan results : Option Value) : Bool × String :=
  let expected := planCriteria plan
  match results.bind Value.asArray with
  | none => (false, "criterion results are missing")
  | some results =>
    let matched := matchResults expected results fun result => (result.get "id").bind Value.asStr
    let passed := !expected.isEmpty && matched.all (·.any isEvidenced)
    (passed,
      if passed then "all acceptance criteria have passing evidence"
      else "missing, failed or unevidenced acceptance criteria")

end Criteria

/-! What a task queue reads from the message of a downstream rejection. -/

namespace Feedback

variable [Externals]

/-- An older `<criteria>[...]</criteria>` JSON list. -/
def legacyResults (message : String) : Option (List Value) :=
  (Text.splitOnce "<criteria>".toList message.toList).bind fun (_, rest) =>
    (Text.splitOnce "</criteria>".toList rest).bind fun (json, _) =>
      (Externals.parseJson (String.ofList json)).bind Value.asArray

variable [CharTables]

/-- The key of a line `- ID [status]`. -/
def criterionKey (line : List Char) : Option String :=
  (Text.stripPrefix "- ".toList (Text.trimMatches Text.isWhitespace line)).bind fun rest =>
    (Text.splitOnce " [".toList rest).map fun (id, _) => idKey (String.ofList id)

/-- The criteria a downstream verification found unmet: the `- ID [status]` lines of its "Focus on these unmet
    criteria" section, or an older list. -/
def unmetCriteria (message : String) : List String :=
  match legacyResults message with
  | some results =>
    (results.filter fun result => (result.get "status").bind Value.asStr != some "pass").filterMap fun result =>
      ((result.get "id").bind Value.asStr).map idKey
  | none =>
    match Text.splitOnce "Focus on these unmet criteria:".toList message.toList with
    | none => []
    | some (_, section_) => (Text.paragraph (Text.lines section_)).filterMap criterionKey

end Feedback

end RustyCore
