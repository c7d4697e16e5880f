import RustyCore.Goals.Measurement
import RustyCore.Lib.Machine
import RustyCore.Protocol.Ids

/-! A goal as it is saved, whether a pass moved its measurement, and what the goal does next: the decision after a
    pass, and how it is recorded. Counters are `u32` as a release build adds to them. -/

namespace RustyCore.Goals

inductive StepStatus where
  | pending
  | inProgress
  | completed
  | cancelled
deriving DecidableEq

def StepStatus.isClosed : StepStatus → Bool
  | .completed | .cancelled => true
  | .pending | .inProgress => false

structure PlanStep where
  content : String
  status : StepStatus
deriving DecidableEq

inductive GoalStatus where
  | running
  | paused
  | done
  | blocked
  | cleared
deriving DecidableEq

structure Budget where
  /-- Passes before the goal pauses. Without one it runs until it is done, blocked, or stops making progress. -/
  maxPasses : Option Nat := none
  noProgressPasses : Nat := 2

inductive Verdict where
  | done
  | continue
  | undone
  | noProgress
  | blocked
  | budget
deriving DecidableEq

structure JournalEntry where
  pass : Nat
  at_ : String
  verdict : Verdict
  summary : String
  agentStatus : Option String
  next : Option String

structure Goal where
  status : GoalStatus := .running
  instruction : String
  targets : Targets := {}
  budget : Budget := {}
  keepBest : Bool := true
  updatedAt : String
  passes : Nat := 0
  stalled : Nat := 0
  baseline : Option Measurement := none
  last : Option Measurement := none
  plan : List PlanStep := []
  journal : List JournalEntry := []
  reason : Option String := none

def journalLimit : Nat := 50

def pushJournal (journal : List JournalEntry) (entry : JournalEntry) : List JournalEntry :=
  let journal := journal ++ [entry]
  journal.drop (journal.length - journalLimit)

namespace Goal

def isTask (goal : Goal) : Bool := !goal.targets.onFiles

/-- The result in words the pass judges: the one given, or for a task goal its instruction. -/
def doneWhen (goal : Goal) : Option String :=
  match goal.targets.doneWhen with
  | some words => some words
  | none => if goal.isTask then some goal.instruction else none

def accepted (goal : Goal) : Option Measurement := goal.last.or goal.baseline

end Goal

inductive Progress where
  | better
  | same
  | worse
deriving DecidableEq

section

variable [ScoreRounding]

def scoreEpsilon : ℚ := ScoreRounding.near (1 / 20)

def broke (before now : Measurement) : Bool :=
  ((now.failingChecks.filter (·.ran)).any fun c => before.checks.any fun b => b.name == c.name && b.passed) ||
    decide (now.guidelineErrors.length > before.guidelineErrors.length)

def shortfall (min : ℚ) (m : Measurement) : ℚ :=
  sumScores (m.scored.map fun file => max (ScoreRounding.near (min - file.2)) 0)

def findings (m : Measurement) : Nat := (m.files.map (·.findings.length)).sum

def delta (before now : Option ℚ) : ℚ :=
  match before, now with
  | some a, some b => ScoreRounding.near (b - a)
  | _, _ => 0

variable [F64Display]

def compare (before now : Measurement) (targets : Targets) : Progress :=
  if !before.fingerprint.isEmpty && before.fingerprint == now.fingerprint then .same
  else if broke before now then .worse
  else if (now.unmet targets).length < (before.unmet targets).length ∨
      now.failingChecks.length < before.failingChecks.length ∨
      now.guidelineErrors.length < before.guidelineErrors.length ∨
      (now.work targets).length < (before.work targets).length then .better
  else if (targets.workBar.any fun min =>
      shortfall min now < ScoreRounding.near (shortfall min before - scoreEpsilon)) then .better
  else
    let mean := delta before.meanScore now.meanScore
    let worst := delta before.worstScore now.worstScore
    if mean < -scoreEpsilon ∨ worst < -scoreEpsilon then .worse
    else if scoreEpsilon < mean ∨ scoreEpsilon < worst then .better
    else if findings now < findings before then .better
    else if findings now = findings before then .same
    else .worse

structure PassReport where
  agentStatus : Option String := none
  doneWhenMet : Option Bool := none
  judgeReason : Option String := none
  next : Option String := none
  plan : List PlanStep := []

def completed (plan : List PlanStep) : Nat := plan.countP (·.status == .completed)

/-- What a task goal misses besides its targets: a plan, every step of it closed, and every check that the pass ran
    passing. -/
def taskUnmet (goal : Goal) (plan : List PlanStep) (now : Measurement) : List Unmet :=
  let open_ := (plan.filter (!·.status.isClosed)).map (·.content)
  let planned :=
    if plan.isEmpty then [⟨"a plan", "no plan was kept: call update_todos with every step to the result"⟩]
    else if !open_.isEmpty then
      [⟨"the plan is finished", toString open_.length ++ " step(s) left: " ++ Text.join "; " open_⟩]
    else []
  let failing := (now.failingChecks.filter (·.ran)).filter fun c => !goal.targets.checks.contains c.name
  planned ++ failing.map fun check =>
    ⟨check.name ++ " passes",
      Text.join " / " (((Text.lines check.summary.toList).take 4).map String.ofList)⟩

def taskProgress (before now : Measurement) (plan kept : List PlanStep) : Progress :=
  if broke before now then .worse
  else if completed plan > completed kept ∨ now.failingChecks.length < before.failingChecks.length then .better
  else .same

def unmet (goal : Goal) (plan : List PlanStep) (now : Measurement) : List Unmet :=
  now.unmet goal.targets ++ if goal.isTask then taskUnmet goal plan now else []

structure Decision where
  verdict : Verdict
  status : GoalStatus
  unmet : List Unmet
  undo : Bool
  stalled : Nat
  reason : String
  summary : String

def planOf (goal : Goal) (report : PassReport) : List PlanStep :=
  if report.plan.isEmpty then goal.plan else report.plan

def judge (goal : Goal) (before now : Measurement) (report : PassReport) : Progress :=
  if goal.isTask then taskProgress before now (planOf goal report) goal.plan else compare before now goal.targets

def progress (goal : Goal) (now : Measurement) (report : PassReport) : Progress :=
  match goal.accepted with
  | none => .better
  | some before => judge goal before now report

variable [CharTables]

def blocked (report : PassReport) : Option String :=
  report.agentStatus.bind fun status =>
    let cs := (Text.trim status).toList
    if (cs.take 7).map Char.toLower = "blocked".toList then
      some (String.ofList (Text.trimMatches (fun c => !CharTables.isAlphanumeric c) (cs.drop 7)))
    else none

def judgedDone (goal : Goal) (report : PassReport) : Bool :=
  goal.doneWhen.isNone || report.doneWhenMet == some true

def decide (goal : Goal) (now : Measurement) (report : PassReport) : Decision :=
  let missed := unmet goal (planOf goal report) now
  let summary := match goal.accepted with
    | some before => now.headline ++ " (before: " ++ before.headline ++ ")"
    | none => now.headline
  let progress := progress goal now report
  let stalled := if progress = .better then 0 else (goal.stalled + 1) % 2 ^ 32
  let decision (verdict : Verdict) (status : GoalStatus) (undo : Bool) (reason : String) : Decision :=
    ⟨verdict, status, missed, undo, stalled, reason, summary⟩
  if missed.isEmpty && judgedDone goal report then
    decision .done .done false
      (if goal.isTask then "The plan is finished, the checks pass and the result was judged done."
        else "Every target is met.")
  else match blocked report with
    | some what =>
      decision .blocked .blocked false
        (if what.isEmpty then "The agent reported a blocker." else "Blocked: " ++ what)
    | none =>
      let undo := progress = .worse && goal.keepBest
      let passes := (goal.passes + 1) % 2 ^ 32
      if stalled ≥ max goal.budget.noProgressPasses 1 then
        decision .noProgress .paused undo
          ("No measurable progress in " ++ toString stalled ++ " pass(es) in a row; paused.")
      else if goal.budget.maxPasses.any fun most => passes ≥ max most 1 then
        decision (if undo then .undone else .budget) .paused undo
          (toString passes ++ " pass(es) used, the whole budget; paused.")
      else if undo then
        decision .undone .running true "The pass made the measurement worse, so it was undone."
      else
        decision .continue .running false <|
          match goal.doneWhen, missed.isEmpty, report.judgeReason with
          | some _, true, some why => "Measured targets met; not done yet: " ++ why
          | _, _, _ => toString (max missed.length 1) ++ " target(s) left."

def record (goal : Goal) (decision : Decision) (now : Measurement) (report : PassReport) (at_ : String) : Goal :=
  let passes := (goal.passes + 1) % 2 ^ 32
  { goal with
    passes := passes
    stalled := decision.stalled
    last := if decision.undo then goal.last else some now
    plan := if decision.undo || report.plan.isEmpty then goal.plan else report.plan
    status := decision.status
    reason := if decision.status ≠ .running then some decision.reason else none
    updatedAt := at_
    journal := pushJournal goal.journal
      ⟨passes, at_, decision.verdict, decision.summary, report.agentStatus, report.next⟩ }

structure Pass where
  now : Measurement
  report : PassReport
  at_ : String

def machine : Machine Goal Pass Decision where
  step goal pass :=
    let decision := decide goal pass.now pass.report
    (record goal decision pass.now pass.report pass.at_, [decision])

end

end RustyCore.Goals
