import RustyCore.Protocol.Number

/-! One measurement of a goal's scope, the targets it is measured against, and which of them it misses. Scores are
    finite; what their arithmetic rounds to is a parameter. -/

namespace RustyCore.Goals

inductive Severity where
  | low
  | medium
  | high
  | critical
deriving DecidableEq

namespace Severity

def rank : Severity → Nat
  | low => 0
  | medium => 1
  | high => 2
  | critical => 3

def debug : Severity → String
  | low => "Low"
  | medium => "Medium"
  | high => "High"
  | critical => "Critical"

end Severity

structure FindingSummary where
  id : String
  issue : String
  severity : Severity
  lines : String
  reason : String
  worth : ℚ
deriving DecidableEq

structure FileMeasure where
  path : String
  score : Option ℚ
  findings : List FindingSummary
deriving DecidableEq

structure GuidelineSummary where
  rule : String
  path : String
  line : Nat
  message : String
deriving DecidableEq

structure CheckOutcome where
  name : String
  passed : Bool
  /-- The check ran after the pass's last edit; one that did not proves nothing either way. -/
  ran : Bool
  summary : String
deriving DecidableEq

structure Measurement where
  files : List FileMeasure
  guidelineErrors : List GuidelineSummary := []
  guidelineWarnings : Nat := 0
  checks : List CheckOutcome := []
  fingerprint : String := ""
deriving DecidableEq

structure Unmet where
  target : String
  detail : String
deriving DecidableEq

structure Targets where
  minFileHealth : Option ℚ := none
  minMeanHealth : Option ℚ := none
  maxSeverity : Option Severity := none
  checks : List String := []
  guidelines : Bool := true
  doneWhen : Option String := none

namespace Targets

def onFiles (targets : Targets) : Bool :=
  targets.minFileHealth.isSome || targets.minMeanHealth.isSome || targets.maxSeverity.isSome

/-- The score below which a file is still work: the higher of the minimum and the mean target. -/
def workBar (targets : Targets) : Option ℚ :=
  match targets.minFileHealth, targets.minMeanHealth with
  | some a, some b => some (max a b)
  | a, b => a.or b

end Targets

/-- What the result of an operation on scores is rounded to: the nearest `f64` in the program, the number itself in
    exact arithmetic. -/
class ScoreRounding where
  near : ℚ → ℚ

/-- `Iterator::sum`: from the left. -/
def sumScores [ScoreRounding] (scores : List ℚ) : ℚ :=
  scores.foldl (fun total score => ScoreRounding.near (total + score)) 0

/-- `f64::round`, to one decimal: halves go away from zero. -/
def round [ScoreRounding] (value : ℚ) : ℚ :=
  let tenths := ScoreRounding.near (value * 10)
  ScoreRounding.near ((if 0 ≤ tenths then ((tenths + 1 / 2).floor : ℚ) else -((-tenths + 1 / 2).floor : ℚ)) / 10)

def listedItems : Nat := 10

def listed (items : List String) : String :=
  Text.join ", " (items.take listedItems) ++
    if items.length > listedItems then " and " ++ toString (items.length - listedItems) ++ " more" else ""

def f64Max : ℚ := 2 ^ 1024 - 2 ^ 971

namespace Measurement

def scored (m : Measurement) : List (FileMeasure × ℚ) := m.files.filterMap fun f => f.score.map fun s => (f, s)

def worstScore (m : Measurement) : Option ℚ := (m.scored.map (·.2)).min?

def meanScore [ScoreRounding] (m : Measurement) : Option ℚ :=
  let scores := m.scored.map (·.2)
  if scores.isEmpty then none
  else some (ScoreRounding.near (sumScores scores / ScoreRounding.near scores.length))

def failingChecks (m : Measurement) : List CheckOutcome := m.checks.filter (!·.passed)

/-- Whether a file is still work: below the minimum or mean score, or with a finding more severe than allowed. -/
def misses (file : FileMeasure) (targets : Targets) : Bool :=
  let low := match file.score, targets.workBar with
    | some s, some bar => decide (s < bar)
    | _, _ => false
  let severe := targets.maxSeverity.any fun max => file.findings.any fun f => f.severity.rank > max.rank
  low || severe

def work (m : Measurement) (targets : Targets) : List FileMeasure :=
  (m.files.filter fun f => misses f targets).insertionSort fun a b =>
    let score (f : FileMeasure) := f.score.getD f64Max
    score a < score b ∨ score a = score b ∧ a.path ≤ b.path

variable [F64Display] [ScoreRounding]

def unmetHealth (m : Measurement) (targets : Targets) : List Unmet :=
  let unscored := if targets.onFiles && m.scored.isEmpty then
      [⟨"the scope is measured", "no file in scope has a code health score"⟩]
    else []
  let mean := match targets.minMeanHealth, m.meanScore with
    | some min, some mean =>
      if mean < min then
        [⟨"mean health at least " ++ F64Display.display min, "the mean is " ++ F64Display.display (round mean)⟩]
      else []
    | _, _ => []
  let files := match targets.minFileHealth with
    | some min =>
      let below := (m.scored.filter fun file => file.2 < min).map fun file =>
        file.1.path ++ " " ++ F64Display.display (round file.2)
      if below.isEmpty then [] else [⟨"every file scores at least " ++ F64Display.display min, listed below⟩]
    | none => []
  let severity := match targets.maxSeverity with
    | some max =>
      let worse := ((m.files.flatMap fun f => f.findings.map fun x => (f, x)).filter fun found =>
          found.2.severity.rank > max.rank).map fun found =>
        found.1.path ++ " " ++ found.2.issue ++ " (" ++ found.2.lines ++ ")"
      if worse.isEmpty then [] else [⟨("no finding above " ++ max.debug).toLower, listed worse⟩]
    | none => []
  unscored ++ mean ++ files ++ severity

def unmetCheck (m : Measurement) (name : String) : List Unmet :=
  match m.checks.find? fun c => c.name == name with
  | some check =>
    if check.passed then []
    else if !check.ran then [⟨name ++ " passes", "it was not run after the last edit"⟩]
    else [⟨name ++ " passes", check.summary⟩]
  | none => [⟨name ++ " passes", "it did not run"⟩]

def unmetGuidelines (m : Measurement) (targets : Targets) : List Unmet :=
  if targets.guidelines && !m.guidelineErrors.isEmpty then
    [⟨"no guideline errors",
      listed (m.guidelineErrors.map fun e => e.path ++ ":" ++ toString e.line ++ " " ++ e.rule)⟩]
  else []

def unmet (m : Measurement) (targets : Targets) : List Unmet :=
  m.unmetHealth targets ++ targets.checks.flatMap m.unmetCheck ++ m.unmetGuidelines targets

def headline (m : Measurement) : String :=
  let health := match m.worstScore, m.meanScore with
    | some worst, some mean =>
      ["health worst " ++ F64Display.display (round worst) ++ " / mean " ++ F64Display.display (round mean)]
    | _, _ => []
  let failing := m.failingChecks.map (·.name)
  let checks := if m.checks.isEmpty then []
    else if failing.isEmpty then ["checks pass"] else ["failing: " ++ Text.join ", " failing]
  Text.join ", " <|
    [toString m.scored.length ++ " file(s) measured"] ++ health ++
      [toString (m.files.map (·.findings.length)).sum ++ " finding(s)",
        toString m.guidelineErrors.length ++ " guideline error(s)"] ++ checks

end Measurement

end RustyCore.Goals
