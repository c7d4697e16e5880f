import RustyCore.Goals.Decision

/-! Passes that are each judged better than the one before, and yet come back to where they started; scores are added,
    subtracted and divided exactly. -/

namespace RustyCore.Goals

open List

/-- Exact arithmetic. -/
local instance exact : ScoreRounding := ⟨id⟩

section

variable [F64Display]

/-- A step that `compare` judges better. -/
def Improves (targets : Targets) (before now : Measurement) : Prop := compare before now targets = .better

def NeverCycles (targets : Targets) : Prop := ∀ m, ¬ Relation.TransGen (Improves targets) m m

variable [CharTables]

def AlwaysStops (goal : Goal) : Prop :=
  ∀ (measured : List Measurement) (passes : Nat → Pass), (∀ n, (passes n).now ∈ measured) →
    ∃ n, (machine.run goal ((List.range n).map passes)).status ≠ .running

end

def lowFinding : FindingSummary :=
  { id := "f1", issue := "long function", severity := .low, lines := "1-80", reason := "80 lines", worth := 0 }

def untidy (score : Option ℚ) : Measurement where
  files := [⟨"src/run.ts", score, [lowFinding]⟩]

def failing (score : Option ℚ) : Measurement where
  files := [⟨"src/run.ts", score, []⟩]
  checks := [⟨"lint", false, true, "1 failed"⟩]

section

variable {targets : Targets} {score : Option ℚ}

theorem low_allowed (max : Severity) : ¬ lowFinding.severity.rank > max.rank := Nat.not_lt_zero _

theorem misses_untidy : Measurement.misses ⟨"src/run.ts", score, [lowFinding]⟩ targets =
    Measurement.misses ⟨"src/run.ts", score, []⟩ targets := by
  have hsevere : (targets.maxSeverity.any fun max => [lowFinding].any fun f => f.severity.rank > max.rank) =
      targets.maxSeverity.any fun max => ([] : List FindingSummary).any fun f => f.severity.rank > max.rank := by
    cases targets.maxSeverity with
    | none => rfl
    | some max => simp [low_allowed max]
  simp only [Measurement.misses, hsevere]

theorem length_work : ((untidy score).work targets).length = ((failing score).work targets).length := by
  simp only [Measurement.work, untidy, failing, length_insertionSort, filter_cons, misses_untidy,
    filter_nil]
  split <;> rfl

theorem meanScore_untidy : (untidy score).meanScore = (failing score).meanScore := by
  cases score <;> rfl

theorem worstScore_untidy : (untidy score).worstScore = (failing score).worstScore := by
  cases score <;> rfl

theorem shortfall_untidy (min : ℚ) : shortfall min (untidy score) = shortfall min (failing score) := by
  cases score <;> rfl

theorem length_unmetCheck (name : String) :
    ((untidy score).unmetCheck name).length = 1 ∧ ((failing score).unmetCheck name).length = 1 := by
  refine ⟨rfl, ?_⟩
  by_cases hname : "lint" = name
  · simp [Measurement.unmetCheck, failing, hname]
  · simp [Measurement.unmetCheck, failing, hname]

variable [F64Display]

theorem unmetHealth_untidy : (untidy score).unmetHealth targets = (failing score).unmetHealth targets := by
  have hsevere : ∀ max : Severity, ((untidy score).files.flatMap fun f => f.findings.map fun x => (f, x)).filter
      (fun found => found.2.severity.rank > max.rank) = [] := by
    intro max
    simp [untidy, low_allowed max]
  have hnone : ((failing score).files.flatMap fun f => f.findings.map fun x => (f, x)) = [] := rfl
  have hbelow : ∀ min : ℚ, ((untidy score).scored.filter fun file => file.2 < min).map (fun file =>
        file.1.path ++ " " ++ F64Display.display (round file.2)) =
      ((failing score).scored.filter fun file => file.2 < min).map fun file =>
        file.1.path ++ " " ++ F64Display.display (round file.2) := by
    intro min
    cases score with
    | none => rfl
    | some s => by_cases hs : s < min <;> simp [Measurement.scored, untidy, failing, hs]
  have hempty : (untidy score).scored.isEmpty = (failing score).scored.isEmpty := by
    cases score <;> rfl
  simp only [Measurement.unmetHealth, hempty, meanScore_untidy, hbelow, hsevere, hnone, filter_nil]

theorem length_unmet : ((untidy score).unmet targets).length = ((failing score).unmet targets).length := by
  have hguidelines : (untidy score).unmetGuidelines targets = (failing score).unmetGuidelines targets := rfl
  have hchecks : (targets.checks.flatMap (untidy score).unmetCheck).length =
      (targets.checks.flatMap (failing score).unmetCheck).length := by
    rw [length_flatMap, length_flatMap]
    refine congrArg List.sum (map_congr_left fun name _ => ?_)
    rw [(length_unmetCheck name).1, (length_unmetCheck name).2]
  simp only [Measurement.unmet, length_append, unmetHealth_untidy, hguidelines, hchecks]

theorem improves_failing : Improves targets (untidy score) (failing score) := by
  have hbroke : broke (untidy score) (failing score) = false := rfl
  have hfailing : ¬ (failing score).failingChecks.length < (untidy score).failingChecks.length := by
    show ¬ 1 < 0
    decide
  have hzero : ¬ (0 : ℚ) < -scoreEpsilon ∧ ¬ scoreEpsilon < 0 := by
    constructor <;> norm_num [scoreEpsilon, ScoreRounding.near]
  have hshort : (targets.workBar.any fun min =>
      shortfall min (failing score) < ScoreRounding.near (shortfall min (untidy score) - scoreEpsilon)) = false := by
    cases targets.workBar with
    | none => rfl
    | some min => simpa [shortfall_untidy, ScoreRounding.near] using hzero.1
  have hdelta : ∀ s : Option ℚ, delta s s = 0 := by
    intro s
    cases s <;> simp [delta, ScoreRounding.near]
  unfold Improves compare
  rw [if_neg (by simp [untidy]), if_neg (by simp [hbroke]), if_neg, if_neg (by simp [hshort])]
  · simp only [meanScore_untidy, worstScore_untidy, hdelta, hzero.1, hzero.2, or_self, if_false]
    rfl
  · rw [length_unmet, length_work]
    have herrors : ¬ (failing score).guidelineErrors.length < (untidy score).guidelineErrors.length := Nat.lt_irrefl 0
    simp [hfailing, herrors]

theorem improves_untidy : Improves targets (failing score) (untidy score) := by
  have hbroke : broke (failing score) (untidy score) = false := rfl
  have hfailing : (untidy score).failingChecks.length < (failing score).failingChecks.length := Nat.zero_lt_one
  unfold Improves compare
  rw [if_neg (by simp [failing]), if_neg (by simp [hbroke]), if_pos (.inr (.inl hfailing))]

def byTurns (n : Nat) : Measurement := if n % 2 = 0 then failing none else untidy none

theorem improves_byTurns (n : Nat) : Improves targets (byTurns (n + 1)) (byTurns n) := by
  rcases Nat.mod_two_eq_zero_or_one n with hn | hn
  · have hnext : (n + 1) % 2 ≠ 0 := by omega
    rw [byTurns, byTurns, if_neg hnext, if_pos hn]
    exact improves_failing
  · have hnext : (n + 1) % 2 = 0 := by omega
    have hne : n % 2 ≠ 0 := by omega
    rw [byTurns, byTurns, if_pos hnext, if_neg hne]
    exact improves_untidy

theorem unmet_byTurns {goal : Goal} (hfiles : goal.targets.onFiles = true) (n : Nat) :
    unmet goal goal.plan (byTurns n) ≠ [] := by
  have hscored : (byTurns n).scored = [] := by
    unfold byTurns
    split <;> rfl
  have hunscored : (byTurns n).unmetHealth goal.targets ≠ [] := by
    simp [Measurement.unmetHealth, hscored, hfiles]
  simp [unmet, Measurement.unmet, hunscored]

variable [CharTables]

theorem goes_on {goal : Goal} {before now : Measurement} (at_ : String) (haccepted : goal.accepted = some before)
    (hbetter : judge goal before now {} = .better) (hmissed : unmet goal goal.plan now ≠ [])
    (hbudget : goal.budget.maxPasses = none) :
    let next := (machine.step goal ⟨now, {}, at_⟩).1
    next.status = .running ∧ next.accepted = some now ∧ next.targets = goal.targets ∧
      next.budget = goal.budget := by
  have hplan : planOf goal {} = goal.plan := rfl
  have hempty : (unmet goal goal.plan now).isEmpty = false := by simpa using hmissed
  have hprogress : progress goal now {} = .better := by rw [progress, haccepted]; exact hbetter
  have hblocked : blocked {} = none := rfl
  have hmax : ¬ (0 ≥ max goal.budget.noProgressPasses 1) := by
    have hle := Nat.le_max_right goal.budget.noProgressPasses 1
    omega
  have hstatus : (decide goal now {}).status = .running ∧ (decide goal now {}).undo = false := by
    simp only [decide, hplan, hempty, Bool.false_and, Bool.false_eq_true, if_false, hprogress, if_true, hblocked,
      hbudget, hmax, reduceCtorEq, decide_false, Option.any_none, and_self]
  dsimp only [machine, record]
  refine ⟨hstatus.1, ?_, rfl, rfl⟩
  simp [Goal.accepted, hstatus.2]

structure Turning (targets : Targets) (budget : Budget) (n : Nat) (goal : Goal) : Prop where
  status : goal.status = .running
  accepted : goal.accepted = some (byTurns (n + 1))
  targets : goal.targets = targets
  budget : goal.budget = budget

theorem Turning.run {goal : Goal} {budget : Budget} {passes : Nat → Pass}
    (hpasses : ∀ n, passes n = ⟨byTurns n, {}, ""⟩) (hfiles : targets.onFiles = true) (hbudget : budget.maxPasses = none)
    (h : Turning targets budget 0 goal) (n : Nat) :
    Turning targets budget n (machine.run goal ((List.range n).map passes)) := by
  induction n with
  | zero => exact h
  | succ n ih =>
    rw [range_succ, map_append, Machine.run_append, map_singleton, Machine.run_cons, Machine.run_nil,
      hpasses n]
    generalize machine.run goal ((List.range n).map passes) = current at ih
    have htask : current.isTask = false := by simp [Goal.isTask, ih.targets, hfiles]
    have hbetter : judge current (byTurns (n + 1)) (byTurns n) {} = .better := by
      rw [judge, htask]
      exact improves_byTurns n
    obtain ⟨hstatus, haccepted, htargets, hsame⟩ := goes_on "" ih.accepted hbetter
      (unmet_byTurns (by rw [ih.targets, hfiles]) n) (by rw [ih.budget, hbudget])
    have hnext : byTurns (n + 1 + 1) = byTurns n := by simp [byTurns, Nat.add_assoc, Nat.add_mod_right]
    exact ⟨hstatus, by rw [haccepted, hnext], htargets.trans ih.targets, hsame.trans ih.budget⟩

/-- For every choice of targets some measurement is reached again by steps that are each judged better, and every
    quality goal without a pass budget has a run over two measurements that no pass ends. -/
theorem goals_cycle (targets : Targets) :
    ¬ NeverCycles targets ∧
      (targets.onFiles = true → ∀ goal : Goal, goal.targets = targets → goal.budget.maxPasses = none →
        goal.status = .running → ∃ first, ¬ AlwaysStops { goal with baseline := some first, last := none }) := by
  constructor
  · intro hnever
    exact hnever (untidy none) (.tail (.single improves_failing) improves_untidy)
  · intro hfiles goal htargets hbudget hrunning
    refine ⟨byTurns 1, fun hstops => ?_⟩
    have hturning : Turning targets goal.budget 0 { goal with baseline := some (byTurns 1), last := none } :=
      ⟨hrunning, rfl, htargets, rfl⟩
    obtain ⟨n, hn⟩ := hstops [failing none, untidy none] (fun n => ⟨byTurns n, {}, ""⟩) (fun n => by
      unfold byTurns
      split <;> simp)
    exact hn (hturning.run (fun _ => rfl) hfiles hbudget n).status

end

namespace Sample

scoped instance display : F64Display := ⟨fun score => toString score⟩

scoped instance charTables : CharTables := ⟨Char.isAlphanum, fun c => [c.toLower]⟩

def healthy : Goal where
  instruction := "Make run.ts healthy"
  targets := { minFileHealth := some 8 }
  updatedAt := "t0"

theorem goals_cycle_healthy : ∃ first, ¬ AlwaysStops { healthy with baseline := some first, last := none } :=
  (goals_cycle healthy.targets).2 rfl healthy rfl rfl rfl

/-- A fresh lint failure for a finding less, and back. -/
theorem better_and_back :
    compare (untidy (some 5)) (failing (some 5)) { minFileHealth := some 8 } = .better ∧
      compare (failing (some 5)) (untidy (some 5)) { minFileHealth := some 8 } = .better ∧
      ¬ NeverCycles { minFileHealth := some 8 } := by
  refine ⟨improves_failing, improves_untidy, fun hnever => ?_⟩
  exact hnever (untidy (some 5)) (.tail (.single improves_failing) improves_untidy)

end Sample

end RustyCore.Goals
