import RustyCore.Goals.Decision

/-! What a goal that is done has been measured to meet, and what becomes of its best measurement: the passes that end
    a goal without the evidence for it, or that keep a worse measurement. -/

namespace RustyCore.Goals

open List

structure Holds [ScoreRounding] (goal : Goal) (plan : List PlanStep) (now : Measurement) : Prop where
  scored : goal.targets.onFiles = true → now.scored ≠ []
  files : ∀ min, goal.targets.minFileHealth = some min → ∀ file ∈ now.scored, min ≤ file.2
  mean : ∀ min, goal.targets.minMeanHealth = some min → ∀ mean, now.meanScore = some mean → min ≤ mean
  severity : ∀ max, goal.targets.maxSeverity = some max →
    ∀ file ∈ now.files, ∀ finding ∈ file.findings, finding.severity.rank ≤ max.rank
  guidelines : goal.targets.guidelines = true → now.guidelineErrors = []
  planned : goal.isTask = true → plan ≠ [] ∧ ∀ step ∈ plan, step.status.isClosed = true
  others : goal.isTask = true → ∀ check ∈ now.checks, check.ran = true → check.name ∉ goal.targets.checks →
    check.passed = true

def Passes (now : Measurement) (name : String) : Prop :=
  (∃ check ∈ now.checks, check.name = name) ∧
    ∀ check ∈ now.checks, check.name = name → check.ran = true ∧ check.passed = true

structure Evidence [ScoreRounding] (goal : Goal) (now : Measurement) (report : PassReport) : Prop where
  checks : ∀ name ∈ goal.targets.checks, Passes now name
  targets : Holds goal (planOf goal report) now
  judged : goal.doneWhen ≠ none → report.doneWhenMet = some true

def Overlooked (now : Measurement) (name : String) : Prop :=
  ∃ first rest, now.checks.filter (·.name == name) = first :: rest ∧ first.passed = true ∧
    (first.ran = false ∨ ∃ check ∈ rest, check.ran = false ∨ check.passed = false)

section

variable [F64Display] [ScoreRounding]

/-- Every target is met as `unmet` reads them, and the judge said yes where one is asked. -/
def Met (goal : Goal) (pass : Pass) : Prop :=
  unmet goal (planOf goal pass.report) pass.now = [] ∧ judgedDone goal pass.report = true

variable [CharTables]

/-- Done only on evidence; and the accepted measurement of a goal that keeps its best is replaced by none that is
    judged worse. -/
structure Sound (step : Machine.Step Goal Pass Decision) : Prop where
  done : step.post.status = .done →
    step.post.last = some step.input.now ∧ Evidence step.pre step.input.now step.input.report
  best : step.pre.keepBest = true → step.post.last ≠ step.pre.last → ∀ before, step.pre.last = some before →
    judge step.pre before step.input.now step.input.report ≠ .worse

/-- A pass that ends the goal on an overlooked outcome, or that ends it with a measurement worse than the accepted
    one. -/
def Misled (goal : Goal) (pass : Pass) : Prop :=
  (Met goal pass ∧ ∃ name ∈ goal.targets.checks, Overlooked pass.now name) ∨
    (goal.keepBest = true ∧ (Met goal pass ∨ blocked pass.report ≠ none) ∧
      ∃ before, goal.last = some before ∧ pass.now ≠ before ∧ judge goal before pass.now pass.report = .worse)

end

section

variable {now : Measurement} {goal : Goal} {plan : List PlanStep} {name : String}

theorem taskUnmet_eq_nil (h : taskUnmet goal plan now = []) :
    (plan ≠ [] ∧ ∀ step ∈ plan, step.status.isClosed = true) ∧
      ∀ check ∈ now.checks, check.ran = true → check.name ∉ goal.targets.checks → check.passed = true := by
  simp only [taskUnmet, append_eq_nil_iff, map_eq_nil_iff, filter_eq_nil_iff] at h
  obtain ⟨hplan, hfailing⟩ := h
  constructor
  · split at hplan
    · cases hplan
    · rename_i hne
      refine ⟨by simpa using hne, ?_⟩
      simpa using hplan
  · intro check hcheck hran hother
    by_contra hfail
    refine hfailing check ?_ (by simpa using hother)
    simp [Measurement.failingChecks, hcheck, hran, Bool.eq_false_iff.mpr hfail]

theorem unmetCheck_eq_nil : now.unmetCheck name = [] ↔
    ∃ first rest, now.checks.filter (·.name == name) = first :: rest ∧ first.passed = true := by
  unfold Measurement.unmetCheck
  rw [← List.head?_filter]
  cases hfilter : now.checks.filter fun c => c.name == name with
  | nil => simp
  | cons first rest =>
    simp only [List.head?_cons]
    split
    · rename_i hpassed
      exact iff_of_true rfl ⟨first, rest, rfl, hpassed⟩
    · rename_i hpassed
      refine iff_of_false (by split <;> simp) ?_
      rintro ⟨first', rest', heq, hpassed'⟩
      obtain ⟨rfl, -⟩ := List.cons.inj heq
      exact hpassed hpassed'

theorem passes_iff (h : now.unmetCheck name = []) : Passes now name ↔ ¬ Overlooked now name := by
  obtain ⟨first, rest, hfilter, hpassed⟩ := unmetCheck_eq_nil.mp h
  have hmem : ∀ check, check ∈ first :: rest ↔ check ∈ now.checks ∧ check.name = name := by
    intro check
    rw [← hfilter, mem_filter, beq_iff_eq]
  constructor
  · rintro ⟨-, hall⟩ ⟨first', rest', hfilter', -, hbad⟩
    obtain ⟨rfl, rfl⟩ := List.cons.inj (hfilter.symm.trans hfilter')
    have hgood : ∀ check ∈ first :: rest, check.ran = true ∧ check.passed = true := fun check hcheck =>
      hall check ((hmem check).mp hcheck).1 ((hmem check).mp hcheck).2
    rcases hbad with hran | ⟨check, hcheck, hran | hfailed⟩
    · exact absurd (hgood first mem_cons_self).1 (by simp [hran])
    · exact absurd (hgood check (mem_cons_of_mem _ hcheck)).1 (by simp [hran])
    · exact absurd (hgood check (mem_cons_of_mem _ hcheck)).2 (by simp [hfailed])
  · intro hnone
    refine ⟨⟨first, (hmem first).mp mem_cons_self⟩, fun check hcheck hname => ?_⟩
    rcases mem_cons.mp ((hmem check).mpr ⟨hcheck, hname⟩) with rfl | hrest
    · refine ⟨?_, hpassed⟩
      by_contra hran
      exact hnone ⟨check, rest, hfilter, hpassed, .inl (by simpa using hran)⟩
    · constructor
      · by_contra hran
        exact hnone ⟨first, rest, hfilter, hpassed, .inr ⟨check, hrest, .inl (by simpa using hran)⟩⟩
      · by_contra hfailed
        exact hnone ⟨first, rest, hfilter, hpassed, .inr ⟨check, hrest, .inr (by simpa using hfailed)⟩⟩

variable [F64Display] [ScoreRounding]

theorem unmetHealth_eq_nil {targets : Targets} (h : now.unmetHealth targets = []) :
    (targets.onFiles = true → now.scored ≠ []) ∧
      (∀ min, targets.minFileHealth = some min → ∀ file ∈ now.scored, min ≤ file.2) ∧
      (∀ min, targets.minMeanHealth = some min → ∀ mean, now.meanScore = some mean → min ≤ mean) ∧
      ∀ max, targets.maxSeverity = some max →
        ∀ file ∈ now.files, ∀ finding ∈ file.findings, finding.severity.rank ≤ max.rank := by
  simp only [Measurement.unmetHealth, append_eq_nil_iff] at h
  obtain ⟨⟨⟨hscored, hmean⟩, hfiles⟩, hseverity⟩ := h
  refine ⟨fun hon hnil => ?_, fun min hmin file hfile => ?_, fun min hmin mean hscore => ?_,
    fun max hmax file hfile finding hfinding => ?_⟩
  · simp [hon, hnil] at hscored
  · rw [hmin] at hfiles
    by_contra hlow
    simp only [List.isEmpty_iff, List.map_eq_nil_iff, ite_eq_left_iff, reduceCtorEq, imp_false, not_not,
      filter_eq_nil_iff] at hfiles
    exact hfiles file hfile (by simpa using hlow)
  · rw [hmin, hscore] at hmean
    by_contra hlow
    simp [not_le.mp hlow] at hmean
  · rw [hmax] at hseverity
    by_contra hsevere
    simp only [List.isEmpty_iff, List.map_eq_nil_iff, ite_eq_left_iff, reduceCtorEq, imp_false, not_not,
      List.filter_eq_nil_iff] at hseverity
    refine hseverity (file, finding) ?_ (by simpa using hsevere)
    exact List.mem_flatMap.mpr ⟨file, hfile, List.mem_map.mpr ⟨finding, hfinding, rfl⟩⟩

theorem unmet_eq_nil (h : unmet goal plan now = []) :
    Holds goal plan now ∧ ∀ name ∈ goal.targets.checks, now.unmetCheck name = [] := by
  simp only [unmet, Measurement.unmet, List.append_eq_nil_iff, List.flatMap_eq_nil_iff] at h
  obtain ⟨⟨⟨hhealth, hchecks⟩, hguidelines⟩, htask⟩ := h
  obtain ⟨hscored, hfiles, hmean, hseverity⟩ := unmetHealth_eq_nil hhealth
  refine ⟨⟨hscored, hfiles, hmean, hseverity, fun hset => ?_, fun ht => ?_, fun ht => ?_⟩, hchecks⟩
  · simpa [Measurement.unmetGuidelines, hset] using hguidelines
  · rw [if_pos ht] at htask
    exact (taskUnmet_eq_nil htask).1
  · rw [if_pos ht] at htask
    exact (taskUnmet_eq_nil htask).2

end

section

variable [F64Display] [ScoreRounding] [CharTables] {goal : Goal} {pass : Pass}

theorem decide_cases (goal : Goal) (pass : Pass) :
    let decision := decide goal pass.now pass.report
    (Met goal pass ∧ decision.status = .done ∧ decision.undo = false) ∨
      (¬ Met goal pass ∧ blocked pass.report ≠ none ∧ decision.status = .blocked ∧ decision.undo = false) ∨
      (¬ Met goal pass ∧ blocked pass.report = none ∧ decision.status ≠ .done ∧
        (decision.undo = true ↔ progress goal pass.now pass.report = .worse ∧ goal.keepBest = true)) := by
  have hmet : ((unmet goal (planOf goal pass.report) pass.now).isEmpty && judgedDone goal pass.report) = true ↔
      Met goal pass := by
    rw [Bool.and_eq_true, List.isEmpty_iff, Met]
  by_cases h : ((unmet goal (planOf goal pass.report) pass.now).isEmpty && judgedDone goal pass.report) = true
  · simp only [decide, if_pos h]
    exact .inl ⟨hmet.mp h, trivial, trivial⟩
  · have hnot : ¬ Met goal pass := fun hm => h (hmet.mpr hm)
    simp only [decide, if_neg h]
    cases hblocked : blocked pass.report with
    | some what => exact .inr (.inl ⟨hnot, by simp, rfl, rfl⟩)
    | none =>
      refine .inr (.inr ⟨hnot, rfl, ?_⟩)
      generalize (if progress goal pass.now pass.report = .better then 0 else (goal.stalled + 1) % 2 ^ 32) = stalled
      have hundo : (Decidable.decide (progress goal pass.now pass.report = .worse) && goal.keepBest) = true ↔
          progress goal pass.now pass.report = .worse ∧ goal.keepBest = true := by simp
      dsimp only
      split
      · exact ⟨by simp, hundo⟩
      · split
        · exact ⟨by simp, hundo⟩
        · split
          · rename_i hworse
            exact ⟨by simp, iff_of_true rfl (hundo.mp hworse)⟩
          · rename_i hworse
            exact ⟨by simp, iff_of_false (by simp) fun hboth => hworse (hundo.mpr hboth)⟩

theorem post_last : (machine.step goal pass).1.last =
    if (decide goal pass.now pass.report).undo then goal.last else some pass.now := rfl

omit [CharTables] in
theorem progress_of_last {before : Measurement} (h : goal.last = some before) :
    progress goal pass.now pass.report = judge goal before pass.now pass.report := by
  simp [progress, Goal.accepted, h]

theorem sound_iff (goal : Goal) (pass : Pass) : Sound (machine.stepAt goal pass) ↔ ¬ Misled goal pass := by
  have hcases := decide_cases goal pass
  dsimp only at hcases
  constructor
  · rintro ⟨hdone, hbest⟩ (⟨hmet, name, hname, hoverlooked⟩ | ⟨hkeep, hends, before, hlast, hne, hworse⟩)
    · rcases hcases with ⟨-, hstatus, -⟩ | ⟨hnot, -⟩ | ⟨hnot, -⟩
      · obtain ⟨-, hevidence⟩ := hdone hstatus
        exact (passes_iff ((unmet_eq_nil hmet.1).2 name hname)).mp (hevidence.checks name hname) hoverlooked
      · exact hnot hmet
      · exact hnot hmet
    · have hkept : (decide goal pass.now pass.report).undo = false := by
        rcases hcases with ⟨-, -, hundo⟩ | ⟨-, -, -, hundo⟩ | ⟨hnot, hgoes, -⟩
        · exact hundo
        · exact hundo
        · exact absurd hends (not_or.mpr ⟨hnot, not_not.mpr hgoes⟩)
      refine hbest hkeep ?_ before hlast hworse
      show (machine.step goal pass).1.last ≠ goal.last
      rw [post_last, hkept, hlast]
      simpa using hne
  · intro hnot
    dsimp only [Machine.stepAt]
    refine ⟨fun hstatus => ?_, fun hkeep hreplaced before hlast hworse => ?_⟩
    · rcases hcases with ⟨hmet, -, hundo⟩ | ⟨-, -, hblocked, -⟩ | ⟨-, -, hother, -⟩
      · obtain ⟨hholds, hchecks⟩ := unmet_eq_nil hmet.1
        refine ⟨?_, ⟨fun name hname => ?_, hholds, fun hwords => ?_⟩⟩
        · rw [post_last, hundo]
          rfl
        · exact (passes_iff (hchecks name hname)).mpr fun hoverlooked => hnot (.inl ⟨hmet, name, hname, hoverlooked⟩)
        · have hjudged := hmet.2
          simpa [judgedDone, hwords] using hjudged
      · exact absurd (hblocked.symm.trans hstatus) (by decide)
      · exact absurd hstatus hother
    · have hnew : (decide goal pass.now pass.report).undo = false ∧ pass.now ≠ before := by
        rw [post_last, hlast] at hreplaced
        cases hundo : (decide goal pass.now pass.report).undo with
        | true => simp [hundo] at hreplaced
        | false => exact ⟨rfl, by simpa [hundo] using hreplaced⟩
      rcases hcases with ⟨hmet, -, -⟩ | ⟨-, hblocked, -, -⟩ | ⟨-, -, -, hundo⟩
      · exact hnot (.inr ⟨hkeep, .inl hmet, before, hlast, hnew.2, hworse⟩)
      · exact hnot (.inr ⟨hkeep, .inr hblocked, before, hlast, hnew.2, hworse⟩)
      · have hsaid := hundo.mpr ⟨(progress_of_last hlast).trans hworse, hkeep⟩
        rw [hnew.1] at hsaid
        cases hsaid

/-- In every run, each pass ends the goal only on evidence and leaves the best measurement in place, exactly if no
    pass is misled. -/
theorem sound_run_iff (goal : Goal) (passes : List Pass) :
    (∀ step ∈ machine.trace goal passes, Sound step) ↔
      ∀ step ∈ machine.trace goal passes, ¬ Misled step.pre step.input := by
  refine forall₂_congr fun step hstep => ?_
  have hstart : machine.Reachable (fun _ => True) goal := .start trivial
  have hat := (hstart.mem_trace hstep).2
  rw [hat]
  exact sound_iff step.pre step.input

end

namespace Endings

scoped instance display : F64Display := ⟨fun score => toString score⟩

scoped instance nearestF64 : ScoreRounding := ⟨roundF64⟩

scoped instance charTables : CharTables := ⟨Char.isAlphanum, fun c => [c.toLower]⟩

def goal : Goal where
  instruction := "Make run.ts healthy"
  targets := { maxSeverity := some .high, checks := ["test"] }
  updatedAt := "t0"
  last := some { files := [⟨"src/run.ts", some 9, []⟩], checks := [⟨"test", true, true, ""⟩], fingerprint := "a" }

def unrun : Pass :=
  ⟨{ files := [⟨"src/run.ts", some 9, []⟩], checks := [⟨"test", true, false, ""⟩] }, {}, "t1"⟩

def givenUp : Pass :=
  ⟨{ files := [⟨"src/run.ts", some 9, []⟩], checks := [⟨"test", false, true, "1 failed"⟩] },
    { agentStatus := some "blocked" }, "t1"⟩

theorem ended_without_evidence :
    ((machine.step goal unrun).1.status = .done ∧ ¬ Sound (machine.stepAt goal unrun)) ∧
      (machine.step goal givenUp).1.last = some givenUp.now ∧
        (∀ before, goal.last = some before → judge goal before givenUp.now givenUp.report = .worse) ∧
        ¬ Sound (machine.stepAt goal givenUp) := by
  have hdone : (machine.step goal unrun).1.status = .done := by decide
  have hlast : (machine.step goal givenUp).1.last = some givenUp.now := by decide
  have hworse : ∀ before, goal.last = some before → judge goal before givenUp.now givenUp.report = .worse := by
    rintro before ⟨⟩
    decide
  refine ⟨⟨hdone, fun hsound => ?_⟩, hlast, hworse, fun hsound => ?_⟩
  · have hpasses := (hsound.done hdone).2.checks "test" (by decide)
    exact absurd (hpasses.2 ⟨"test", true, false, ""⟩ (by decide) rfl).1 (by decide)
  · refine hsound.best rfl ?_ _ rfl (hworse _ rfl)
    show (machine.step goal givenUp).1.last ≠ goal.last
    rw [hlast]
    decide

end Endings

end RustyCore.Goals
