import RustyCore.Theorems.Verifying

/-! The completion gate. A run that reports a passed gate has had every check that is not waived pass, except
    when failing checks that are waived keep the evaluators from running, and when verdicts on an earlier
    answer are taken for verdicts on the one the agent waits for. -/

namespace RustyCore

open List

structure CompletionGate.WellFormed (gate : CompletionGate) : Prop where
  ids : (gate.checks.map (·.id)).Nodup
  bodies : ∀ check ∈ gate.checks, check.require = none ↔ check.evaluator ≠ none

theorem CompletionGate.WellFormed.eq_of_id {gate : CompletionGate} (h : gate.WellFormed) {check other : GateCheck}
    (hcheck : check ∈ gate.checks) (hother : other ∈ gate.checks) (hid : check.id = other.id) : check = other :=
  inj_on_of_nodup_map h.ids hcheck hother hid

namespace Compiler

theorem checkId_nil {seen : List String} {id path empty code message : String}
    (h : checkId seen id path empty code message = []) : Text.isBlank id = false ∧ id ∉ seen := by
  unfold checkId at h
  split at h
  · simp [issue] at h
  · rename_i hblank
    simp only [reject, ite_eq_right_iff] at h
    refine ⟨by simpa using hblank, fun hseen => ?_⟩
    simpa [issue] using h (contains_iff_mem.mpr hseen)

theorem checkCheckBody_nil {check : GateCheck} {path : String} (h : checkCheckBody check path = []) :
    check.require = none ↔ check.evaluator ≠ none := by
  unfold checkCheckBody at h
  split at h
  · rename_i hrequire hevaluator
    simp [hrequire, hevaluator]
  · rename_i hrequire hevaluator
    simp [hrequire, hevaluator]
  · simp [issue] at h

theorem checkChecks_nil {seen : List String} {index : Nat} {checks : List GateCheck}
    (h : checkChecks seen index checks = []) :
    (checks.map (·.id)).Nodup ∧ (∀ check ∈ checks, check.id ∉ seen) ∧
      ∀ check ∈ checks, check.require = none ↔ check.evaluator ≠ none := by
  induction checks generalizing seen index with
  | nil => simp
  | cons check rest ih =>
    simp only [checkChecks, append_eq_nil_iff] at h
    obtain ⟨⟨hid, hbody⟩, hrest⟩ := h
    obtain ⟨hblank, hseen⟩ := checkId_nil hid
    rw [nextSeen, if_neg (by simp [hblank])] at hrest
    obtain ⟨hnodup, hunseen, hbodies⟩ := ih hrest
    refine ⟨?_, ?_, ?_⟩
    · rw [map_cons, nodup_cons, mem_map]
      refine ⟨?_, hnodup⟩
      rintro ⟨other, hother, hsame⟩
      exact hunseen other hother (hsame ▸ mem_cons_self)
    · rw [forall_mem_cons]
      exact ⟨hseen, fun other hother hmem => hunseen other hother (mem_cons_of_mem _ hmem)⟩
    · rw [forall_mem_cons]
      exact ⟨checkCheckBody_nil hbody, hbodies⟩

end Compiler

section

variable [Externals]

theorem CompiledProfile.gate_wellFormed (p : CompiledProfile) {gate : CompletionGate}
    (h : p.profile.completionGate = some gate) : gate.WellFormed := by
  have hvalid := p.valid
  simp only [Compiler.issues, Compiler.checkRulesAndChildren, append_eq_nil_iff, h, Compiler.checkGate] at hvalid
  obtain ⟨hids, -, hbodies⟩ := Compiler.checkChecks_nil hvalid.2.1.2.2
  exact ⟨hids, hbodies⟩

def ReportsPass (es : List AgentEffect) : Prop := ∃ result ∈ runResults es, result.gatePassed = some true

def evaluatorFailures (gate : CompletionGate) (verdicts : List CheckVerdict) : List CheckFailure :=
  (gate.checks.filter (·.evaluator.isSome)).filterMap fun check => evaluatorFailure check (verdictFor verdicts check)

variable {es : List AgentEffect}

omit [Externals] in
theorem not_reportsPass_of_none (h : ∀ result ∈ runResults es, result.gatePassed = none) :
    ¬ ReportsPass es := by
  rintro ⟨result, hresult, hpassed⟩
  rw [h result hresult] at hpassed
  cases hpassed

theorem Fails.gatePassed {a b : Agent} (h : Fails a es b) :
    ∀ result ∈ runResults es, result.gatePassed = none := by
  obtain ⟨result, hresult, hnone⟩ := h.runResults_eq
  rw [hresult]
  intro other hother
  rw [mem_singleton.mp hother]
  exact hnone

theorem Moves.gatePassed {a b : Agent} (h : Moves a es b) :
    ∀ result ∈ runResults es, result.gatePassed = none := by
  cases h with
  | quiet h => simp [h.notices.runResults_eq]
  | fail h => exact h.gatePassed
  | request h => simp [h.notices.runResults_eq]

namespace Agent

def exhausted (a : Agent) (gate : CompletionGate) : Bool :=
  !(decide (a.state.behavior.run.gateContinuations < gate.maxContinuations) && !a.state.behavior.run.finalTurn)

theorem gateStep_accept_iff (a : Agent) (gate : CompletionGate) (failedChecks : List String) :
    a.gateStep gate failedChecks = .accept ↔ failedChecks = [] ∨ a.exhausted gate = true ∧
      ∀ id ∈ failedChecks, ∃ check ∈ gate.checks, check.id = id ∧ check.waiveWhenExhausted = true := by
  unfold gateStep exhausted
  dsimp only
  split
  · rename_i hempty
    simp [isEmpty_iff.mp hempty]
  · rename_i hempty
    rw [List.isEmpty_iff] at hempty
    split
    · rename_i hcontinues
      simp [hcontinues, hempty]
    · rename_i hcontinues
      rw [Bool.not_eq_true] at hcontinues
      split
      · rename_i hwaived
        simpa [hempty, hcontinues] using hwaived
      · rename_i hwaived
        simpa [hempty, hcontinues] using hwaived

theorem not_failed_of_accept {a : Agent} {gate : CompletionGate} {failedChecks : List String} {check : GateCheck}
    (hgate : gate.WellFormed) (haccept : a.gateStep gate failedChecks = .accept) (hcheck : check ∈ gate.checks)
    (hstrict : check.waiveWhenExhausted = false) : check.id ∉ failedChecks := by
  intro hfailed
  rcases (a.gateStep_accept_iff gate failedChecks).mp haccept with hnone | ⟨-, hwaived⟩
  · rw [hnone] at hfailed
    cases hfailed
  · obtain ⟨other, hother, hid, hwaives⟩ := hwaived check.id hfailed
    rw [hgate.eq_of_id hother hcheck hid, hstrict] at hwaives
    cases hwaives

theorem mem_failedDeclarativeChecks {a : Agent} {gate : CompletionGate} {id : String} :
    id ∈ (a.failedDeclarativeChecks gate).map (·.1) ↔ ∃ check ∈ gate.checks, check.id = id ∧
      ∃ condition, check.require = some condition ∧ a.state.behavior.conditionHolds condition = false := by
  simp only [failedDeclarativeChecks, mem_map, mem_filterMap]
  constructor
  · rintro ⟨failure, ⟨check, hcheck, hfails⟩, rfl⟩
    split at hfails
    · cases hfails
    · rename_i condition hrequire
      split at hfails
      · cases hfails
      · rename_i hholds
        cases hfails
        exact ⟨check, hcheck, rfl, condition, hrequire, by simpa using hholds⟩
  · rintro ⟨check, hcheck, rfl, condition, hrequire, hholds⟩
    exact ⟨(check.id, check.feedback.getD ""), ⟨check, hcheck, by simp [hrequire, hholds]⟩, rfl⟩

theorem reportsPass_finishSuccess (a : Agent) (summary : String) (passed : Option Bool) :
    ReportsPass (a.finishSuccess summary passed).2 ↔ passed = some true := by
  obtain ⟨result, hresult, hpassed⟩ := a.runResults_finishSuccess summary passed
  simp [ReportsPass, hresult, hpassed]

theorem reportsPass_gateDecided (a : Agent) (runId : RunId) (failures : List CheckFailure) (summary : String) :
    ReportsPass (a.gateDecided runId failures summary).2 ↔
      ∃ gate, a.gate = some gate ∧ a.gateStep gate (failures.map (·.1)) = .accept := by
  unfold gateDecided gate
  dsimp only
  split
  · rename_i hgate
    simp [reportsPass_finishSuccess, hgate]
  · rename_i gate hgate
    have hnotice : ∀ es, ReportsPass ((a.gateEvaluated (a.gateStep gate (failures.map (·.1)))
        (failures.map (·.1))) :: es) ↔ ReportsPass es := fun _ => Iff.rfl
    simp only [andThen, cons_append, nil_append, hnotice]
    cases hstep : a.gateStep gate (failures.map (·.1)) with
    | accept => simp [reportsPass_finishSuccess, hgate, hstep]
    | exhausted =>
      have hnone : ¬ ReportsPass (a.endExhaustedGate gate (failures.map (·.1)) summary).2 := by
        unfold endExhaustedGate
        split
        · simp [reportsPass_finishSuccess]
        · exact not_reportsPass_of_none (Fails.now _ _ _).gatePassed
      simpa [hgate, hstep] using hnone
    | sendBack =>
      have hnone : ¬ ReportsPass (a.sendAnswerBack runId a.state.behavior.profile.reference failures).2 := by
        unfold sendAnswerBack
        dsimp only
        split
        · rename_i b failure hb
          exact not_reportsPass_of_none (beginTurn_error hb).1.gatePassed
        · rename_i b effects hb
          refine not_reportsPass_of_none ?_
          rw [runResults_append, (beginTurn_ok hb).notices.runResults_eq]
          intro result hresult
          cases hresult
      simpa [hgate, hstep] using hnone

theorem reportsPass_of_proposed {a m : Agent} {c : AgentCommand} (h : a.proposed c = some m) :
    ReportsPass (a.apply c).2 ↔ ∃ gate, m.gate = some gate ∧
      (m.failedDeclarativeChecks gate ≠ [] ∨ ∀ check ∈ gate.checks, check.evaluator = none) ∧
      m.gateStep gate ((m.failedDeclarativeChecks gate).map (·.1)) = .accept := by
  cases hgate : m.gate with
  | none =>
    obtain ⟨runId, summary, result, rfl, -, -, -, happly⟩ := proposed_spec h
    have hgate' : (a.landed result).state.behavior.profile.profile.completionGate = none := hgate
    rw [happly, proposeCompletion, hgate']
    simp [reportsPass_finishSuccess]
  | some gate =>
    obtain ⟨runId, summary, -, happly⟩ := apply_of_proposed h hgate
    rw [happly]
    split
    · rename_i hdecided
      have hwhen : m.failedDeclarativeChecks gate ≠ [] ∨ ∀ check ∈ gate.checks, check.evaluator = none := by
        simpa [isEmpty_eq_false_iff] using hdecided
      simp [reportsPass_gateDecided, hgate, hwhen]
    · rename_i hverify
      have hwhen : ¬ (m.failedDeclarativeChecks gate ≠ [] ∨ ∀ check ∈ gate.checks, check.evaluator = none) := by
        simpa [isEmpty_eq_false_iff] using hverify
      have hnone : ¬ ReportsPass (m.startVerifying runId gate (evaluatorSpecs gate.checks).1).2 :=
        not_reportsPass_of_none (fun result hresult => by cases hresult)
      simp [hnone, hwhen]

theorem reportsPass_completionEvaluated (a : Agent) (runId : RunId) (attempt : Nat) (verdicts : List CheckVerdict)
    (usage : List UsageRecord) :
    ReportsPass (a.completionEvaluated runId attempt verdicts usage).2 ↔
      a.state.status = .verifying ∧ a.state.activeRun = some runId ∧ a.state.behavior.run.gateAttempts = attempt ∧
        ∃ gate, a.gate = some gate ∧ a.gateStep gate ((evaluatorFailures gate verdicts).map (·.1)) = .accept := by
  unfold completionEvaluated
  dsimp only
  generalize hcounted : (if usage.isEmpty = true then (a, []) else _ : Agent × List AgentEffect) = counted
  have hquiet : runResults counted.2 = [] ∧ counted.1.state.behavior = a.state.behavior := by
    split at hcounted
    · rw [← hcounted]
      exact ⟨rfl, rfl⟩
    · rw [← hcounted]
      exact ⟨rfl, rfl⟩
  have hnone : ¬ ReportsPass counted.2 := not_reportsPass_of_none (by simp [hquiet.1])
  split
  · rename_i hstale
    simp only [hnone, false_iff]
    rintro ⟨hstatus, hrun, hattempt, -⟩
    rcases hstale with hstale | hstale | hstale
    · exact hstale hstatus
    · exact hstale hrun
    · exact hstale hattempt
  · rename_i hexpected
    simp only [not_or, ne_eq, not_not] at hexpected
    split
    · rename_i hgate
      simp [ReportsPass, runResults, gate, hgate]
    · rename_i gate' hgate
      have hreports : ∀ r : Agent × List AgentEffect, ReportsPass (counted.2 ++ r.2) ↔ ReportsPass r.2 := by
        intro r
        simp only [ReportsPass, runResults_append, hquiet.1, nil_append]
      have hgate' : a.gate = some gate' := hgate
      have hcountedGate : counted.1.gate = some gate' := by rw [gate, hquiet.2, hgate]
      have hcountedStep : ∀ failedChecks, counted.1.gateStep gate' failedChecks = a.gateStep gate' failedChecks := by
        intro failedChecks
        simp only [gateStep, hquiet.2]
      simp [andThen, hreports, reportsPass_gateDecided, hcountedGate, hcountedStep, hexpected, hgate',
        evaluatorFailures]

end Agent

theorem Transition.gatePassed_cases {a b : Agent} {c : AgentCommand}
    (h : Transition a c es b) : (∀ result ∈ runResults es, result.gatePassed = none) ∨
      (∃ runId requestId result, c = .backendEvent runId (.completed requestId result) ∧
        a.state.activeRun = some runId) ∨
      ∃ runId attempt verdicts usage, c = .completionEvaluated runId attempt verdicts usage := by
  have hempty : runResults es = [] → ∀ result ∈ runResults es, result.gatePassed = none := by
    intro hnil
    simp [hnil]
  cases h with
  | quiet h => exact .inl (hempty h.notices.runResults_eq)
  | queue | drop | approve | pause | reissue | wake => exact .inl (hempty rfl)
  | reject hstart hinvalid h => exact .inl h.gatePassed
  | @stop _ m _ _ _ hstart hvalid hstop h =>
    refine .inl ?_
    rw [runResults_append, forall_mem_append]
    exact ⟨m.moves_takePendingSwitch.gatePassed, h.gatePassed⟩
  | @start _ m _ _ _ hstart hvalid hgo h =>
    refine .inl ?_
    rw [runResults_append, forall_mem_append, runResults_append, h.notices.runResults_eq]
    exact ⟨m.moves_takePendingSwitch.gatePassed, fun result hresult => by cases hresult⟩
  | stream hrun hevent hkept hturns | children hchild hto hkept hturns => exact .inl (hempty hturns.results)
  | @refuse _ _ call _ _ hrun h =>
    generalize a.stopsRequest call = stops at h
    cases h with
    | denied h => exact .inl h.moves.gatePassed
    | stopped h code message =>
      refine .inl ?_
      rw [runResults_append, forall_mem_append]
      exact ⟨h.moves.gatePassed, (Fails.now _ _ _).gatePassed⟩
  | execute hrun hadmitted hnotices | ask hrun hadmitted hnotices =>
    refine .inl (hempty ?_)
    rw [runResults_append, hnotices.runResults_eq]
    rfl
  | cutOff hrun | toolUse hrun | propose hrun => exact .inr (.inl ⟨_, _, _, rfl, hrun⟩)
  | error hrun h => exact .inl h.gatePassed
  | outcome houtcome hpending hgo h | deny hasked hpending h => exact .inl h.moves.gatePassed
  | halt houtcome hpending hends h => exact .inl h.gatePassed
  | cancel => exact .inl (hempty a.runResults_cancel)
  | evaluated => exact .inr (.inr ⟨_, _, _, _, rfl⟩)

namespace Agent

variable {c : AgentCommand}

theorem reportsPass_cases {a : Agent} (h : ReportsPass (a.apply c).2) :
    (∃ m, a.proposed c = some m) ∨
      ∃ runId attempt verdicts usage, c = .completionEvaluated runId attempt verdicts usage := by
  rcases (a.apply_transition c).gatePassed_cases with hnone | ⟨runId, requestId, result, rfl, hrun⟩ | hevaluated
  · exact absurd h (not_reportsPass_of_none hnone)
  · cases hproposes : result.proposes with
    | true => exact .inl ⟨(a.landed result).noteGateAttempt, by simp [proposed, hrun, hproposes]⟩
    | false =>
      -- the answer was cut off, or the turn ended with tool calls
      refine absurd h ?_
      simp only [apply, backendEvent, hrun, ne_eq, not_true, if_false, handleBackendEvent]
      unfold completed
      dsimp only
      split
      · exact not_reportsPass_of_none (Fails.now _ _ _).gatePassed
      · rename_i hlimit
        split
        · exact not_reportsPass_of_none (goes_continueAfterTools _).moves.gatePassed
        · rename_i htool
          simp only [ExecutionResult.proposes, Bool.and_eq_false_iff, Bool.not_eq_false', bne_eq_false_iff_eq] at hproposes
          rcases hproposes with hproposes | hproposes
          · exact absurd hproposes hlimit
          · exact absurd hproposes htool
  · exact .inr hevaluated

/-- The evaluator of a check let the answer pass: with a pass, or with an error that the check's policy lets
    pass. A check without a verdict counts as one whose evaluator failed. -/
def EvaluatorPassed (verdicts : List CheckVerdict) (check : GateCheck) : Prop :=
  verdictFor verdicts check = .pass ∨
    check.errorPolicy = .pass ∧ ∃ message, verdictFor verdicts check = .error message

/-- A check passed on the answer proposed in `m` that the command `c` accepts: its condition held when the
    answer was proposed, or `c` brings a verdict that lets it pass. -/
inductive Passed (m : Agent) (c : AgentCommand) (check : GateCheck) : Prop
  | required {condition : Condition} (hrequire : check.require = some condition)
      (hholds : m.state.behavior.conditionHolds condition = true)
  | evaluated {evaluator : EvaluatorSpec} {runId : RunId} {attempt : Nat} {verdicts : List CheckVerdict}
      {usage : List UsageRecord} (hevaluator : check.evaluator = some evaluator)
      (hinput : c = .completionEvaluated runId attempt verdicts usage) (hpassed : EvaluatorPassed verdicts check)

/-- The evaluations asked for in `past` under a run and an attempt. -/
def evaluationsFor (past : List Step) (runId : RunId) (attempt : Nat) : List CompletionEvaluationRequest :=
  (past.flatMap fun st => evaluations st.out).filter fun request =>
    decide (request.runId = runId) && decide (request.attempt = attempt)

/-- The answer the step `st` decides about was proposed in `m`: by the step itself, or by the one that asked
    for the evaluation whose verdicts the step brings, and that no other evaluation can be mistaken for. -/
def Answers (past : List Step) (st : Step) (m : Agent) : Prop :=
  st.pre.proposed st.input = some m ∨
    ∃ runId attempt verdicts usage request, st.input = .completionEvaluated runId attempt verdicts usage ∧
      evaluationsFor past runId attempt = [request] ∧
      ∃ p ∈ past, request ∈ evaluations p.out ∧ p.pre.proposed p.input = some m

/-- If the step finishes the run as passed by the gate, every check of the gate that is not waived passed on
    the answer it accepts. -/
def GateSound (past : List Step) (st : Step) : Prop :=
  ReportsPass st.out → ∃ m gate, Answers past st m ∧ m.state.behavior.profile = st.pre.state.behavior.profile ∧
    m.gate = some gate ∧ ∀ check ∈ gate.checks, check.waiveWhenExhausted = false → Passed m st.input check

/-- The command proposes an answer that fails declarative checks, all of them waived, when the answer may not
    be sent back any more, under a gate with an evaluator that is not waived: the evaluator does not run. -/
def SkipsEvaluators (a : Agent) (c : AgentCommand) : Prop :=
  ∃ m gate, a.proposed c = some m ∧ m.gate = some gate ∧ m.exhausted gate = true ∧
    m.failedDeclarativeChecks gate ≠ [] ∧
    (∀ check ∈ gate.checks, ∀ condition, check.require = some condition →
      m.state.behavior.conditionHolds condition = false → check.waiveWhenExhausted = true) ∧
    ∃ check ∈ gate.checks, check.evaluator ≠ none ∧ check.waiveWhenExhausted = false

/-- The step brings verdicts the gate accepts, under the run and the attempt the agent waits for, and these
    were given to more than one evaluation: the attempts of a run count anew when its profile changes. -/
def TakesSuperseded (past : List Step) (st : Step) : Prop :=
  ∃ runId attempt verdicts usage gate, st.input = .completionEvaluated runId attempt verdicts usage ∧
    st.pre.state.status = .verifying ∧ st.pre.state.activeRun = some runId ∧
    st.pre.state.behavior.run.gateAttempts = attempt ∧ st.pre.gate = some gate ∧
    st.pre.gateStep gate ((evaluatorFailures gate verdicts).map (·.1)) = .accept ∧
    2 ≤ (evaluationsFor past runId attempt).length

variable {verdicts : List CheckVerdict}

omit [Externals] in
theorem evaluatorFailure_eq_none {check : GateCheck} :
    evaluatorFailure check (verdictFor verdicts check) = none ↔ EvaluatorPassed verdicts check := by
  unfold EvaluatorPassed evaluatorFailure
  cases verdictFor verdicts check with
  | pass | fail => simp
  | error message => by_cases hpolicy : check.errorPolicy = .pass <;> simp [hpolicy]

variable {gate : CompletionGate}

omit [Externals] in
theorem mem_evaluatorFailures {check : GateCheck}
    (hcheck : check ∈ gate.checks) (hevaluator : check.evaluator ≠ none) (hfailed : ¬ EvaluatorPassed verdicts check) :
    check.id ∈ (evaluatorFailures gate verdicts).map (·.1) := by
  rw [← evaluatorFailure_eq_none] at hfailed
  obtain ⟨failure, hfailure⟩ := Option.ne_none_iff_exists'.mp hfailed
  have hid : failure.1 = check.id := by
    unfold evaluatorFailure at hfailure
    split at hfailure
    · cases hfailure
    · cases hfailure
      rfl
    · split at hfailure
      · cases hfailure
      · cases hfailure
        rfl
  rw [← hid]
  refine mem_map_of_mem (mem_filterMap.mpr ⟨check, mem_filter.mpr ⟨hcheck, ?_⟩, hfailure⟩)
  exact Option.isSome_iff_ne_none.mpr hevaluator

theorem passed_of_proposed {a m : Agent} (h : a.proposed c = some m)
    (hgate : m.gate = some gate)
    (hwhen : m.failedDeclarativeChecks gate ≠ [] ∨ ∀ check ∈ gate.checks, check.evaluator = none)
    (haccept : m.gateStep gate ((m.failedDeclarativeChecks gate).map (·.1)) = .accept)
    (hskips : ¬ a.SkipsEvaluators c) :
    ∀ check ∈ gate.checks, check.waiveWhenExhausted = false → Passed m c check := by
  have hwell : gate.WellFormed := CompiledProfile.gate_wellFormed _ hgate
  intro check hcheck hstrict
  have hunfailed : ∀ other ∈ gate.checks, other.waiveWhenExhausted = false → ∀ condition,
      other.require = some condition → m.state.behavior.conditionHolds condition = true := by
    intro other hother hotherStrict condition hrequire
    by_contra hfails
    exact not_failed_of_accept hwell haccept hother hotherStrict
      (mem_failedDeclarativeChecks.mpr ⟨other, hother, rfl, condition, hrequire, by simpa using hfails⟩)
  cases hrequire : check.require with
  | some condition => exact .required hrequire (hunfailed check hcheck hstrict condition hrequire)
  | none =>
    have hevaluator := (hwell.bodies check hcheck).mp hrequire
    rcases hwhen with hfailed | hnone
    · refine absurd ⟨m, gate, h, hgate, ?_, hfailed, ?_, check, hcheck, hevaluator, hstrict⟩ hskips
      · rcases (m.gateStep_accept_iff gate _).mp haccept with hnil | ⟨hexhausted, -⟩
        · exact absurd (map_eq_nil_iff.mp hnil) hfailed
        · exact hexhausted
      · intro other hother condition hrequire' hfails
        by_contra hotherStrict
        rw [hunfailed other hother (by simpa using hotherStrict) condition hrequire'] at hfails
        cases hfails
    · exact absurd (hnone check hcheck) hevaluator

theorem reportsPass_of_skipsEvaluators {a m : Agent}
    (h : a.proposed c = some m) (hgate : m.gate = some gate) (hexhausted : m.exhausted gate = true)
    (hfailed : m.failedDeclarativeChecks gate ≠ [])
    (hwaived : ∀ check ∈ gate.checks, ∀ condition, check.require = some condition →
      m.state.behavior.conditionHolds condition = false → check.waiveWhenExhausted = true) :
    ReportsPass (a.apply c).2 := by
  refine (reportsPass_of_proposed h).mpr ⟨gate, hgate, .inl hfailed, ?_⟩
  refine (m.gateStep_accept_iff gate _).mpr (.inr ⟨hexhausted, ?_⟩)
  intro id hid
  obtain ⟨check, hcheck, hcheckId, condition, hrequire, hfails⟩ := mem_failedDeclarativeChecks.mp hid
  exact ⟨check, hcheck, hcheckId, hwaived check hcheck condition hrequire hfails⟩

/-- While an agent waits for verdicts, `past` has the step that proposed the answer: the active profile is
    the one it was proposed under, its declarative checks held, and the evaluation it asked for is the one
    the agent waits for. -/
def Verified (past : List Step) (a : Agent) : Prop :=
  a.state.status = .verifying → ∃ runId request m gate, a.state.activeRun = some runId ∧
    request.runId = runId ∧ request.attempt = a.state.behavior.run.gateAttempts ∧
    m.gate = some gate ∧ m.state.behavior.profile = a.state.behavior.profile ∧
    m.failedDeclarativeChecks gate = [] ∧
    ∃ p ∈ past, request ∈ evaluations p.out ∧ p.pre.proposed p.input = some m

theorem Verified.fresh {a : Agent} (h : a.Fresh) : Verified [] a := by
  obtain ⟨id, sessionId, parentId, depth, systemPrompt, capabilities, profile, library, trusted, params, rfl⟩ := h
  intro hverifying
  cases hverifying

theorem Verified.step {past : List Step} {a : Agent} {c : AgentCommand} (h : Verified past a) :
    Verified (past ++ [machine.stepAt a c]) (machine.step a c).1 := by
  have hrun : a.state.status = .verifying → a.state.activeRun ≠ none := by
    intro hverifying
    obtain ⟨runId, -, -, -, hrun, -⟩ := h hverifying
    simp [hrun]
  rcases waits_apply c hrun with hwaits | ⟨m, gate, runId, hproposed, hgate, hfailed, hactive, happly⟩
  · intro hverifying
    obtain ⟨hbefore, hsameRun, hsteady⟩ := hwaits hverifying
    obtain ⟨runId, request, m, gate, hactive, hrunId, hattempt, hgate, hprofile, hfailed, p, hp, hrest⟩ := h hbefore
    exact ⟨runId, request, m, gate, hsameRun.trans hactive, hrunId, hattempt.trans hsteady.gateAttempts.symm, hgate,
      hprofile.trans hsteady.profile.symm, hfailed, p, mem_append_left _ hp, hrest⟩
  · intro hverifying
    have hnext : (machine.step a c).1 = m.withStatus .verifying := congrArg Prod.fst happly
    have hout : (machine.stepAt a c).out = (m.startVerifying runId gate (evaluatorSpecs gate.checks).1).2 :=
      congrArg Prod.snd happly
    rw [hnext]
    refine ⟨runId, ⟨runId, m.state.behavior.run.gateAttempts, (evaluatorSpecs gate.checks).1, m.finalResponseText,
      m.transcriptTail (longestTranscriptNeeded gate)⟩, m, gate, hactive, rfl, rfl, hgate, rfl, hfailed,
      machine.stepAt a c, mem_append_right _ mem_cons_self, ?_, hproposed⟩
    rw [hout]
    exact mem_cons_self

theorem mem_evaluationsFor {past : List Step} {p : Step} {request : CompletionEvaluationRequest} (hp : p ∈ past)
    (hrequest : request ∈ evaluations p.out) : request ∈ evaluationsFor past request.runId request.attempt := by
  refine mem_filter.mpr ⟨mem_flatMap.mpr ⟨p, hp, hrequest⟩, ?_⟩
  simp

theorem Verified.sound {past : List Step} {a : Agent} {runId : RunId} {attempt : Nat}
    {usage : List UsageRecord} (h : Verified past a)
    (hreports : ReportsPass (a.completionEvaluated runId attempt verdicts usage).2)
    (hgood : ¬ TakesSuperseded past (machine.stepAt a (.completionEvaluated runId attempt verdicts usage))) :
    ∃ m gate, Answers past (machine.stepAt a (.completionEvaluated runId attempt verdicts usage)) m ∧
      m.state.behavior.profile = a.state.behavior.profile ∧ m.gate = some gate ∧
      ∀ check ∈ gate.checks, check.waiveWhenExhausted = false →
        Passed m (.completionEvaluated runId attempt verdicts usage) check := by
  obtain ⟨hstatus, hrun, hattempt, gate, hgate, haccept⟩ :=
    (a.reportsPass_completionEvaluated runId attempt verdicts usage).mp hreports
  obtain ⟨runId', request, m, gate', hrun', hrunId, hattempt', hgate', hprofile, hheld, p, hp, hrequest, hproposed⟩ :=
    h hstatus
  have hsame : gate' = gate := by
    have hactive : m.gate = a.gate := congrArg (fun profile => profile.profile.completionGate) hprofile
    exact Option.some.inj (hgate'.symm.trans (hactive.trans hgate))
  obtain rfl : runId' = runId := Option.some.inj (hrun'.symm.trans hrun)
  have hwell : gate.WellFormed := CompiledProfile.gate_wellFormed _ hgate
  have honly : evaluationsFor past runId' attempt = [request] := by
    have hmem : request ∈ evaluationsFor past runId' attempt := by
      have hmem := mem_evaluationsFor hp hrequest
      rwa [hrunId, hattempt', hattempt] at hmem
    have hone : (evaluationsFor past runId' attempt).length = 1 := by
      have hpos := length_pos_of_mem hmem
      by_contra hmany
      refine hgood ⟨runId', attempt, verdicts, usage, gate, rfl, hstatus, hrun, hattempt, hgate, haccept, ?_⟩
      omega
    obtain ⟨other, hother⟩ := length_eq_one_iff.mp hone
    rw [hother] at hmem ⊢
    rw [mem_singleton.mp hmem]
  refine ⟨m, gate, .inr ⟨runId', attempt, verdicts, usage, request, rfl, honly, p, hp, hrequest, hproposed⟩, hprofile,
    hsame ▸ hgate', ?_⟩
  intro check hcheck hstrict
  cases hrequire : check.require with
  | some condition =>
    refine .required hrequire ?_
    by_contra hfails
    have hfailed := mem_failedDeclarativeChecks.mpr
      ⟨check, hsame ▸ hcheck, rfl, condition, hrequire, Bool.not_eq_true _ ▸ hfails⟩
    rw [hheld] at hfailed
    cases hfailed
  | none =>
    have hevaluator := (hwell.bodies check hcheck).mp hrequire
    obtain ⟨evaluator, hsome⟩ := Option.ne_none_iff_exists'.mp hevaluator
    refine .evaluated hsome rfl ?_
    by_contra hfailed
    exact not_failed_of_accept hwell haccept hcheck hstrict (mem_evaluatorFailures hcheck hevaluator hfailed)

theorem Verified.sound_iff {past : List Step} {a : Agent} (h : Verified past a) :
    GateSound past (machine.stepAt a c) ↔
      ¬ (a.SkipsEvaluators c ∨ TakesSuperseded past (machine.stepAt a c)) := by
  constructor
  · rintro hsound (⟨m, gate, hproposed, hgate, hexhausted, hfailed, hwaived, check, hcheck, hevaluator, hstrict⟩ |
      ⟨runId, attempt, verdicts, usage, gate, hinput, hstatus, hrun, hattempt, hgate, haccept, htwo⟩)
    · obtain ⟨m', gate', hanswers, -, hgate', hpassed⟩ :=
        hsound (reportsPass_of_skipsEvaluators hproposed hgate hexhausted hfailed hwaived)
      rcases hanswers with hproposed' | ⟨runId, attempt, verdicts, usage, request, hinput, -⟩
      · obtain rfl : m = m' := Option.some.inj (hproposed.symm.trans hproposed')
        obtain rfl : gate = gate' := Option.some.inj (hgate.symm.trans hgate')
        cases hpassed check hcheck hstrict with
        | required hrequire hholds =>
          have hnone := ((CompiledProfile.gate_wellFormed _ hgate).bodies check hcheck).mpr hevaluator
          rw [hnone] at hrequire
          cases hrequire
        | evaluated _ hinput _ =>
          obtain rfl : c = _ := hinput
          cases hproposed
      · obtain rfl : c = _ := hinput
        cases hproposed
    · obtain rfl : c = _ := hinput
      have hreports : ReportsPass (a.completionEvaluated runId attempt verdicts usage).2 :=
        (a.reportsPass_completionEvaluated runId attempt verdicts usage).mpr ⟨hstatus, hrun, hattempt, gate, hgate, haccept⟩
      obtain ⟨m, gate', hanswers, -⟩ := hsound hreports
      rcases hanswers with hproposed | ⟨runId', attempt', verdicts', usage', request, hinput', honly, -⟩
      · cases hproposed
      · cases hinput'
        rw [honly] at htwo
        simp at htwo
  · intro hgood hreports
    rcases reportsPass_cases hreports with ⟨m, hproposed⟩ | ⟨runId, attempt, verdicts, usage, rfl⟩
    · obtain ⟨gate, hgate, hwhen, haccept⟩ := (reportsPass_of_proposed hproposed).mp hreports
      obtain ⟨-, -, -, -, -, -, hprofile, -⟩ := proposed_spec hproposed
      exact ⟨m, gate, .inl hproposed, hprofile, hgate,
        passed_of_proposed hproposed hgate hwhen haccept fun hskips => hgood (.inl hskips)⟩
    · exact h.sound hreports fun hsuperseded => hgood (.inr hsuperseded)

/-- In every run of an agent, a step that finishes a run as passed by the gate has had every check that is
    not waived pass on the answer it accepts, exactly when the step neither skips evaluators nor takes
    superseded verdicts. -/
theorem gate_sound_iff {a : Agent} (hfresh : a.Fresh) (cs : List AgentCommand) :
    ∀ before st after, machine.trace a cs = before ++ st :: after →
      (GateSound before st ↔ ¬ (st.pre.SkipsEvaluators st.input ∨ TakesSuperseded before st)) := by
  intro before st after htrace
  obtain ⟨hverified, hstep⟩ := Machine.history_invariant (fun past s i h => Verified.step h) (Verified.fresh hfresh)
    before st after htrace
  rw [hstep]
  exact hverified.sound_iff

end Agent

end

namespace Sample

def gatedDefinition : BehaviorProfile where
  schemaVersion := behaviorSchemaVersion
  id := "gated"
  revision := 1
  name := "Gated"
  completionGate := some {
    checks := [
      { id := "worked", require := some (.turn { gte := some 5 }), feedback := some "Keep working."
        waiveWhenExhausted := true },
      { id := "judged", evaluator := some (.tool "bash" (.object []) none) }]
    maxContinuations := 0 }

def gated : CompiledProfile := ⟨gatedDefinition, contentHash gatedDefinition, by decide, rfl⟩

def answer : AgentCommand := fromBackend (.completed ⟨0⟩ ⟨⟨0⟩, {}, {}, "end_turn"⟩)

end Sample

section

open Sample Agent

theorem gate_sound_iff_gated : (agent .allow gated).Fresh ∧ ∀ before st after,
    machine.trace (agent .allow gated) [prompt, answer] = before ++ st :: after →
      (GateSound before st ↔ ¬ (st.pre.SkipsEvaluators st.input ∨ TakesSuperseded before st)) :=
  ⟨fresh_agent .allow gated, gate_sound_iff (fresh_agent .allow gated) [prompt, answer]⟩

set_option maxRecDepth 4096 in
/-- The first answer fails the waived condition, and the run finishes as passed though the evaluator never
    ran. -/
theorem waived_check_skips_evaluator : (agent .allow gated).Fresh ∧ ∃ before st after,
    machine.trace (agent .allow gated) [prompt, answer] = before ++ st :: after ∧ ReportsPass st.out ∧
      ¬ GateSound before st := by
  refine ⟨fresh_agent .allow gated, [machine.stepAt (agent .allow gated) prompt],
    machine.stepAt (machine.step (agent .allow gated) prompt).1 answer, [], rfl, ?_, ?_⟩
  · unfold ReportsPass
    decide
  · intro hsound
    obtain ⟨m, gate, -, hprofile, hgate, hpassed⟩ := hsound (by unfold ReportsPass; decide)
    have hactive : m.gate = gatedDefinition.completionGate :=
      congrArg (fun profile => profile.profile.completionGate) hprofile
    cases hactive.symm.trans hgate
    have hjudged := hpassed { id := "judged", evaluator := some (.tool "bash" (.object []) none) }
      (mem_cons_of_mem _ mem_cons_self) rfl
    cases hjudged with
    | required hrequire => cases hrequire
    | evaluated _ hinput => cases hinput

end

end RustyCore
