import RustyCore.Theorems.Moves

/-! How a turn of the model ends: with the run finished or failed, with the answer sent back, or with the
    answer handed to the evaluators. -/

namespace RustyCore

variable [Externals]

namespace Agent

section

variable (a : Agent) (summary : String) (passed : Option Bool)

theorem aligned_finishSuccess : Aligned a (a.finishSuccess summary passed).1 :=
  ⟨rfl, rfl, rfl, rfl, fun h => ⟨le_refl _, h⟩⟩

theorem runResults_finishSuccess :
    ∃ result, runResults (a.finishSuccess summary passed).2 = [result] ∧ result.gatePassed = passed := ⟨_, rfl, rfl⟩

end

/-- The next request of the run. -/
def askAgain (a : Agent) (runId : RunId) : Agent × List AgentEffect :=
  let r := (a.withStatus .waitingForBackend).executionRequest runId
  (r.1, [stateChanged a.state.status .waitingForBackend, .executeBackend r.2])

theorem aligned_askAgain (a : Agent) (runId : RunId) : Aligned a (a.askAgain runId).1 :=
  ⟨rfl, rfl, rfl, rfl, saturatingAdd_sequence⟩

end Agent

/-- The ways a proposed answer can go. -/
inductive Decides (runId : RunId) : Agent → List AgentEffect → Agent → Prop
  | finish {a b es} (h : Quiet a es b) (summary : String) (passed : Option Bool) :
      Decides runId a (es ++ (b.finishSuccess summary passed).2) (b.finishSuccess summary passed).1
  | fail {a b es} (h : Moves a es b) (hfailed : b.state.status = .failed) :
      Decides runId a es b
  | again {a b es} (h : Quiet a es b) :
      Decides runId a (es ++ (b.askAgain runId).2) (b.askAgain runId).1
  | verify {a b es} (h : Quiet a es b) (gate : CompletionGate) (evaluators : List CompletionCheckSpec) :
      Decides runId a (es ++ (b.startVerifying runId gate evaluators).2) (b.startVerifying runId gate evaluators).1

namespace Decides

variable {runId : RunId} {a b c : Agent} {es fs : List AgentEffect}

theorem after (h : Quiet a es b) (h' : Decides runId b fs c) : Decides runId a (es ++ fs) c := by
  cases h' with
  | finish h' summary passed =>
    rw [← List.append_assoc]
    exact .finish (h.trans h') summary passed
  | fail h' hfailed => exact .fail (.after h h') hfailed
  | again h' =>
    rw [← List.append_assoc]
    exact .again (h.trans h')
  | verify h' gate evaluators =>
    rw [← List.append_assoc]
    exact .verify (h.trans h') gate evaluators

theorem keep (h : Kept a b) (h' : Decides runId b es c) : Decides runId a es c := after h.quiet h'

theorem finishNow (a : Agent) (summary : String) (passed : Option Bool) :
    Decides runId a (a.finishSuccess summary passed).2 (a.finishSuccess summary passed).1 :=
  .finish (Quiet.refl a) summary passed

theorem no_tool (h : Decides runId a es b) : toolRequests es = [] ∧ permissionRequests es = [] := by
  cases h with
  | fail h => exact h.no_tool
  | finish h | again h | verify h =>
    rw [toolRequests_append, permissionRequests_append, h.notices.toolRequests_eq, h.notices.permissionRequests_eq]
    exact ⟨rfl, rfl⟩

theorem status (h : Decides runId a es b) : b.state.status ∈ [.idle, .failed, .waitingForBackend, .verifying] := by
  cases h with
  | finish | again | verify => simp [Agent.finishSuccess, Agent.askAgain, Agent.startVerifying, Agent.withStatus,
      Agent.executionRequest, Agent.buildRequest, Agent.nextRequestId, Agent.takeSequence, Agent.withBehavior,
      Agent.withInFlight]
  | fail h hfailed => simp [hfailed]

theorem aligned (h : Decides runId a es b) : Aligned a b := by
  cases h with
  | finish h => exact h.toAligned.trans (Agent.aligned_finishSuccess _ _ _)
  | fail h => exact h.aligned
  | again h => exact h.toAligned.trans (Agent.aligned_askAgain _ _)
  | verify h => exact ⟨h.id, h.sessionId, h.parentId, h.capabilities, h.sequence⟩

end Decides

namespace Agent

theorem kept_withRun (a : Agent) (run : RunCounters) : Kept a (a.withRun run) := kept_behavior a _

theorem kept_pushGateRejection (a : Agent) (reference : ProfileRef) (failures : List CheckFailure) :
    Kept a (a.pushGateRejection reference failures) := a.kept_pushMessage _ _

theorem decides_sendAnswerBack (a : Agent) (runId : RunId) (reference : ProfileRef) (failures : List CheckFailure) :
    Decides runId a (a.sendAnswerBack runId reference failures).2 (a.sendAnswerBack runId reference failures).1 := by
  unfold sendAnswerBack
  dsimp only
  have hpushed := (a.kept_withRun { a.state.behavior.run with
    gateContinuations := a.state.behavior.run.gateContinuations + 1 }).trans (kept_pushGateRejection _ reference failures)
  split
  · rename_i b failure hb
    obtain ⟨hmoves, hfailed⟩ := beginTurn_error hb
    exact .fail (.keep hpushed hmoves) hfailed
  · rename_i b effects hb
    exact .again (hpushed.quiet.trans (beginTurn_ok hb))

theorem decides_gateDecided (a : Agent) (runId : RunId) (failures : List CheckFailure) (summary : String) :
    Decides runId a (a.gateDecided runId failures summary).2 (a.gateDecided runId failures summary).1 := by
  unfold gateDecided
  dsimp only
  split
  · exact .finishNow a summary none
  · rename_i gate hgate
    refine .after ((Kept.refl a).emit rfl) ?_
    split
    · exact .finishNow a summary (some true)
    · unfold endExhaustedGate
      split
      · exact .finishNow a summary (some false)
      · exact .fail (.fail (.now _ _ _)) rfl
    · exact decides_sendAnswerBack a runId _ failures

theorem decides_proposeCompletion (a : Agent) (runId : RunId) (summary : String) :
    Decides runId a (a.proposeCompletion runId summary).2 (a.proposeCompletion runId summary).1 := by
  unfold proposeCompletion
  split
  · exact .finishNow a summary none
  · rename_i gate hgate
    have hnoted : Kept a a.noteGateAttempt := a.kept_withRun _
    dsimp only
    split
    · exact .keep hnoted (decides_gateDecided _ runId _ summary)
    · exact .verify hnoted.quiet gate _

theorem completionEvaluated_cases (a : Agent) (runId : RunId) (attempt : Nat) (verdicts : List CheckVerdict)
    (usage : List UsageRecord) :
    Quiet a (a.completionEvaluated runId attempt verdicts usage).2
        (a.completionEvaluated runId attempt verdicts usage).1 ∨
      a.state.status = .verifying ∧ a.state.activeRun = some runId ∧
        Decides runId a (a.completionEvaluated runId attempt verdicts usage).2
          (a.completionEvaluated runId attempt verdicts usage).1 := by
  unfold completionEvaluated
  dsimp only
  generalize hcounted : (if usage.isEmpty = true then (a, []) else _ : Agent × List AgentEffect) = counted
  have hquiet : Quiet a counted.2 counted.1 := by
    split at hcounted
    · rw [← hcounted]
      exact Quiet.refl a
    · rw [← hcounted]
      exact ((a.kept_usage _).trans (kept_nextTimestamp _)).emit rfl
  split
  · exact .inl hquiet
  · rename_i hexpected
    simp only [not_or, ne_eq, not_not] at hexpected
    split
    · exact .inl hquiet.toKept.quiet
    · exact .inr ⟨hexpected.1, hexpected.2.1, .after hquiet (decides_gateDecided _ runId _ _)⟩

end Agent

end RustyCore
