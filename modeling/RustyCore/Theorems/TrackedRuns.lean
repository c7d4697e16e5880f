import RustyCore.Theorems.TrackedCalls

/-! Answers, runs and backend events, as the outline follows them. The outline loses track of an agent where a
    command changes one of its parts without an event that says so. -/

namespace RustyCore

section

variable [Externals]

namespace Agent

variable {a : Agent}

theorem tracks_finishSuccess (a : Agent) (summary : String) (passed : Option Bool) :
    Tracks a (a.finishSuccess summary passed).2 (a.finishSuccess summary passed).1 := by
  have hchange : Tracks a [stateChanged a.state.status .idle] (a.withStatus .idle) := .change rfl rfl
  have hcompleted : Tracks (a.withStatus .idle) [.emit (.completed .success)] (a.finishSuccess summary passed).1 :=
    .noted rfl
  exact (hchange.trans hcompleted).effect rfl

@[simp] theorem outline_pushGateRejection (reference : ProfileRef) (failures : List CheckFailure) :
    (a.pushGateRejection reference failures).outline = a.outline := rfl

/-- An answer that the gate sends back starts a turn, which is tracked. -/
theorem tracks_sendAnswerBack (a : Agent) (runId : RunId) (reference : ProfileRef) (failures : List CheckFailure) :
    Tracks a (a.sendAnswerBack runId reference failures).2 (a.sendAnswerBack runId reference failures).1 := by
  unfold sendAnswerBack
  dsimp only
  generalize hm : (a.withRun { a.state.behavior.run with
    gateContinuations := a.state.behavior.run.gateContinuations + 1 }).pushGateRejection reference failures = m
  have hpushed : m.outline = a.outline := by rw [← hm]; rfl
  have hbegins := m.begins_beginTurn
  split
  · rename_i b failure hb
    rw [hb] at hbegins
    exact .of_outline hpushed (hbegins.error failure rfl)
  · rename_i b effects hb
    rw [hb] at hbegins
    have hchange : Tracks b [stateChanged b.state.status .waitingForBackend] (b.withStatus .waitingForBackend) :=
      .change rfl rfl
    exact .of_outline hpushed (.after (hbegins.ok effects rfl) (hchange.trans (Unseen.single rfl rfl).tracks))

/-- What the gate decides is tracked, whether it accepts, sends back or gives up. -/
theorem tracks_gateDecided (a : Agent) (runId : RunId) (failures : List CheckFailure) (summary : String) :
    Tracks a (a.gateDecided runId failures summary).2 (a.gateDecided runId failures summary).1 := by
  unfold gateDecided
  dsimp only
  split
  · exact a.tracks_finishSuccess _ _
  · refine .after (b := a) (.single rfl rfl) ?_
    split
    · exact a.tracks_finishSuccess _ _
    · unfold endExhaustedGate
      split
      · exact a.tracks_finishSuccess _ _
      · exact (a.endsRun_fail _ _).tracks
    · exact a.tracks_sendAnswerBack _ _ _

theorem tracks_proposeCompletion (a : Agent) (runId : RunId) (summary : String) :
    Tracks a (a.proposeCompletion runId summary).2 (a.proposeCompletion runId summary).1 := by
  unfold proposeCompletion
  split
  · exact a.tracks_finishSuccess _ _
  · dsimp only
    split
    · exact Tracks.of_outline (b := a.noteGateAttempt) rfl (tracks_gateDecided _ _ _ _)
    · have hchange : Tracks a [stateChanged a.state.status .verifying] (a.noteGateAttempt.withStatus .verifying) :=
        .change rfl rfl
      exact hchange.effect rfl

/-- Verdicts are tracked, also those that come late. -/
theorem tracks_completionEvaluated (a : Agent) (runId : RunId) (attempt : Nat) (verdicts : List CheckVerdict)
    (usage : List UsageRecord) : Tracks a (a.completionEvaluated runId attempt verdicts usage).2
      (a.completionEvaluated runId attempt verdicts usage).1 := by
  unfold completionEvaluated
  dsimp only
  generalize hcounted : (if usage.isEmpty = true then (a, []) else _ : Agent × List AgentEffect) = counted
  have hseen : Unseen a counted.2 counted.1 := by
    rw [← hcounted]
    split
    · exact .refl a
    · exact .single rfl rfl
  split
  · exact hseen.tracks
  · split
    · exact (Unseen.same hseen.outline).tracks
    · exact .after hseen (tracks_gateDecided _ _ _ _)

/-- The backend reports the outcome of a call that is still asked about. -/
def reportsAsked (a : Agent) : ExecutionEvent → Prop
  | .toolCallCompleted _ callId _ => ∃ id, a.state.pendingPermissions.lookup id = some callId
  | _ => False

theorem tracks_stream {b : Agent} {to_ : AgentStatus} {es : List AgentEffect}
    (h : Unseen (a.withStatus to_) es b) : Tracks a (changedTo a.state.status to_ ++ es) b :=
  (a.tracks_changedTo to_).trans h.tracks

theorem follow_backendToolCompleted (a : Agent) (callId : ToolCallId) (result : ToolResultSummary) :
    Outline.projection.follow a.outline (emittedEvents (a.backendToolCompleted callId result).2) =
      some ((a.backendToolCompleted callId result).1.outline.answered callId) := by
  have hchange : Tracks a (changedTo a.state.status .streaming) (a.withStatus .streaming) := a.tracks_changedTo _
  unfold backendToolCompleted
  dsimp only
  rw [emittedEvents_append, Projection.follow_trans hchange]
  rfl

theorem tracks_completed (a : Agent) (runId : RunId) (result : ExecutionResult) :
    Tracks a (a.completed runId result).2 (a.completed runId result).1 := by
  unfold completed
  dsimp only
  generalize hm : ((a.withInFlight false).discardTrailingEmptyAssistantMessage.withUsage _) = m
  have hdone : m.outline = a.outline := by
    rw [← hm, outline_withUsage, outline_discardTrailing, outline_withInFlight]
  refine .of_outline hdone ?_
  split
  · exact (m.endsRun_fail _ _).tracks
  · split
    · exact m.tracks_continueAfterTools
    · exact m.tracks_proposeCompletion _ _

theorem tracks_backendEvent (hkeyed : a.Keyed) (runId : RunId) (event : ExecutionEvent)
    (hasked : a.state.activeRun = some runId → ¬ a.reportsAsked event) :
    Tracks a (a.backendEvent runId event).2 (a.backendEvent runId event).1 := by
  unfold backendEvent
  split
  · exact (Unseen.refl a).tracks
  · rename_i hrun
    cases event with
    | textDelta _ delta => exact tracks_stream (.single (outline_appendAssistantText delta) rfl)
    | reasoningDelta _ delta => exact (Unseen.single outline_assistantMessageId rfl).tracks
    | toolCallRequested _ call => exact tracks_toolRequested hkeyed call
    | toolCallStarted _ call =>
      have hannounced : Unseen (a.withStatus .executing)
          [.emit (.toolCallRequested call), .emit (.toolCallStarted call.id)]
          ((a.withStatus .executing).pushToolUse call).1 :=
        (Unseen.single (outline_pushToolUse call) rfl).trans (.single rfl rfl)
      exact tracks_stream hannounced
    | toolCallCompleted _ callId result =>
      refine (follow_backendToolCompleted a callId result).trans (congrArg some ?_)
      have hnone : Table.retain (fun _ pending => pending != callId) a.state.pendingPermissions =
          a.state.pendingPermissions := by
        refine Table.retain_eq_self fun id pending hpending => ?_
        rw [bne_iff_ne]
        rintro rfl
        exact hasked (not_not.mp hrun) ⟨id, hpending⟩
      exact congrArg (fun permissions => { (a.withStatus .streaming).outline with pendingPermissions := permissions })
        hnone
    | usageUpdate _ usage => exact (Unseen.single rfl rfl).tracks
    | completed _ result => exact a.tracks_completed runId result
    | error _ error => exact (a.endsRun_fail _ _).tracks

theorem not_tracks_backendEvent {runId : RunId} {event : ExecutionEvent} (hrun : a.state.activeRun = some runId)
    (hasked : a.reportsAsked event) : ¬ Tracks a (a.backendEvent runId event).2 (a.backendEvent runId event).1 := by
  cases event with
  | toolCallCompleted requestId callId result =>
    obtain ⟨id, hid⟩ := hasked
    simp only [backendEvent, hrun, ne_eq, not_true_eq_false, if_false, handleBackendEvent]
    intro htracks
    have hsame := Option.some.inj ((follow_backendToolCompleted a callId result).symm.trans htracks)
    have hfound : (a.backendToolCompleted callId result).1.outline.pendingPermissions.lookup id = some callId := hid
    rw [← hsame] at hfound
    exact absurd (Table.lookup_retain hfound).1 (by simp)
  | _ => exact hasked.elim

theorem outline_openRun (input : UserInput) : (a.openRun input).1.outline =
    { a.outline with status := .preparingContext, activeRun := some (a.openRun input).2 } := rfl

theorem endsRun_beginRun {input : UserInput} (hstop : a.stoppedAtStart input = true) :
    EndsRun (a.openRun input).1 (a.beginRun input).2 (a.beginRun input).1 := by
  unfold stoppedAtStart turnBegins at hstop
  unfold beginRun
  dsimp only at hstop ⊢
  have hrules := unseen_runRules (a.openRun input).1 .runStart none none
  split
  · exact .after hrules (endsRun_behaviorStop _ _)
  · rename_i hgo
    have hbegins := ((a.openRun input).1.runRules .runStart none none).1.begins_beginTurn
    split
    · rename_i b failure hb
      rw [hb] at hbegins
      refine .after hrules (hbegins.endsRun failure rfl ?_)
      rw [show ((a.openRun input).1.runRules .runStart none none).1.state.status = .preparingContext from
        congrArg Outline.status hrules.outline]
      decide
    · rename_i b effects hb
      rw [hgo, hb] at hstop
      cases hstop

theorem follow_beginRun {input : UserInput} (hgo : a.stoppedAtStart input = false) :
    Outline.projection.follow a.outline (emittedEvents (a.beginRun input).2) =
        some { (a.beginRun input).1.outline with lastError := none } ∧
      (a.beginRun input).1.state.lastError = a.state.lastError := by
  unfold stoppedAtStart turnBegins at hgo
  unfold beginRun
  dsimp only at hgo ⊢
  have hrules := unseen_runRules (a.openRun input).1 .runStart none none
  split
  · rename_i stop hstop
    rw [hstop] at hgo
    cases hgo
  · have hbegins := ((a.openRun input).1.runRules .runStart none none).1.begins_beginTurn
    split
    · rename_i b failure hb
      rw [hb] at hgo
      simp [Except.isOk, Except.toBool] at hgo
    · rename_i b effects hb
      rw [hb] at hbegins
      have hseen := hrules.trans (hbegins.ok effects rfl)
      have ho : b.outline = { a.outline with
          status := .preparingContext, activeRun := some (a.openRun input).2 } := hseen.outline
      refine ⟨?_, congrArg Outline.lastError ho⟩
      rw [List.append_assoc, ← List.append_assoc, emittedEvents_append, Projection.follow_append,
        Projection.follow_of_ignores (Outline.ignores_of_isSilent hseen.silent)]
      show Outline.projection.follow a.outline
        [.stateChanged a.state.status .preparingContext, .runStarted (a.openRun input).2] = _
      have hstatus : a.outline.status = a.state.status := rfl
      simp only [Projection.follow, Outline.projection, Outline.note, hstatus, ne_eq, not_true_eq_false, if_false,
        Option.bind_some]
      show some _ = some { b.outline with lastError := none }
      rw [ho]

end Agent

end

end RustyCore
