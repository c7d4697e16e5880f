import RustyCore.Theorems.Frame

/-! The control moves. Once a tool outcome is in, an operation is quiet, or it fails the run, or it asks the
    backend for the next turn; `Moves` says so. -/

namespace RustyCore

open Option List

variable [Externals]

namespace Agent

section

variable (a : Agent) (code message : String)

theorem aligned_fail : Aligned a (a.fail code message).1 :=
  ⟨a.kept_discardTrailing.id, a.kept_discardTrailing.sessionId, a.kept_discardTrailing.parentId,
    a.kept_discardTrailing.capabilities, a.kept_discardTrailing.sequence⟩

@[simp] theorem fail_status : (a.fail code message).1.state.status = .failed := rfl

@[simp] theorem fail_activeRun : (a.fail code message).1.state.activeRun = none := rfl

@[simp] theorem fail_inFlight : (a.fail code message).1.state.backendInFlight = false := rfl

@[simp] theorem fail_pendingTools : (a.fail code message).1.state.pendingTools = a.state.pendingTools :=
  a.kept_discardTrailing.pendingTools

@[simp] theorem fail_pendingPermissions :
    (a.fail code message).1.state.pendingPermissions = a.state.pendingPermissions :=
  a.kept_discardTrailing.pendingPermissions

@[simp] theorem fail_queuedInputs : (a.fail code message).1.state.queuedInputs = a.state.queuedInputs :=
  a.kept_discardTrailing.queuedInputs

@[simp] theorem fail_children : (a.fail code message).1.state.children = a.state.children :=
  a.kept_discardTrailing.children

@[simp] theorem stateChanges_fail : stateChanges (a.fail code message).2 = [(a.state.status, .failed)] := by
  rw [← a.kept_discardTrailing.status]
  rfl

@[simp] theorem backendRequests_fail : backendRequests (a.fail code message).2 = [] := rfl

@[simp] theorem toolRequests_fail : toolRequests (a.fail code message).2 = [] := rfl

@[simp] theorem permissionRequests_fail : permissionRequests (a.fail code message).2 = [] := rfl

theorem runResults_fail : ∃ result, runResults (a.fail code message).2 = [result] ∧ result.gatePassed = none :=
  ⟨_, rfl, rfl⟩

end

def requestTurn (a : Agent) (runId : RunId) : Agent × List AgentEffect :=
  let r := (a.withStatus .waitingForBackend).executionRequest runId
  (r.1, changedTo a.state.status .waitingForBackend ++ [.executeBackend r.2])

/-- Nothing is under way: no tool, and no request. -/
def Ready (a : Agent) : Prop := Table.isEmpty a.state.pendingTools = true ∧ a.state.backendInFlight = false

section

variable (a : Agent) (runId : RunId)

theorem aligned_requestTurn : Aligned a (a.requestTurn runId).1 := ⟨rfl, rfl, rfl, rfl, saturatingAdd_sequence⟩

theorem backendRequests_requestTurn :
    ∃ request, backendRequests (a.requestTurn runId).2 = [request] ∧ request.runId = runId := by
  refine ⟨((a.withStatus .waitingForBackend).executionRequest runId).2, ?_, rfl⟩
  simp only [requestTurn, changedTo]
  split <;> rfl

@[simp] theorem toolRequests_requestTurn : toolRequests (a.requestTurn runId).2 = [] := by
  simp only [requestTurn, changedTo]
  split <;> rfl

@[simp] theorem permissionRequests_requestTurn : permissionRequests (a.requestTurn runId).2 = [] := by
  simp only [requestTurn, changedTo]
  split <;> rfl

@[simp] theorem runResults_requestTurn : runResults (a.requestTurn runId).2 = [] := by
  simp only [requestTurn, changedTo]
  split <;> rfl

theorem stateChanges_requestTurn : stateChanges (a.requestTurn runId).2 =
    if a.state.status ≠ .waitingForBackend then [(a.state.status, .waitingForBackend)] else [] := by
  simp only [requestTurn, changedTo]
  split <;> rfl

end

end Agent

/-- Some quiet steps, and then the run fails. -/
inductive Fails : Agent → List AgentEffect → Agent → Prop
  | intro {a b es} (h : Quiet a es b) (code message : String) :
      Fails a (es ++ (b.fail code message).2) (b.fail code message).1

/-- What an operation does once a tool outcome is in: quiet steps, and then at most one control move. It
    fails the run, or it asks for the next turn of the active run, which needs the agent to be ready. -/
inductive Moves : Agent → List AgentEffect → Agent → Prop
  | quiet {a b es} (h : Quiet a es b) : Moves a es b
  | fail {a b es} (h : Fails a es b) : Moves a es b
  | request {a b es} (h : Quiet a es b) {runId} (hrun : a.state.activeRun = some runId) (hready : a.Ready) :
      Moves a (es ++ (b.requestTurn runId).2) (b.requestTurn runId).1

namespace Fails

variable {a b c : Agent} {es fs : List AgentEffect}

theorem after (h : Quiet a es b) (h' : Fails b fs c) : Fails a (es ++ fs) c := by
  obtain ⟨h', code, message⟩ := h'
  rw [← append_assoc]
  exact .intro (h.trans h') code message

theorem keep (h : Kept a b) (h' : Fails b es c) : Fails a es c := after h.quiet h'

theorem now (a : Agent) (code message : String) : Fails a (a.fail code message).2 (a.fail code message).1 :=
  .intro (Quiet.refl a) code message

theorem aligned (h : Fails a es b) : Aligned a b := by
  obtain ⟨h, code, message⟩ := h
  exact h.toAligned.trans (Agent.aligned_fail _ code message)

theorem control (h : Fails a es b) :
    b.control = { a.control with status := .failed, activeRun := none, backendInFlight := false } := by
  obtain ⟨h, code, message⟩ := h
  simp [Agent.control, h.queuedInputs, h.pendingTools, h.pendingPermissions, h.children]

theorem status (h : Fails a es b) : b.state.status = .failed := congrArg Control.status h.control

theorem activeRun (h : Fails a es b) : b.state.activeRun = none := congrArg Control.activeRun h.control

theorem stateChanges_eq (h : Fails a es b) : stateChanges es = [(a.state.status, .failed)] := by
  obtain ⟨h, code, message⟩ := h
  simp [h.notices.stateChanges_eq, h.status]

theorem backendRequests_eq (h : Fails a es b) : backendRequests es = [] := by
  obtain ⟨h, code, message⟩ := h
  simp [h.notices.backendRequests_eq]

theorem toolRequests_eq (h : Fails a es b) : toolRequests es = [] := by
  obtain ⟨h, code, message⟩ := h
  simp [h.notices.toolRequests_eq]

theorem permissionRequests_eq (h : Fails a es b) : permissionRequests es = [] := by
  obtain ⟨h, code, message⟩ := h
  simp [h.notices.permissionRequests_eq]

theorem runResults_eq (h : Fails a es b) : ∃ result, runResults es = [result] ∧ result.gatePassed = none := by
  cases h with
  | @intro b es h code message =>
    obtain ⟨result, hresult, hpassed⟩ := b.runResults_fail code message
    exact ⟨result, by simp [h.notices.runResults_eq, hresult], hpassed⟩

end Fails

namespace Moves

variable {a b c : Agent} {es fs : List AgentEffect}

theorem refl (a : Agent) : Moves a [] a := quiet (Quiet.refl a)

theorem after (h : Quiet a es b) (h' : Moves b fs c) : Moves a (es ++ fs) c := by
  cases h' with
  | quiet h' => exact .quiet (h.trans h')
  | fail h' => exact .fail (.after h h')
  | request h' hrun hready =>
    rw [← append_assoc]
    refine .request (h.trans h') (h.activeRun.symm.trans hrun) ⟨?_, h.backendInFlight.symm.trans hready.2⟩
    rw [← h.pendingTools]
    exact hready.1

theorem keep (h : Kept a b) (h' : Moves b es c) : Moves a es c := after h.quiet h'

theorem aligned (h : Moves a es b) : Aligned a b := by
  cases h with
  | quiet h => exact h.toAligned
  | fail h => exact h.aligned
  | request h => exact h.toAligned.trans (Agent.aligned_requestTurn _ _)

theorem pending (h : Moves a es b) : b.state.pendingTools = a.state.pendingTools ∧
    b.state.pendingPermissions = a.state.pendingPermissions ∧ b.state.queuedInputs = a.state.queuedInputs ∧
    b.state.children = a.state.children := by
  cases h with
  | quiet h => exact ⟨h.pendingTools, h.pendingPermissions, h.queuedInputs, h.children⟩
  | fail h =>
    have hc := h.control
    exact ⟨congrArg Control.pendingTools hc, congrArg Control.pendingPermissions hc,
      congrArg Control.queuedInputs hc, congrArg Control.children hc⟩
  | request h => exact ⟨h.pendingTools, h.pendingPermissions, h.queuedInputs, h.children⟩

theorem no_tool (h : Moves a es b) : toolRequests es = [] ∧ permissionRequests es = [] := by
  cases h with
  | quiet h => exact ⟨h.notices.toolRequests_eq, h.notices.permissionRequests_eq⟩
  | fail h => exact ⟨h.toolRequests_eq, h.permissionRequests_eq⟩
  | request h => simp [h.notices.toolRequests_eq, h.notices.permissionRequests_eq]

theorem fails (h : Moves a es b) (hfailed : b.state.status = .failed) (hlive : a.state.status ≠ .failed) :
    Fails a es b := by
  cases h with
  | quiet h => exact absurd (h.status.symm.trans hfailed) hlive
  | fail h => exact h
  | request h => cases hfailed

theorem status (h : Moves a es b) :
    b.state.status = a.state.status ∨ b.state.status = .failed ∨ b.state.status = .waitingForBackend := by
  cases h with
  | quiet h => exact .inl h.status
  | fail h => exact .inr (.inl h.status)
  | request => exact .inr (.inr rfl)

end Moves

def Agent.continues (a : Agent) : Bool :=
  Table.isEmpty a.state.pendingTools && !a.state.backendInFlight && a.state.activeRun.isSome

/-- A step after which the agent may go on: it then asks the backend, or fails. -/
structure Goes (a : Agent) (es : List AgentEffect) (b : Agent) : Prop where
  moves : Moves a es b
  quiet : a.continues = false → Quiet a es b
  moved : a.continues = true → b.state.status = .failed ∨ b.state.status = .waitingForBackend

namespace Goes

variable {a b c : Agent} {es fs : List AgentEffect}

theorem after (h : Quiet a es b) (h' : Goes b fs c) : Goes a (es ++ fs) c := by
  have hcontinues : b.continues = a.continues := by
    simp only [Agent.continues, h.pendingTools, h.backendInFlight, h.activeRun]
  exact ⟨.after h h'.moves, fun hidle => h.trans (h'.quiet (hcontinues.trans hidle)),
    fun hgo => h'.moved (hcontinues.trans hgo)⟩

theorem keep (h : Kept a b) (h' : Goes b es c) : Goes a es c := after h.quiet h'

end Goes

namespace Agent

/-- A switch is quiet, or fails the active run. -/
theorem applySwitch_cases (a : Agent) (profile : CompiledProfile) (library : ProfileRegistry) :
    Quiet a (a.applySwitch profile library).2 (a.applySwitch profile library).1 ∨
      a.state.activeRun.isSome = true ∧
        Fails a (a.applySwitch profile library).2 (a.applySwitch profile library).1 := by
  unfold applySwitch
  dsimp only
  split
  · exact .inl (a.kept_behavior _).quiet
  · have hchanged := (a.kept_behavior (a.state.behavior.switchedTo profile library)).emit
      (e := .emit (.profileChanged a.state.behavior.reference.display
        (a.state.behavior.switchedTo profile library).reference.display)) rfl
    split
    · rename_i hloop
      exact .inr ⟨hloop.1, .intro hchanged _ _⟩
    · exact .inl hchanged

theorem quiet_applySwitch {a : Agent} (profile : CompiledProfile) (library : ProfileRegistry)
    (hidle : a.state.activeRun = none) : Quiet a (a.applySwitch profile library).2 (a.applySwitch profile library).1 := by
  rcases a.applySwitch_cases profile library with h | ⟨hactive, -⟩
  · exact h
  · simp [hidle] at hactive

theorem kept_pendingProfile (a : Agent) (p : Option (CompiledProfile × ProfileRegistry)) :
    Kept a (a.withPendingProfile p) := kept_of_eq rfl rfl rfl rfl rfl rfl

theorem takePendingSwitch_cases (a : Agent) : Quiet a a.takePendingSwitch.2 a.takePendingSwitch.1 ∨
    a.state.pendingProfile.isSome ∧ a.state.activeRun.isSome = true ∧
      Fails a a.takePendingSwitch.2 a.takePendingSwitch.1 := by
  unfold takePendingSwitch
  split
  · rename_i profile library hpending
    have htaken := a.kept_pendingProfile none
    rcases applySwitch_cases (a.withPendingProfile none) profile library with h | ⟨hactive, h⟩
    · exact .inl (htaken.quiet.trans h)
    · exact .inr ⟨by simp [hpending], hactive, .keep htaken h⟩
  · exact .inl (Quiet.refl a)

theorem moves_takePendingSwitch (a : Agent) : Moves a a.takePendingSwitch.2 a.takePendingSwitch.1 := by
  rcases a.takePendingSwitch_cases with h | ⟨-, -, h⟩
  · exact .quiet h
  · exact .fail h

structure TurnStep (a b : Agent) (r : Except (List AgentEffect) (List AgentEffect)) : Prop where
  ok : ∀ es, r = .ok es → Quiet a es b
  error : ∀ es, r = .error es → Fails a es b

theorem TurnStep.announce {a m b : Agent} {r : Except (List AgentEffect) (List AgentEffect)} (h : TurnStep m b r)
    (hk : Kept a m) {e : AgentEffect} (he : e.isNotice = true) : TurnStep a b (r.map (e :: ·)) := by
  cases r with
  | ok fs =>
    refine ⟨?_, by simp [Except.map]⟩
    rintro es ⟨⟩
    exact (hk.emit he).trans (h.ok fs rfl)
  | error fs =>
    refine ⟨by simp [Except.map], ?_⟩
    rintro es ⟨⟩
    exact .keep hk (h.error fs rfl)

theorem turnStep_enteredRules (a : Agent) (from_ : ProfileRef) :
    TurnStep a (a.enteredRules from_).1 (a.enteredRules from_).2 := by
  have hrules := (a.kept_behavior (a.state.behavior.evaluateEntered from_.id).1).quiet.trans
    (quiet_applyRuleOutcome (a.withBehavior (a.state.behavior.evaluateEntered from_.id).1)
      (a.state.behavior.evaluateEntered from_.id).2 none)
  unfold enteredRules
  dsimp only
  split
  · refine ⟨by simp, ?_⟩
    rintro es ⟨⟩
    exact .intro hrules _ _
  · refine ⟨?_, by simp⟩
    rintro es ⟨⟩
    exact hrules

theorem turnStep_enterProfile (a : Agent) (from_ : EnteredFrom) :
    TurnStep a (a.enterProfile from_).1 (a.enterProfile from_).2 := by
  unfold enterProfile
  split
  · exact (turnStep_enteredRules _ from_.profile).announce (a.kept_queueRequestText _) rfl
  · exact turnStep_enteredRules a from_.profile

theorem turnStep_announceProfile (a : Agent) : TurnStep a a.announceProfile.1 a.announceProfile.2 := by
  unfold announceProfile
  split
  · rename_i from_ hfrom
    have hcleared := a.kept_behavior { a.state.behavior with enteredFrom := none }
    have hentered := turnStep_enterProfile (a.withBehavior { a.state.behavior with enteredFrom := none }) from_
    exact ⟨fun es hes => hcleared.quiet.trans (hentered.ok es hes),
      fun es hes => .keep hcleared (hentered.error es hes)⟩
  · refine ⟨?_, by simp⟩
    rintro es ⟨⟩
    exact Quiet.refl a

theorem quiet_takePendingSwitch {a : Agent}
    (h : ¬ (a.state.pendingProfile.isSome = true ∧ a.takePendingSwitch.1.state.status = .failed)) :
    Quiet a a.takePendingSwitch.2 a.takePendingSwitch.1 := by
  rcases a.takePendingSwitch_cases with hquiet | ⟨hpending, -, hfails⟩
  · exact hquiet
  · exact absurd ⟨hpending, hfails.status⟩ h

theorem beginTurn_ok {a b : Agent} {es : List AgentEffect} (h : a.beginTurn = (b, .ok es)) : Quiet a es b := by
  unfold beginTurn at h
  dsimp only at h
  split at h
  · simp at h
  · rename_i hlive
    have hswitch := quiet_takePendingSwitch hlive
    have hannounce := a.takePendingSwitch.1.turnStep_announceProfile
    split at h
    · simp at h
    · rename_i c entered hc
      rw [hc] at hannounce
      have hentered := hswitch.trans (hannounce.ok entered rfl)
      split at h
      · simp at h
      · rename_i behavior plan hplan hbehavior
        have hrules := (hentered.trans (c.kept_behavior behavior).quiet).trans
          (quiet_runRules (c.withBehavior behavior) .beforeModelRequest none none)
        simp only [append_nil] at hrules
        split at h
        · simp at h
        · simp only [Prod.mk.injEq, Except.ok.injEq] at h
          obtain ⟨rfl, rfl⟩ := h
          exact hrules

/-- A turn that cannot begin leaves the run failed. -/
theorem beginTurn_error {a b : Agent} {es : List AgentEffect} (h : a.beginTurn = (b, .error es)) :
    Moves a es b ∧ b.state.status = .failed := by
  unfold beginTurn at h
  dsimp only at h
  split at h
  · rename_i hfailed
    simp only [Prod.mk.injEq, Except.error.injEq] at h
    obtain ⟨rfl, rfl⟩ := h
    exact ⟨a.moves_takePendingSwitch, hfailed.2⟩
  · rename_i hlive
    have hswitch := quiet_takePendingSwitch hlive
    have hannounce := a.takePendingSwitch.1.turnStep_announceProfile
    split at h
    · rename_i c failure hc
      rw [hc] at hannounce
      simp only [Prod.mk.injEq, Except.error.injEq] at h
      obtain ⟨rfl, rfl⟩ := h
      have hfails := Fails.after hswitch (hannounce.error failure rfl)
      exact ⟨.fail hfails, hfails.status⟩
    · rename_i c entered hc
      rw [hc] at hannounce
      have hentered := hswitch.trans (hannounce.ok entered rfl)
      split at h
      · rename_i behavior hbehavior
        simp only [Prod.mk.injEq, Except.error.injEq] at h
        obtain ⟨rfl, rfl⟩ := h
        exact ⟨.fail (.keep (hentered.toKept.trans (c.kept_behavior behavior)) (.now _ _ _)), rfl⟩
      · rename_i behavior plan hplan hbehavior
        have hrules := (hentered.trans (c.kept_behavior behavior).quiet).trans
          (quiet_runRules (c.withBehavior behavior) .beforeModelRequest none none)
        simp only [append_nil] at hrules
        split at h
        · simp only [Prod.mk.injEq, Except.error.injEq] at h
          obtain ⟨rfl, rfl⟩ := h
          exact ⟨.fail (.intro hrules _ _), rfl⟩
        · simp at h

theorem goes_continueAfterTools (a : Agent) : Goes a a.continueAfterTools.2 a.continueAfterTools.1 := by
  unfold continueAfterTools
  split
  · rename_i hready
    simp only [Bool.and_eq_true, Bool.not_eq_true'] at hready
    split
    · rename_i hrun
      exact ⟨.refl a, fun _ => Quiet.refl a, fun hgo => by simp [continues, hrun] at hgo⟩
    · rename_i runId hrun
      have hgo : a.continues = true := by simp [continues, hready.1, hready.2, hrun]
      split
      · rename_i b failure hb
        obtain ⟨hmoves, hfailed⟩ := beginTurn_error hb
        exact ⟨hmoves, fun hidle => by simp [hgo] at hidle, fun _ => .inl hfailed⟩
      · rename_i b effects hb
        dsimp only
        rw [append_assoc]
        exact ⟨.request (beginTurn_ok hb) hrun hready, fun hidle => by simp [hgo] at hidle, fun _ => .inr rfl⟩
  · rename_i hbusy
    exact ⟨.refl a, fun _ => Quiet.refl a, fun hgo => absurd (Bool.and_eq_true_iff.mp hgo).1 hbusy⟩

theorem kept_timeouts (a : Agent) (n : Nat) : Kept a (a.withTimeouts n) :=
  kept_of_eq rfl rfl rfl rfl rfl rfl

theorem quiet_runPostToolRules (a : Agent) (call : ToolCall) (hasError : Bool) (preview : String) :
    Quiet a (a.runPostToolRules call hasError preview).2.1 (a.runPostToolRules call hasError preview).1 :=
  (a.kept_behavior _).quiet.trans (quiet_runRules _ _ _ _)

theorem kept_appendPendingNotes (a : Agent) (callId : ToolCallId) (preview : String) :
    Kept a (a.appendPendingNotes callId preview).1 := kept_of_eq rfl rfl rfl rfl rfl rfl

theorem kept_usage (a : Agent) (usage : UsageLedger) : Kept a (a.withUsage usage) :=
  kept_of_eq rfl rfl rfl rfl rfl rfl

theorem timeouts_placeInjections (injections : List Injection) (callId : Option ToolCallId) (a : Agent) :
    (injections.foldl (fun a injection => a.placeInjection injection callId) a).state.consecutiveToolTimeouts =
      a.state.consecutiveToolTimeouts := by
  induction injections generalizing a with
  | nil => rfl
  | cons injection rest ih =>
    refine (ih (a.placeInjection injection callId)).trans ?_
    unfold placeInjection
    split
    · rfl
    · split <;> rfl
    · rfl

theorem timeouts_requestSwitch (a : Agent) (outcome : RuleOutcome) :
    (a.requestSwitch outcome).state.consecutiveToolTimeouts = a.state.consecutiveToolTimeouts := by
  unfold requestSwitch
  split
  · rfl
  · split <;> rfl

theorem timeouts_runRules (a : Agent) (event : RuleEvent) (tool : Option ToolEvent) (callId : Option ToolCallId) :
    (a.runRules event tool callId).1.state.consecutiveToolTimeouts = a.state.consecutiveToolTimeouts := by
  simp only [runRules, applyRuleOutcome, timeouts_requestSwitch, timeouts_placeInjections]
  rfl

/-- Whether the outcome of a call ends the run: a rule that saw it stops the run, or it is one timeout too
    many in a row. -/
def endsAfter (a : Agent) (call : ToolCall) (executed hasError : Bool) (preview : String) : Bool :=
  (executed && (a.runPostToolRules call hasError preview).2.2.2.isSome) ||
    decide (a.state.consecutiveToolTimeouts ≥ maxConsecutiveToolTimeouts)

/-- The outcome of a call ends the run when a rule says so, and goes on otherwise. -/
theorem recordToolResult_spec (a : Agent) (call : ToolCall) (executed hasError : Bool) (preview : String) :
    (a.endsAfter call executed hasError preview = true → Fails a (a.recordToolResult call executed hasError preview).2
          (a.recordToolResult call executed hasError preview).1) ∧
      (a.endsAfter call executed hasError preview = false → Goes a (a.recordToolResult call executed hasError preview).2
          (a.recordToolResult call executed hasError preview).1) := by
  unfold recordToolResult endsAfter
  generalize hrules : (if executed = true then a.runPostToolRules call hasError preview else (a, [], preview, none)) = r
  obtain ⟨b, effects, preview', stop⟩ := r
  -- what the rules leave, and whether they stopped the run
  have hb : Quiet a effects b ∧ b.state.consecutiveToolTimeouts = a.state.consecutiveToolTimeouts ∧
      (executed && (a.runPostToolRules call hasError preview).2.2.2.isSome) = stop.isSome := by
    split at hrules
    · rename_i hexecuted
      have hquiet := a.quiet_runPostToolRules call hasError preview
      have htimeouts : (a.runPostToolRules call hasError preview).1.state.consecutiveToolTimeouts =
          a.state.consecutiveToolTimeouts := timeouts_runRules _ _ _ _
      rw [hrules] at hquiet htimeouts ⊢
      exact ⟨hquiet, htimeouts, by simp [hexecuted]⟩
    · rename_i hexecuted
      cases hrules
      exact ⟨Quiet.refl _, rfl, by simp [hexecuted]⟩
  obtain ⟨hquiet, htimeouts, hstop⟩ := hb
  rw [hstop]
  have hnotes := b.kept_appendPendingNotes call.id preview'
  have hcounted := hnotes.trans (kept_usage _ { (b.appendPendingNotes call.id preview').1.usage with
    toolCalls := saturatingAdd (b.appendPendingNotes call.id preview').1.usage.toolCalls 1 })
  have hpushed := hcounted.trans (kept_pushMessage _ .tool
    [.toolResult call.id ⟨hasError, (b.appendPendingNotes call.id preview').2⟩])
  have hrecorded := hquiet.trans (hpushed.emit (e := .emit (.toolCallCompleted call.id
    ⟨hasError, (b.appendPendingNotes call.id preview').2⟩)) rfl)
  dsimp only
  simp only [andThen, nextAfterResult]
  cases stop with
  | some stop => exact ⟨fun _ => .intro hrecorded _ _, nofun⟩
  | none =>
    by_cases hmany : a.state.consecutiveToolTimeouts ≥ maxConsecutiveToolTimeouts
    · refine ⟨fun _ => ?_, by simp [hmany]⟩
      rw [if_pos (by rw [← htimeouts] at hmany; exact hmany)]
      exact .after hrecorded (.keep (kept_timeouts _ 0) (.now _ _ _))
    · refine ⟨by simp [hmany], fun _ => ?_⟩
      rw [if_neg (by rw [← htimeouts] at hmany; exact hmany)]
      exact .after hrecorded (goes_continueAfterTools _)

def outcomeEnds (a : Agent) : AgentCommand → Bool
  | .toolCompleted callId result =>
    (a.state.pendingTools.lookup callId).any fun pending =>
      ((a.forgetCall callId).withTimeouts 0).endsAfter pending.call true result.isError result.output.display
  | .toolFailed callId error =>
    (a.state.pendingTools.lookup callId).any fun pending =>
      ((a.forgetCall callId).withTimeouts (if error.isTimeout then a.state.consecutiveToolTimeouts + 1 else 0)).endsAfter
        pending.call error.executed true (error.preview pending.call.name)
  | _ => false

def IsPending (a : Agent) (callId : ToolCallId) : Prop := a.state.pendingTools.lookup callId ≠ none

theorem toolFailed_spec {a : Agent} {callId : ToolCallId} (error : ToolError) (hpending : a.IsPending callId) :
    (a.outcomeEnds (.toolFailed callId error) = true →
        Fails (a.forgetCall callId) (a.toolFailed callId error).2 (a.toolFailed callId error).1) ∧
      (a.outcomeEnds (.toolFailed callId error) = false →
        Goes (a.forgetCall callId) (a.toolFailed callId error).2 (a.toolFailed callId error).1) := by
  obtain ⟨pending, hp⟩ := ne_none_iff_exists'.mp hpending
  have hspec := recordToolResult_spec ((a.forgetCall callId).withTimeouts
    (if error.isTimeout then a.state.consecutiveToolTimeouts + 1 else 0)) pending.call error.executed true
    (error.preview pending.call.name)
  simp only [outcomeEnds, toolFailed, hp, any_some]
  exact ⟨fun hends => .keep (kept_timeouts _ _) (hspec.1 hends), fun hends => .keep (kept_timeouts _ _) (hspec.2 hends)⟩

theorem toolCompleted_spec {a : Agent} {callId : ToolCallId} (result : ToolResult) (hpending : a.IsPending callId) :
    (a.outcomeEnds (.toolCompleted callId result) = true →
        Fails (a.forgetCall callId) (a.toolCompleted callId result).2 (a.toolCompleted callId result).1) ∧
      (a.outcomeEnds (.toolCompleted callId result) = false →
        Goes (a.forgetCall callId) (a.toolCompleted callId result).2 (a.toolCompleted callId result).1) := by
  obtain ⟨pending, hp⟩ := ne_none_iff_exists'.mp hpending
  have hspec := recordToolResult_spec ((a.forgetCall callId).withTimeouts 0) pending.call true result.isError
    result.output.display
  simp only [outcomeEnds, toolCompleted, hp, any_some]
  exact ⟨fun hends => .keep (kept_timeouts _ _) (hspec.1 hends), fun hends => .keep (kept_timeouts _ _) (hspec.2 hends)⟩

theorem goes_toolFailed {a : Agent} {callId : ToolCallId} {error : ToolError} (hpending : a.IsPending callId)
    (hrefused : error.executed = false) :
    Goes (a.forgetCall callId) (a.toolFailed callId error).2 (a.toolFailed callId error).1 := by
  refine (toolFailed_spec error hpending).2 ?_
  obtain ⟨pending, hp⟩ := ne_none_iff_exists'.mp hpending
  have htimeout : error.isTimeout = false := by cases error <;> first | rfl | cases hrefused
  simp [outcomeEnds, hp, endsAfter, hrefused, htimeout, withTimeouts, maxConsecutiveToolTimeouts]

end Agent

end RustyCore
