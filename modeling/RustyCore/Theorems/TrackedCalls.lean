import RustyCore.Theorems.Tracking

/-! Tool calls and answers, as the outline follows them: the outcome of a call takes the questions about it off
    the outline just as its event does, and a request that is asked about is announced with the question. -/

namespace RustyCore

section

variable [Externals]

namespace Agent

/-- Every pending call is filed under its own id. -/
def Keyed (a : Agent) : Prop :=
  ∀ callId pending, a.state.pendingTools.lookup callId = some pending → pending.call.id = callId

theorem Keyed.of_pendingTools {a b : Agent} (h : a.Keyed) (heq : b.state.pendingTools = a.state.pendingTools) :
    b.Keyed := by
  intro callId pending hpending
  rw [heq] at hpending
  exact h callId pending hpending

theorem Keyed.insert {a b : Agent} (h : a.Keyed) {callId : ToolCallId} {pending : PendingToolCall}
    (heq : b.state.pendingTools = a.state.pendingTools.insert callId pending) (hid : pending.call.id = callId) :
    b.Keyed := by
  intro id p hp
  rw [heq] at hp
  by_cases hsame : id = callId
  · subst hsame
    rw [Table.lookup_insert_self] at hp
    cases hp
    exact hid
  · rw [Table.lookup_insert_ne hsame] at hp
    exact h id p hp

variable {a : Agent}

theorem tracks_requestTurn (a : Agent) (runId : RunId) : Tracks a (a.requestTurn runId).2 (a.requestTurn runId).1 :=
  (a.tracks_changedTo .waitingForBackend).trans (Unseen.single rfl rfl).tracks

theorem tracks_continueAfterTools (a : Agent) : Tracks a a.continueAfterTools.2 a.continueAfterTools.1 := by
  have hbegins := a.begins_beginTurn
  unfold continueAfterTools
  split
  · split
    · exact (Unseen.refl a).tracks
    · rename_i runId hrun
      split
      · rename_i b failure hb
        rw [hb] at hbegins
        exact hbegins.error failure rfl
      · rename_i b effects hb
        rw [hb] at hbegins
        dsimp only
        rw [List.append_assoc]
        exact .after (hbegins.ok effects rfl) (tracks_requestTurn b runId)
  · exact (Unseen.refl a).tracks

theorem tracks_nextAfterResult (a : Agent) (stop : Option RuleStop) :
    Tracks a (a.nextAfterResult stop).2 (a.nextAfterResult stop).1 := by
  unfold nextAfterResult
  split
  · exact (endsRun_behaviorStop a _).tracks
  · split
    · exact .of_outline (outline_withTimeouts 0) (endsRun_fail (a.withTimeouts 0) _ _).tracks
    · exact a.tracks_continueAfterTools

theorem unseen_runPostToolRules (a : Agent) (call : ToolCall) (hasError : Bool) (preview : String) :
    Unseen a (a.runPostToolRules call hasError preview).2.1 (a.runPostToolRules call hasError preview).1 := by
  have h := unseen_runRules (a.withBehavior (a.state.behavior.noteExecutedWith call.name hasError))
    (if hasError then .postToolUseFailure else .postToolUse) (some ⟨call, some preview⟩) (some call.id)
  exact ⟨h.outline, h.silent⟩

/-- The outcome of a call is tracked, once the questions about that call are off the outline. -/
theorem tracks_recordToolResult {m : Agent} (call : ToolCall) (executed hasError : Bool) (preview : String)
    (hanswered : m.outline = a.outline.answered call.id) :
    Tracks a (m.recordToolResult call executed hasError preview).2
      (m.recordToolResult call executed hasError preview).1 := by
  unfold recordToolResult
  generalize hrules : (if executed = true then m.runPostToolRules call hasError preview else (m, [], preview, none)) = r
  have hseen : Unseen m r.2.1 r.1 := by
    split at hrules
    · rw [← hrules]
      exact m.unseen_runPostToolRules call hasError preview
    · rw [← hrules]
      exact .refl m
  obtain ⟨b, effects, preview', stop⟩ := r
  dsimp only [andThen]
  refine Tracks.trans (Tracks.trans (b := a) ?_ ?_) (tracks_nextAfterResult _ stop)
  · exact Unseen.tracks ⟨rfl, hseen.silent⟩
  · refine .noted ?_
    rw [outline_pushMessage, outline_withUsage]
    exact congrArg some (hanswered.symm.trans hseen.outline.symm)

/-- A failed call of an agent whose calls are filed under their own ids. -/
theorem tracks_toolFailed (hkeyed : a.Keyed) (callId : ToolCallId) (error : ToolError) :
    Tracks a (a.toolFailed callId error).2 (a.toolFailed callId error).1 := by
  unfold toolFailed
  split
  · exact (Unseen.refl a).tracks
  · rename_i pending hpending
    refine tracks_recordToolResult pending.call _ _ _ ?_
    rw [hkeyed callId pending hpending]
    rfl

theorem tracks_toolCompleted (hkeyed : a.Keyed) (callId : ToolCallId) (result : ToolResult) :
    Tracks a (a.toolCompleted callId result).2 (a.toolCompleted callId result).1 := by
  unfold toolCompleted
  split
  · exact (Unseen.refl a).tracks
  · rename_i pending hpending
    refine tracks_recordToolResult pending.call _ _ _ ?_
    rw [hkeyed callId pending hpending]
    rfl

theorem tracks_denyTool (hkeyed : a.Keyed) (callId : ToolCallId) (ruleId : Option String) (reason : String) :
    Tracks a (a.denyTool callId ruleId reason).2 (a.denyTool callId ruleId reason).1 :=
  .after (.single rfl rfl) (tracks_toolFailed hkeyed callId (.denied reason))

/-- A check is not seen when it passes, and is tracked when it refuses. -/
structure Checks {α : Type} (a b : Agent) (r : Except (List AgentEffect) α) : Prop where
  ok : ∀ x, r = .ok x → b.outline = a.outline ∧ b.Keyed
  error : ∀ es, r = .error es → Tracks a es b

theorem Checks.passed {α : Type} (hkeyed : a.Keyed) (x : α) : Checks a a (.ok x) :=
  ⟨fun _ _ => ⟨rfl, hkeyed⟩, by simp⟩

theorem Checks.refused {α : Type} {b : Agent} {es : List AgentEffect} (h : Tracks a es b) :
    Checks a b (.error es : Except (List AgentEffect) α) := by
  refine ⟨by simp, ?_⟩
  rintro _ ⟨⟩
  exact h

theorem checks_sessionPermission (hkeyed : a.Keyed) (call : ToolCall) :
    Checks a (a.sessionPermission call).1 (a.sessionPermission call).2 := by
  unfold sessionPermission
  split
  · exact .passed hkeyed _
  · exact .refused (tracks_toolFailed hkeyed _ _)

theorem checks_requireProfileScope (hkeyed : a.Keyed) (call : ToolCall) :
    Checks a (a.requireProfileScope call).1 (a.requireProfileScope call).2 := by
  unfold requireProfileScope
  dsimp only
  split
  · exact .passed hkeyed _
  · exact .refused (tracks_denyTool hkeyed _ _ _)

theorem checks_evaluateRequestRules (hkeyed : a.Keyed) (call : ToolCall) :
    (∀ e ∈ (a.evaluateRequestRules call).2.1, e.isSilent = true) ∧
      Checks a (a.evaluateRequestRules call).1 (a.evaluateRequestRules call).2.2 := by
  have hseen := unseen_runRules (a.withBehavior (a.state.behavior.noteToolRequest call)) .preToolUse
    (some ⟨call, none⟩) (some call.id)
  have hrules := hkeyed.of_pendingTools (a.quiet_requestRules call).pendingTools
  unfold evaluateRequestRules
  dsimp only
  split
  · refine ⟨hseen.silent, ⟨fun _ _ => ⟨hseen.outline, hrules⟩, by simp⟩⟩
  · refine ⟨hseen.silent, .refused ?_⟩
    exact .of_outline hseen.outline ((tracks_denyTool hrules _ _ _).trans (endsRun_behaviorStop _ _).tracks)

theorem checks_approvalFor (hkeyed : a.Keyed) (call : ToolCall) (mode : PermissionMode) (outcome : RuleOutcome) :
    Checks a (a.approvalFor call mode outcome).1 (a.approvalFor call mode outcome).2 := by
  unfold approvalFor
  dsimp only
  split
  · exact .refused (tracks_denyTool hkeyed _ _ _)
  · split
    · exact .passed hkeyed _
    · exact .passed hkeyed _
    · refine .refused ?_
      split
      · exact tracks_toolFailed hkeyed _ _
      · exact tracks_denyTool hkeyed _ _ _

theorem rewriteArguments_outline (hkeyed : a.Keyed) (call : ToolCall) (outcome : RuleOutcome) :
    (a.rewriteArguments call outcome).1.outline = a.outline ∧ (a.rewriteArguments call outcome).1.Keyed ∧
      (a.rewriteArguments call outcome).2.id = call.id := by
  unfold rewriteArguments
  split
  · exact ⟨rfl, hkeyed, rfl⟩
  · dsimp only
    unfold patchPending
    split
    · rename_i pending hpending
      have hid : ({ pending with call.arguments := (rewritten call outcome).arguments } : PendingToolCall).call.id =
          call.id := hkeyed call.id pending hpending
      exact ⟨rfl, hkeyed.insert rfl hid, rfl⟩
    · exact ⟨rfl, hkeyed, rfl⟩

theorem checks_requireToolBudget (hkeyed : a.Keyed) (callId : ToolCallId) :
    Checks a (a.requireToolBudget callId).1 (a.requireToolBudget callId).2 := by
  unfold requireToolBudget
  split
  · rename_i behavior hbehavior
    have hkept : (a.withBehavior behavior).Keyed := hkeyed.of_pendingTools rfl
    exact ⟨fun _ _ => ⟨rfl, hkept⟩, by simp⟩
  · rename_i behavior hbehavior
    have hkept : (a.withBehavior behavior).Keyed := hkeyed.of_pendingTools rfl
    exact .refused (.of_outline (outline_withBehavior behavior) (tracks_denyTool hkept _ _ _))

/-- All the checks of a requested call, one after the other. -/
theorem checks_admitToolCall (hkeyed : a.Keyed) (call : ToolCall) :
    (∀ e ∈ (a.admitToolCall call).2.1, e.isSilent = true) ∧
      Checks a (a.admitToolCall call).1 (a.admitToolCall call).2.2 := by
  have hsilent : ∀ e ∈ ([] : List AgentEffect), e.isSilent = true := fun _ h => absurd h List.not_mem_nil
  have hpermission := checks_sessionPermission hkeyed call
  unfold admitToolCall
  split
  · rename_i b refusal hb
    rw [hb] at hpermission
    exact ⟨hsilent, .refused (hpermission.error refusal rfl)⟩
  · rename_i b mode hb
    rw [hb] at hpermission
    obtain ⟨hob, hkb⟩ := hpermission.ok mode rfl
    have hscope := checks_requireProfileScope hkb call
    split
    · rename_i d refusal hd
      rw [hd] at hscope
      exact ⟨hsilent, .refused (.of_outline hob (hscope.error refusal rfl))⟩
    · rename_i d hd
      rw [hd] at hscope
      obtain ⟨hod, hkd⟩ := hscope.ok () rfl
      have hrules := checks_evaluateRequestRules hkd call
      split
      · rename_i f effects refusal hf
        rw [hf] at hrules
        exact ⟨hrules.1, .refused (.of_outline (hod.trans hob) (hrules.2.error refusal rfl))⟩
      · rename_i f effects outcome hf
        rw [hf] at hrules
        obtain ⟨hof, hkf⟩ := hrules.2.ok outcome rfl
        have happroval := checks_approvalFor hkf call mode outcome
        split
        · rename_i g refusal hg
          rw [hg] at happroval
          exact ⟨hrules.1, .refused (.of_outline (hof.trans (hod.trans hob)) (happroval.error refusal rfl))⟩
        · rename_i g approval hg
          rw [hg] at happroval
          obtain ⟨hog, hkg⟩ := happroval.ok approval rfl
          obtain ⟨hor, hkr, -⟩ := rewriteArguments_outline hkg call outcome
          have hbefore := hor.trans (hog.trans (hof.trans (hod.trans hob)))
          dsimp only
          have hbudget := checks_requireToolBudget hkr (g.rewriteArguments call outcome).2.id
          split
          · rename_i k refusal hk
            rw [hk] at hbudget
            exact ⟨hrules.1, .refused (.of_outline hbefore (hbudget.error refusal rfl))⟩
          · rename_i k hk
            rw [hk] at hbudget
            obtain ⟨hok, hkk⟩ := hbudget.ok () rfl
            exact ⟨hrules.1, ⟨fun _ _ => ⟨hok.trans hbefore, hkk⟩, by simp⟩⟩

theorem tracks_executeNow {from_ : AgentStatus} (hfrom : a.state.status = from_) (call : ToolCall) :
    Tracks a (a.executeNow from_ call).2 (a.executeNow from_ call).1 :=
  (Tracks.change hfrom rfl : Tracks a _ (a.withStatus .executing)).effect rfl

theorem tracks_askPermission {from_ : AgentStatus} (hfrom : a.state.status = from_) (call : ToolCall) :
    Tracks a (a.askPermission from_ call).2 (a.askPermission from_ call).1 := by
  have hchange : Tracks a [stateChanged from_ .waitingForPermission] (a.withStatus .waitingForPermission) :=
    .change hfrom rfl
  have hasked : Tracks (a.withStatus .waitingForPermission)
      [.emit (.permissionRequested ⟨(a.withStatus .waitingForPermission).nextPermissionId.2, call, a.id⟩)]
      (a.askPermission from_ call).1 := .noted rfl
  exact (hchange.trans hasked).effect rfl

/-- A requested call is tracked through every way it can go: refused, executed or asked about. -/
theorem tracks_toolRequested (hkeyed : a.Keyed) (call : ToolCall) :
    Tracks a (a.toolRequested call).2 (a.toolRequested call).1 := by
  obtain ⟨-, startedAt, hcontrol⟩ := a.recordToolRequest_spec call
  have hrecorded : Unseen a (a.recordToolRequest call).2 (a.recordToolRequest call).1 :=
    .single (a.outline_pushToolUse call) rfl
  have hkept : (a.recordToolRequest call).1.Keyed := hkeyed.insert (congrArg Control.pendingTools hcontrol) rfl
  obtain ⟨hsilent, hchecks⟩ := checks_admitToolCall hkept call
  unfold toolRequested
  dsimp only [andThen]
  generalize (a.recordToolRequest call).1.admitToolCall call = r at hsilent hchecks ⊢
  obtain ⟨m, effects, r⟩ := r
  refine .after hrecorded ?_
  cases r with
  | error refusal => exact Tracks.trans (Unseen.tracks ⟨rfl, hsilent⟩) (hchecks.error refusal rfl)
  | ok admitted =>
    obtain ⟨call', approval⟩ := admitted
    have ho := (hchecks.ok _ rfl).1
    have hfrom : m.state.status = a.state.status := congrArg Outline.status (ho.trans hrecorded.outline)
    refine .after (b := m) ⟨ho, hsilent⟩ ?_
    cases approval with
    | allow => exact tracks_executeNow hfrom call'
    | ask => exact tracks_askPermission hfrom call'

theorem tracks_denied (hkeyed : a.Keyed) {id : PermissionId} {callId : ToolCallId}
    (hasked : a.state.pendingPermissions.lookup id = some callId) (hpending : a.IsPending callId) :
    Tracks a (a.permissionResolved id .denied).2 (a.permissionResolved id .denied).1 := by
  obtain ⟨pending, hp⟩ := Option.ne_none_iff_exists'.mp hpending
  have hp' : (a.withPendingPermissions (a.state.pendingPermissions.erase id)).state.pendingTools.lookup callId =
      some pending := hp
  simp only [permissionResolved, hasked, hp', toolFailed]
  refine tracks_recordToolResult pending.call _ _ _ ?_
  rw [hkeyed callId pending hp]
  have hrest : Table.retain (fun _ pending => pending != callId) (a.state.pendingPermissions.erase id) =
      Table.retain (fun _ pending => pending != callId) a.state.pendingPermissions :=
    Table.retain_erase hasked (by simp)
  exact congrArg (fun permissions => { a.outline with pendingPermissions := permissions }) hrest

end Agent

end

end RustyCore
