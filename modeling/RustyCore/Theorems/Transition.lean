import RustyCore.Theorems.Admission
import RustyCore.Theorems.Finishing

/-! What one command can do. `Transition` lists the outcomes of every command with their guards; the
    invariants and the laws over runs are proved by cases on it. -/

namespace RustyCore

section

variable [Externals]

namespace Agent

def startInput (a : Agent) : AgentCommand → Option (Agent × UserInput)
  | .startRun input | .steer input | .followUp input => if a.state.activeRun.isSome then none else some (a, input)
  | .startNextQueuedRun =>
    match a.state.queuedInputs with
    | [] => none
    | input :: rest => some (a.withQueuedInputs rest, input)
  | _ => none

def acceptsRun (a : Agent) (input : UserInput) : Bool :=
  (validateTranscript a.state.messages).isOk && (validateAttachments 0 input.attachments).isOk

def turnBegins (a : Agent) : Bool := a.beginTurn.2.isOk

def stoppedAtStart (a : Agent) (input : UserInput) : Bool :=
  let r := (a.openRun input).1.runRules .runStart none none
  r.2.2.stop.isSome || !r.1.turnBegins

theorem aligned_openRun (a : Agent) (input : UserInput) : Aligned a (a.openRun input).1 := by
  have h := ((a.kept_behavior a.state.behavior.resetRun).trans (kept_nextRunId _)).trans
    (kept_pushMessage _ .user (userContent input))
  exact ⟨h.id, h.sessionId, h.parentId, h.capabilities, h.sequence⟩

def startEffects (from_ : AgentStatus) (runId : RunId) (request : ExecutionRequest) : List AgentEffect :=
  [stateChanged from_ .preparingContext, .executeBackend request, .emit (.runStarted runId)]

theorem beginRun_cases (a : Agent) (input : UserInput) :
    a.stoppedAtStart input = true ∧ Fails (a.openRun input).1 (a.beginRun input).2 (a.beginRun input).1 ∨
      a.stoppedAtStart input = false ∧ ∃ b es, Quiet (a.openRun input).1 es b ∧
        a.beginRun input = ((b.executionRequest (a.openRun input).2).1,
          es ++ startEffects a.state.status (a.openRun input).2 (b.executionRequest (a.openRun input).2).2) := by
  unfold beginRun stoppedAtStart turnBegins
  dsimp only
  have hrules := quiet_runRules (a.openRun input).1 .runStart none none
  split
  · rename_i stop hstop
    exact .inl ⟨by simp [hstop], .intro hrules _ _⟩
  · rename_i hstop
    split
    · rename_i b failure hb
      obtain ⟨hmoves, hfailed⟩ := beginTurn_error hb
      refine .inl ⟨by simp [hb, Except.isOk, Except.toBool], .after hrules (hmoves.fails hfailed ?_)⟩
      rw [hrules.status]
      exact nofun
    · rename_i b effects hb
      refine .inr ⟨by simp [hb, hstop, Except.isOk, Except.toBool], b, _, hrules.trans (beginTurn_ok hb), rfl⟩

end Agent

structure Turns (from_ to_ : AgentStatus) (es : List AgentEffect) : Prop where
  changes : stateChanges es = if from_ ≠ to_ then [(from_, to_)] else []
  backend : backendRequests es = []
  tools : toolRequests es = []
  permissions : permissionRequests es = []
  results : runResults es = []

omit [Externals] in
theorem turns_changedTo (from_ to_ : AgentStatus) {es : List AgentEffect} (h : Notices es) :
    Turns from_ to_ (Agent.changedTo from_ to_ ++ es) := by
  by_cases hne : from_ = to_
  · have hnil : Agent.changedTo from_ to_ = [] := by simp [Agent.changedTo, hne]
    rw [hnil]
    exact ⟨by simp [h.stateChanges_eq, hne], h.backendRequests_eq, h.toolRequests_eq, h.permissionRequests_eq,
      h.runResults_eq⟩
  · have hone : Agent.changedTo from_ to_ = [Agent.stateChanged from_ to_] := by simp [Agent.changedTo, hne]
    rw [hone]
    constructor
    · rw [stateChanges_append, h.stateChanges_eq, if_pos hne]
      rfl
    · rw [backendRequests_append, h.backendRequests_eq]
      rfl
    · rw [toolRequests_append, h.toolRequests_eq]
      rfl
    · rw [permissionRequests_append, h.permissionRequests_eq]
      rfl
    · rw [runResults_append, h.runResults_eq]
      rfl

def ExecutionEvent.streamStatus : ExecutionEvent → Option AgentStatus
  | .textDelta _ _ | .toolCallCompleted _ _ _ => some .streaming
  | .toolCallStarted _ _ => some .executing
  | _ => none

namespace AgentCommand

def outcomeOf : AgentCommand → Option ToolCallId
  | .toolCompleted callId _ | .toolFailed callId _ => some callId
  | _ => none

def isChild : AgentCommand → Bool
  | .childSpawned _ _ | .childCompleted _ _ | .childFailed _ _ => true
  | _ => false

end AgentCommand

/-- Every outcome of a command on the agent `a`, with the effects and the agent it leaves. -/
inductive Transition (a : Agent) : AgentCommand → List AgentEffect → Agent → Prop
  /-- The command is ignored, or it only touches what the control part does not see. -/
  | quiet {c es b} (h : Quiet a es b) : Transition a c es b
  | queue {c input} (hnone : a.startInput c = none) (hrun : a.state.activeRun ≠ none) :
      Transition a c [] (a.withQueuedInputs (a.state.queuedInputs ++ [input]))
  | reject {c m b input es} (hstart : a.startInput c = some (m, input)) (hinvalid : m.acceptsRun input = false)
      (hfail : Fails m es b) :
      Transition a c es b
  | stop {c m b input es} (hstart : a.startInput c = some (m, input)) (hvalid : m.acceptsRun input = true)
      (hstop : m.takePendingSwitch.1.stoppedAtStart input = true)
      (hfail : Fails (m.takePendingSwitch.1.openRun input).1 es b) :
      Transition a c (m.takePendingSwitch.2 ++ es) b
  | start {c m b input es} (hstart : a.startInput c = some (m, input)) (hvalid : m.acceptsRun input = true)
      (hgo : m.takePendingSwitch.1.stoppedAtStart input = false)
      (hquiet : Quiet (m.takePendingSwitch.1.openRun input).1 es b) :
      Transition a c
        (m.takePendingSwitch.2 ++ (es ++ Agent.startEffects m.takePendingSwitch.1.state.status
          (m.takePendingSwitch.1.openRun input).2 (b.executionRequest (m.takePendingSwitch.1.openRun input).2).2))
        (b.executionRequest (m.takePendingSwitch.1.openRun input).2).1
  | stream {runId event to_ es b} (hrun : a.state.activeRun = some runId) (hevent : event.streamStatus = some to_)
      (hkept : Kept (a.withStatus to_) b) (hturns : Turns a.state.status to_ es) :
      Transition a (.backendEvent runId event) es b
  | refuse {runId requestId call es b} (hrun : a.state.activeRun = some runId)
      (h : Agent.Refuses (a.stopsRequest call) (a.forgetCall call.id) es b) :
      Transition a (.backendEvent runId (.toolCallRequested requestId call)) es b
  | execute {runId requestId call call' m es} (hrun : a.state.activeRun = some runId)
      (hadmitted : a.Admitted call call' m) (hnotices : Notices es) (hauthorized : a.Authorized call .allow) :
      Transition a (.backendEvent runId (.toolCallRequested requestId call))
        (es ++ (m.executeNow a.state.status call').2) (m.executeNow a.state.status call').1
  | ask {runId requestId call call' m es} (hrun : a.state.activeRun = some runId)
      (hadmitted : a.Admitted call call' m) (hnotices : Notices es) (hauthorized : a.Authorized call .ask) :
      Transition a (.backendEvent runId (.toolCallRequested requestId call))
        (es ++ (m.askPermission a.state.status call').2) (m.askPermission a.state.status call').1
  | cutOff {runId requestId result es b} (hrun : a.state.activeRun = some runId)
      (hreason : Agent.outputLimitReasons.contains result.finishReason = true)
      (h : Fails (a.withInFlight false) es b) :
      Transition a (.backendEvent runId (.completed requestId result)) es b
  | toolUse {runId requestId result es b} (hrun : a.state.activeRun = some runId)
      (hreason : result.finishReason = "tool_use") (h : Goes (a.withInFlight false) es b) :
      Transition a (.backendEvent runId (.completed requestId result)) es b
  | propose {runId requestId result es b} (hrun : a.state.activeRun = some runId)
      (hreason : result.finishReason ≠ "tool_use") (h : Decides runId (a.withInFlight false) es b) :
      Transition a (.backendEvent runId (.completed requestId result)) es b
  | error {runId requestId failure es b} (hrun : a.state.activeRun = some runId) (h : Fails a es b) :
      Transition a (.backendEvent runId (.error requestId failure)) es b
  | outcome {c callId es b} (houtcome : c.outcomeOf = some callId) (hpending : a.IsPending callId)
      (hgo : a.outcomeEnds c = false) (h : Goes (a.forgetCall callId) es b) : Transition a c es b
  | halt {c callId es b} (houtcome : c.outcomeOf = some callId) (hpending : a.IsPending callId)
      (hends : a.outcomeEnds c = true) (h : Fails (a.forgetCall callId) es b) : Transition a c es b
  | drop {id decision callId} (hasked : a.state.pendingPermissions.lookup id = some callId)
      (hgone : a.state.pendingTools.lookup callId = none) :
      Transition a (.permissionResolved id decision) []
        (a.withPendingPermissions (a.state.pendingPermissions.erase id))
  | approve {id callId pending} (hasked : a.state.pendingPermissions.lookup id = some callId)
      (hpending : a.state.pendingTools.lookup callId = some pending) :
      Transition a (.permissionResolved id .approved)
        [Agent.stateChanged .waitingForPermission .executing, .executeTool ⟨pending.call, .allow⟩]
        ((a.withPendingPermissions (a.state.pendingPermissions.erase id)).withStatus .executing)
  | deny {id callId es b} (hasked : a.state.pendingPermissions.lookup id = some callId)
      (hpending : a.IsPending callId)
      (h : Goes ((a.withPendingPermissions (a.state.pendingPermissions.erase id)).forgetCall callId) es b) :
      Transition a (.permissionResolved id .denied) es b
  | children {c children to_ es b} (hchild : c.isChild = true)
      (hto : to_ = a.state.status ∨ to_ = .waitingForChildren ∨ to_ = .idle ∧ a.state.status = .waitingForChildren)
      (hkept : Kept ((a.withChildren children).withStatus to_) b) (hturns : Turns a.state.status to_ es) :
      Transition a c es b
  | cancel (hlive : a.nothingToCancel = false) : Transition a .cancel a.cancel.2 a.cancel.1
  | pause (hlive : a.state.status ∉ [.paused, .cancelled, .failed, .verifying]) :
      Transition a .pause [Agent.stateChanged a.state.status .paused] (a.withStatus .paused)
  | reissue {runId} (hpaused : a.state.status = .paused) (hrun : a.state.activeRun = some runId) :
      Transition a .resume
        [Agent.stateChanged .paused .waitingForBackend,
          .executeBackend ((a.withStatus .waitingForBackend).buildRequest runId true).2]
        ((a.withStatus .waitingForBackend).buildRequest runId true).1
  | wake (hpaused : a.state.status = .paused) (hrun : a.state.activeRun = none) :
      Transition a .resume [Agent.stateChanged .paused .idle] (a.withStatus .idle)
  | evaluated {runId attempt verdicts usage es b} (hstatus : a.state.status = .verifying)
      (hrun : a.state.activeRun = some runId) (h : Decides runId a es b) :
      Transition a (.completionEvaluated runId attempt verdicts usage) es b

namespace Agent

variable {input : UserInput} {c : AgentCommand}

theorem startInput_cases {a m : Agent}
    (h : a.startInput c = some (m, input)) : (a.state.activeRun = none ∧ m = a) ∨
      ∃ rest, c = .startNextQueuedRun ∧ a.state.queuedInputs = input :: rest ∧ m = a.withQueuedInputs rest := by
  cases c with
  | startRun _ | steer _ | followUp _ =>
    simp only [startInput] at h
    split at h
    · cases h
    · rename_i hidle
      cases h
      exact .inl ⟨by simpa using hidle, rfl⟩
  | startNextQueuedRun =>
    simp only [startInput] at h
    split at h
    · cases h
    · rename_i rest hqueue
      cases h
      exact .inr ⟨rest, rfl, hqueue, rfl⟩
  | _ => cases h

theorem startInput_status {a m : Agent}
    (h : a.startInput c = some (m, input)) : m.state.status = a.state.status := by
  obtain ⟨-, rfl⟩ | ⟨rest, -, -, rfl⟩ := startInput_cases h
  · rfl
  · rfl

theorem apply_of_startInput {a m : Agent}
    (h : a.startInput c = some (m, input)) : a.apply c = m.startRun input := by
  cases c with
  | startRun _ | steer _ | followUp _ =>
    simp only [startInput] at h
    split at h
    · cases h
    · rename_i hidle
      cases h
      simp only [apply, startOrQueue, if_neg hidle]
  | startNextQueuedRun =>
    simp only [startInput] at h
    split at h
    · cases h
    · rename_i hqueue
      cases h
      simp only [apply, startNextQueuedRun, hqueue]
  | _ => cases h

variable {a : Agent}

theorem startRun_of_acceptsRun (h : a.acceptsRun input = true) :
    a.startRun input = andThen a.takePendingSwitch fun a => a.beginRun input := by
  unfold acceptsRun at h
  unfold startRun
  rcases hmessages : validateTranscript a.state.messages with e | ⟨⟩
  · simp [hmessages, Except.isOk, Except.toBool] at h
  · rcases hattachments : validateAttachments 0 input.attachments with e | ⟨⟩
    · simp [hattachments, Except.isOk, Except.toBool] at h
    · rfl

theorem transition_startRun {a m : Agent}
    (hstart : a.startInput c = some (m, input)) : Transition a c (m.startRun input).2 (m.startRun input).1 := by
  unfold startRun
  split
  · rename_i failure hinvalid
    exact .reject hstart (by simp [acceptsRun, hinvalid, Except.isOk, Except.toBool]) (.now _ _ _)
  · rename_i htranscript
    split
    · rename_i failure hinvalid
      exact .reject hstart (by simp [acceptsRun, hinvalid, Except.isOk, Except.toBool]) (.now _ _ _)
    · rename_i hattachments
      have hvalid : m.acceptsRun input = true := by
        simp [acceptsRun, htranscript, hattachments, Except.isOk, Except.toBool]
      rcases m.takePendingSwitch.1.beginRun_cases input with ⟨hstop, hfail⟩ | ⟨hgo, b, es, hquiet, hbegin⟩
      · exact .stop hstart hvalid hstop hfail
      · simp only [andThen, hbegin]
        exact .start hstart hvalid hgo hquiet

theorem transition_startOrQueue
    (hstart : a.startInput c = if a.state.activeRun.isSome then none else some (a, input)) :
    Transition a c (a.startOrQueue input).2 (a.startOrQueue input).1 := by
  unfold startOrQueue
  split
  · rename_i hactive
    refine .queue (by rw [hstart, if_pos hactive]) ?_
    intro hnone
    simp [hnone] at hactive
  · rename_i hactive
    exact transition_startRun (by rw [hstart, if_neg hactive])

theorem transition_startNextQueuedRun (a : Agent) :
    Transition a .startNextQueuedRun a.startNextQueuedRun.2 a.startNextQueuedRun.1 := by
  unfold startNextQueuedRun
  split
  · exact .quiet (Quiet.refl a)
  · rename_i input rest hqueue
    exact transition_startRun (by simp [startInput, hqueue])

theorem kept_withInFlight_discard (a : Agent) (usage : UsageLedger) :
    Kept (a.withInFlight false) ((a.withInFlight false).discardTrailingEmptyAssistantMessage.withUsage usage) :=
  (kept_discardTrailing _).trans (kept_usage _ usage)

theorem transition_completed {runId : RunId} (hrun : a.state.activeRun = some runId)
    (requestId : RequestId) (result : ExecutionResult) :
    Transition a (.backendEvent runId (.completed requestId result)) (a.completed runId result).2
      (a.completed runId result).1 := by
  unfold completed
  dsimp only
  split
  · rename_i hreason
    exact .cutOff hrun hreason (.keep (a.kept_withInFlight_discard _) (.now _ _ _))
  · split
    · rename_i hreason
      exact .toolUse hrun hreason (.keep (a.kept_withInFlight_discard _) (goes_continueAfterTools _))
    · rename_i hreason
      exact .propose hrun hreason (.keep (a.kept_withInFlight_discard _) (decides_proposeCompletion _ runId _))

theorem transition_handleBackendEvent {runId : RunId} (hrun : a.state.activeRun = some runId)
    (event : ExecutionEvent) :
    Transition a (.backendEvent runId event) (a.handleBackendEvent runId event).2
      (a.handleBackendEvent runId event).1 := by
  cases event with
  | textDelta requestId delta =>
    exact .stream hrun rfl (kept_appendAssistantText _ delta) (turns_changedTo _ _ (Notices.single rfl))
  | reasoningDelta requestId delta => exact .quiet (a.kept_assistantMessageId.emit rfl)
  | toolCallRequested requestId call =>
    rcases a.toolRequested_cases call with h | ⟨call', m, es, hadmitted, hnotices, h⟩
    · exact .refuse hrun h
    · rcases h with ⟨hauthorized, heq⟩ | ⟨hauthorized, heq⟩
      · simp only [handleBackendEvent, heq]
        exact .execute hrun hadmitted hnotices hauthorized
      · simp only [handleBackendEvent, heq]
        exact .ask hrun hadmitted hnotices hauthorized
  | toolCallStarted requestId call =>
    refine .stream hrun rfl (kept_pushToolUse _ call) (turns_changedTo _ _ ?_)
    intro e he
    simp only [List.mem_cons, List.not_mem_nil, or_false] at he
    rcases he with rfl | rfl <;> rfl
  | toolCallCompleted requestId callId result =>
    exact .stream hrun rfl ((kept_usage _ _).trans (kept_pushMessage _ _ _)) (turns_changedTo _ _ (Notices.single rfl))
  | usageUpdate requestId usage => exact .quiet (a.kept_nextTimestamp.emit rfl)
  | completed requestId result => exact transition_completed hrun requestId result
  | error requestId failure => exact .error hrun (.now _ _ _)

theorem transition_backendEvent (a : Agent) (runId : RunId) (event : ExecutionEvent) :
    Transition a (.backendEvent runId event) (a.backendEvent runId event).2 (a.backendEvent runId event).1 := by
  unfold backendEvent
  split
  · exact .quiet (Quiet.refl a)
  · rename_i hrun
    exact transition_handleBackendEvent (not_not.mp hrun) event

theorem apply_approved {id : PermissionId} {callId : ToolCallId} {pending : PendingToolCall}
    (hasked : a.state.pendingPermissions.lookup id = some callId)
    (hpending : a.state.pendingTools.lookup callId = some pending) : a.apply (.permissionResolved id .approved) =
      ((a.withPendingPermissions (a.state.pendingPermissions.erase id)).withStatus .executing,
        [stateChanged .waitingForPermission .executing, .executeTool ⟨pending.call, .allow⟩]) := by
  simp [apply, permissionResolved, hasked, withPendingPermissions, hpending]

theorem transition_permissionResolved (a : Agent) (id : PermissionId) (decision : PermissionDecision) :
    Transition a (.permissionResolved id decision) (a.permissionResolved id decision).2
      (a.permissionResolved id decision).1 := by
  unfold permissionResolved
  split
  · exact .quiet (Quiet.refl a)
  · rename_i callId hasked
    dsimp only
    split
    · rename_i hgone
      exact .drop hasked hgone
    · rename_i pending hpending
      have hp : a.state.pendingTools.lookup callId = some pending := hpending
      cases decision with
      | approved => exact .approve hasked hp
      | denied =>
        refine .deny hasked (by simp [IsPending, hp]) (goes_toolFailed ?_ rfl)
        simp [IsPending, withPendingPermissions, hp]

theorem transition_childDone {a m : Agent} (hchild : c.isChild = true) (hkept : Kept a m)
    (agentId : AgentId) (outcome : AgentOutcome) :
    Transition a c (m.childDone agentId outcome).2 (m.childDone agentId outcome).1 := by
  have hcontrol : ∀ to_, Kept ((a.withChildren (m.state.children.filter (· != agentId))).withStatus to_)
      ((m.withChildren (m.state.children.filter (· != agentId))).withStatus to_) := by
    intro to_
    refine ⟨⟨hkept.id, hkept.sessionId, hkept.parentId, hkept.capabilities, hkept.sequence⟩, ?_⟩
    simp only [control, withStatus, withChildren, hkept.activeRun, hkept.backendInFlight, hkept.queuedInputs,
      hkept.pendingTools, hkept.pendingPermissions]
  unfold childDone
  dsimp only
  split
  · rename_i hlast
    have hwaiting : a.state.status = .waitingForChildren := hkept.status.symm.trans hlast.2
    refine .children hchild (.inr (.inr ⟨rfl, hwaiting⟩)) (hcontrol .idle) ?_
    rw [hwaiting]
    exact ⟨rfl, rfl, rfl, rfl, rfl⟩
  · have hsame := hcontrol a.state.status
    rw [show (m.withChildren (m.state.children.filter (· != agentId))).withStatus a.state.status =
      m.withChildren (m.state.children.filter (· != agentId)) by rw [← hkept.status]; rfl] at hsame
    exact .children hchild (.inl rfl) hsame ⟨by simp [stateChanges, AgentEffect.stateChange?], rfl, rfl, rfl, rfl⟩

theorem transition_childSpawned (a : Agent) (agentId : AgentId) (awaiting : Bool) :
    Transition a (.childSpawned agentId awaiting) (a.childSpawned agentId awaiting).2
      (a.childSpawned agentId awaiting).1 := by
  unfold childSpawned
  generalize hm : (if a.state.children.contains agentId = true then a
    else a.withChildren (a.state.children ++ [agentId])) = m
  obtain ⟨children, rfl⟩ : ∃ children, m = a.withChildren children := by
    split at hm
    · exact ⟨a.state.children, hm.symm⟩
    · exact ⟨_, hm.symm⟩
  dsimp only
  split
  · have hsame : Kept ((a.withChildren children).withStatus a.state.status) (a.withChildren children) := Kept.refl _
    exact .children rfl (.inl rfl) hsame ⟨by simp [stateChanges], rfl, rfl, rfl, rfl⟩
  · rename_i hturn
    refine .children rfl (.inr (.inl rfl)) (Kept.refl _) ⟨?_, rfl, rfl, rfl, rfl⟩
    have hne : a.state.status ≠ .waitingForChildren := by
      intro hwaiting
      exact hturn (by simp [withChildren, hwaiting])
    rw [if_pos hne]
    rfl

theorem cancel_effects (hlive : a.nothingToCancel = false) :
    ∃ ns, Notices ns ∧ a.cancel.2 = ns ++ [stateChanged a.state.status .cancelled, .emit (.completed .cancelled)] := by
  unfold cancel
  simp only [hlive, Bool.false_eq_true, if_false]
  refine ⟨_, ?_, rfl⟩
  refine Notices.append (Notices.append ?_ ?_) ?_
  · cases a.state.activeRun with
    | none => exact Notices.nil
    | some runId =>
      intro e he
      rcases List.mem_cons.mp he with rfl | he
      · rfl
      · split at he
        · rw [List.mem_singleton.mp he]
          rfl
        · cases he
  · intro e he
    obtain ⟨callId, -, rfl⟩ := List.mem_map.mp he
    rfl
  · intro e he
    obtain ⟨agentId, -, rfl⟩ := List.mem_map.mp he
    rfl

theorem cancel_fst (hlive : a.nothingToCancel = false) : a.cancel.1 =
    { a with
      state.status := .cancelled
      state.activeRun := none
      state.backendInFlight := false
      state.pendingTools := ∅
      state.pendingPermissions := ∅
      state.children := [] } := by
  simp only [cancel, hlive, Bool.false_eq_true, if_false]

theorem control_cancel (hlive : a.nothingToCancel = false) : a.cancel.1.control =
    { a.control with
      status := .cancelled, activeRun := none, backendInFlight := false, pendingTools := ∅, pendingPermissions := ∅,
      children := [] } := by
  rw [cancel_fst hlive]
  rfl

theorem cancel_frame (a : Agent) : a.cancel.1.state.messages = a.state.messages ∧
    a.cancel.1.state.behavior = a.state.behavior ∧ a.cancel.1.state.pendingProfile = a.state.pendingProfile ∧
    a.cancel.1.state.activeRun = none := by
  cases hnothing : a.nothingToCancel with
  | false =>
    rw [cancel_fst hnothing]
    exact ⟨rfl, rfl, rfl, rfl⟩
  | true =>
    have hcancel : a.cancel = (a, []) := by simp [cancel, hnothing]
    rw [hcancel]
    refine ⟨rfl, rfl, rfl, ?_⟩
    simp only [nothingToCancel, Bool.and_eq_true, Option.isNone_iff_eq_none] at hnothing
    exact hnothing.2

theorem runResults_cancel (a : Agent) : runResults a.cancel.2 = [] := by
  cases hnothing : a.nothingToCancel with
  | false =>
    obtain ⟨ns, hns, heffects⟩ := cancel_effects hnothing
    rw [heffects, runResults_append, hns.runResults_eq]
    rfl
  | true => simp [cancel, hnothing, runResults]

theorem transition_cancel (a : Agent) : Transition a .cancel a.cancel.2 a.cancel.1 := by
  cases hnothing : a.nothingToCancel with
  | false => exact .cancel hnothing
  | true =>
    have hcancel : a.cancel = (a, []) := by simp [cancel, hnothing]
    rw [hcancel]
    exact .quiet (Quiet.refl a)

theorem transition_pause (a : Agent) : Transition a .pause a.pause.2 a.pause.1 := by
  unfold pause
  split
  · exact .quiet (Quiet.refl a)
  · exact .quiet (Quiet.refl a)
  · exact .quiet (Quiet.refl a)
  · exact .quiet (Quiet.refl a)
  · rename_i hpaused hcancelled hfailed hverifying
    refine .pause ?_
    simp only [List.mem_cons, List.not_mem_nil, or_false]
    rintro (h | h | h | h)
    · exact hpaused h
    · exact hcancelled h
    · exact hfailed h
    · exact hverifying h

theorem transition_resume (a : Agent) : Transition a .resume a.resume.2 a.resume.1 := by
  unfold resume
  split
  · exact .quiet (Quiet.refl a)
  · rename_i hpaused
    split
    · rename_i runId hrun
      exact .reissue (not_not.mp hpaused) hrun
    · rename_i hrun
      exact .wake (not_not.mp hpaused) hrun

theorem quiet_setBehaviorProfile (a : Agent) (profile : Value) (library : List Value) (allowCommands : Bool) :
    Quiet a (a.setBehaviorProfile profile library allowCommands).2
      (a.setBehaviorProfile profile library allowCommands).1 := by
  have htrusted := a.kept_behavior (a.state.behavior.withCommandsTrusted allowCommands)
  unfold setBehaviorProfile
  dsimp only
  split
  · exact htrusted.quiet
  · split
    · exact (htrusted.trans (kept_pendingProfile _ _)).quiet
    · rename_i hidle
      refine htrusted.quiet.trans (quiet_applySwitch _ _ ?_)
      simpa using hidle

theorem apply_transition (a : Agent) (c : AgentCommand) : Transition a c (a.apply c).2 (a.apply c).1 := by
  cases c with
  | startRun | steer | followUp => exact transition_startOrQueue rfl
  | startNextQueuedRun => exact a.transition_startNextQueuedRun
  | backendEvent runId event => exact a.transition_backendEvent runId event
  | toolCompleted callId result =>
    by_cases hpending : a.IsPending callId
    · cases hends : a.outcomeEnds (.toolCompleted callId result) with
      | true => exact .halt rfl hpending hends ((toolCompleted_spec result hpending).1 hends)
      | false => exact .outcome rfl hpending hends ((toolCompleted_spec result hpending).2 hends)
    · simp only [apply, toolCompleted, not_not.mp hpending]
      exact .quiet (Quiet.refl a)
  | toolFailed callId error =>
    by_cases hpending : a.IsPending callId
    · cases hends : a.outcomeEnds (.toolFailed callId error) with
      | true => exact .halt rfl hpending hends ((toolFailed_spec error hpending).1 hends)
      | false => exact .outcome rfl hpending hends ((toolFailed_spec error hpending).2 hends)
    · simp only [apply, toolFailed, not_not.mp hpending]
      exact .quiet (Quiet.refl a)
  | permissionResolved id decision => exact a.transition_permissionResolved id decision
  | spawnChild spec => exact .quiet ((Kept.refl a).emit rfl)
  | childSpawned agentId awaiting => exact a.transition_childSpawned agentId awaiting
  | childCompleted agentId result =>
    have hkept := a.kept_usage { a.usage with childUsage := a.usage.childUsage.insert agentId result.usage }
    exact transition_childDone rfl hkept agentId .success
  | childFailed agentId error =>
    have hkept : Kept a (a.withLastError (some error)) := kept_of_eq rfl rfl rfl rfl rfl rfl
    exact transition_childDone rfl hkept agentId .failed
  | cancel => exact a.transition_cancel
  | pause => exact a.transition_pause
  | resume => exact a.transition_resume
  | configureExecution params =>
    have hkept : Kept a (a.configureExecution params).1 := kept_of_eq rfl rfl rfl rfl rfl rfl
    exact .quiet hkept.quiet
  | setBehaviorProfile profile library allowCommands =>
    exact .quiet (a.quiet_setBehaviorProfile profile library allowCommands)
  | completionEvaluated runId attempt verdicts usage =>
    rcases a.completionEvaluated_cases runId attempt verdicts usage with h | ⟨hstatus, hrun, h⟩
    · exact .quiet h
    · exact .evaluated hstatus hrun h

end Agent

theorem Transition.aligned {a b : Agent} {c : AgentCommand} {es : List AgentEffect} (h : Transition a c es b) :
    Aligned a b := by
  have hstart : ∀ {m : Agent} {input : UserInput}, a.startInput c = some (m, input) → Aligned a m := by
    intro m input hstart
    obtain ⟨-, rfl⟩ | ⟨rest, -, -, rfl⟩ := Agent.startInput_cases hstart
    · exact Aligned.refl _
    · exact ⟨rfl, rfl, rfl, rfl, fun h => ⟨le_refl _, h⟩⟩
  cases h with
  | quiet h => exact h.toAligned
  | queue => exact ⟨rfl, rfl, rfl, rfl, fun h => ⟨le_refl _, h⟩⟩
  | reject hm hinvalid hfail => exact (hstart hm).trans hfail.aligned
  | @stop _ m _ input _ hm hvalid hstop hfail =>
    exact (((hstart hm).trans m.moves_takePendingSwitch.aligned).trans (Agent.aligned_openRun _ input)).trans hfail.aligned
  | @start _ m n input _ hm hvalid hgo hquiet =>
    exact ((((hstart hm).trans m.moves_takePendingSwitch.aligned).trans (Agent.aligned_openRun _ input)).trans
      hquiet.toAligned).trans (n.kept_buildRequest _ false).1
  | stream hrun hevent hkept => exact ⟨hkept.id, hkept.sessionId, hkept.parentId, hkept.capabilities, hkept.sequence⟩
  | @refuse _ _ call _ _ hrun h =>
    generalize a.stopsRequest call = stops at h
    cases h with
    | denied h => exact (a.aligned_forgetCall call.id).trans h.moves.aligned
    | stopped h code message =>
      exact ((a.aligned_forgetCall call.id).trans h.moves.aligned).trans (Agent.aligned_fail _ code message)
  | execute hrun hadmitted =>
    have h := hadmitted.aligned
    exact ⟨h.id, h.sessionId, h.parentId, h.capabilities, h.sequence⟩
  | @ask _ _ _ _ m _ hrun hadmitted =>
    have hnext := m.kept_takeSequence.toAligned
    exact hadmitted.aligned.trans ⟨hnext.id, hnext.sessionId, hnext.parentId, hnext.capabilities, hnext.sequence⟩
  | cutOff hrun hreason h | error hrun h | halt houtcome hpending hends h =>
    exact ⟨h.aligned.id, h.aligned.sessionId, h.aligned.parentId, h.aligned.capabilities, h.aligned.sequence⟩
  | toolUse hrun hreason h | outcome houtcome hpending hgo h | deny hasked hpending h =>
    have h := h.moves.aligned
    exact ⟨h.id, h.sessionId, h.parentId, h.capabilities, h.sequence⟩
  | propose hrun hreason h | evaluated hstatus hrun h =>
    exact ⟨h.aligned.id, h.aligned.sessionId, h.aligned.parentId, h.aligned.capabilities, h.aligned.sequence⟩
  | children hchild hto hkept => exact ⟨hkept.id, hkept.sessionId, hkept.parentId, hkept.capabilities, hkept.sequence⟩
  | cancel hlive =>
    rw [Agent.cancel_fst hlive]
    exact ⟨rfl, rfl, rfl, rfl, fun h => ⟨le_refl _, h⟩⟩
  | drop | approve | pause | wake => exact ⟨rfl, rfl, rfl, rfl, fun h => ⟨le_refl _, h⟩⟩
  | reissue => exact ⟨rfl, rfl, rfl, rfl, saturatingAdd_sequence⟩

end

namespace Sample

/-- The libraries, as far as the runs below need them: ASCII lower case and the `Debug` form of a text
    without characters to escape. -/
scoped instance externals : Externals where
  decodeProfile _ := none
  encodeProfile _ := []
  parseJson _ := none
  toLowercase text := String.ofList (text.toList.map Char.toLower)
  escapeDebug text := "\"" ++ text ++ "\""
  toRfc3339 _ := "1970-01-01T00:00:00+00:00"
  hashText text := text.toList.foldl (fun hash c => (hash * 31 + c.toNat) % 2 ^ 64) 7

/-- A session that offers one tool, `bash`, under the given permission. -/
def capabilities (permission : PermissionMode) : AgentCapabilities where
  tools := ⟨(∅ : Table.Map ToolId ToolCapability).insert ⟨1⟩ ⟨⟨⟨1⟩, "bash", "Run a command", .null⟩, ⟨permission, true⟩, false⟩⟩
  canSpawnAgents := false
  maxChildDepth := none
  workspace := ⟨true, true, true⟩

def agent (permission : PermissionMode) (profile : CompiledProfile) : Agent :=
  (Agent.new ⟨7⟩ ⟨1⟩ none 0 "You are helpful." (capabilities permission)).withBehavior (BehaviorState.new profile)

theorem fresh_agent (permission : PermissionMode) (profile : CompiledProfile) : (agent permission profile).Fresh :=
  ⟨⟨7⟩, ⟨1⟩, none, 0, "You are helpful.", _, profile, .new, false, {}, rfl⟩

def firstRun : RunId := .derived 7 0 1

def prompt : AgentCommand := .startRun ⟨"hello", []⟩

def call (id : Uuid) : ToolCall := ⟨⟨id⟩, "bash", .object []⟩

def fromBackend (event : ExecutionEvent) : AgentCommand := .backendEvent firstRun event

def requests (id : Uuid) : AgentCommand := fromBackend (.toolCallRequested ⟨0⟩ (call id))

end Sample

end RustyCore
