import RustyCore.Agent.Apply

/-! What an operation of the agent keeps. The control part of an agent is what decides which commands it
    accepts; most helpers only write to the transcript, the behavior state and the usage ledger, and emit
    notices. Every other operation is a sequence of such quiet steps and of a few control moves. -/

namespace RustyCore

open List

namespace AgentEffect

def stateChange? : AgentEffect → Option (AgentStatus × AgentStatus)
  | .emit (.stateChanged from_ to_) => some (from_, to_)
  | _ => none

def backendRequest? : AgentEffect → Option ExecutionRequest
  | .executeBackend request => some request
  | _ => none

def toolRequest? : AgentEffect → Option ToolRequest
  | .executeTool request => some request
  | _ => none

def permissionRequest? : AgentEffect → Option PermissionRequest
  | .requestPermission request => some request
  | _ => none

def runResult? : AgentEffect → Option AgentResult
  | .finishRun result => some result
  | _ => none

def isNotice : AgentEffect → Bool
  | .emit (.stateChanged _ _) | .executeBackend _ | .executeTool _ | .requestPermission _ | .finishRun _ => false
  | _ => true

end AgentEffect

def stateChanges (es : List AgentEffect) : List (AgentStatus × AgentStatus) := es.filterMap AgentEffect.stateChange?

def backendRequests (es : List AgentEffect) : List ExecutionRequest := es.filterMap AgentEffect.backendRequest?

def toolRequests (es : List AgentEffect) : List ToolRequest := es.filterMap AgentEffect.toolRequest?

def permissionRequests (es : List AgentEffect) : List PermissionRequest := es.filterMap AgentEffect.permissionRequest?

def runResults (es : List AgentEffect) : List AgentResult := es.filterMap AgentEffect.runResult?

section

variable (es fs : List AgentEffect)

@[simp] theorem stateChanges_append : stateChanges (es ++ fs) = stateChanges es ++ stateChanges fs :=
  filterMap_append

@[simp] theorem backendRequests_append : backendRequests (es ++ fs) = backendRequests es ++ backendRequests fs :=
  filterMap_append

@[simp] theorem toolRequests_append : toolRequests (es ++ fs) = toolRequests es ++ toolRequests fs :=
  filterMap_append

@[simp] theorem permissionRequests_append :
    permissionRequests (es ++ fs) = permissionRequests es ++ permissionRequests fs :=
  filterMap_append

@[simp] theorem runResults_append : runResults (es ++ fs) = runResults es ++ runResults fs :=
  filterMap_append

end

def Notices (es : List AgentEffect) : Prop := ∀ e ∈ es, e.isNotice = true

namespace Notices

variable {es fs : List AgentEffect}

theorem nil : Notices [] := fun _ h => by cases h

theorem append (h : Notices es) (h' : Notices fs) : Notices (es ++ fs) := by
  intro e he
  rcases mem_append.mp he with he | he
  · exact h e he
  · exact h' e he

theorem single {e : AgentEffect} (h : e.isNotice = true) : Notices [e] := by
  intro e' he
  rw [mem_singleton.mp he]
  exact h

theorem filterMap_eq_nil {β : Type} {f : AgentEffect → Option β} (hf : ∀ e, e.isNotice = true → f e = none)
    (h : Notices es) : es.filterMap f = [] := by
  rw [filterMap_eq_nil_iff]
  exact fun e he => hf e (h e he)

@[simp] theorem stateChanges_eq (h : Notices es) : stateChanges es = [] :=
  h.filterMap_eq_nil fun e he => by
    cases e with
    | emit event => cases event <;> first | rfl | cases he
    | _ => rfl

@[simp] theorem backendRequests_eq (h : Notices es) : backendRequests es = [] :=
  h.filterMap_eq_nil fun e he => by cases e <;> first | rfl | cases he

@[simp] theorem toolRequests_eq (h : Notices es) : toolRequests es = [] :=
  h.filterMap_eq_nil fun e he => by cases e <;> first | rfl | cases he

@[simp] theorem permissionRequests_eq (h : Notices es) : permissionRequests es = [] :=
  h.filterMap_eq_nil fun e he => by cases e <;> first | rfl | cases he

@[simp] theorem runResults_eq (h : Notices es) : runResults es = [] :=
  h.filterMap_eq_nil fun e he => by cases e <;> first | rfl | cases he

end Notices

structure Control where
  status : AgentStatus
  activeRun : Option RunId
  backendInFlight : Bool
  queuedInputs : List UserInput
  pendingTools : Table.Map ToolCallId PendingToolCall
  pendingPermissions : Table.Map PermissionId ToolCallId
  children : List AgentId

theorem saturatingAdd_sequence {n : Nat} (h : n ≤ maxU64) : n ≤ saturatingAdd n 1 ∧ saturatingAdd n 1 ≤ maxU64 := by
  unfold saturatingAdd
  omega

section

variable [Externals]

def Agent.control (a : Agent) : Control :=
  ⟨a.state.status, a.state.activeRun, a.state.backendInFlight, a.state.queuedInputs, a.state.pendingTools,
    a.state.pendingPermissions, a.state.children⟩

/-- `b` has the identity and the session grants of `a`, and its sequence is no earlier. -/
structure Aligned (a b : Agent) : Prop where
  id : b.id = a.id
  sessionId : b.sessionId = a.sessionId
  parentId : b.parentId = a.parentId
  capabilities : b.capabilities = a.capabilities
  sequence : a.state.transitionSequence ≤ maxU64 →
    a.state.transitionSequence ≤ b.state.transitionSequence ∧ b.state.transitionSequence ≤ maxU64

/-- `b` also has the control part of `a`. -/
structure Kept (a b : Agent) : Prop extends Aligned a b where
  control : b.control = a.control

/-- Kept, with nothing but notices said. -/
structure Quiet (a : Agent) (es : List AgentEffect) (b : Agent) : Prop extends Kept a b where
  notices : Notices es

namespace Aligned

variable {a b c : Agent}

theorem refl (a : Agent) : Aligned a a := ⟨rfl, rfl, rfl, rfl, fun h => ⟨le_refl _, h⟩⟩

theorem trans (h : Aligned a b) (h' : Aligned b c) : Aligned a c where
  id := h'.id.trans h.id
  sessionId := h'.sessionId.trans h.sessionId
  parentId := h'.parentId.trans h.parentId
  capabilities := h'.capabilities.trans h.capabilities
  sequence hs := by
    obtain ⟨hab, hb⟩ := h.sequence hs
    obtain ⟨hbc, hc⟩ := h'.sequence hb
    exact ⟨hab.trans hbc, hc⟩

end Aligned

namespace Kept

variable {a b c : Agent}

theorem refl (a : Agent) : Kept a a := ⟨Aligned.refl a, rfl⟩

theorem trans (h : Kept a b) (h' : Kept b c) : Kept a c :=
  ⟨h.toAligned.trans h'.toAligned, h'.control.trans h.control⟩

theorem status (h : Kept a b) : b.state.status = a.state.status := congrArg Control.status h.control

theorem activeRun (h : Kept a b) : b.state.activeRun = a.state.activeRun := congrArg Control.activeRun h.control

theorem backendInFlight (h : Kept a b) : b.state.backendInFlight = a.state.backendInFlight :=
  congrArg Control.backendInFlight h.control

theorem queuedInputs (h : Kept a b) : b.state.queuedInputs = a.state.queuedInputs :=
  congrArg Control.queuedInputs h.control

theorem pendingTools (h : Kept a b) : b.state.pendingTools = a.state.pendingTools :=
  congrArg Control.pendingTools h.control

theorem pendingPermissions (h : Kept a b) : b.state.pendingPermissions = a.state.pendingPermissions :=
  congrArg Control.pendingPermissions h.control

theorem children (h : Kept a b) : b.state.children = a.state.children := congrArg Control.children h.control

theorem quiet (h : Kept a b) : Quiet a [] b := ⟨h, Notices.nil⟩

theorem emit (h : Kept a b) {e : AgentEffect} (he : e.isNotice = true) : Quiet a [e] b := ⟨h, Notices.single he⟩

end Kept

namespace Quiet

variable {a b c : Agent} {es fs : List AgentEffect}

theorem refl (a : Agent) : Quiet a [] a := (Kept.refl a).quiet

theorem trans (h : Quiet a es b) (h' : Quiet b fs c) : Quiet a (es ++ fs) c :=
  ⟨h.toKept.trans h'.toKept, h.notices.append h'.notices⟩

end Quiet

namespace Agent

theorem kept_takeSequence (a : Agent) : Kept a a.takeSequence.1 :=
  ⟨⟨rfl, rfl, rfl, rfl, saturatingAdd_sequence⟩, rfl⟩

theorem kept_nextRunId (a : Agent) : Kept a a.nextRunId.1 := a.kept_takeSequence

theorem kept_nextMessageId (a : Agent) : Kept a a.nextMessageId.1 := a.kept_takeSequence

theorem kept_nextTimestamp (a : Agent) : Kept a a.nextTimestamp.1 := a.kept_takeSequence

/-- Whatever is no part of the control may change. -/
theorem kept_of_eq {a b : Agent} (hid : b.id = a.id) (hsession : b.sessionId = a.sessionId)
    (hparent : b.parentId = a.parentId) (hcap : b.capabilities = a.capabilities)
    (hseq : b.state.transitionSequence = a.state.transitionSequence) (hcontrol : b.control = a.control) : Kept a b :=
  ⟨⟨hid, hsession, hparent, hcap, fun h => ⟨hseq.ge, hseq.le.trans h⟩⟩, hcontrol⟩

theorem kept_setTrailingMessage (a : Agent) (message : AgentMessage) : Kept a (a.setTrailingMessage message) :=
  kept_of_eq rfl rfl rfl rfl rfl rfl

theorem kept_pushMessage (a : Agent) (role : MessageRole) (content : List ContentBlock) :
    Kept a (a.pushMessage role content).1 :=
  (a.kept_nextMessageId.trans (kept_nextTimestamp _)).trans (kept_of_eq rfl rfl rfl rfl rfl rfl)

theorem kept_appendAssistantText (a : Agent) (delta : String) : Kept a (a.appendAssistantText delta).1 := by
  unfold appendAssistantText
  dsimp only
  split
  · exact a.kept_pushMessage _ _
  · split
    · exact a.kept_setTrailingMessage _
    · split
      · exact a.kept_pushMessage _ _
      · exact a.kept_setTrailingMessage _

theorem kept_assistantMessageId (a : Agent) : Kept a a.assistantMessageId.1 := by
  unfold assistantMessageId
  split
  · exact Kept.refl a
  · exact a.kept_pushMessage _ _

theorem kept_pushToolUse (a : Agent) (call : ToolCall) : Kept a (a.pushToolUse call).1 := by
  unfold pushToolUse
  split
  · split
    · exact a.kept_setTrailingMessage _
    · exact a.kept_pushMessage _ _
  · exact a.kept_pushMessage _ _

theorem kept_discardTrailing (a : Agent) : Kept a a.discardTrailingEmptyAssistantMessage := by
  unfold discardTrailingEmptyAssistantMessage
  split
  · exact kept_of_eq rfl rfl rfl rfl rfl rfl
  · exact Kept.refl a

theorem kept_queueRequestText (a : Agent) (text : String) : Kept a (a.queueRequestText text) :=
  kept_of_eq rfl rfl rfl rfl rfl rfl

theorem kept_placeInjection (a : Agent) (injection : Injection) (callId : Option ToolCallId) :
    Kept a (a.placeInjection injection callId) := by
  unfold placeInjection
  split
  · exact kept_of_eq rfl rfl rfl rfl rfl rfl
  · split
    · exact a.kept_setTrailingMessage _
    · exact Kept.refl a
  · exact a.kept_queueRequestText _

theorem kept_placeInjections (injections : List Injection) (callId : Option ToolCallId) (a : Agent) :
    Kept a (injections.foldl (fun a injection => a.placeInjection injection callId) a) := by
  induction injections generalizing a with
  | nil => exact Kept.refl a
  | cons injection rest ih => exact (a.kept_placeInjection injection callId).trans (ih _)

theorem kept_requestSwitch (a : Agent) (outcome : RuleOutcome) : Kept a (a.requestSwitch outcome) := by
  unfold requestSwitch
  split
  · exact Kept.refl a
  · split
    · exact kept_of_eq rfl rfl rfl rfl rfl rfl
    · exact Kept.refl a

theorem quiet_applyRuleOutcome (a : Agent) (outcome : RuleOutcome) (callId : Option ToolCallId) :
    Quiet a (a.applyRuleOutcome outcome callId).2 (a.applyRuleOutcome outcome callId).1 := by
  refine ⟨(kept_placeInjections outcome.injections callId a).trans (kept_requestSwitch _ _), ?_⟩
  apply Notices.append
  · intro e he
    obtain ⟨fired, -, rfl⟩ := mem_map.mp he
    rfl
  · intro e he
    obtain ⟨injection, -, rfl⟩ := mem_map.mp he
    rfl

theorem kept_behavior (a : Agent) (b : BehaviorState) : Kept a (a.withBehavior b) :=
  kept_of_eq rfl rfl rfl rfl rfl rfl

/-- The rules of an event only write to the behavior state, the transcript and the notices. -/
theorem quiet_runRules (a : Agent) (event : RuleEvent) (tool : Option ToolEvent) (callId : Option ToolCallId) :
    Quiet a (a.runRules event tool callId).2.1 (a.runRules event tool callId).1 := by
  have happlied := quiet_applyRuleOutcome (a.withBehavior (a.state.behavior.evaluate event tool).1)
    (a.state.behavior.evaluate event tool).2 callId
  exact ⟨(a.kept_behavior _).trans happlied.toKept, happlied.notices⟩

theorem kept_buildRequest (a : Agent) (runId : RunId) (reissue : Bool) :
    Aligned a (a.buildRequest runId reissue).1 ∧
      (a.buildRequest runId reissue).1.control = { a.control with backendInFlight := true } := by
  refine ⟨⟨rfl, rfl, rfl, rfl, ?_⟩, rfl⟩
  exact saturatingAdd_sequence

end Agent

end

end RustyCore
