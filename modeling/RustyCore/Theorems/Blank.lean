import RustyCore.Theorems.Deeds
import RustyCore.Theorems.Transition

/-! Assistant messages that say nothing. A message of the assistant is opened before anything of it is known, and a
    provider refuses one without content. While it is the last of the transcript it can still be given content or be
    dropped; a message put after it leaves it in every later request. -/

namespace RustyCore

open List

def ContentBlock.isEmptyText : ContentBlock → Bool
  | .text content => content.isEmpty
  | _ => false

def AgentMessage.isBlank (message : AgentMessage) : Bool :=
  message.role == .assistant && message.content.all ContentBlock.isEmptyText

/-- No message of the assistant is blank. -/
def Spoken (messages : List AgentMessage) : Prop := ∀ message ∈ messages, message.isBlank = false

/-- Only the last message may be blank. -/
def Sealed (messages : List AgentMessage) : Prop := Spoken messages.dropLast

section

variable {messages : List AgentMessage} {message : AgentMessage}

theorem isBlank_of_role (h : message.role ≠ .assistant) : message.isBlank = false := by
  simp [AgentMessage.isBlank, h]

theorem isBlank_of_mem {block : ContentBlock} (h : block ∈ message.content) (hblock : block.isEmptyText = false) :
    message.isBlank = false := by
  simp only [AgentMessage.isBlank, Bool.and_eq_false_iff, all_eq_false]
  exact .inr ⟨block, h, by simp [hblock]⟩

theorem isBlank_append {content : List ContentBlock} (h : message.isBlank = false) :
    AgentMessage.isBlank { message with content := message.content ++ content } = false := by
  simp only [AgentMessage.isBlank, Bool.and_eq_false_iff, all_append] at h ⊢
  exact h.imp id .inl

theorem Spoken.sealed (h : Spoken messages) : Sealed messages :=
  fun message hmessage => h message (dropLast_subset messages hmessage)

theorem Spoken.push (h : Spoken messages) (hmessage : message.isBlank = false) : Spoken (messages ++ [message]) :=
  forall_mem_append.mpr ⟨h, forall_mem_singleton.mpr hmessage⟩

theorem Sealed.put (h : Sealed messages) (message : AgentMessage) : Sealed (messages.dropLast ++ [message]) := by
  unfold Sealed
  rwa [dropLast_concat]

theorem Sealed.spoken (h : Sealed messages) (hlast : messages.getLast?.any AgentMessage.isBlank = false) :
    Spoken messages := by
  cases hmessages : messages.getLast? with
  | none =>
    rw [List.getLast?_eq_none_iff.mp hmessages]
    exact fun _ hmem => absurd hmem not_mem_nil
  | some message =>
    rw [hmessages] at hlast
    rw [← dropLast_append_getLast? message hmessages]
    exact Spoken.push h hlast

end

section

variable {messages : List AgentMessage} {text : String}

theorem appendToRequestTail_cases (messages : List AgentMessage) (text : String) :
    appendToRequestTail messages text = messages ∧ messages = [] ∨
      ∃ last content, messages.getLast? = some last ∧
        appendToRequestTail messages text = messages.dropLast ++ [{ last with content := content }] ∧
        (last.role = .assistant → content = last.content ++ [.text text]) := by
  unfold appendToRequestTail
  cases hlast : messages.getLast? with
  | none => exact .inl ⟨rfl, List.getLast?_eq_none_iff.mp hlast⟩
  | some last =>
    refine .inr ⟨last, _, rfl, rfl, ?_⟩
    intro hrole
    simp [hrole]

theorem Sealed.tail (h : Sealed messages) : Sealed (appendToRequestTail messages text) := by
  obtain ⟨hsame, -⟩ | ⟨last, content, -, htail, -⟩ := appendToRequestTail_cases messages text
  · rwa [hsame]
  · rw [htail]
    exact h.put _

theorem Spoken.tail (h : Spoken messages) : Spoken (appendToRequestTail messages text) := by
  obtain ⟨hsame, -⟩ | ⟨last, content, hlast, htail, hcontent⟩ := appendToRequestTail_cases messages text
  · rwa [hsame]
  · rw [htail]
    refine Spoken.push h.sealed ?_
    by_cases hrole : last.role = .assistant
    · rw [hcontent hrole]
      exact isBlank_append (h last (mem_of_getLast? hlast))
    · exact isBlank_of_role hrole

theorem Sealed.fill (h : Sealed messages) (htext : text.isEmpty = false) : Spoken (appendToRequestTail messages text) := by
  obtain ⟨hsame, hnil⟩ | ⟨last, content, -, htail, hcontent⟩ := appendToRequestTail_cases messages text
  · rw [hsame, hnil]
    exact fun _ hmem => absurd hmem not_mem_nil
  · rw [htail]
    refine Spoken.push h ?_
    by_cases hrole : last.role = .assistant
    · rw [hcontent hrole]
      exact isBlank_of_mem (mem_append_right _ mem_cons_self) htext
    · exact isBlank_of_role hrole

theorem Spoken.tails {messages : List AgentMessage} (texts : List String) (h : Spoken messages) :
    Spoken (texts.foldl appendToRequestTail messages) := by
  induction texts generalizing messages with
  | nil => exact h
  | cons text rest ih => exact ih h.tail

theorem Sealed.tails {messages : List AgentMessage} {texts : List String} (h : Sealed messages)
    (htexts : texts.all String.isEmpty = false) : Spoken (texts.foldl appendToRequestTail messages) := by
  induction texts generalizing messages with
  | nil => cases htexts
  | cons text rest ih =>
    cases htext : text.isEmpty with
    | false => exact Spoken.tails rest (h.fill htext)
    | true =>
      rw [all_cons, htext, Bool.true_and] at htexts
      exact ih h.tail htexts

end

section

variable [Externals]

namespace Agent

def tailTexts (a : Agent) (reissue : Bool) : List String :=
  (if reissue then a.state.behavior.run.lastRequest else a.state.behavior.run.pendingRequest) ++
    match a.state.behavior.run.finalTurn, a.state.behavior.profile.profile.limits.finalTurnPrompt with
    | true, some prompt => [Rules.systemReminder ("profile:" ++ a.state.behavior.profile.reference.display) prompt]
    | _, _ => []

/-- What a request holds: the transcript and, at its end, the texts of the turn. -/
theorem buildRequest_messages (a : Agent) (runId : RunId) (reissue : Bool) :
    (a.buildRequest runId reissue).2.messages = (a.tailTexts reissue).foldl appendToRequestTail a.state.messages := by
  unfold buildRequest tailTexts
  dsimp only
  rw [foldl_append]
  cases reissue <;> cases a.state.behavior.run.finalTurn <;>
    cases a.state.behavior.profile.profile.limits.finalTurnPrompt <;> rfl

theorem buildRequest_transcript (a : Agent) (runId : RunId) (reissue : Bool) :
    (a.buildRequest runId reissue).1.state.messages = a.state.messages := by
  unfold buildRequest
  dsimp only
  split <;> split <;> rfl

end Agent

/-- Nothing is sent, and a transcript that is sealed, or has no blank message at all, stays so. -/
structure Tacit (a : Agent) (es : List AgentEffect) (b : Agent) : Prop where
  sealed : Sealed a.state.messages → Sealed b.state.messages
  spoken : Spoken a.state.messages → Spoken b.state.messages
  silent : backendRequests es = []

/-- A transcript without a blank message gets none, and none is sent. -/
structure Speaks (a : Agent) (es : List AgentEffect) (b : Agent) : Prop where
  spoken : Spoken a.state.messages → Spoken b.state.messages
  sent : Spoken a.state.messages → ∀ request ∈ backendRequests es, Spoken request.messages

variable {a b c : Agent} {es fs : List AgentEffect}

namespace Tacit

theorem same (h : b.state.messages = a.state.messages) (hes : backendRequests es = []) : Tacit a es b :=
  ⟨fun hsealed => h ▸ hsealed, fun hspoken => h ▸ hspoken, hes⟩

theorem refl (a : Agent) : Tacit a [] a := same rfl rfl

theorem trans (h : Tacit a es b) (h' : Tacit b fs c) : Tacit a (es ++ fs) c :=
  ⟨h'.sealed ∘ h.sealed, h'.spoken ∘ h.spoken, by rw [backendRequests_append, h.silent, h'.silent, nil_append]⟩

theorem kept (h' : Tacit b es c) (h : b.state.messages = a.state.messages) : Tacit a es c := by
  have hsame : Tacit a [] b := same h rfl
  exact hsame.trans h'

theorem andThen {r : Agent × List AgentEffect} {next : Agent → Agent × List AgentEffect} (h : Tacit a r.2 r.1)
    (h' : Tacit r.1 (next r.1).2 (next r.1).1) : Tacit a (Agent.andThen r next).2 (Agent.andThen r next).1 := h.trans h'

theorem speaks (h : Tacit a es b) : Speaks a es b := by
  refine ⟨h.spoken, fun _ request hrequest => ?_⟩
  rw [h.silent] at hrequest
  exact absurd hrequest not_mem_nil

end Tacit

namespace Speaks

theorem trans (h : Speaks a es b) (h' : Speaks b fs c) : Speaks a (es ++ fs) c := by
  refine ⟨h'.spoken ∘ h.spoken, fun hspoken request hrequest => ?_⟩
  rw [backendRequests_append] at hrequest
  rcases mem_append.mp hrequest with hfirst | hrest
  · exact h.sent hspoken request hfirst
  · exact h'.sent (h.spoken hspoken) request hrest

theorem same (h : b.state.messages = a.state.messages) (hes : backendRequests es = []) : Speaks a es b :=
  (Tacit.same h hes).speaks

theorem refl (a : Agent) : Speaks a [] a := same rfl rfl

theorem kept (h' : Speaks b es c) (h : b.state.messages = a.state.messages) : Speaks a es c := by
  have hsame : Tacit a [] b := .same h rfl
  exact hsame.speaks.trans h'

theorem andThen {r : Agent × List AgentEffect} {next : Agent → Agent × List AgentEffect} (h : Speaks a r.2 r.1)
    (h' : Speaks r.1 (next r.1).2 (next r.1).1) : Speaks a (Agent.andThen r next).2 (Agent.andThen r next).1 := h.trans h'

end Speaks

namespace Agent

theorem speaks_pushMessage (a : Agent) {role : MessageRole} {content : List ContentBlock}
    (h : ∀ id createdAt, AgentMessage.isBlank ⟨id, role, content, createdAt⟩ = false) :
    Speaks a [] (a.pushMessage role content).1 :=
  ⟨fun hspoken => hspoken.push (h _ _), fun _ _ hrequest => absurd hrequest not_mem_nil⟩

theorem tacit_discardTrailing (a : Agent) : Tacit a [] a.discardTrailingEmptyAssistantMessage := by
  unfold discardTrailingEmptyAssistantMessage
  split
  · exact ⟨Spoken.sealed, Spoken.sealed, rfl⟩
  · exact .refl a

theorem tacit_fail (a : Agent) (code message : String) : Tacit a (a.fail code message).2 (a.fail code message).1 :=
  ⟨a.tacit_discardTrailing.sealed, a.tacit_discardTrailing.spoken, rfl⟩

theorem tacit_behaviorStop (a : Agent) (stop : RuleStop) : Tacit a (a.behaviorStop stop).2 (a.behaviorStop stop).1 :=
  a.tacit_fail _ _

theorem tacit_placeInjection (a : Agent) (injection : Injection) (callId : Option ToolCallId) :
    Tacit a [] (a.placeInjection injection callId) := by
  unfold placeInjection
  split
  · exact .same rfl rfl
  · split
    · rename_i message hlast
      obtain ⟨-, hrole⟩ : a.state.messages.getLast? = some message ∧ message.role = .user := by
        simpa [Option.filter_eq_some_iff] using hlast
      refine ⟨fun h => h.put _, fun h => Spoken.push h.sealed (isBlank_of_role ?_), rfl⟩
      simp [hrole]
    · exact .refl a
  · exact .same rfl rfl

theorem tacit_placeInjections (injections : List Injection) (callId : Option ToolCallId) (a : Agent) :
    Tacit a [] (injections.foldl (fun a injection => a.placeInjection injection callId) a) := by
  induction injections generalizing a with
  | nil => exact .refl a
  | cons injection rest ih => exact (a.tacit_placeInjection injection callId).trans (ih _)

theorem tacit_requestSwitch (a : Agent) (outcome : RuleOutcome) : Tacit a [] (a.requestSwitch outcome) := by
  unfold requestSwitch
  split
  · exact .refl a
  · split
    · exact .same rfl rfl
    · exact .refl a

theorem tacit_applyRuleOutcome (a : Agent) (outcome : RuleOutcome) (callId : Option ToolCallId) :
    Tacit a (a.applyRuleOutcome outcome callId).2 (a.applyRuleOutcome outcome callId).1 := by
  have hplaced := (tacit_placeInjections outcome.injections callId a).trans (tacit_requestSwitch _ outcome)
  exact ⟨hplaced.sealed, hplaced.spoken, (a.quiet_applyRuleOutcome outcome callId).notices.backendRequests_eq⟩

theorem tacit_runRules (a : Agent) (event : RuleEvent) (tool : Option ToolEvent) (callId : Option ToolCallId) :
    Tacit a (a.runRules event tool callId).2.1 (a.runRules event tool callId).1 :=
  .kept (tacit_applyRuleOutcome _ _ callId) rfl

theorem tacit_applySwitch (a : Agent) (profile : CompiledProfile) (library : ProfileRegistry) :
    Tacit a (a.applySwitch profile library).2 (a.applySwitch profile library).1 := by
  unfold applySwitch
  dsimp only
  split
  · exact .same rfl rfl
  · split
    · refine Tacit.andThen ?_ (tacit_fail _ _ _)
      exact .same rfl rfl
    · exact .same rfl rfl

theorem tacit_takePendingSwitch (a : Agent) : Tacit a a.takePendingSwitch.2 a.takePendingSwitch.1 := by
  unfold takePendingSwitch
  split
  · exact .kept (tacit_applySwitch _ _ _) rfl
  · exact .refl a

theorem tacit_setBehaviorProfile (a : Agent) (profile : Value) (documents : List Value) (allowCommands : Bool) :
    Tacit a (a.setBehaviorProfile profile documents allowCommands).2
      (a.setBehaviorProfile profile documents allowCommands).1 := by
  unfold setBehaviorProfile
  dsimp only
  split
  · exact .same rfl rfl
  · split
    · exact .same rfl rfl
    · exact .kept (tacit_applySwitch _ _ _) rfl

theorem tacit_enteredRules (a : Agent) (from_ : ProfileRef) :
    Tacit a (effectsOf (a.enteredRules from_).2) (a.enteredRules from_).1 := by
  have hrules : Tacit a _ _ := .kept (tacit_applyRuleOutcome
    (a.withBehavior (a.state.behavior.evaluateEntered from_.id).1) (a.state.behavior.evaluateEntered from_.id).2 none) rfl
  unfold enteredRules
  dsimp only
  split
  · exact hrules.trans (tacit_behaviorStop _ _)
  · exact hrules

theorem tacit_enterProfile (a : Agent) (from_ : EnteredFrom) :
    Tacit a (effectsOf (a.enterProfile from_).2) (a.enterProfile from_).1 := by
  unfold enterProfile
  split
  · dsimp only
    generalize hm : a.queueRequestText _ = m
    have hqueued : m.state.messages = a.state.messages := hm ▸ rfl
    have hentered := m.tacit_enteredRules from_.profile
    generalize m.enteredRules from_.profile = r at hentered ⊢
    obtain ⟨b, r⟩ := r
    cases r with
    | ok es => exact .kept ⟨hentered.sealed, hentered.spoken, hentered.silent⟩ hqueued
    | error es => exact .kept hentered hqueued
  · exact a.tacit_enteredRules from_.profile

theorem tacit_announceProfile (a : Agent) : Tacit a (effectsOf a.announceProfile.2) a.announceProfile.1 := by
  unfold announceProfile
  split
  · exact .kept (tacit_enterProfile _ _) rfl
  · exact .refl a

theorem tacit_beginTurn (a : Agent) : Tacit a (effectsOf a.beginTurn.2) a.beginTurn.1 := by
  have hswitch := a.tacit_takePendingSwitch
  unfold beginTurn
  dsimp only
  split
  · exact hswitch
  · have hannounce := a.takePendingSwitch.1.tacit_announceProfile
    split
    · rename_i c failure hc
      rw [hc] at hannounce
      exact hswitch.trans hannounce
    · rename_i c entered hc
      rw [hc] at hannounce
      have hentered := hswitch.trans hannounce
      split
      · rename_i behavior hbehavior
        have hfailed := (c.withBehavior behavior).tacit_fail "BEHAVIOR_LIMIT_EXCEEDED"
          ("the model requested tools after its final turn under profile " ++ behavior.reference.display)
        exact ⟨hfailed.sealed ∘ hentered.sealed, hfailed.spoken ∘ hentered.spoken, rfl⟩
      · rename_i behavior plan hplan hbehavior
        have hrules := hentered.trans (.kept (tacit_runRules (c.withBehavior behavior) .beforeModelRequest none none) rfl)
        split
        · exact hrules.andThen (tacit_behaviorStop _ _)
        · exact hrules

omit [Externals] in
theorem backendRequests_changedTo (from_ to_ : AgentStatus) : backendRequests (changedTo from_ to_) = [] := by
  unfold changedTo
  split <;> rfl

theorem speaks_buildRequest (a : Agent) (runId : RunId) (reissue : Bool) :
    Speaks a [.executeBackend (a.buildRequest runId reissue).2] (a.buildRequest runId reissue).1 := by
  refine ⟨fun hspoken => ?_, fun hspoken request hrequest => ?_⟩
  · rwa [buildRequest_transcript]
  · rw [mem_singleton.mp hrequest, buildRequest_messages]
    exact Spoken.tails _ hspoken

theorem speaks_continueAfterTools (a : Agent) : Speaks a a.continueAfterTools.2 a.continueAfterTools.1 := by
  unfold continueAfterTools
  split
  · split
    · exact .refl a
    · rename_i runId hrun
      have hturn := a.tacit_beginTurn.speaks
      split
      · rename_i b failure hb
        rw [hb] at hturn
        exact hturn
      · rename_i b effects hb
        rw [hb] at hturn
        have hrequest := (b.withStatus .waitingForBackend).speaks_buildRequest runId false
        have hchanged : Tacit b (changedTo b.state.status .waitingForBackend) (b.withStatus .waitingForBackend) :=
          .same rfl (backendRequests_changedTo _ _)
        dsimp only
        rw [append_assoc]
        exact hturn.trans (hchanged.speaks.trans hrequest)
  · exact .refl a

theorem speaks_nextAfterResult (a : Agent) (stop : Option RuleStop) :
    Speaks a (a.nextAfterResult stop).2 (a.nextAfterResult stop).1 := by
  unfold nextAfterResult
  split
  · exact (a.tacit_behaviorStop _).speaks
  · split
    · exact .kept (tacit_fail _ _ _).speaks rfl
    · exact a.speaks_continueAfterTools

theorem tacit_runPostToolRules (a : Agent) (call : ToolCall) (hasError : Bool) (preview : String) :
    Tacit a (a.runPostToolRules call hasError preview).2.1 (a.runPostToolRules call hasError preview).1 := by
  unfold runPostToolRules
  dsimp only
  exact .kept (tacit_runRules _ _ _ _) rfl

theorem speaks_recordToolResult (a : Agent) (call : ToolCall) (executed hasError : Bool) (preview : String) :
    Speaks a (a.recordToolResult call executed hasError preview).2 (a.recordToolResult call executed hasError preview).1 := by
  have hpost : Tacit a
      (if executed then a.runPostToolRules call hasError preview else (a, [], preview, none)).2.1
      (if executed then a.runPostToolRules call hasError preview else (a, [], preview, none)).1 := by
    split
    · exact a.tacit_runPostToolRules call hasError preview
    · exact .refl a
  unfold recordToolResult
  generalize (if executed then a.runPostToolRules call hasError preview else (a, [], preview, none)) = r at hpost ⊢
  obtain ⟨b, effects, preview', stop⟩ := r
  dsimp only at hpost ⊢
  refine .andThen (hpost.speaks.trans ?_) (speaks_nextAfterResult _ stop)
  refine ⟨fun hspoken => hspoken.push (isBlank_of_role ?_), fun _ _ hrequest => absurd hrequest not_mem_nil⟩
  simp

theorem speaks_toolCompleted (a : Agent) (callId : ToolCallId) (result : ToolResult) :
    Speaks a (a.toolCompleted callId result).2 (a.toolCompleted callId result).1 := by
  unfold toolCompleted
  split
  · exact .refl a
  · exact .kept (speaks_recordToolResult _ _ _ _ _) rfl

theorem speaks_toolFailed (a : Agent) (callId : ToolCallId) (error : ToolError) :
    Speaks a (a.toolFailed callId error).2 (a.toolFailed callId error).1 := by
  unfold toolFailed
  split
  · exact .refl a
  · exact .kept (speaks_recordToolResult _ _ _ _ _) rfl

theorem speaks_denyTool (a : Agent) (callId : ToolCallId) (ruleId : Option String) (reason : String) :
    Speaks a (a.denyTool callId ruleId reason).2 (a.denyTool callId ruleId reason).1 := by
  have hdenied : Tacit a [.emit (.toolCallDenied callId ruleId reason)] a := .same rfl rfl
  exact hdenied.speaks.trans (a.speaks_toolFailed callId _)

theorem speaks_sessionPermission (a : Agent) (call : ToolCall) :
    Speaks a (refusalOf (a.sessionPermission call).2) (a.sessionPermission call).1 := by
  unfold sessionPermission
  split
  · exact .refl a
  · exact a.speaks_toolFailed call.id _

theorem speaks_requireProfileScope (a : Agent) (call : ToolCall) :
    Speaks a (refusalOf (a.requireProfileScope call).2) (a.requireProfileScope call).1 := by
  unfold requireProfileScope
  dsimp only
  split
  · exact .refl a
  · exact a.speaks_denyTool _ _ _

theorem speaks_evaluateRequestRules (a : Agent) (call : ToolCall) :
    Speaks a ((a.evaluateRequestRules call).2.1 ++ refusalOf (a.evaluateRequestRules call).2.2)
      (a.evaluateRequestRules call).1 := by
  have hrules : Speaks a _ _ := .kept (tacit_runRules (a.withBehavior (a.state.behavior.noteToolRequest call)) .preToolUse
    (some ⟨call, none⟩) (some call.id)).speaks rfl
  unfold evaluateRequestRules
  dsimp only
  split
  · simpa [refusalOf] using hrules
  · exact hrules.trans (.andThen (speaks_denyTool _ _ _ _) (tacit_behaviorStop _ _).speaks)

theorem speaks_approvalFor (a : Agent) (call : ToolCall) (sessionMode : PermissionMode) (outcome : RuleOutcome) :
    Speaks a (refusalOf (a.approvalFor call sessionMode outcome).2) (a.approvalFor call sessionMode outcome).1 := by
  unfold approvalFor
  dsimp only
  split
  · exact a.speaks_denyTool _ _ _
  · split
    · exact .refl a
    · exact .refl a
    · split
      · exact a.speaks_toolFailed _ _
      · exact a.speaks_denyTool _ _ _

theorem rewriteArguments_messages (a : Agent) (call : ToolCall) (outcome : RuleOutcome) :
    (a.rewriteArguments call outcome).1.state.messages = a.state.messages := by
  unfold rewriteArguments
  split
  · rfl
  · dsimp only
    unfold patchPending
    split <;> rfl

theorem speaks_requireToolBudget (a : Agent) (callId : ToolCallId) :
    Speaks a (refusalOf (a.requireToolBudget callId).2) (a.requireToolBudget callId).1 := by
  unfold requireToolBudget
  split
  · exact .same rfl rfl
  · exact .kept (speaks_denyTool _ _ _ _) rfl

theorem speaks_admitToolCall (a : Agent) (call : ToolCall) :
    Speaks a ((a.admitToolCall call).2.1 ++ refusalOf (a.admitToolCall call).2.2) (a.admitToolCall call).1 := by
  unfold admitToolCall
  have hpermission := a.speaks_sessionPermission call
  split
  · rename_i b refusal hb
    rw [hb] at hpermission
    exact hpermission
  · rename_i b mode hb
    rw [hb] at hpermission
    have hscope := b.speaks_requireProfileScope call
    split
    · rename_i c refusal hc
      rw [hc] at hscope
      exact hpermission.trans hscope
    · rename_i c hc
      rw [hc] at hscope
      have hscoped := hpermission.trans hscope
      have hrules := c.speaks_evaluateRequestRules call
      split
      · rename_i d effects refusal hd
        rw [hd] at hrules
        exact hscoped.trans hrules
      · rename_i d effects outcome hd
        rw [hd] at hrules
        have hevaluated := hscoped.trans hrules
        have happroval := d.speaks_approvalFor call mode outcome
        simp only [refusalOf, nil_append, append_nil] at hevaluated
        split
        · rename_i e refusal he
          rw [he] at happroval
          exact hevaluated.trans happroval
        · rename_i e approval he
          rw [he] at happroval
          have happroved := hevaluated.trans happroval
          have hbudget := speaks_requireToolBudget (e.rewriteArguments call outcome).1 (e.rewriteArguments call outcome).2.id
          have hrewritten := hbudget.kept (e.rewriteArguments_messages call outcome)
          simp only [refusalOf, append_nil] at happroved
          dsimp only
          split
          · rename_i f refusal hf
            rw [hf] at hrewritten
            exact happroved.trans hrewritten
          · rename_i f hf
            rw [hf] at hrewritten
            exact happroved.trans hrewritten

theorem speaks_startAdmittedCall (a : Agent) (from_ : AgentStatus) (call : ToolCall) (approval : Approval) :
    Speaks a (a.startAdmittedCall from_ call approval).2 (a.startAdmittedCall from_ call approval).1 := by
  cases approval with
  | allow | ask => exact .same rfl rfl

theorem speaks_toolRequested (a : Agent) (call : ToolCall) :
    Speaks (a.recordToolRequest call).1 (a.toolRequested call).2 (a.toolRequested call).1 := by
  have hrecorded : Speaks (a.recordToolRequest call).1 (a.recordToolRequest call).2 (a.recordToolRequest call).1 :=
    .same rfl rfl
  unfold toolRequested
  refine hrecorded.andThen ?_
  have hadmit := speaks_admitToolCall (a.recordToolRequest call).1 call
  split
  · rename_i b effects call' approval hb
    rw [hb] at hadmit
    simp only [refusalOf, append_nil] at hadmit
    exact hadmit.andThen (speaks_startAdmittedCall _ _ _ _)
  · rename_i b effects refusal hb
    rw [hb] at hadmit
    exact hadmit

theorem tacit_finishSuccess (a : Agent) (summary : String) (gatePassed : Option Bool) :
    Tacit a (a.finishSuccess summary gatePassed).2 (a.finishSuccess summary gatePassed).1 := .same rfl rfl

theorem tacit_endExhaustedGate (a : Agent) (gate : CompletionGate) (failedChecks : List String) (summary : String) :
    Tacit a (a.endExhaustedGate gate failedChecks summary).2 (a.endExhaustedGate gate failedChecks summary).1 := by
  unfold endExhaustedGate
  split
  · exact a.tacit_finishSuccess _ _
  · exact a.tacit_fail _ _

theorem speaks_sendAnswerBack (a : Agent) (runId : RunId) (reference : ProfileRef) (failures : List CheckFailure) :
    Speaks a (a.sendAnswerBack runId reference failures).2 (a.sendAnswerBack runId reference failures).1 := by
  unfold sendAnswerBack
  dsimp only
  generalize hm : a.withRun _ = m
  have hcounted : m.state.messages = a.state.messages := hm ▸ rfl
  have hrejection : Speaks a [] (m.pushGateRejection reference failures) := by
    refine .kept (m.speaks_pushMessage fun id createdAt => isBlank_of_role ?_) hcounted
    simp
  have hturn := hrejection.trans (m.pushGateRejection reference failures).tacit_beginTurn.speaks
  split
  · rename_i b failure hb
    rw [hb] at hturn
    exact hturn
  · rename_i b effects hb
    rw [hb] at hturn
    have hrequest := (b.withStatus .waitingForBackend).speaks_buildRequest runId false
    have hchanged : Speaks b [stateChanged b.state.status .waitingForBackend] (b.withStatus .waitingForBackend) :=
      .same rfl rfl
    exact hturn.trans (hchanged.trans hrequest)

def rejects (a : Agent) (failures : List CheckFailure) : Bool :=
  a.state.behavior.profile.profile.completionGate.any fun gate => a.gateStep gate (failures.map (·.1)) == .sendBack

theorem speaks_gateDecided (a : Agent) (runId : RunId) (failures : List CheckFailure) (summary : String) :
    Speaks a (a.gateDecided runId failures summary).2 (a.gateDecided runId failures summary).1 := by
  unfold gateDecided
  dsimp only
  split
  · exact (a.tacit_finishSuccess _ _).speaks
  · refine Speaks.andThen (.same rfl rfl) ?_
    dsimp only
    split
    · exact (a.tacit_finishSuccess _ _).speaks
    · exact (a.tacit_endExhaustedGate _ _ _).speaks
    · exact a.speaks_sendAnswerBack _ _ _

theorem tacit_gateDecided {a : Agent} {failures : List CheckFailure} (h : a.rejects failures = false) (runId : RunId)
    (summary : String) : Tacit a (a.gateDecided runId failures summary).2 (a.gateDecided runId failures summary).1 := by
  unfold gateDecided
  dsimp only
  split
  · exact a.tacit_finishSuccess _ _
  · rename_i gate hgate
    rw [rejects, hgate, Option.any_some, beq_eq_false_iff_ne] at h
    refine Tacit.andThen (.same rfl rfl) ?_
    dsimp only
    split
    · exact a.tacit_finishSuccess _ _
    · exact a.tacit_endExhaustedGate _ _ _
    · rename_i hback
      exact absurd hback h

def proposalFailures (a : Agent) : List CheckFailure :=
  match a.state.behavior.profile.profile.completionGate with
  | none => []
  | some gate => a.noteGateAttempt.failedDeclarativeChecks gate ++ (evaluatorSpecs gate.checks).2

theorem speaks_proposeCompletion (a : Agent) (runId : RunId) (summary : String) :
    Speaks a (a.proposeCompletion runId summary).2 (a.proposeCompletion runId summary).1 := by
  unfold proposeCompletion
  split
  · exact (a.tacit_finishSuccess _ _).speaks
  · dsimp only
    split
    · exact .kept (speaks_gateDecided _ _ _ _) rfl
    · exact .same rfl rfl

theorem tacit_proposeCompletion {a : Agent} (h : a.noteGateAttempt.rejects a.proposalFailures = false) (runId : RunId)
    (summary : String) : Tacit a (a.proposeCompletion runId summary).2 (a.proposeCompletion runId summary).1 := by
  unfold proposeCompletion
  split
  · exact a.tacit_finishSuccess _ _
  · rename_i gate hgate
    simp only [proposalFailures, hgate] at h
    dsimp only
    split
    · exact .kept (tacit_gateDecided h _ _) rfl
    · exact .same rfl rfl

def verdictFailures (a : Agent) (verdicts : List CheckVerdict) : List CheckFailure :=
  match a.state.behavior.profile.profile.completionGate with
  | none => []
  | some gate => (gate.checks.filter (·.evaluator.isSome)).filterMap fun check =>
      evaluatorFailure check (verdictFor verdicts check)

theorem completionEvaluated_counted (a : Agent) (runId : RunId) (attempt : Nat) (verdicts : List CheckVerdict)
    (usage : List UsageRecord) :
    ∃ (m : Agent) (es : List AgentEffect), Tacit a es m ∧ m.state.behavior = a.state.behavior ∧
      (a.completionEvaluated runId attempt verdicts usage = (m, es) ∨
        a.completionEvaluated runId attempt verdicts usage = (m, []) ∨
        (a.state.status = .verifying ∧ a.state.activeRun = some runId ∧ a.state.behavior.run.gateAttempts = attempt) ∧
          a.completionEvaluated runId attempt verdicts usage =
            Agent.andThen (m, es) fun m => m.gateDecided runId (a.verdictFailures verdicts) "Run completed: end_turn") := by
  unfold completionEvaluated
  dsimp only
  generalize hcounted : (if usage.isEmpty = true then ((a, []) : Agent × List AgentEffect) else _) = counted
  refine ⟨counted.1, counted.2, ?_, ?_, ?_⟩
  · rw [← hcounted]
    split
    · exact .refl a
    · exact .same rfl rfl
  · rw [← hcounted]
    split <;> rfl
  · split
    · exact .inl rfl
    · rename_i hexpected
      push Not at hexpected
      split
      · exact .inr (.inl rfl)
      · rename_i gate hgate
        refine .inr (.inr ⟨hexpected, ?_⟩)
        simp only [verdictFailures, hgate]

theorem speaks_beginRun (a : Agent) (input : UserInput) : Speaks a (a.beginRun input).2 (a.beginRun input).1 := by
  have hopened : Speaks a [] (a.openRun input).1 := by
    refine ⟨fun hspoken => hspoken.push (isBlank_of_role ?_), fun _ _ hrequest => absurd hrequest not_mem_nil⟩
    simp
  have hrules := hopened.trans ((a.openRun input).1.tacit_runRules .runStart none none).speaks
  unfold beginRun
  dsimp only
  split
  · exact hrules.trans (tacit_behaviorStop _ _).speaks
  · have hturn := ((a.openRun input).1.runRules .runStart none none).1.tacit_beginTurn.speaks
    split
    · rename_i b failure hb
      rw [hb] at hturn
      exact hrules.trans hturn
    · rename_i b turnEffects hb
      rw [hb] at hturn
      have hrequest := b.speaks_buildRequest (a.openRun input).2 false
      have hbefore : Speaks b [stateChanged a.state.status .preparingContext] b := .same rfl rfl
      have hafter (m : Agent) : Speaks m [.emit (.runStarted (a.openRun input).2)] m := .same rfl rfl
      exact (hrules.trans hturn).trans (hbefore.trans (hrequest.trans (hafter _)))

theorem tacit_pause (a : Agent) : Tacit a a.pause.2 a.pause.1 := by
  unfold pause
  split
  · exact .refl a
  · exact .refl a
  · exact .refl a
  · exact .refl a
  · exact .same rfl rfl

theorem tacit_cancel (a : Agent) : Tacit a a.cancel.2 a.cancel.1 := by
  refine .same a.cancel_frame.1 ?_
  cases hnothing : a.nothingToCancel with
  | true => simp [cancel, hnothing, backendRequests]
  | false =>
    obtain ⟨ns, hns, heffects⟩ := cancel_effects hnothing
    rw [heffects, backendRequests_append, hns.backendRequests_eq]
    rfl

theorem tacit_childDone (a : Agent) (agentId : AgentId) (outcome : AgentOutcome) :
    Tacit a (a.childDone agentId outcome).2 (a.childDone agentId outcome).1 := by
  unfold childDone
  dsimp only
  split <;> exact .same rfl rfl

theorem tacit_childSpawned (a : Agent) (agentId : AgentId) (awaiting : Bool) :
    Tacit a (a.childSpawned agentId awaiting).2 (a.childSpawned agentId awaiting).1 := by
  unfold childSpawned
  dsimp only
  generalize hm : (if a.state.children.contains agentId = true then a else _) = m
  have hmessages : m.state.messages = a.state.messages := by
    rw [← hm]
    split <;> rfl
  split <;> exact .same hmessages rfl

def endsBlank (a : Agent) : Bool := a.state.messages.getLast?.any AgentMessage.isBlank

/-- The transcript ends in a blank message that has empty texts. A message without any content is given the next tool
    call, and is dropped when a run ends. -/
def endsBare (a : Agent) : Bool :=
  a.state.messages.getLast?.any fun message => message.isBlank && !message.content.isEmpty

def opensOnBlank (a : Agent) (input : UserInput) : Bool := a.acceptsRun input && a.takePendingSwitch.1.endsBlank

def asksBlank (a : Agent) : Bool :=
  Table.isEmpty a.state.pendingTools && a.endsBlank &&
    match a.beginTurn with
    | (b, .ok _) => (b.tailTexts false).all String.isEmpty
    | (_, .error _) => false

def settled (a : Agent) (result : ExecutionResult) : Agent :=
  let a := (a.withInFlight false).discardTrailingEmptyAssistantMessage
  a.withUsage { a.usage with records := a.usage.records ++ [⟨result.usage, result.cost, none⟩] }

/-- The backend is done, and leaves a blank message: the tool results of its turn are sent with it, or the gate answers
    it. -/
def completesBlank (a : Agent) (result : ExecutionResult) : Bool :=
  !outputLimitReasons.contains result.finishReason &&
    if result.finishReason = "tool_use" then (a.settled result).asksBlank
    else (a.settled result).endsBlank && (a.settled result).noteGateAttempt.rejects (a.settled result).proposalFailures

/-- Whether a command leaves a blank message behind: it puts another message after it, or asks the backend with it as
    it is. -/
def abandons (a : Agent) : AgentCommand → Bool
  | .startRun input | .steer input | .followUp input => a.state.activeRun.isNone && a.opensOnBlank input
  | .startNextQueuedRun => a.state.queuedInputs.head?.any (a.withQueuedInputs a.state.queuedInputs.tail).opensOnBlank
  | .backendEvent runId event => a.state.activeRun == some runId &&
    match event with
    | .toolCallRequested _ _ | .toolCallStarted _ _ => a.endsBare
    | .toolCallCompleted _ _ _ => a.endsBlank
    | .completed _ result => a.completesBlank result
    | _ => false
  | .toolCompleted callId _ | .toolFailed callId _ => (a.state.pendingTools.lookup callId).isSome && a.endsBlank
  | .permissionResolved id .denied => a.endsBlank &&
    (a.state.pendingPermissions.lookup id).any fun callId => (a.state.pendingTools.lookup callId).isSome
  | .resume => a.state.status == .paused && a.state.activeRun.isSome && a.endsBlank &&
    (a.tailTexts true).all String.isEmpty
  | .completionEvaluated runId attempt verdicts _ =>
    a.state.status == .verifying && a.state.activeRun == some runId && a.state.behavior.run.gateAttempts == attempt &&
      a.endsBlank && a.rejects (a.verdictFailures verdicts)
  | _ => false

end Agent

/-- Only the last message may be blank afterwards, and no request holds a blank one. -/
structure Clean (es : List AgentEffect) (b : Agent) : Prop where
  sealed : Sealed b.state.messages
  sent : ∀ request ∈ backendRequests es, Spoken request.messages

theorem Tacit.clean (h : Tacit a es b) (hsealed : Sealed a.state.messages) : Clean es b := by
  refine ⟨h.sealed hsealed, fun request hrequest => ?_⟩
  rw [h.silent] at hrequest
  exact absurd hrequest not_mem_nil

theorem Speaks.clean (h : Speaks a es b) (hspoken : Spoken a.state.messages) : Clean es b :=
  ⟨(h.spoken hspoken).sealed, h.sent hspoken⟩

theorem Tacit.then_clean (h : Tacit a es b) (h' : Clean fs c) : Clean (es ++ fs) c := by
  refine ⟨h'.sealed, fun request hrequest => ?_⟩
  rw [backendRequests_append, h.silent, nil_append] at hrequest
  exact h'.sent request hrequest

namespace Agent

/-- With no blank message at the end, whatever speaks is clean. -/
theorem clean_of_spoken (h : Speaks a es b) (hsealed : Sealed a.state.messages) (hlast : a.endsBlank = false) :
    Clean es b := h.clean (hsealed.spoken hlast)

theorem getLast?_of_trailing {a : Agent} {message : AgentMessage} (h : a.trailingAssistantMessage = some message) :
    a.state.messages.getLast? = some message := by
  unfold trailingAssistantMessage at h
  exact (Option.filter_eq_some_iff.mp h).1

theorem endsBlank_of_not_assistant {a : Agent} (h : a.trailingAssistantMessage = none) : a.endsBlank = false := by
  unfold trailingAssistantMessage at h
  unfold endsBlank
  cases hlast : a.state.messages.getLast? with
  | none => rfl
  | some last =>
    rw [hlast, Option.filter_eq_none_iff] at h
    refine isBlank_of_role ?_
    simpa using h last rfl

theorem clean_appendAssistantText {a : Agent} (hsealed : Sealed a.state.messages) (delta : String) :
    Clean [] (a.appendAssistantText delta).1 := by
  refine ⟨?_, fun _ hrequest => absurd hrequest not_mem_nil⟩
  -- only a blank last message could be buried, and that one is given the text
  have hpush (hlast : a.endsBlank = false) : Sealed (a.pushMessage .assistant [.text (pushBounded "" delta)]).1.state.messages := by
    show Spoken (List.dropLast (a.state.messages ++ [_]))
    rw [dropLast_concat]
    exact hsealed.spoken hlast
  unfold appendAssistantText
  dsimp only
  cases htrailing : a.trailingAssistantMessage with
  | none => exact hpush (endsBlank_of_not_assistant htrailing)
  | some message =>
    have hlast := getLast?_of_trailing htrailing
    dsimp only
    split
    · exact hsealed.put _
    · split
      · rename_i huse
        refine hpush ?_
        obtain ⟨block, hblock, hisUse⟩ := any_eq_true.mp huse
        rw [endsBlank, hlast, Option.any_some]
        refine isBlank_of_mem hblock ?_
        cases block with
        | toolUse call => rfl
        | text | toolResult | image => cases hisUse
      · exact hsealed.put _

theorem clean_assistantMessageId {a : Agent} (hsealed : Sealed a.state.messages) : Clean [] a.assistantMessageId.1 := by
  refine ⟨?_, fun _ hrequest => absurd hrequest not_mem_nil⟩
  unfold assistantMessageId
  cases htrailing : a.trailingAssistantMessage with
  | some message => exact hsealed
  | none =>
    show Spoken (List.dropLast (a.state.messages ++ [_]))
    rw [dropLast_concat]
    exact hsealed.spoken (endsBlank_of_not_assistant htrailing)

theorem spoken_pushToolUse {a : Agent} (hsealed : Sealed a.state.messages) (hbare : a.endsBare = false) (call : ToolCall) :
    Spoken (a.pushToolUse call).1.state.messages := by
  have huse (id : MessageId) (role : MessageRole) (createdAt : Timestamp) :
      AgentMessage.isBlank ⟨id, role, [.toolUse call], createdAt⟩ = false := isBlank_of_mem mem_cons_self rfl
  have hpush (hlast : a.endsBlank = false) : Spoken (a.pushMessage .assistant [.toolUse call]).1.state.messages :=
    Spoken.push (hsealed.spoken hlast) (huse _ _ _)
  unfold pushToolUse
  cases htrailing : a.trailingAssistantMessage with
  | none => exact hpush (endsBlank_of_not_assistant htrailing)
  | some message =>
    have hlast := getLast?_of_trailing htrailing
    dsimp only
    split
    · exact Spoken.push hsealed (huse _ _ _)
    · rename_i hcontent
      refine hpush ?_
      rw [endsBare, hlast, Option.any_some] at hbare
      rw [endsBlank, hlast, Option.any_some]
      simpa [hcontent] using hbare

theorem clean_continueAfterTools {a : Agent} (hsealed : Sealed a.state.messages) (hasks : a.asksBlank = false) :
    Clean a.continueAfterTools.2 a.continueAfterTools.1 := by
  cases hlast : a.endsBlank with
  | false => exact clean_of_spoken a.speaks_continueAfterTools hsealed hlast
  | true =>
    have hturn := a.tacit_beginTurn
    unfold asksBlank at hasks
    unfold continueAfterTools
    split
    · rename_i hready
      rw [Bool.and_eq_true] at hready
      split
      · exact (Tacit.refl a).clean hsealed
      · rename_i runId hrun
        rw [hready.1, hlast, Bool.true_and, Bool.true_and] at hasks
        split
        · rename_i b failure hb
          rw [hb] at hturn
          exact hturn.clean hsealed
        · rename_i b effects hb
          rw [hb] at hturn hasks
          have hchanged : Tacit b (changedTo b.state.status .waitingForBackend) (b.withStatus .waitingForBackend) :=
            .same rfl (backendRequests_changedTo _ _)
          dsimp only
          refine (hturn.trans hchanged).then_clean ⟨?_, fun request hrequest => ?_⟩
          · exact (buildRequest_transcript (b.withStatus .waitingForBackend) runId false).symm ▸ hturn.sealed hsealed
          · rw [mem_singleton.mp hrequest, executionRequest, buildRequest_messages]
            exact (hturn.sealed hsealed).tails hasks
    · exact (Tacit.refl a).clean hsealed

theorem completed_settled (a : Agent) (runId : RunId) (result : ExecutionResult) : a.completed runId result =
    if outputLimitReasons.contains result.finishReason then
      (a.settled result).fail "OUTPUT_LIMIT_REACHED" ("The model stopped at its output token limit (" ++
        result.finishReason ++ "); the response is incomplete.")
    else if result.finishReason = "tool_use" then (a.settled result).continueAfterTools
    else (a.settled result).proposeCompletion runId ("Run completed: " ++ result.finishReason) := rfl

/-- The end of a turn either drops the blank message, or the command abandons it. -/
theorem clean_completed {a : Agent} {result : ExecutionResult} (hsealed : Sealed a.state.messages)
    (hends : a.completesBlank result = false) (runId : RunId) :
    Clean (a.completed runId result).2 (a.completed runId result).1 := by
  have hsettled : Sealed (a.settled result).state.messages := (a.withInFlight false).tacit_discardTrailing.sealed hsealed
  unfold completesBlank at hends
  rw [completed_settled]
  generalize a.settled result = m at hsettled hends ⊢
  split
  · exact (m.tacit_fail _ _).clean hsettled
  · rename_i hlimit
    rw [Bool.not_eq_true] at hlimit
    rw [hlimit, Bool.not_false, Bool.true_and] at hends
    split
    · rename_i huse
      rw [if_pos huse] at hends
      exact clean_continueAfterTools hsettled hends
    · rename_i huse
      rw [if_neg huse, Bool.and_eq_false_iff] at hends
      rcases hends with hlast | hrejects
      · exact clean_of_spoken (m.speaks_proposeCompletion runId _) hsettled hlast
      · exact (tacit_proposeCompletion hrejects runId _).clean hsettled

theorem clean_handleBackendEvent {a : Agent} {runId : RunId} {event : ExecutionEvent} (hrun : a.state.activeRun = some runId)
    (hsealed : Sealed a.state.messages) (hkept : a.abandons (.backendEvent runId event) = false) :
    Clean (a.handleBackendEvent runId event).2 (a.handleBackendEvent runId event).1 := by
  simp only [abandons, hrun, beq_self_eq_true, Bool.true_and] at hkept
  cases event with
  | textDelta requestId delta =>
    have hstatus : Tacit a (changedTo a.state.status .streaming) (a.withStatus .streaming) :=
      .same rfl (backendRequests_changedTo _ _)
    have hadded := clean_appendAssistantText (a := a.withStatus .streaming) hsealed delta
    exact hstatus.then_clean ⟨hadded.sealed, hadded.sent⟩
  | reasoningDelta requestId delta => exact ⟨(clean_assistantMessageId hsealed).sealed, (clean_assistantMessageId hsealed).sent⟩
  | toolCallRequested requestId call => exact (a.speaks_toolRequested call).clean (spoken_pushToolUse hsealed hkept call)
  | toolCallStarted requestId call =>
    have hused := spoken_pushToolUse (a := a.withStatus .executing) hsealed hkept call
    have hchanged : Tacit a (changedTo a.state.status .executing) (a.withStatus .executing) :=
      .same rfl (backendRequests_changedTo _ _)
    exact hchanged.then_clean ⟨hused.sealed, fun _ hrequest => absurd hrequest not_mem_nil⟩
  | toolCallCompleted requestId callId result =>
    have hchanged : Tacit a (changedTo a.state.status .streaming) (a.withStatus .streaming) :=
      .same rfl (backendRequests_changedTo _ _)
    refine hchanged.then_clean ⟨?_, fun _ hrequest => absurd hrequest not_mem_nil⟩
    show Spoken (List.dropLast (a.state.messages ++ [_]))
    rw [dropLast_concat]
    exact hsealed.spoken hkept
  | usageUpdate requestId usage => exact (Tacit.same rfl rfl).clean hsealed
  | completed requestId result => exact clean_completed hsealed hkept runId
  | error requestId error => exact (a.tacit_fail _ _).clean hsealed

theorem clean_startRun {a : Agent} {input : UserInput} (hsealed : Sealed a.state.messages)
    (hopens : a.opensOnBlank input = false) : Clean (a.startRun input).2 (a.startRun input).1 := by
  unfold opensOnBlank acceptsRun at hopens
  unfold startRun
  cases hvalid : validateTranscript a.state.messages with
  | error error => exact (a.tacit_fail _ _).clean hsealed
  | ok =>
    cases hlimit : validateAttachments 0 input.attachments with
    | error error => exact (a.tacit_fail _ _).clean hsealed
    | ok =>
      have hswitch := a.tacit_takePendingSwitch
      simp only [hvalid, hlimit, Except.isOk, Except.toBool, Bool.true_and] at hopens
      have hbegin := a.takePendingSwitch.1.speaks_beginRun input
      exact hswitch.then_clean (clean_of_spoken hbegin (hswitch.sealed hsealed) hopens)

theorem clean_resume {a : Agent} (hsealed : Sealed a.state.messages) (hkept : a.abandons .resume = false) :
    Clean a.resume.2 a.resume.1 := by
  unfold resume
  split
  · exact (Tacit.refl a).clean hsealed
  · rename_i hpaused
    split
    · rename_i runId hrun
      have hrequest := (a.withStatus .waitingForBackend).speaks_buildRequest runId true
      have hchanged : Tacit a [stateChanged .paused .waitingForBackend] (a.withStatus .waitingForBackend) := .same rfl rfl
      refine hchanged.then_clean ?_
      cases hlast : a.endsBlank with
      | false => exact clean_of_spoken hrequest hsealed hlast
      | true =>
        simp only [abandons, not_not.mp hpaused, hrun, hlast, beq_self_eq_true, Option.isSome_some, Bool.true_and] at hkept
        refine ⟨?_, fun request hrequest => ?_⟩
        · rwa [buildRequest_transcript]
        · rw [mem_singleton.mp hrequest, buildRequest_messages]
          exact hsealed.tails hkept
    · exact (Tacit.same rfl rfl).clean hsealed

theorem clean_startNextQueuedRun {a : Agent} (hsealed : Sealed a.state.messages)
    (hkept : a.abandons .startNextQueuedRun = false) : Clean a.startNextQueuedRun.2 a.startNextQueuedRun.1 := by
  unfold startNextQueuedRun
  cases hqueue : a.state.queuedInputs with
  | nil => exact (Tacit.refl a).clean hsealed
  | cons input rest =>
    simp only [abandons, hqueue, List.head?_cons, Option.any_some, tail_cons] at hkept
    exact clean_startRun (a := a.withQueuedInputs rest) hsealed hkept

theorem clean_backendEvent {a : Agent} {runId : RunId} {event : ExecutionEvent} (hsealed : Sealed a.state.messages)
    (hkept : a.abandons (.backendEvent runId event) = false) :
    Clean (a.backendEvent runId event).2 (a.backendEvent runId event).1 := by
  unfold backendEvent
  split
  · exact (Tacit.refl a).clean hsealed
  · rename_i hrun
    exact clean_handleBackendEvent (not_not.mp hrun) hsealed hkept

theorem clean_outcome {a : Agent} {callId : ToolCallId} (hsealed : Sealed a.state.messages) (h : Speaks a es b)
    (hkept : ((a.state.pendingTools.lookup callId).isSome && a.endsBlank) = false)
    (hquiet : a.state.pendingTools.lookup callId = none → (b, es) = (a, [])) : Clean es b := by
  cases hpending : a.state.pendingTools.lookup callId with
  | none =>
    obtain ⟨rfl, rfl⟩ := Prod.mk.inj (hquiet hpending)
    exact (Tacit.refl b).clean hsealed
  | some pending =>
    rw [hpending, Option.isSome_some, Bool.true_and] at hkept
    exact clean_of_spoken h hsealed hkept

theorem clean_toolCompleted {a : Agent} {callId : ToolCallId} {result : ToolResult} (hsealed : Sealed a.state.messages)
    (hkept : a.abandons (.toolCompleted callId result) = false) :
    Clean (a.toolCompleted callId result).2 (a.toolCompleted callId result).1 := by
  refine clean_outcome hsealed (a.speaks_toolCompleted callId result) hkept fun hgone => ?_
  simp [toolCompleted, hgone]

theorem clean_toolFailed {a : Agent} {callId : ToolCallId} {error : ToolError} (hsealed : Sealed a.state.messages)
    (hkept : a.abandons (.toolFailed callId error) = false) :
    Clean (a.toolFailed callId error).2 (a.toolFailed callId error).1 := by
  refine clean_outcome hsealed (a.speaks_toolFailed callId error) hkept fun hgone => ?_
  simp [toolFailed, hgone]

theorem clean_permissionResolved {a : Agent} {id : PermissionId} {decision : PermissionDecision}
    (hsealed : Sealed a.state.messages) (hkept : a.abandons (.permissionResolved id decision) = false) :
    Clean (a.permissionResolved id decision).2 (a.permissionResolved id decision).1 := by
  unfold permissionResolved
  cases hasked : a.state.pendingPermissions.lookup id with
  | none => exact (Tacit.refl a).clean hsealed
  | some callId =>
    dsimp only
    split
    · exact (Tacit.same rfl rfl).clean hsealed
    · rename_i pending hpending
      replace hpending : a.state.pendingTools.lookup callId = some pending := hpending
      cases decision with
      | approved => exact (Tacit.same rfl rfl).clean hsealed
      | denied =>
        simp only [abandons, hasked, Option.any_some, hpending, Option.isSome_some, Bool.and_true] at hkept
        exact (speaks_toolFailed _ _ _).clean (hsealed.spoken hkept)

theorem clean_completionEvaluated {a : Agent} {runId : RunId} {attempt : Nat} {verdicts : List CheckVerdict}
    {usage : List UsageRecord} (hsealed : Sealed a.state.messages)
    (hkept : a.abandons (.completionEvaluated runId attempt verdicts usage) = false) :
    Clean (a.completionEvaluated runId attempt verdicts usage).2 (a.completionEvaluated runId attempt verdicts usage).1 := by
  obtain ⟨m, es, hcounted, hbehavior, h | h | ⟨⟨hstatus, hrun, hattempt⟩, h⟩⟩ :=
    a.completionEvaluated_counted runId attempt verdicts usage
  · rw [h]
    exact hcounted.clean hsealed
  · rw [h]
    exact ⟨hcounted.sealed hsealed, fun _ hrequest => absurd hrequest not_mem_nil⟩
  · rw [h]
    cases hlast : a.endsBlank with
    | false =>
      have hspoken := hcounted.spoken (hsealed.spoken hlast)
      exact hcounted.then_clean ((m.speaks_gateDecided runId _ _).clean hspoken)
    | true =>
      simp only [abandons, hstatus, hrun, hattempt, hlast, beq_self_eq_true, Bool.true_and] at hkept
      have hrejects : m.rejects (a.verdictFailures verdicts) = false := by
        unfold rejects gateStep at hkept ⊢
        rw [hbehavior]
        exact hkept
      exact hcounted.then_clean ((tacit_gateDecided hrejects runId _).clean (hcounted.sealed hsealed))

/-- The step lemma: one case for each command, closed by what its helper does to the transcript. -/
theorem clean_apply {a : Agent} {command : AgentCommand} (hsealed : Sealed a.state.messages)
    (hkept : a.abandons command = false) : Clean (a.apply command).2 (a.apply command).1 := by
  have hstart (input : UserInput) (h : (a.state.activeRun.isNone && a.opensOnBlank input) = false) :
      Clean (a.startOrQueue input).2 (a.startOrQueue input).1 := by
    unfold startOrQueue
    cases hrun : a.state.activeRun with
    | some runId => exact ⟨hsealed, fun _ hrequest => absurd hrequest not_mem_nil⟩
    | none =>
      rw [hrun, Option.isNone_none, Bool.true_and] at h
      exact clean_startRun hsealed h
  cases command with
  | startRun input | steer input | followUp input => exact hstart input hkept
  | startNextQueuedRun => exact clean_startNextQueuedRun hsealed hkept
  | backendEvent runId event => exact clean_backendEvent hsealed hkept
  | toolCompleted callId result => exact clean_toolCompleted hsealed hkept
  | toolFailed callId error => exact clean_toolFailed hsealed hkept
  | permissionResolved id decision => exact clean_permissionResolved hsealed hkept
  | spawnChild spec => exact (Tacit.same rfl rfl).clean hsealed
  | childSpawned agentId awaiting => exact (a.tacit_childSpawned agentId awaiting).clean hsealed
  | childCompleted agentId result => exact ((tacit_childDone _ agentId .success).kept rfl).clean hsealed
  | childFailed agentId error => exact ((tacit_childDone _ agentId .failed).kept rfl).clean hsealed
  | cancel => exact a.tacit_cancel.clean hsealed
  | pause => exact a.tacit_pause.clean hsealed
  | resume => exact clean_resume hsealed hkept
  | configureExecution params => exact (Tacit.same rfl rfl).clean hsealed
  | setBehaviorProfile profile library allowCommands =>
    exact (a.tacit_setBehaviorProfile profile library allowCommands).clean hsealed
  | completionEvaluated runId attempt verdicts usage => exact clean_completionEvaluated hsealed hkept

def SendsNoBlank (step : Step) : Prop := ∀ request ∈ backendRequests step.out, Spoken request.messages

/-- A run in which no command leaves a blank message behind sends none. -/
theorem sends_no_blank {a : Agent} (hfresh : a.Fresh) (commands : List AgentCommand)
    (hkept : ∀ step ∈ machine.trace a commands, step.pre.abandons step.input = false) :
    ∀ step ∈ machine.trace a commands, SendsNoBlank step := by
  have hstep (a : Agent) (command : AgentCommand) (hsealed : Sealed a.state.messages)
      (hkept : (machine.stepAt a command).pre.abandons (machine.stepAt a command).input = false) :
      Sealed (machine.step a command).1.state.messages ∧ SendsNoBlank (machine.stepAt a command) :=
    ⟨(clean_apply hsealed hkept).sealed, (clean_apply hsealed hkept).sent⟩
  refine Machine.trace_rule (P := fun a : Agent => Sealed a.state.messages) hstep ?_ hkept
  obtain ⟨id, sessionId, parentId, depth, systemPrompt, capabilities, profile, library, trusted, params, rfl⟩ := hfresh
  exact fun _ hmessage => absurd hmessage not_mem_nil

end Agent

end

section

open Sample Agent

namespace Sample

def reasonedTurn : List AgentCommand :=
  [prompt, fromBackend (.reasoningDelta ⟨0⟩ "hm"),
    fromBackend (.completed ⟨0⟩ { requestId := ⟨0⟩, usage := {}, cost := {}, finishReason := "end_turn" }), prompt]

end Sample

theorem sends_no_blank_after_reasoning :
    (machine.trace (agent .allow defaultProfile) reasonedTurn).map (fun step => (backendRequests step.out).length) =
      [1, 0, 0, 1] ∧ ∀ step ∈ machine.trace (agent .allow defaultProfile) reasonedTurn, SendsNoBlank step :=
  ⟨by decide, sends_no_blank (fresh_agent .allow defaultProfile) _ (by decide)⟩

set_option maxRecDepth 4096 in
/-- The same turn is cancelled: its message stays, without content, and the next run sends it. -/
theorem cancelled_reasoning_sent :
    ∃ a : Agent, a.Reachable ∧ ∃ request ∈ backendRequests (a.apply prompt).2, ∃ message ∈ request.messages,
      message.role = .assistant ∧ message.content.length = 0 :=
  ⟨machine.run (agent .allow defaultProfile) [prompt, fromBackend (.reasoningDelta ⟨0⟩ "hm"), .cancel],
    .run (.start (fresh_agent .allow defaultProfile)) _, by decide⟩

end

end RustyCore
