import RustyCore.Theorems.Transition

/-! Tools run only inside a live run, except for approvals that outlive the run they belong to. -/

namespace RustyCore

open List Table

section

variable [Externals]

theorem Transition.toolRequests_cases {a b : Agent} {c : AgentCommand} {es : List AgentEffect}
    (h : Transition a c es b) : toolRequests es = [] ∨
      (∃ runId requestId call call' m, c = .backendEvent runId (.toolCallRequested requestId call) ∧
        a.state.activeRun = some runId ∧ a.Admitted call call' m ∧ a.Authorized call .allow ∧
        b = (m.executeNow a.state.status call').1 ∧ toolRequests es = [⟨call', .allow⟩]) ∨
      ∃ id callId pending, c = .permissionResolved id .approved ∧
        a.state.pendingPermissions.lookup id = some callId ∧ a.state.pendingTools.lookup callId = some pending ∧
        toolRequests es = [⟨pending.call, .allow⟩] := by
  cases h with
  | quiet h => exact .inl h.notices.toolRequests_eq
  | queue => exact .inl rfl
  | reject hstart hinvalid hfail => exact .inl hfail.toolRequests_eq
  | @stop _ m _ _ _ hstart hvalid hstop hfail =>
    exact .inl (by rw [toolRequests_append, m.moves_takePendingSwitch.no_tool.1, hfail.toolRequests_eq]; rfl)
  | @start _ m _ _ _ hstart hvalid hgo hquiet =>
    refine .inl ?_
    rw [toolRequests_append, toolRequests_append, m.moves_takePendingSwitch.no_tool.1, hquiet.notices.toolRequests_eq]
    rfl
  | stream hrun hevent hkept hturns => exact .inl hturns.tools
  | refuse hrun h => exact .inl h.no_tool.1
  | execute hrun hadmitted hnotices hauthorized =>
    refine .inr (.inl ⟨_, _, _, _, _, rfl, hrun, hadmitted, hauthorized, rfl, ?_⟩)
    rw [toolRequests_append, hnotices.toolRequests_eq]
    rfl
  | ask hrun hadmitted hnotices hauthorized =>
    refine .inl ?_
    rw [toolRequests_append, hnotices.toolRequests_eq]
    rfl
  | cutOff hrun hreason h => exact .inl h.toolRequests_eq
  | toolUse hrun hreason h => exact .inl h.moves.no_tool.1
  | propose hrun hreason h => exact .inl h.no_tool.1
  | error hrun h => exact .inl h.toolRequests_eq
  | outcome houtcome hpending hgo h => exact .inl h.moves.no_tool.1
  | halt houtcome hpending hends h => exact .inl h.toolRequests_eq
  | drop => exact .inl rfl
  | approve hasked hpending => exact .inr (.inr ⟨_, _, _, rfl, hasked, hpending, rfl⟩)
  | deny hasked hpending h => exact .inl h.moves.no_tool.1
  | children hchild hto hkept hturns => exact .inl hturns.tools
  | cancel hlive =>
    obtain ⟨ns, hns, heffects⟩ := Agent.cancel_effects hlive
    refine .inl ?_
    rw [heffects, toolRequests_append, hns.toolRequests_eq]
    rfl
  | pause | reissue | wake => exact .inl rfl
  | evaluated hstatus hrun h => exact .inl h.no_tool.1

namespace Agent

/-- The command approves a call that is still pending though no run is active: a failed or finished run
    leaves its calls and the questions about them behind. -/
def ApprovesOrphan (a : Agent) (c : AgentCommand) : Prop :=
  a.state.activeRun = none ∧ ∃ id callId, c = .permissionResolved id .approved ∧
    a.state.pendingPermissions.lookup id = some callId ∧ a.IsPending callId

theorem executes_within_run_iff (a : Agent) (c : AgentCommand) :
    (toolRequests (a.apply c).2 ≠ [] → a.state.activeRun ≠ none) ↔ ¬ a.ApprovesOrphan c := by
  constructor
  · rintro hlive ⟨hidle, id, callId, rfl, hasked, hpending⟩
    obtain ⟨pending, hp⟩ := Option.ne_none_iff_exists'.mp hpending
    refine hlive ?_ hidle
    rw [apply_approved hasked hp]
    exact cons_ne_nil _ _
  · intro horphan htool
    rcases (a.apply_transition c).toolRequests_cases with hnil | ⟨_, _, _, _, _, -, hrun, -⟩ |
      ⟨id, callId, pending, hinput, hasked, hpending, -⟩
    · exact absurd hnil htool
    · simp [hrun]
    · intro hidle
      exact horphan ⟨hidle, id, callId, hinput, hasked, by simp [IsPending, hpending]⟩

/-- In every run of an agent, a step executes a tool only while a run is active exactly when the step does
    not approve an orphaned call. -/
theorem tools_within_run_iff {a : Agent} (hfresh : a.Fresh) (cs : List AgentCommand) :
    ∀ st ∈ machine.trace a cs,
      (toolRequests st.out ≠ [] → st.pre.state.activeRun ≠ none) ↔ ¬ st.pre.ApprovesOrphan st.input := by
  intro st hst
  obtain ⟨-, hstep⟩ := Machine.Reachable.mem_trace (.start hfresh) hst
  rw [hstep]
  exact executes_within_run_iff st.pre st.input

end Agent

end

section

open Sample Agent

theorem tools_within_run_iff_prompt : (agent .allow defaultProfile).Fresh ∧
    ∀ st ∈ machine.trace (agent .allow defaultProfile) [prompt, requests 5],
      (toolRequests st.out ≠ [] → st.pre.state.activeRun ≠ none) ↔ ¬ st.pre.ApprovesOrphan st.input :=
  ⟨fresh_agent .allow defaultProfile, tools_within_run_iff (fresh_agent .allow defaultProfile) [prompt, requests 5]⟩

set_option maxRecDepth 4096 in
/-- The backend fails while the user is asked; the late approval still executes the tool. -/
theorem late_approval_executes : (agent .ask defaultProfile).Fresh ∧
    ∃ st ∈ machine.trace (agent .ask defaultProfile)
      [prompt, requests 5, fromBackend (.error ⟨0⟩ .timeout), .permissionResolved (.derived 7 7 4) .approved],
      (toolRequests st.out).isEmpty = false ∧ st.pre.state.activeRun = none :=
  ⟨fresh_agent .ask defaultProfile, by decide⟩

end

/-! Tool authorization over whole runs: every tool that is executed was admitted by the checks when the
    model asked for it, and ran at once or after the user approved exactly what had been shown. -/

section

variable [Externals]

namespace Agent

/-- What a call was granted when it was admitted: the session offers its tool, enabled and not denied; the
    profile has the tool in scope; no rule that fired on the request denied it; the run is within its tool
    calls and not on its final turn. `mode` is what session, profile and rules allow together. -/
structure Cleared (a : Agent) (call : ToolCall) (mode : PermissionMode) : Prop where
  capability : ∃ capability, a.sessionCapability call.name = some capability ∧
    capability ∈ Table.values a.capabilities.tools.tools ∧ capability.descriptor.name = call.name ∧
    capability.policy.enabled = true ∧ capability.policy.permission ≠ .deny ∧
    mode = a.effectiveMode call capability.policy.permission
  scope : a.state.behavior.profile.allowsTool call.name = true
  undenied : ∀ fired ∈ (a.requestOutcome call).fired, fired.action ≠ "deny"
  budget : ∀ limit, a.state.behavior.profile.profile.limits.maxToolCalls = some limit →
    a.state.behavior.run.toolCalls < limit
  notFinal : a.state.behavior.run.finalTurn = false

def Approval.mode : Approval → PermissionMode
  | .allow => .allow
  | .ask => .ask

omit [Externals] in
theorem max_deny (level : ToolPermission) : ToolPermission.deny.max level = .deny := by
  cases level <;> rfl

theorem permission_deny (p : CompiledProfile) (tool : String) : p.permission tool .deny = .deny := by
  unfold CompiledProfile.permission
  simp only [CompiledProfile.sessionLevel, max_deny]
  rfl

theorem Authorized.cleared {a : Agent} {call : ToolCall} {approval : Approval} (h : a.Authorized call approval) :
    a.Cleared call (Approval.mode approval) := by
  obtain ⟨⟨capability, hfound, hmode⟩, hscope, hundenied, -, hbudget, hfinal⟩ := h
  have hmem := mem_of_find?_eq_some hfound
  have hcapability := List.find?_some hfound
  simp only [Bool.and_eq_true, beq_iff_eq] at hcapability
  refine ⟨⟨capability, hfound, hmem, hcapability.1, hcapability.2, ?_, ?_⟩, hscope, hundenied, ?_, hfinal⟩
  · intro hdeny
    rw [hdeny, effectiveMode, permission_deny] at hmode
    cases hdecision : (a.requestOutcome call).decision with
    | none => simp [hdecision, decidedMode, approvalOf] at hmode
    | some decision => cases decision <;> simp [hdecision, decidedMode, approvalOf] at hmode
  · cases hm : a.effectiveMode call capability.policy.permission with
    | allow =>
      rw [hm] at hmode
      cases hmode
      rfl
    | ask =>
      rw [hm] at hmode
      cases hmode
      rfl
    | deny =>
      rw [hm] at hmode
      cases hmode
  · intro limit hlimit
    simpa [BehaviorState.overBudget, hlimit] using hbudget

/-- Everything pending in `b` was pending in `a`. -/
structure Shrinks (a b : Agent) : Prop where
  tools : ∀ callId pending, b.state.pendingTools.lookup callId = some pending →
    a.state.pendingTools.lookup callId = some pending
  permissions : ∀ id callId, b.state.pendingPermissions.lookup id = some callId →
    a.state.pendingPermissions.lookup id = some callId

namespace Shrinks

variable {a b c : Agent}

theorem of_eq (htools : b.state.pendingTools = a.state.pendingTools)
    (hpermissions : b.state.pendingPermissions = a.state.pendingPermissions) : Shrinks a b :=
  ⟨fun _ _ h => by rwa [htools] at h, fun _ _ h => by rwa [hpermissions] at h⟩

theorem trans (h : Shrinks a b) (h' : Shrinks b c) : Shrinks a c :=
  ⟨fun callId pending hc => h.tools callId pending (h'.tools callId pending hc),
    fun id callId hc => h.permissions id callId (h'.permissions id callId hc)⟩

theorem kept (h : Kept a b) : Shrinks a b := of_eq h.pendingTools h.pendingPermissions

theorem moves {es : List AgentEffect} (h : Moves a es b) : Shrinks a b := of_eq h.pending.1 h.pending.2.1

theorem fails {es : List AgentEffect} (h : Fails a es b) : Shrinks a b :=
  of_eq (congrArg Control.pendingTools h.control) (congrArg Control.pendingPermissions h.control)

theorem forgetCall (a : Agent) (callId : ToolCallId) : Shrinks a (a.forgetCall callId) :=
  ⟨fun _ _ h => (lookup_of_erase h).2, fun _ _ h => (lookup_retain h).2⟩

theorem decides {runId : RunId} {es : List AgentEffect} (h : Decides runId a es b) : Shrinks a b := by
  cases h with
  | fail h => exact moves h
  | finish h | again h | verify h => exact of_eq h.pendingTools h.pendingPermissions

end Shrinks

theorem shrinks_of_transition {a b : Agent} {c : AgentCommand} {es : List AgentEffect} (h : Transition a c es b) :
    Shrinks a b ∨ ∃ runId requestId call call' m, c = .backendEvent runId (.toolCallRequested requestId call) ∧
      a.Admitted call call' m ∧ b.state.pendingTools = m.state.pendingTools ∧
      (b.state.pendingPermissions = a.state.pendingPermissions ∨
        a.Authorized call .ask ∧ ∃ request, permissionRequests es = [request] ∧ request.toolCall = call' ∧
          b.state.pendingPermissions = a.state.pendingPermissions.insert request.id call.id) := by
  have hstart : ∀ {m : Agent} {input : UserInput}, a.startInput c = some (m, input) →
      Shrinks a m.takePendingSwitch.1 ∧ Shrinks a m := by
    intro m input hstart
    have hm : Shrinks a m := by
      obtain ⟨-, rfl⟩ | ⟨rest, -, -, rfl⟩ := startInput_cases hstart
      · exact .of_eq rfl rfl
      · exact .of_eq rfl rfl
    exact ⟨hm.trans (.moves m.moves_takePendingSwitch), hm⟩
  cases h with
  | quiet h => exact .inl (.kept h.toKept)
  | queue => exact .inl (.of_eq rfl rfl)
  | reject hm hinvalid hfail => exact .inl ((hstart hm).2.trans (.fails hfail))
  | @stop _ m _ input _ hm hvalid hstop hfail =>
    have hopened : Shrinks m.takePendingSwitch.1 (m.takePendingSwitch.1.openRun input).1 := .of_eq rfl rfl
    exact .inl (((hstart hm).1.trans hopened).trans (.fails hfail))
  | @start _ m n input _ hm hvalid hgo hquiet =>
    have hopened : Shrinks m.takePendingSwitch.1 (m.takePendingSwitch.1.openRun input).1 := .of_eq rfl rfl
    have hasked : Shrinks n (n.executionRequest (m.takePendingSwitch.1.openRun input).2).1 := .of_eq rfl rfl
    exact .inl (((hstart hm).1.trans hopened).trans ((Shrinks.kept hquiet.toKept).trans hasked))
  | stream hrun hevent hkept => exact .inl (.of_eq hkept.pendingTools hkept.pendingPermissions)
  | @refuse _ _ call _ _ hrun h =>
    generalize a.stopsRequest call = stops at h
    refine .inl ((Shrinks.forgetCall a call.id).trans ?_)
    cases h with
    | denied h => exact .moves h.moves
    | stopped h code message =>
      exact (Shrinks.moves h.moves).trans (.of_eq (fail_pendingTools _ code message) (fail_pendingPermissions _ code message))
  | execute hrun hadmitted hnotices =>
    exact .inr ⟨_, _, _, _, _, rfl, hadmitted, rfl, .inl (congrArg Control.pendingPermissions hadmitted.control)⟩
  | @ask _ _ call call' m es hrun hadmitted hnotices hauthorized =>
    have hpermissions : m.state.pendingPermissions = a.state.pendingPermissions :=
      congrArg Control.pendingPermissions hadmitted.control
    refine .inr ⟨_, _, call, call', m, rfl, hadmitted, rfl, .inr ⟨hauthorized,
      ⟨(m.withStatus .waitingForPermission).nextPermissionId.2, call', m.id⟩, ?_, rfl, ?_⟩⟩
    · rw [permissionRequests_append, hnotices.permissionRequests_eq]
      rfl
    · rw [← hpermissions, ← hadmitted.sameId]
      rfl
  | cutOff hrun hreason h | error hrun h =>
    exact .inl (.of_eq (congrArg Control.pendingTools h.control) (congrArg Control.pendingPermissions h.control))
  | toolUse hrun hreason h => exact .inl (.of_eq h.moves.pending.1 h.moves.pending.2.1)
  | propose hrun hreason h =>
    have hlanded : Shrinks a (a.withInFlight false) := .of_eq rfl rfl
    exact .inl (hlanded.trans (.decides h))
  | outcome houtcome hpending hgo h => exact .inl ((Shrinks.forgetCall a _).trans (.moves h.moves))
  | halt houtcome hpending hends h => exact .inl ((Shrinks.forgetCall a _).trans (.fails h))
  | drop | approve => exact .inl ⟨fun _ _ h => h, fun _ _ h => (lookup_of_erase h).2⟩
  | @deny id callId _ _ hasked hpending h =>
    have hanswered : Shrinks a (a.withPendingPermissions (a.state.pendingPermissions.erase id)) :=
      ⟨fun _ _ h => h, fun _ _ h => (lookup_of_erase h).2⟩
    exact .inl (hanswered.trans ((Shrinks.forgetCall _ callId).trans (.moves h.moves)))
  | children hchild hto hkept => exact .inl (.of_eq hkept.pendingTools hkept.pendingPermissions)
  | cancel hlive =>
    rw [cancel_fst hlive]
    exact .inl ⟨nofun, nofun⟩
  | pause | reissue | wake => exact .inl (.of_eq rfl rfl)
  | evaluated hstatus hrun h => exact .inl (.decides h)

end Agent

namespace AgentCommand

def requested : AgentCommand → Option ToolCall
  | .backendEvent _ (.toolCallRequested _ call) => some call
  | _ => none

def requestedId (c : AgentCommand) : Option ToolCallId := c.requested.map (·.id)

end AgentCommand

namespace Agent

/-- A step of `past` admitted a call, to be asked about, and put out the question `id` about `shown`: the
    call with the arguments the rules gave it. -/
def Asked (past : List Step) (id : PermissionId) (shown : ToolCall) : Prop :=
  ∃ st ∈ past, ∃ call, st.input.requested = some call ∧ st.pre.Authorized call .ask ∧
    shown = rewritten call (st.pre.requestOutcome call) ∧
    ∃ request ∈ permissionRequests st.out, request.id = id ∧ request.toolCall = shown

theorem Asked.mono {past : List Step} {id : PermissionId} {shown : ToolCall} (h : Asked past id shown) (st : Step) :
    Asked (past ++ [st]) id shown := by
  obtain ⟨asking, hasking, hrest⟩ := h
  exact ⟨asking, mem_append_left _ hasking, hrest⟩

/-- The open questions after `past`: each is about a call that was requested, and if that call is pending,
    the question showed it as it is pending. -/
structure Questions (past : List Step) (a : Agent) : Prop where
  requested : ∀ id callId, a.state.pendingPermissions.lookup id = some callId →
    ∃ st ∈ past, st.input.requestedId = some callId
  shown : ∀ id callId pending, a.state.pendingPermissions.lookup id = some callId →
    a.state.pendingTools.lookup callId = some pending → Asked past id pending.call

def RequestsFresh (past : List Step) (st : Step) : Prop :=
  ∀ callId, st.input.requestedId = some callId → ∀ earlier ∈ past, earlier.input.requestedId ≠ some callId

theorem Questions.fresh {a : Agent} (h : a.Fresh) : Questions [] a := by
  obtain ⟨id, sessionId, parentId, depth, systemPrompt, capabilities, profile, library, trusted, params, rfl⟩ := h
  refine ⟨?_, ?_⟩
  · intro id callId hasked
    cases hasked
  · intro id callId pending hasked
    cases hasked

theorem Questions.shrinks {past : List Step} {a b : Agent} (h : Questions past a) (hshrinks : Shrinks a b) (st : Step) :
    Questions (past ++ [st]) b where
  requested id callId hasked := by
    obtain ⟨earlier, hearlier, hid⟩ := h.requested id callId (hshrinks.permissions id callId hasked)
    exact ⟨earlier, mem_append_left _ hearlier, hid⟩
  shown id callId pending hasked hpending :=
    (h.shown id callId pending (hshrinks.permissions id callId hasked)
      (hshrinks.tools callId pending hpending)).mono st

theorem Questions.admitted {past : List Step} {a m : Agent} {call call' : ToolCall} (h : Questions past a)
    (hadmitted : a.Admitted call call' m) (hfresh : ∀ earlier ∈ past, earlier.input.requestedId ≠ some call.id)
    {id : PermissionId} {callId : ToolCallId} {pending : PendingToolCall}
    (hasked : a.state.pendingPermissions.lookup id = some callId)
    (hpending : m.state.pendingTools.lookup callId = some pending) : Asked past id pending.call := by
  obtain ⟨earlier, hearlier, hid⟩ := h.requested id callId hasked
  have hother : callId ≠ call.id := by
    rintro rfl
    exact hfresh earlier hearlier hid
  rw [hadmitted.others callId hother] at hpending
  exact h.shown id callId pending hasked hpending

theorem Questions.step {past : List Step} {a : Agent} {c : AgentCommand} (h : Questions past a)
    (hfresh : RequestsFresh past (machine.stepAt a c)) :
    Questions (past ++ [machine.stepAt a c]) (machine.step a c).1 := by
  rcases shrinks_of_transition (a.apply_transition c) with hshrinks |
    ⟨runId, requestId, call, call', m, rfl, hadmitted, htools, hpermissions⟩
  · exact h.shrinks hshrinks _
  · have hfreshCall := hfresh call.id rfl
    have hold : ∀ id callId, a.state.pendingPermissions.lookup id = some callId →
        ∃ st ∈ past ++ [machine.stepAt a (.backendEvent runId (.toolCallRequested requestId call))],
          st.input.requestedId = some callId := by
      intro id callId hasked
      obtain ⟨earlier, hearlier, hid⟩ := h.requested id callId hasked
      exact ⟨earlier, mem_append_left _ hearlier, hid⟩
    rcases hpermissions with hsame | ⟨hauthorized, request, hrequests, hshown, hinsert⟩
    · refine ⟨fun id callId hasked => hold id callId (hsame ▸ hasked), ?_⟩
      intro id callId pending hasked hpending
      exact (h.admitted hadmitted hfreshCall (hsame ▸ hasked) (htools ▸ hpending)).mono _
    · -- the new question is about the call just admitted; all others are as before
      have hcases : ∀ id callId,
          (machine.step a (.backendEvent runId (.toolCallRequested requestId call))).1.state.pendingPermissions.lookup id
            = some callId →
          id = request.id ∧ callId = call.id ∨ a.state.pendingPermissions.lookup id = some callId := by
        intro id callId hasked
        have hasked : (a.state.pendingPermissions.insert request.id call.id).lookup id = some callId := hinsert ▸ hasked
        by_cases hid : id = request.id
        · subst hid
          rw [lookup_insert_self] at hasked
          exact .inl ⟨rfl, (Option.some.inj hasked).symm⟩
        · rw [lookup_insert_ne hid] at hasked
          exact .inr hasked
      refine ⟨?_, ?_⟩
      · intro id callId hasked
        rcases hcases id callId hasked with ⟨-, rfl⟩ | hasked
        · exact ⟨_, mem_append_right _ mem_cons_self, rfl⟩
        · exact hold id callId hasked
      · intro id callId pending hasked hpending
        have hpending : m.state.pendingTools.lookup callId = some pending := htools ▸ hpending
        rcases hcases id callId hasked with ⟨rfl, rfl⟩ | hasked
        · obtain ⟨p, hp, hcall⟩ := hadmitted.pending
          obtain rfl : p = pending := Option.some.inj (hp.symm.trans hpending)
          refine ⟨_, mem_append_right _ mem_cons_self, call, rfl, hauthorized,
            hcall.trans hadmitted.rewritten, request, ?_, rfl, hshown.trans hcall.symm⟩
          exact hrequests ▸ mem_cons_self
        · exact (h.admitted hadmitted hfreshCall hasked hpending).mono _

/-- The call of an executed tool was cleared when it was requested: by the same step, with the effective mode
    `allow`; or by an earlier one, whose question showed the call that runs and was answered with yes. -/
def ClearedIn (before : List Step) (st : Step) (request : ToolRequest) : Prop :=
  ∃ admission ∈ before ++ [st], ∃ call, admission.input.requested = some call ∧
    request.call = rewritten call (admission.pre.requestOutcome call) ∧
    (admission = st ∧ admission.pre.Cleared call .allow ∨
      admission.pre.Cleared call .ask ∧ ∃ question ∈ permissionRequests admission.out,
        question.toolCall = request.call ∧ st.input = .permissionResolved question.id .approved)

theorem Questions.cleared {past : List Step} {a : Agent} {c : AgentCommand} (h : Questions past a)
    {request : ToolRequest} (hrequest : request ∈ toolRequests (machine.stepAt a c).out) :
    ClearedIn past (machine.stepAt a c) request := by
  rcases (a.apply_transition c).toolRequests_cases with hnone |
    ⟨runId, requestId, call, call', m, rfl, -, hadmitted, hauthorized, -, htools⟩ |
    ⟨id, callId, pending, rfl, hasked, hpending, htools⟩
  · rw [show toolRequests (machine.stepAt a c).out = [] from hnone] at hrequest
    cases hrequest
  · obtain rfl : request = ⟨call', .allow⟩ := mem_singleton.mp (htools ▸ hrequest)
    exact ⟨_, mem_append_right _ mem_cons_self, call, rfl, hadmitted.rewritten,
      .inl ⟨rfl, hauthorized.cleared⟩⟩
  · obtain rfl : request = ⟨pending.call, .allow⟩ := mem_singleton.mp (htools ▸ hrequest)
    obtain ⟨st, hst, call, hcall, hauthorized, hshown, question, hquestion, rfl, hsame⟩ :=
      h.shown id callId pending hasked hpending
    exact ⟨st, mem_append_left _ hst, call, hcall, hshown,
      .inr ⟨hauthorized.cleared, question, hquestion, hsame, rfl⟩⟩

/-- In every run of an agent in which no two requested calls share an id, every tool that is executed was
    cleared when it was requested, and was approved if it had to be asked about. -/
theorem executed_tools_cleared {a : Agent} (hfresh : a.Fresh) {cs : List AgentCommand}
    (hids : (cs.filterMap AgentCommand.requestedId).Nodup) :
    ∀ before st after, machine.trace a cs = before ++ st :: after →
      ∀ request ∈ toolRequests st.out, ClearedIn before st request := by
  intro before st after htrace request hrequest
  have hcond : ∀ before st after, machine.trace a cs = before ++ st :: after → RequestsFresh ([] ++ before) st := by
    intro before st after htrace callId hid earlier hearlier hearlierId
    have hinputs : (before ++ st :: after).map (·.input) = cs := by rw [← htrace, Machine.map_input_trace]
    rw [← hinputs, map_append, map_cons, filterMap_append, filterMap_cons_some hid,
      nodup_append] at hids
    exact hids.2.2 callId (mem_filterMap.mpr ⟨_, mem_map_of_mem hearlier, hearlierId⟩) callId
      mem_cons_self rfl
  obtain ⟨hquestions, hstep⟩ := Machine.history_rule (fun past s i h hfresh => Questions.step h hfresh)
    (Questions.fresh hfresh) hcond before st after htrace
  rw [hstep] at hrequest ⊢
  exact hquestions.cleared hrequest

end Agent

end

section

open Sample Agent

set_option maxRecDepth 4096 in
theorem executed_tools_cleared_approved : (toolRequests (machine.output (agent .ask defaultProfile)
      [prompt, requests 5, .permissionResolved (.derived 7 7 4) .approved])).length = 1 ∧
    ∀ before st after, machine.trace (agent .ask defaultProfile)
        [prompt, requests 5, .permissionResolved (.derived 7 7 4) .approved] = before ++ st :: after →
      ∀ request ∈ toolRequests st.out, ClearedIn before st request :=
  ⟨by decide, executed_tools_cleared (fresh_agent .ask defaultProfile) (by decide)⟩

end

end RustyCore
