import RustyCore.Theorems.Transition

/-! A pause holds against late deliveries, except for those whose handlers set a status of their own or let
    the turn go on without asking whether the agent is paused. -/

namespace RustyCore

section

variable [Externals]

def AgentCommand.isDelivery : AgentCommand → Bool
  | .backendEvent _ _ | .toolCompleted _ _ | .toolFailed _ _ | .permissionResolved _ _ => true
  | _ => false

namespace Agent

/-- A delivery that takes a paused agent out of its pause.

    Streamed text, tool activity of the backend and a backend error set the status whatever it was. A
    requested call breaks the pause when it is admitted, when a rule stops the run, or when its refusal lets
    the turn go on. The end of a turn breaks it unless calls of that turn are still pending. An outcome of a
    pending call breaks it when it ends the run or was the last one the turn waited for, and an answer to a
    question when it approves a pending call or refuses the last one. -/
def BreaksPause (a : Agent) : AgentCommand → Prop
  | .backendEvent runId event => a.state.activeRun = some runId ∧
    match event with
    | .reasoningDelta _ _ | .usageUpdate _ _ => False
    | .textDelta _ _ | .toolCallStarted _ _ | .toolCallCompleted _ _ _ | .error _ _ => True
    | .toolCallRequested _ call =>
      (∃ approval, a.Authorized call approval) ∨ a.stopsRequest call = true ∨ (a.forgetCall call.id).continues = true
    | .completed _ result => result.finishReason ≠ "tool_use" ∨ (a.withInFlight false).continues = true
  | .toolCompleted callId result => a.IsPending callId ∧
    (a.outcomeEnds (.toolCompleted callId result) = true ∨ (a.forgetCall callId).continues = true)
  | .toolFailed callId error => a.IsPending callId ∧
    (a.outcomeEnds (.toolFailed callId error) = true ∨ (a.forgetCall callId).continues = true)
  | .permissionResolved id decision => ∃ callId, a.state.pendingPermissions.lookup id = some callId ∧
    a.IsPending callId ∧ (decision = .approved ∨ (a.forgetCall callId).continues = true)
  | _ => False

def Holds (es : List AgentEffect) (b : Agent) : Prop :=
  b.state.status = .paused ∧ backendRequests es = [] ∧ toolRequests es = []

theorem holds_of_quiet {a b : Agent} {es : List AgentEffect} (h : Quiet a es b) (hpaused : a.state.status = .paused) :
    Holds es b := ⟨h.status.trans hpaused, h.notices.backendRequests_eq, h.notices.toolRequests_eq⟩

theorem startInput_of_isDelivery {a : Agent} {c : AgentCommand} (h : c.isDelivery = true) :
    a.startInput c = none := by
  cases c <;> first | rfl | cases h

omit [Externals] in
theorem isChild_of_isDelivery {c : AgentCommand} (h : c.isDelivery = true) : c.isChild = false := by
  cases c <;> first | rfl | cases h

theorem holds_transition {a b : Agent} {c : AgentCommand} {es : List AgentEffect} (h : Transition a c es b)
    (hpaused : a.state.status = .paused) (hdelivery : c.isDelivery = true) (hkeeps : ¬ a.BreaksPause c) :
    Holds es b := by
  cases h with
  | quiet h => exact holds_of_quiet h hpaused
  | queue => exact ⟨hpaused, rfl, rfl⟩
  | reject hstart | stop hstart | start hstart =>
    rw [startInput_of_isDelivery hdelivery] at hstart
    cases hstart
  | @stream _ event to_ _ _ hrun hevent hkept hturns =>
    refine absurd ⟨hrun, ?_⟩ hkeeps
    cases event <;> trivial
  | @refuse _ _ call _ _ hrun h =>
    generalize hstops : a.stopsRequest call = stops at h
    cases h with
    | denied h =>
      cases hcontinues : (a.forgetCall call.id).continues with
      | true => exact absurd ⟨hrun, .inr (.inr hcontinues)⟩ hkeeps
      | false => exact holds_of_quiet (h.quiet hcontinues) hpaused
    | stopped => exact absurd ⟨hrun, .inr (.inl hstops)⟩ hkeeps
  | execute hrun hadmitted hnotices hauthorized => exact absurd ⟨hrun, .inl ⟨_, hauthorized⟩⟩ hkeeps
  | ask hrun hadmitted hnotices hauthorized => exact absurd ⟨hrun, .inl ⟨_, hauthorized⟩⟩ hkeeps
  | cutOff hrun hreason =>
    refine absurd ⟨hrun, .inl ?_⟩ hkeeps
    intro htool
    rw [htool] at hreason
    exact absurd hreason (by decide)
  | toolUse hrun hreason h =>
    cases hcontinues : (a.withInFlight false).continues with
    | true => exact absurd ⟨hrun, .inr hcontinues⟩ hkeeps
    | false => exact holds_of_quiet (h.quiet hcontinues) hpaused
  | propose hrun hreason => exact absurd ⟨hrun, .inl hreason⟩ hkeeps
  | error hrun => exact absurd ⟨hrun, trivial⟩ hkeeps
  | @outcome _ callId _ _ houtcome hpending hgo h =>
    have hcontinues : (a.forgetCall callId).continues = false := by
      cases hcontinues : (a.forgetCall callId).continues with
      | false => rfl
      | true =>
        cases c <;> cases houtcome
        · exact absurd ⟨hpending, .inr hcontinues⟩ hkeeps
        · exact absurd ⟨hpending, .inr hcontinues⟩ hkeeps
    exact holds_of_quiet (h.quiet hcontinues) hpaused
  | halt houtcome hpending hends =>
    cases c <;> cases houtcome
    · exact absurd ⟨hpending, .inl hends⟩ hkeeps
    · exact absurd ⟨hpending, .inl hends⟩ hkeeps
  | drop => exact ⟨hpaused, rfl, rfl⟩
  | approve hasked hpending =>
    exact absurd ⟨_, hasked, by simp [IsPending, hpending], .inl rfl⟩ hkeeps
  | @deny _ callId _ _ hasked hpending h =>
    cases hcontinues : (a.forgetCall callId).continues with
    | true => exact absurd ⟨callId, hasked, hpending, .inr hcontinues⟩ hkeeps
    | false => exact holds_of_quiet (h.quiet hcontinues) hpaused
  | children hchild =>
    rw [isChild_of_isDelivery hdelivery] at hchild
    cases hchild
  | cancel | pause | reissue | wake | evaluated => cases hdelivery

/-- After a pause that was accepted, the agent stays paused and asks for neither a request nor a tool, for
    as long as no delivery breaks the pause. -/
theorem pause_holds {a : Agent} (haccepted : a.state.status ∉ [.paused, .cancelled, .failed, .verifying])
    {cs : List AgentCommand} (hdelivery : ∀ c ∈ cs, c.isDelivery = true)
    (hkeeps : ∀ st ∈ machine.trace (a.apply .pause).1 cs, ¬ st.pre.BreaksPause st.input) :
    ∀ st ∈ machine.trace (a.apply .pause).1 cs,
      st.post.state.status = .paused ∧ backendRequests st.out = [] ∧ toolRequests st.out = [] := by
  have hstep : ∀ (s : Agent) (c : AgentCommand), s.state.status = .paused →
      c.isDelivery = true ∧ ¬ s.BreaksPause c →
      (s.apply c).1.state.status = .paused ∧ Holds (s.apply c).2 (s.apply c).1 := by
    intro s c hpaused hcond
    have hholds := holds_transition (s.apply_transition c) hpaused hcond.1 hcond.2
    exact ⟨hholds.1, hholds⟩
  have hcond : ∀ st ∈ machine.trace (a.apply .pause).1 cs,
      st.input.isDelivery = true ∧ ¬ st.pre.BreaksPause st.input :=
    fun st hst => ⟨hdelivery _ (Machine.input_mem hst), hkeeps st hst⟩
  refine Machine.trace_rule hstep ?_ hcond
  simp only [List.mem_cons, List.not_mem_nil, or_false, not_or] at haccepted
  simp only [apply, pause]
  split
  · exact absurd ‹_› haccepted.1
  · exact absurd ‹_› haccepted.2.1
  · exact absurd ‹_› haccepted.2.2.1
  · exact absurd ‹_› haccepted.2.2.2
  · rfl

end Agent

end

section

open Sample Agent

/-- Reasoning and usage reports arrive during a pause. -/
theorem pause_holds_reasoning : (machine.run (agent .allow defaultProfile) [prompt]).state.status = .preparingContext ∧
    ∀ st ∈ machine.trace ((machine.run (agent .allow defaultProfile) [prompt]).apply .pause).1
        [fromBackend (.reasoningDelta ⟨0⟩ "hm"), fromBackend (.usageUpdate ⟨0⟩ {})],
      st.post.state.status = .paused ∧ backendRequests st.out = [] ∧ toolRequests st.out = [] := by
  refine ⟨by decide, pause_holds (by decide) (by decide) ?_⟩
  intro st hst
  simp only [Machine.trace_cons, Machine.trace_nil, List.mem_cons, List.not_mem_nil, or_false] at hst
  rcases hst with rfl | rfl
  · exact fun h => h.2
  · exact fun h => h.2

/-- Streamed text ends the pause. -/
theorem text_breaks_pause : (machine.run (agent .allow defaultProfile) [prompt]).Reachable ∧
    (machine.run (agent .allow defaultProfile) [prompt, .pause]).state.status = .paused ∧
    (machine.run (agent .allow defaultProfile) [prompt, .pause, fromBackend (.textDelta ⟨0⟩ "hi")]).state.status =
      .streaming :=
  ⟨.run (.start (fresh_agent .allow defaultProfile)) [prompt], by decide, by decide⟩

end

end RustyCore
