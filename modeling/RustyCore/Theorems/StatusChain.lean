import RustyCore.Lib.Graph
import RustyCore.Theorems.Transition

/-! The status events of one command form a chain from the status before it to the status after it, except
    where the code announces a status it did not come from. -/

namespace RustyCore

open Path

section

variable [Externals]

section

variable {a b : Agent} {es : List AgentEffect}

theorem Quiet.chain (h : Quiet a es b) : Chain a.state.status (stateChanges es) b.state.status := by
  rw [h.notices.stateChanges_eq, h.status]
  rfl

theorem Fails.chain (h : Fails a es b) : Chain a.state.status (stateChanges es) b.state.status := by
  rw [h.stateChanges_eq, h.status]
  exact ⟨rfl, rfl⟩

theorem Moves.chain (h : Moves a es b) : Chain a.state.status (stateChanges es) b.state.status := by
  cases h with
  | quiet h => exact h.chain
  | fail h => exact h.chain
  | @request m qs h runId =>
    rw [stateChanges_append]
    refine h.chain.trans ?_
    rw [Agent.stateChanges_requestTurn]
    split
    · exact ⟨rfl, rfl⟩
    · rename_i hwaiting
      exact not_not.mp hwaiting

theorem Agent.Refuses.chain {stopped : Bool} (h : Agent.Refuses stopped a es b) : Chain a.state.status (stateChanges es) b.state.status := by
  cases h with
  | denied h => exact h.moves.chain
  | stopped h code message =>
    rw [stateChanges_append, Agent.stateChanges_fail]
    exact h.moves.chain.trans ⟨rfl, rfl⟩

theorem Decides.chain {runId : RunId} (h : Decides runId a es b) :
    Chain a.state.status (stateChanges es) b.state.status := by
  cases h with
  | finish h summary passed =>
    rw [stateChanges_append]
    exact h.chain.trans ⟨rfl, rfl⟩
  | fail h => exact h.chain
  | again h =>
    rw [stateChanges_append]
    exact h.chain.trans ⟨rfl, rfl⟩
  | verify h =>
    rw [stateChanges_append]
    exact h.chain.trans ⟨rfl, rfl⟩

omit [Externals] in
theorem Turns.chain {from_ to_ : AgentStatus} (h : Turns from_ to_ es) : Chain from_ (stateChanges es) to_ := by
  rw [h.changes]
  split
  · exact ⟨rfl, rfl⟩
  · rename_i hsame
    exact not_not.mp hsame

end

namespace Agent

/-- The command announces a status change from a status the agent is not in. An approval is announced as
    one from `waitingForPermission`, whatever the agent has done since it asked; and a run that is stopped
    before its first request fails from `preparingContext`, which has not been announced. -/
def MisreportsStatus (a : Agent) (c : AgentCommand) : Prop :=
  (∃ id callId, c = .permissionResolved id .approved ∧ a.state.pendingPermissions.lookup id = some callId ∧
      a.IsPending callId ∧ a.state.status ≠ .waitingForPermission) ∨
    ∃ m input, a.startInput c = some (m, input) ∧ m.acceptsRun input = true ∧
      m.takePendingSwitch.1.stoppedAtStart input = true ∧
      m.takePendingSwitch.1.state.status ≠ .preparingContext

theorem chain_of_not_misreports {a b : Agent} {c : AgentCommand} {es : List AgentEffect} (h : Transition a c es b)
    (hreports : ¬ a.MisreportsStatus c) : Chain a.state.status (stateChanges es) b.state.status := by
  cases h with
  | quiet h => exact h.chain
  | queue => exact rfl
  | reject hstart hinvalid hfail =>
    rw [← startInput_status hstart]
    exact hfail.chain
  | @stop _ m _ input _ hstart hvalid hstop hfail =>
    have hpreparing : m.takePendingSwitch.1.state.status = .preparingContext := by
      by_contra hne
      exact hreports (.inr ⟨m, input, hstart, hvalid, hstop, hne⟩)
    rw [← startInput_status hstart, stateChanges_append]
    refine m.moves_takePendingSwitch.chain.trans ?_
    rw [hpreparing]
    exact hfail.chain
  | @start _ m _ input _ hstart hvalid hgo hquiet =>
    rw [← startInput_status hstart, stateChanges_append, stateChanges_append, hquiet.notices.stateChanges_eq]
    exact m.moves_takePendingSwitch.chain.trans ⟨rfl, hquiet.status.symm⟩
  | stream hrun hevent hkept hturns =>
    rw [hkept.status]
    exact hturns.chain
  | refuse hrun h => exact h.chain
  | execute hrun hadmitted hnotices =>
    rw [stateChanges_append, hnotices.stateChanges_eq]
    exact ⟨rfl, rfl⟩
  | ask hrun hadmitted hnotices =>
    rw [stateChanges_append, hnotices.stateChanges_eq]
    exact ⟨rfl, rfl⟩
  | cutOff hrun hreason h => exact h.chain
  | toolUse hrun hreason h => exact h.moves.chain
  | propose hrun hreason h => exact h.chain
  | error hrun h => exact h.chain
  | outcome houtcome hpending hgo h => exact h.moves.chain
  | halt houtcome hpending hends h => exact h.chain
  | drop => exact rfl
  | @approve id callId pending hasked hpending =>
    have hwaiting : a.state.status = .waitingForPermission := by
      by_contra hne
      exact hreports (.inl ⟨id, callId, rfl, hasked, by simp [IsPending, hpending], hne⟩)
    exact ⟨hwaiting, rfl⟩
  | deny hasked hpending h => exact h.moves.chain
  | children hchild hto hkept hturns =>
    rw [hkept.status]
    exact hturns.chain
  | cancel hlive =>
    obtain ⟨ns, hns, heffects⟩ := cancel_effects hlive
    rw [heffects, stateChanges_append, hns.stateChanges_eq]
    exact ⟨rfl, (congrArg Control.status (control_cancel hlive)).symm⟩
  | pause => exact ⟨rfl, rfl⟩
  | reissue hpaused => exact ⟨hpaused, rfl⟩
  | wake hpaused => exact ⟨hpaused, rfl⟩
  | evaluated hstatus hrun h => exact h.chain

theorem not_chain_of_misreports {a : Agent} {c : AgentCommand} (h : a.MisreportsStatus c) (to_ : AgentStatus) :
    ¬ Chain a.state.status (stateChanges (a.apply c).2) to_ := by
  rcases h with ⟨id, callId, rfl, hasked, hpending, hne⟩ | ⟨m, input, hstart, hvalid, hstop, hne⟩
  · obtain ⟨pending, hp⟩ := Option.ne_none_iff_exists'.mp hpending
    rw [apply_approved hasked hp]
    exact fun hchain => hne hchain.1
  · rw [apply_of_startInput hstart, startRun_of_acceptsRun hvalid, ← startInput_status hstart]
    simp only [andThen, stateChanges_append]
    rw [m.moves_takePendingSwitch.chain.append_iff]
    rcases m.takePendingSwitch.1.beginRun_cases input with ⟨-, hfail⟩ | ⟨hgo, -⟩
    · rw [hfail.stateChanges_eq]
      exact fun hchain => hne hchain.1
    · rw [hgo] at hstop
      cases hstop

/-- In every run of an agent, the status events of a step lead from the status before it to the status
    after it exactly when the step does not misreport the status. -/
theorem status_chain_iff {a : Agent} (hfresh : a.Fresh) (cs : List AgentCommand) :
    ∀ st ∈ machine.trace a cs,
      Chain st.pre.state.status (stateChanges st.out) st.post.state.status ↔ ¬ st.pre.MisreportsStatus st.input := by
  intro st hst
  obtain ⟨-, hstep⟩ := Machine.Reachable.mem_trace (.start hfresh) hst
  rw [hstep]
  constructor
  · exact fun hchain hmis => not_chain_of_misreports hmis _ hchain
  · exact fun hreports => chain_of_not_misreports (st.pre.apply_transition st.input) hreports

end Agent

end

section

open Sample Agent

theorem status_chain_iff_prompt : (agent .ask defaultProfile).Fresh ∧
    ∀ st ∈ machine.trace (agent .ask defaultProfile) [prompt, requests 5],
      Chain st.pre.state.status (stateChanges st.out) st.post.state.status ↔ ¬ st.pre.MisreportsStatus st.input :=
  ⟨fresh_agent .ask defaultProfile, status_chain_iff (fresh_agent .ask defaultProfile) [prompt, requests 5]⟩

set_option maxRecDepth 4096 in
/-- Text arrives while the user is asked; the approval is then announced as a change from
    `waitingForPermission`, though the agent is `streaming`. -/
theorem approval_misreports_status : (agent .ask defaultProfile).Fresh ∧
    ∃ st ∈ machine.trace (agent .ask defaultProfile)
      [prompt, requests 5, fromBackend (.textDelta ⟨0⟩ "wait"), .permissionResolved (.derived 7 7 4) .approved],
      ¬ Chain st.pre.state.status (stateChanges st.out) st.post.state.status :=
  ⟨fresh_agent .ask defaultProfile, by decide⟩

end

end RustyCore
