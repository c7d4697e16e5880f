import RustyCore.Store.Replay
import RustyCore.Theorems.FinishOnce
import RustyCore.Theorems.StatusChain

/-! Terminal statuses. A run is never active in one, and a command announces a change out of one only when it
    starts a run, lets the outcome of a left-over call end the run again, or waits for a child. -/

namespace RustyCore

open Path List

variable [Externals]

/-- The agent is in no terminal status but `failed` and `cancelled`, and then it has no run. -/
structure AtRest (a : Agent) : Prop where
  uncompleted : a.state.status ≠ .completed
  idle : a.state.status.isTerminal = true → a.state.activeRun = none

namespace AtRest

variable {a b : Agent}

theorem live (h : b.state.status.isTerminal = false) : AtRest b := by
  refine ⟨?_, ?_⟩
  · intro hcompleted
    rw [hcompleted] at h
    cases h
  · intro hterminal
    rw [h] at hterminal
    cases hterminal

theorem of_eq (h : AtRest a) (hstatus : b.state.status = a.state.status)
    (hrun : b.state.activeRun = a.state.activeRun) : AtRest b :=
  ⟨hstatus ▸ h.uncompleted, by rw [hstatus, hrun]; exact h.idle⟩

theorem kept (h : AtRest a) (hkept : Kept a b) : AtRest b := h.of_eq hkept.status hkept.activeRun

variable {es : List AgentEffect}

theorem fails (hfails : Fails a es b) : AtRest b :=
  ⟨by rw [hfails.status]; decide, fun _ => hfails.activeRun⟩

theorem moves (h : AtRest a) (hmoves : Moves a es b) : AtRest b := by
  cases hmoves with
  | quiet hquiet => exact h.kept hquiet.toKept
  | fail hfails => exact fails hfails
  | request => exact live rfl

theorem decides (h : AtRest a) {runId : RunId} (hdecides : Decides runId a es b) :
    AtRest b := by
  cases hdecides with
  | finish => exact live rfl
  | fail hmoves => exact h.moves hmoves
  | again | verify => exact live rfl

theorem transition (h : AtRest a) {c : AgentCommand} (ht : Transition a c es b) :
    AtRest b := by
  cases ht with
  | quiet hquiet => exact h.kept hquiet.toKept
  | queue | drop => exact h.of_eq rfl rfl
  | reject _ _ hfail | stop _ _ _ hfail | cutOff _ _ hfail | error _ hfail | halt _ _ _ hfail => exact fails hfail
  | start _ _ _ hquiet =>
    refine live ?_
    rw [show (Agent.executionRequest _ _).1.state.status = .preparingContext from hquiet.status]
    rfl
  | @stream _ event to_ _ _ _ hevent hkept =>
    refine live ?_
    rw [show b.state.status = to_ from hkept.status]
    cases event <;> cases hevent <;> rfl
  | @refuse _ _ call _ _ _ hrefuses =>
    generalize a.stopsRequest call = stops at hrefuses
    have hforgot : AtRest (a.forgetCall call.id) := h.of_eq rfl rfl
    cases hrefuses with
    | denied hgoes => exact hforgot.moves hgoes.moves
    | stopped hgoes code message => exact fails (.now _ code message)
  | execute | ask | approve | pause | reissue | wake => exact live rfl
  | toolUse _ _ hgoes =>
    have hlanded : AtRest (a.withInFlight false) := h.of_eq rfl rfl
    exact hlanded.moves hgoes.moves
  | propose _ _ hdecides =>
    have hlanded : AtRest (a.withInFlight false) := h.of_eq rfl rfl
    exact hlanded.decides hdecides
  | @outcome _ callId _ _ _ _ _ hgoes =>
    have hforgot : AtRest (a.forgetCall callId) := h.of_eq rfl rfl
    exact hforgot.moves hgoes.moves
  | @deny id callId _ _ _ _ hgoes =>
    have hforgot : AtRest ((a.withPendingPermissions (a.state.pendingPermissions.erase id)).forgetCall callId) :=
      h.of_eq rfl rfl
    exact hforgot.moves hgoes.moves
  | children _ hto hkept =>
    rcases hto with rfl | rfl | ⟨rfl, -⟩
    · exact h.of_eq hkept.status hkept.activeRun
    · exact live (by rw [hkept.status]; rfl)
    · exact live (by rw [hkept.status]; rfl)
  | cancel hlive =>
    rw [Agent.cancel_fst hlive]
    exact ⟨by simp, fun _ => rfl⟩
  | evaluated _ _ hdecides => exact h.decides hdecides

theorem live_of_cancels (h : AtRest a) (hcancels : a.nothingToCancel = false) : a.state.status.isTerminal = false := by
  by_contra hterminal
  rw [Bool.not_eq_false] at hterminal
  have hnone := h.idle hterminal
  have huncompleted := h.uncompleted
  simp only [Agent.nothingToCancel, hnone] at hcancels
  revert hcancels hterminal huncompleted
  cases a.state.status <;> simp [AgentStatus.isTerminal]

end AtRest

theorem Agent.Reachable.atRest {a : Agent} (hr : a.Reachable) : AtRest a := by
  refine Machine.Reachable.invariant ?_ (fun s c h => h.transition (s.apply_transition c)) hr
  rintro a ⟨id, sessionId, parentId, depth, systemPrompt, capabilities, profile, library, trusted, params, rfl⟩
  exact .live rfl

section

variable {a b : Agent} {es : List AgentEffect}

theorem Fails.changes_from (h : Fails a es b) : ∀ change ∈ stateChanges es, change.1 = a.state.status := by
  rw [h.stateChanges_eq]
  intro change hchange
  rw [mem_singleton.mp hchange]

theorem Moves.changes_from (h : Moves a es b) : ∀ change ∈ stateChanges es, change.1 = a.state.status := by
  cases h with
  | quiet h => simp [h.notices.stateChanges_eq]
  | fail h => exact h.changes_from
  | request h =>
    rw [stateChanges_append, h.notices.stateChanges_eq, Agent.stateChanges_requestTurn]
    intro change hchange
    split at hchange
    · rw [mem_singleton.mp hchange]
      exact h.status
    · cases hchange

theorem Decides.changes_from {runId : RunId} (h : Decides runId a es b) :
    ∀ change ∈ stateChanges es, change.1 = a.state.status := by
  have hone : ∀ {m : Agent} {ns fs : List AgentEffect} {to_ : AgentStatus}, Quiet a ns m →
      stateChanges fs = [(m.state.status, to_)] → ∀ change ∈ stateChanges (ns ++ fs), change.1 = a.state.status := by
    intro m ns fs to_ hquiet hfs change hchange
    rw [stateChanges_append, hquiet.notices.stateChanges_eq, hfs] at hchange
    rw [mem_singleton.mp hchange]
    exact hquiet.status
  cases h with
  | fail h => exact h.changes_from
  | finish h summary passed => exact hone h rfl
  | again h => exact hone h rfl
  | verify h => exact hone h rfl

theorem Goes.changes_from (h : Goes a es b) :
    ∀ change ∈ stateChanges es, change.1 = a.state.status ∧ a.state.activeRun ≠ none := by
  intro change hchange
  cases hcontinues : a.continues with
  | false =>
    rw [(h.quiet hcontinues).notices.stateChanges_eq] at hchange
    cases hchange
  | true =>
    simp only [Agent.continues, Bool.and_eq_true] at hcontinues
    exact ⟨h.moves.changes_from change hchange, Option.isSome_iff_ne_none.mp hcontinues.2⟩

omit [Externals] in
theorem Turns.changes_from {from_ to_ : AgentStatus} (h : Turns from_ to_ es) :
    ∀ change ∈ stateChanges es, change.1 = from_ := by
  rw [h.changes]
  intro change hchange
  split at hchange
  · rw [mem_singleton.mp hchange]
  · cases hchange

end

namespace Agent

/-- The command announces a change out of a terminal status: in one, it starts a run or refuses to, lets the
    outcome of a left-over call end the run again, or waits for a child; or it fails the run twice, or opens
    a run after a profile switch has failed the one that was active. -/
def LeavesTerminal (a : Agent) (c : AgentCommand) : Prop :=
  a.state.status.isTerminal = true ∧
      (a.startInput c ≠ none ∨ a.outcomeEnds c = true ∨ ∃ agentId, c = .childSpawned agentId true) ∨
    a.StopsTwice c ∨
    ∃ m input, a.startInput c = some (m, input) ∧ m.acceptsRun input = true ∧
      m.takePendingSwitch.1.state.status.isTerminal = true

theorem stopRecorded_status (a : Agent) (call : ToolCall) : (a.stopRecorded call).state.status = a.state.status := by
  obtain ⟨-, startedAt, hcontrol⟩ := a.recordToolRequest_spec call
  have hrequested : (a.recordToolRequest call).1.state.status = a.state.status := congrArg Control.status hcontrol
  have hrules : (a.requestRules call).1.state.status = (a.recordToolRequest call).1.state.status :=
    ((a.recordToolRequest call).1.quiet_requestRules call).status
  have hforgot : ∀ b : Agent, (b.forgetCall call.id).state.status = b.state.status := fun _ => rfl
  unfold stopRecorded
  rw [(kept_refusalRecorded _ call _).status, hforgot, hrules, hrequested]

variable {a : Agent}

theorem continueAfterTools_status (hcontinues : a.continues = true) :
    a.continueAfterTools.1.state.status = if a.turnBegins then .waitingForBackend else .failed := by
  simp only [continues, Bool.and_eq_true, Option.isSome_iff_exists] at hcontinues
  obtain ⟨hready, runId, hrun⟩ := hcontinues
  unfold continueAfterTools
  rw [if_pos (by rw [Bool.and_eq_true]; exact hready), hrun]
  dsimp only
  split
  · rename_i b failure hb
    have hbegins : a.turnBegins = false := by simp [turnBegins, hb, Except.isOk, Except.toBool]
    rw [hbegins]
    exact (beginTurn_error hb).2
  · rename_i hb
    have hbegins : a.turnBegins = true := by simp [turnBegins, hb, Except.isOk, Except.toBool]
    rw [hbegins]
    rfl

theorem changes_of_stops {runId : RunId} {requestId : RequestId} {call : ToolCall}
    (hlive : a.state.status.isTerminal = false) (hrun : a.state.activeRun = some runId)
    (hstops : a.stopsRequest call = true)
    (honce : ¬ a.StopsTwice (.backendEvent runId (.toolCallRequested requestId call))) :
    ∀ change ∈ stateChanges (a.toolRequested call).2, change.1.isTerminal = false := by
  obtain ⟨es, code, message, hes, heffects⟩ := toolRequested_of_stops hstops
  have hstatus := a.stopRecorded_status call
  have hgoes := (a.stopRecorded call).goes_continueAfterTools
  rw [heffects, stateChanges_append, stateChanges_append, hes.stateChanges_eq, nil_append, stateChanges_fail]
  intro change hchange
  rcases mem_append.mp hchange with hchange | hchange
  · rw [(hgoes.moves.changes_from change hchange), hstatus]
    exact hlive
  · rw [mem_singleton.mp hchange]
    cases hcontinues : (a.stopRecorded call).continues with
    | false =>
      rw [(hgoes.quiet hcontinues).status, hstatus]
      exact hlive
    | true =>
      cases hbegins : (a.stopRecorded call).turnBegins with
      | true =>
        rw [continueAfterTools_status hcontinues, hbegins]
        rfl
      | false => exact absurd ⟨runId, requestId, call, rfl, hrun, hstops, hcontinues, hbegins⟩ honce

theorem stateChanges_childDone (a : Agent) (agentId : AgentId) (outcome : AgentOutcome) :
    ∀ change ∈ stateChanges (a.childDone agentId outcome).2, change.1 = .waitingForChildren := by
  unfold childDone
  dsimp only
  split
  · intro change hchange
    rw [mem_singleton.mp hchange]
  · intro change hchange
    cases hchange

variable {c : AgentCommand}

theorem changes_of_isChild (hchild : c.isChild = true)
    (hstays : ¬ (a.state.status.isTerminal = true ∧ ∃ agentId, c = .childSpawned agentId true)) :
    ∀ change ∈ stateChanges (a.apply c).2, change.1.isTerminal = false := by
  have hdone : ∀ (m : Agent) (agentId : AgentId) (outcome : AgentOutcome),
      ∀ change ∈ stateChanges (m.childDone agentId outcome).2, change.1.isTerminal = false := by
    intro m agentId outcome change hchange
    rw [m.stateChanges_childDone agentId outcome change hchange]
    rfl
  cases c with
  | childSpawned agentId awaiting =>
    intro change hchange
    simp only [apply, childSpawned] at hchange
    generalize hadded : (if a.state.children.contains agentId then a
      else a.withChildren (a.state.children ++ [agentId])) = b at hchange
    have hstatus : b.state.status = a.state.status := by
      rw [← hadded]
      split <;> rfl
    split at hchange
    · cases hchange
    · rename_i hawaits
      rw [mem_singleton.mp hchange, hstatus]
      cases hterminal : a.state.status.isTerminal with
      | false => rfl
      | true =>
        simp only [Bool.or_eq_true, Bool.not_eq_true', decide_eq_true_eq, not_or, Bool.not_eq_false] at hawaits
        exact absurd ⟨hterminal, agentId, by rw [hawaits.1]⟩ hstays
  | childCompleted agentId result => exact hdone _ agentId .success
  | childFailed agentId error => exact hdone _ agentId .failed
  | _ => cases hchild

theorem takePendingSwitch_quiet_of_live (h : a.takePendingSwitch.1.state.status.isTerminal = false) :
    Quiet a a.takePendingSwitch.2 a.takePendingSwitch.1 := by
  rcases a.takePendingSwitch_cases with hquiet | ⟨-, -, hfails⟩
  · exact hquiet
  · rw [hfails.status] at h
    cases h

theorem changes_live {a b : Agent} {es : List AgentEffect} (hrest : AtRest a)
    (h : Transition a c es b) (hes : (a.apply c).2 = es) (hreports : ¬ a.MisreportsStatus c)
    (hstays : ¬ a.LeavesTerminal c) : ∀ change ∈ stateChanges es, change.1.isTerminal = false := by
  have hlive : a.state.activeRun ≠ none → a.state.status.isTerminal = false := by
    intro hrun
    by_contra hterminal
    exact hrun (hrest.idle (by simpa using hterminal))
  have hstarts : a.startInput c ≠ none → a.state.status.isTerminal = false := by
    intro hstart
    by_contra hterminal
    exact hstays (.inl ⟨by simpa using hterminal, .inl hstart⟩)
  have hhere : a.state.status.isTerminal = false → (∀ change ∈ stateChanges es, change.1 = a.state.status) →
      ∀ change ∈ stateChanges es, change.1.isTerminal = false := by
    intro hstatus hfrom change hchange
    rw [hfrom change hchange]
    exact hstatus
  have hactive : ∀ {runId}, a.state.activeRun = some runId → a.state.status.isTerminal = false := by
    intro runId hrun
    exact hlive (by simp [hrun])
  cases h with
  | quiet hquiet => simp [hquiet.notices.stateChanges_eq]
  | queue | drop => simp [stateChanges]
  | reject hstart hinvalid hfail =>
    refine hhere (hstarts (by simp [hstart])) ?_
    rw [← startInput_status hstart]
    exact hfail.changes_from
  | @stop _ m _ input _ hstart hvalid hstop hfail =>
    have hpreparing : m.takePendingSwitch.1.state.status = .preparingContext := by
      by_contra hne
      exact hreports (.inr ⟨m, input, hstart, hvalid, hstop, hne⟩)
    have hswitch := takePendingSwitch_quiet_of_live (a := m) (by rw [hpreparing]; rfl)
    rw [stateChanges_append, hswitch.notices.stateChanges_eq]
    intro change hchange
    rw [hfail.changes_from change hchange]
    rfl
  | @start _ m _ input _ hstart hvalid hgo hquiet =>
    have hswitched : m.takePendingSwitch.1.state.status.isTerminal = false := by
      by_contra hterminal
      exact hstays (.inr (.inr ⟨m, input, hstart, hvalid, by simpa using hterminal⟩))
    have hswitch := takePendingSwitch_quiet_of_live hswitched
    rw [stateChanges_append, stateChanges_append, hswitch.notices.stateChanges_eq, hquiet.notices.stateChanges_eq]
    intro change hchange
    rw [mem_singleton.mp hchange]
    exact hswitched
  | stream hrun hevent hkept hturns => exact hhere (hactive hrun) hturns.changes_from
  | @refuse _ _ call _ _ hrun hrefuses =>
    generalize hstops : a.stopsRequest call = stops at hrefuses
    cases hrefuses with
    | denied hgoes => exact hhere (hactive hrun) hgoes.moves.changes_from
    | stopped hgoes code message =>
      have hchanges := changes_of_stops (hactive hrun) hrun hstops fun htwice => hstays (.inr (.inl htwice))
      rw [← hes]
      simpa [apply, backendEvent, hrun, handleBackendEvent] using hchanges
  | execute hrun hadmitted hnotices | ask hrun hadmitted hnotices =>
    refine hhere (hactive hrun) ?_
    rw [stateChanges_append, hnotices.stateChanges_eq]
    intro change hchange
    rw [mem_singleton.mp hchange]
  | cutOff hrun hreason hfail | error hrun hfail => exact hhere (hactive hrun) hfail.changes_from
  | toolUse hrun hreason hgoes => exact hhere (hactive hrun) hgoes.moves.changes_from
  | propose hrun hreason hdecides | evaluated hstatus hrun hdecides => exact hhere (hactive hrun) hdecides.changes_from
  | outcome houtcome hpending hgo hgoes | deny hasked hpending hgoes =>
    intro change hchange
    obtain ⟨hfrom, hrun⟩ := hgoes.changes_from change hchange
    rw [hfrom]
    exact hlive hrun
  | halt houtcome hpending hends hfail =>
    refine hhere ?_ hfail.changes_from
    by_contra hterminal
    exact hstays (.inl ⟨by simpa using hterminal, .inr (.inl hends)⟩)
  | approve =>
    intro change hchange
    rw [mem_singleton.mp hchange]
    rfl
  | children hchild hto hkept hturns =>
    rw [← hes]
    exact changes_of_isChild hchild fun hwaits => hstays (.inl ⟨hwaits.1, .inr (.inr hwaits.2)⟩)
  | cancel hlive' =>
    obtain ⟨ns, hns, heffects⟩ := cancel_effects hlive'
    rw [heffects, stateChanges_append, hns.stateChanges_eq]
    intro change hchange
    rw [mem_singleton.mp hchange]
    exact hrest.live_of_cancels hlive'
  | pause hlive' =>
    intro change hchange
    rw [mem_singleton.mp hchange]
    have huncompleted := hrest.uncompleted
    dsimp only
    revert hlive' huncompleted
    cases a.state.status <;> simp [AgentStatus.isTerminal]
  | reissue hpaused | wake hpaused =>
    intro change hchange
    rw [mem_singleton.mp hchange]
    rfl

theorem fails_of_not_acceptsRun {input : UserInput} (h : a.acceptsRun input = false) :
    Fails a (a.startRun input).2 (a.startRun input).1 := by
  unfold startRun
  split
  · exact .now _ _ _
  · rename_i htranscript
    split
    · exact .now _ _ _
    · rename_i hattachments
      simp [acceptsRun, htranscript, hattachments, Except.isOk, Except.toBool] at h

theorem isPending_of_outcomeEnds (h : a.outcomeEnds c = true) :
    ∃ callId, c.outcomeOf = some callId ∧ a.IsPending callId := by
  cases c with
  | toolCompleted callId _ | toolFailed callId _ =>
    simp only [outcomeEnds, Option.any_eq_true] at h
    obtain ⟨pending, hpending, -⟩ := h
    exact ⟨callId, rfl, by simp [IsPending, hpending]⟩
  | _ => cases h

theorem changes_of_outcomeEnds (h : a.outcomeEnds c = true) :
    stateChanges (a.apply c).2 = [(a.state.status, .failed)] := by
  obtain ⟨callId, houtcome, hpending⟩ := isPending_of_outcomeEnds h
  cases c with
  | toolCompleted _ result =>
    cases houtcome
    exact ((toolCompleted_spec result hpending).1 h).stateChanges_eq
  | toolFailed _ error =>
    cases houtcome
    exact ((toolFailed_spec error hpending).1 h).stateChanges_eq
  | _ => cases houtcome

theorem changes_of_acceptsRun {a m : Agent} {input : UserInput}
    (hstart : a.startInput c = some (m, input)) (hvalid : m.acceptsRun input = true)
    (hreports : ¬ a.MisreportsStatus c) :
    m.takePendingSwitch.1.state.status ∈ (stateChanges (a.apply c).2).map Prod.fst := by
  rw [apply_of_startInput hstart, startRun_of_acceptsRun hvalid]
  simp only [andThen, stateChanges_append, map_append, mem_append]
  right
  rcases m.takePendingSwitch.1.beginRun_cases input with ⟨hstop, hfail⟩ | ⟨-, b, es, -, hbegin⟩
  · have hpreparing : m.takePendingSwitch.1.state.status = .preparingContext := by
      by_contra hne
      exact hreports (.inr ⟨m, input, hstart, hvalid, hstop, hne⟩)
    rw [hfail.stateChanges_eq, hpreparing]
    exact mem_singleton.mpr rfl
  · rw [hbegin, stateChanges_append, map_append, mem_append]
    exact .inr mem_cons_self

theorem takePendingSwitch_terminal (h : a.state.status.isTerminal = true) :
    a.takePendingSwitch.1.state.status.isTerminal = true := by
  rcases a.takePendingSwitch_cases with hquiet | ⟨-, -, hfails⟩
  · rw [hquiet.status]
    exact h
  · rw [hfails.status]
    rfl

theorem changes_of_leavesTerminal (hreports : ¬ a.MisreportsStatus c)
    (h : a.LeavesTerminal c) : ∃ from_ ∈ (stateChanges (a.apply c).2).map Prod.fst, from_.isTerminal = true := by
  rcases h with ⟨hterminal, hstart | hends | ⟨agentId, rfl⟩⟩ | ⟨runId, requestId, call, rfl, hrun, hstops, hgoes, hbegins⟩ |
      ⟨m, input, hstart, hvalid, hswitched⟩
  · obtain ⟨⟨m, input⟩, hstart⟩ := Option.ne_none_iff_exists'.mp hstart
    have hstatus : m.state.status.isTerminal = true := by rwa [startInput_status hstart]
    cases hvalid : m.acceptsRun input with
    | true => exact ⟨_, changes_of_acceptsRun hstart hvalid hreports, takePendingSwitch_terminal hstatus⟩
    | false =>
      rw [apply_of_startInput hstart, (fails_of_not_acceptsRun hvalid).stateChanges_eq]
      exact ⟨_, mem_singleton.mpr rfl, hstatus⟩
  · rw [changes_of_outcomeEnds hends]
    exact ⟨_, mem_singleton.mpr rfl, hterminal⟩
  · have hchanges : stateChanges (a.apply (.childSpawned agentId true)).2 =
        [(a.state.status, .waitingForChildren)] := by
      simp only [apply, childSpawned]
      have hwaits : a.state.status ≠ .waitingForChildren := by
        intro hwaiting
        rw [hwaiting] at hterminal
        cases hterminal
      split
      · rw [if_neg (by simp [hwaits])]
        rfl
      · rw [if_neg (by simp [withChildren, hwaits])]
        rfl
    rw [hchanges]
    exact ⟨_, mem_singleton.mpr rfl, hterminal⟩
  · obtain ⟨es, code, message, -, heffects⟩ := toolRequested_of_stops hstops
    have hfailed := continueAfterTools_status hgoes
    rw [hbegins] at hfailed
    refine ⟨.failed, ?_, rfl⟩
    simp only [apply, backendEvent, hrun, handleBackendEvent, ne_eq, not_true_eq_false, if_false]
    rw [heffects, stateChanges_append, stateChanges_fail, hfailed, map_append, mem_append]
    exact .inr (mem_singleton.mpr rfl)
  · exact ⟨_, changes_of_acceptsRun hstart hvalid hreports, hswitched⟩

theorem walk_changes_iff (hr : a.Reachable) (c : AgentCommand) (to_ : AgentStatus) :
    walk AgentStatus.isTerminal a.state.status (stateChanges (a.apply c).2) = some to_ ↔
      to_ = (a.apply c).1.state.status ∧ ¬ a.MisreportsStatus c ∧ ¬ a.LeavesTerminal c := by
  have htransition := a.apply_transition c
  rw [walk_eq_some_iff]
  constructor
  · rintro ⟨hchain, hlive⟩
    have hreports : ¬ a.MisreportsStatus c := fun hmis => not_chain_of_misreports hmis _ hchain
    refine ⟨hchain.unique (chain_of_not_misreports htransition hreports), hreports, ?_⟩
    intro hleaves
    obtain ⟨from_, hfrom, hterminal⟩ := changes_of_leavesTerminal hreports hleaves
    obtain ⟨change, hchange, rfl⟩ := mem_map.mp hfrom
    rw [hlive change hchange] at hterminal
    cases hterminal
  · rintro ⟨rfl, hreports, hstays⟩
    exact ⟨chain_of_not_misreports htransition hreports,
      changes_live hr.atRest htransition rfl hreports hstays⟩

end Agent

section

variable {a b : Agent} {es : List AgentEffect}

/-- The shape of what is announced on the way to `to_`: at most one change, unless the run has failed. -/
inductive Announced (to_ : AgentStatus) : List (AgentStatus × AgentStatus) → Prop
  | none : Announced to_ []
  | one (from_ : AgentStatus) : Announced to_ [(from_, to_)]
  | failed {changes : List (AgentStatus × AgentStatus)} (h : to_ = .failed) : Announced to_ changes
  | reopened (from_ : AgentStatus) : Announced to_ [(from_, .failed), (.failed, to_)]

theorem Fails.announced (h : Fails a es b) : Announced b.state.status (stateChanges es) := .failed h.status

theorem Quiet.announced (h : Quiet a es b) (to_ : AgentStatus) : Announced to_ (stateChanges es) := by
  rw [h.notices.stateChanges_eq]
  exact .none

theorem Moves.announced (h : Moves a es b) : Announced b.state.status (stateChanges es) := by
  cases h with
  | quiet h => exact h.announced _
  | fail h => exact h.announced
  | request h =>
    rw [stateChanges_append, h.notices.stateChanges_eq, Agent.stateChanges_requestTurn]
    split
    · exact .one _
    · exact .none

theorem Decides.announced {runId : RunId} (h : Decides runId a es b) :
    Announced b.state.status (stateChanges es) := by
  cases h with
  | fail h => exact h.announced
  | finish h | again h | verify h =>
    rw [stateChanges_append, h.notices.stateChanges_eq]
    exact .one _

omit [Externals] in
theorem Turns.announced {from_ to_ : AgentStatus} (h : Turns from_ to_ es) : Announced to_ (stateChanges es) := by
  rw [h.changes]
  split
  · exact .one _
  · exact .none

theorem Transition.announced {c : AgentCommand} (h : Transition a c es b) :
    Announced b.state.status (stateChanges es) := by
  cases h with
  | quiet h => exact h.announced _
  | queue | drop => exact .none
  | reject _ _ h | cutOff _ _ h | error _ h | halt _ _ _ h => exact h.announced
  | stop _ _ _ hfail => exact .failed hfail.status
  | @start _ m b input _ _ _ _ hquiet =>
    have hstatus : (b.executionRequest (m.takePendingSwitch.1.openRun input).2).1.state.status = .preparingContext :=
      hquiet.status
    rw [stateChanges_append, stateChanges_append, hquiet.notices.stateChanges_eq, hstatus]
    rcases m.takePendingSwitch_cases with hswitch | ⟨-, -, hswitch⟩
    · rw [hswitch.notices.stateChanges_eq]
      exact .one _
    · rw [hswitch.stateChanges_eq, hswitch.status]
      exact .reopened _
  | stream _ _ hkept hturns =>
    rw [hkept.status]
    exact hturns.announced
  | @refuse _ _ call _ _ _ hrefuses =>
    generalize a.stopsRequest call = stops at hrefuses
    cases hrefuses with
    | denied h => exact h.moves.announced
    | stopped => exact .failed rfl
  | execute _ _ hnotices | ask _ _ hnotices =>
    rw [stateChanges_append, hnotices.stateChanges_eq]
    exact .one _
  | toolUse _ _ h | outcome _ _ _ h | deny _ _ h => exact h.moves.announced
  | propose _ _ h | evaluated _ _ h => exact h.announced
  | approve | pause | reissue | wake => exact .one _
  | children _ _ hkept hturns =>
    rw [hkept.status]
    exact hturns.announced
  | cancel hlive =>
    obtain ⟨ns, hns, heffects⟩ := Agent.cancel_effects hlive
    rw [heffects, stateChanges_append, hns.stateChanges_eq,
      show a.cancel.1.state.status = .cancelled from congrArg Control.status (Agent.control_cancel hlive)]
    exact .one _

omit [Externals] in
theorem Announced.walk_late_iff {to_ : AgentStatus} {early late : List (AgentStatus × AgentStatus)}
    (h : Announced to_ (early ++ late)) (t : AgentStatus) :
    walk AgentStatus.isTerminal to_ late = some t ↔
      t = to_ ∧ ∀ change ∈ late, change = (to_, to_) ∧ to_.isTerminal = false := by
  constructor
  · intro hwalk
    cases late with
    | nil => exact ⟨(Option.some.inj hwalk).symm, nofun⟩
    | cons change rest =>
      obtain ⟨x, y⟩ := change
      simp only [walk] at hwalk
      split at hwalk
      · rename_i hfollows
        obtain ⟨rfl, hlive⟩ := hfollows
        generalize hall : early ++ (to_, y) :: rest = changes at h
        cases h with
        | none => simp at hall
        | one from_ =>
          cases early with
          | nil =>
            obtain ⟨⟨-, rfl⟩, rfl⟩ := by simpa using hall
            exact ⟨(Option.some.inj hwalk).symm, by simp [hlive]⟩
          | cons => simp at hall
        | failed hfailed =>
          rw [hfailed] at hlive
          cases hlive
        | reopened from_ =>
          rcases early with _ | ⟨e, _ | ⟨e', early⟩⟩
          · obtain ⟨⟨-, rfl⟩, rfl⟩ := by simpa using hall
            simp [walk, AgentStatus.isTerminal] at hwalk
          · obtain ⟨-, ⟨rfl, -⟩, -⟩ := by simpa using hall
            cases hlive
          · simp at hall
      · cases hwalk
  · rintro ⟨rfl, hsame⟩
    exact walk_of_loops fun change hchange => hsame change hchange

end

end RustyCore
