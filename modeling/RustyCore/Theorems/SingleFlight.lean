import RustyCore.Theorems.Transition

/-! One backend request at a time. A monitor keeps the requests an agent has made and that have not ended;
    the agent makes a request only when there is none, except on `resume` and on starting a run, which do
    not look. -/

namespace RustyCore

section

variable [Externals]

/-- Whether a command, applied to `a`, ends a request: its own `completed` or `error` event, or the
    cancellation of its run. -/
def AgentCommand.ends (c : AgentCommand) (a : Agent) (request : ExecutionRequest) : Bool :=
  match c with
  | .backendEvent _ (.completed requestId _) | .backendEvent _ (.error requestId _) => requestId == request.requestId
  | .cancel => a.state.activeRun == some request.runId
  | _ => false

namespace Agent

/-- The requests of `before` that a command leaves open. -/
def leftOpen (before : List ExecutionRequest) (a : Agent) (c : AgentCommand) : List ExecutionRequest :=
  before.filter fun request => !c.ends a request

def flights : Machine (Agent × List ExecutionRequest) AgentCommand AgentEffect :=
  machine.monitor fun st before => leftOpen before st.pre st.input ++ backendRequests st.out

abbrev Flight := Machine.Step (Agent × List ExecutionRequest) AgentCommand AgentEffect

def Flight.outstanding (st : Flight) : List ExecutionRequest := leftOpen st.pre.2 st.pre.1 st.input

def Flight.Genuine (st : Flight) : Prop :=
  ∀ runId event, st.input = .backendEvent runId event → st.pre.1.state.activeRun = some runId →
    ∃ request ∈ st.pre.2, request.requestId = event.requestId ∧ request.runId = runId

/-- The command makes a request without looking at the one in flight: it resumes a paused run, or it starts
    a run that gets as far as its first request. -/
def RequestsBlindly (a : Agent) (c : AgentCommand) : Prop :=
  (c = .resume ∧ a.state.status = .paused ∧ a.state.activeRun ≠ none) ∨
    ∃ m input, a.startInput c = some (m, input) ∧ m.acceptsRun input = true ∧
      m.takePendingSwitch.1.stoppedAtStart input = false

def Flight.Overlaps (st : Flight) : Prop := st.pre.2 ≠ [] ∧ st.pre.1.RequestsBlindly st.input

def Flight.Single (st : Flight) : Prop :=
  (backendRequests st.out).length ≤ 1 ∧ (backendRequests st.out ≠ [] → st.outstanding = [])

end Agent

theorem Agent.backendRequests_takePendingSwitch (a : Agent) : backendRequests a.takePendingSwitch.2 = [] := by
  rcases a.takePendingSwitch_cases with h | ⟨-, -, h⟩
  · exact h.notices.backendRequests_eq
  · exact h.backendRequests_eq

structure Asks (es : List AgentEffect) (b : Agent) (request : ExecutionRequest) : Prop where
  backend : backendRequests es = [request]
  run : b.state.activeRun = none ∨ b.state.activeRun = some request.runId ∧ b.state.backendInFlight = true

structure Rests (a : Agent) (es : List AgentEffect) (b : Agent) : Prop where
  backend : backendRequests es = []
  run : b.state.activeRun = none ∨
    b.state.activeRun = a.state.activeRun ∧ b.state.backendInFlight = a.state.backendInFlight

section

variable {a b : Agent} {es : List AgentEffect}

theorem Quiet.rests (h : Quiet a es b) : Rests a es b :=
  ⟨h.notices.backendRequests_eq, .inr ⟨h.activeRun, h.backendInFlight⟩⟩

theorem Fails.rests (h : Fails a es b) : Rests a es b := ⟨h.backendRequests_eq, .inl h.activeRun⟩

theorem Moves.flight (h : Moves a es b) : Rests a es b ∨
    ∃ request, Asks es b request ∧ a.state.activeRun ≠ none ∧ a.state.backendInFlight = false := by
  cases h with
  | quiet h => exact .inl h.rests
  | fail h => exact .inl h.rests
  | @request m qs h runId hrun hready =>
    obtain ⟨request, hrequest, hid⟩ := m.backendRequests_requestTurn runId
    refine .inr ⟨request, ⟨?_, .inr ⟨?_, rfl⟩⟩, by simp [hrun], hready.2⟩
    · rw [backendRequests_append, h.notices.backendRequests_eq, hrequest]
      rfl
    · rw [hid, ← hrun]
      exact h.activeRun

theorem Decides.flight {runId : RunId} (h : Decides runId a es b) (hrun : a.state.activeRun = some runId) :
    Rests a es b ∨ ∃ request, Asks es b request := by
  cases h with
  | finish h =>
    refine .inl ⟨?_, .inl rfl⟩
    rw [backendRequests_append, h.notices.backendRequests_eq]
    rfl
  | fail h =>
    rcases h.flight with hrests | ⟨request, hasks, -⟩
    · exact .inl hrests
    · exact .inr ⟨request, hasks⟩
  | @again m qs h =>
    refine .inr ⟨((m.withStatus .waitingForBackend).executionRequest runId).2, ?_, .inr ⟨h.activeRun.trans hrun, rfl⟩⟩
    rw [backendRequests_append, h.notices.backendRequests_eq]
    rfl
  | verify h =>
    refine .inl ⟨?_, .inr ⟨h.activeRun, h.backendInFlight⟩⟩
    rw [backendRequests_append, h.notices.backendRequests_eq]
    rfl

end

inductive Flow (a : Agent) (c : AgentCommand) (es : List AgentEffect) (b : Agent) : Prop
  | rests (h : Rests a es b)
  | landed {runId : RunId} {requestId : RequestId} {result : ExecutionResult}
      (hc : c = .backendEvent runId (.completed requestId result)) (hrun : a.state.activeRun = some runId)
      (h : Rests (a.withInFlight false) es b ∨ ∃ request, Asks es b request)
  | asks {request : ExecutionRequest} (h : Asks es b request) (hrun : a.state.activeRun ≠ none)
      (hlanded : a.state.backendInFlight = false ∨ a.state.status = .verifying)
  | blind {request : ExecutionRequest} (h : Asks es b request) (hblind : a.RequestsBlindly c)

theorem Goes.flow {a m b : Agent} {c : AgentCommand} {es : List AgentEffect} (h : Goes m es b)
    (hrun : m.state.activeRun = a.state.activeRun) (hflight : m.state.backendInFlight = a.state.backendInFlight) :
    Flow a c es b := by
  rcases h.moves.flight with ⟨hbackend, hkept⟩ | ⟨request, hasks, hactive, hlanded⟩
  · rw [hrun, hflight] at hkept
    exact .rests ⟨hbackend, hkept⟩
  · rw [hrun] at hactive
    exact .asks hasks hactive (.inl (hflight.symm.trans hlanded))

theorem Transition.flow {a b : Agent} {c : AgentCommand} {es : List AgentEffect} (h : Transition a c es b) :
    Flow a c es b := by
  cases h with
  | quiet h => exact .rests h.rests
  | queue => exact .rests ⟨rfl, .inr ⟨rfl, rfl⟩⟩
  | reject hstart hinvalid hfail => exact .rests ⟨hfail.backendRequests_eq, .inl hfail.activeRun⟩
  | @stop _ m _ _ _ hstart hvalid hstop hfail =>
    refine .rests ⟨?_, .inl hfail.activeRun⟩
    rw [backendRequests_append, m.backendRequests_takePendingSwitch, hfail.backendRequests_eq]
    rfl
  | @start _ m n input qs hstart hvalid hgo hquiet =>
    have hrun : (n.executionRequest (m.takePendingSwitch.1.openRun input).2).1.state.activeRun =
      some (n.executionRequest (m.takePendingSwitch.1.openRun input).2).2.runId := hquiet.activeRun
    refine .blind ⟨?_, .inr ⟨hrun, rfl⟩⟩ (.inr ⟨m, input, hstart, hvalid, hgo⟩)
    rw [backendRequests_append, backendRequests_append, m.backendRequests_takePendingSwitch,
      hquiet.notices.backendRequests_eq]
    rfl
  | stream hrun hevent hkept hturns =>
    exact .rests ⟨hturns.backend, .inr ⟨hkept.activeRun, hkept.backendInFlight⟩⟩
  | @refuse _ _ call _ _ hrun h =>
    generalize a.stopsRequest call = stops at h
    cases h with
    | denied h => exact h.flow rfl rfl
    | @stopped _ m fs h code message =>
      -- the failure ends the run, but the denial before it may have made a request
      rcases h.moves.flight with hrests | ⟨request, hasks, hactive, hlanded⟩
      · refine .rests ⟨?_, .inl rfl⟩
        rw [backendRequests_append, hrests.backend]
        rfl
      · have hbackend : backendRequests (fs ++ (m.fail code message).2) = [request] := by
          rw [backendRequests_append, hasks.backend]
          rfl
        exact .asks ⟨hbackend, .inl rfl⟩ hactive (.inl hlanded)
  | execute hrun hadmitted hnotices =>
    refine .rests ⟨?_, .inr ⟨congrArg Control.activeRun hadmitted.control, congrArg Control.backendInFlight hadmitted.control⟩⟩
    rw [backendRequests_append, hnotices.backendRequests_eq]
    rfl
  | ask hrun hadmitted hnotices =>
    refine .rests ⟨?_, .inr ⟨congrArg Control.activeRun hadmitted.control, congrArg Control.backendInFlight hadmitted.control⟩⟩
    rw [backendRequests_append, hnotices.backendRequests_eq]
    rfl
  | cutOff hrun hreason h => exact .rests ⟨h.backendRequests_eq, .inl h.activeRun⟩
  | toolUse hrun hreason h =>
    refine .landed rfl hrun ?_
    rcases h.moves.flight with hrests | ⟨request, hasks, -⟩
    · exact .inl hrests
    · exact .inr ⟨request, hasks⟩
  | propose hrun hreason h => exact .landed rfl hrun (h.flight hrun)
  | error hrun h => exact .rests h.rests
  | outcome houtcome hpending hgo h => exact h.flow rfl rfl
  | halt houtcome hpending hends h => exact .rests ⟨h.backendRequests_eq, .inl h.activeRun⟩
  | drop | approve => exact .rests ⟨rfl, .inr ⟨rfl, rfl⟩⟩
  | deny hasked hpending h => exact h.flow rfl rfl
  | children hchild hto hkept hturns =>
    exact .rests ⟨hturns.backend, .inr ⟨hkept.activeRun, hkept.backendInFlight⟩⟩
  | cancel hlive =>
    obtain ⟨ns, hns, heffects⟩ := Agent.cancel_effects hlive
    refine .rests ⟨?_, .inl (congrArg Control.activeRun (Agent.control_cancel hlive))⟩
    rw [heffects, backendRequests_append, hns.backendRequests_eq]
    rfl
  | pause => exact .rests ⟨rfl, .inr ⟨rfl, rfl⟩⟩
  | @reissue runId hpaused hrun => exact .blind ⟨rfl, .inr ⟨hrun, rfl⟩⟩ (.inl ⟨rfl, hpaused, by simp [hrun]⟩)
  | wake => exact .rests ⟨rfl, .inr ⟨rfl, rfl⟩⟩
  | evaluated hstatus hrun h =>
    rcases h.flight hrun with hrests | ⟨request, hasks⟩
    · exact .rests hrests
    · exact .asks hasks (by simp [hrun]) (.inr hstatus)

namespace Agent

def VerifiesLanded (a : Agent) : Prop := a.state.status = .verifying → a.state.backendInFlight = false

theorem VerifiesLanded.of_kept {a m b : Agent} (h : a.VerifiesLanded) (hkept : Kept m b)
    (hstatus : m.state.status = a.state.status) (hflight : m.state.backendInFlight = a.state.backendInFlight) :
    b.VerifiesLanded := by
  intro hverifying
  rw [hkept.backendInFlight, hflight]
  exact h (hstatus.symm.trans (hkept.status.symm.trans hverifying))

variable {es : List AgentEffect}

theorem VerifiesLanded.of_moves {a m b : Agent} (h : a.VerifiesLanded) (hmoves : Moves m es b)
    (hstatus : m.state.status = a.state.status) (hflight : m.state.backendInFlight = a.state.backendInFlight) :
    b.VerifiesLanded := by
  cases hmoves with
  | quiet hquiet => exact h.of_kept hquiet.toKept hstatus hflight
  | fail hfail =>
    intro hverifying
    cases hfail.status.symm.trans hverifying
  | request =>
    intro hverifying
    cases hverifying

theorem VerifiesLanded.of_decides {a b : Agent} {runId : RunId} (h : Decides runId a es b)
    (hlanded : a.state.backendInFlight = false) : b.VerifiesLanded := by
  intro hverifying
  cases h with
  | finish => cases hverifying
  | fail h hfailed => cases hfailed.symm.trans hverifying
  | again => cases hverifying
  | verify h => exact h.backendInFlight.trans hlanded

variable {c : AgentCommand}

theorem VerifiesLanded.transition {a b : Agent} (h : a.VerifiesLanded)
    (htransition : Transition a c es b) : b.VerifiesLanded := by
  cases htransition with
  | quiet hquiet => exact h.of_kept hquiet.toKept rfl rfl
  | queue => exact h
  | reject hstart hinvalid hfail => exact fun hverifying => by cases hfail.status.symm.trans hverifying
  | stop hstart hvalid hstop hfail => exact fun hverifying => by cases hfail.status.symm.trans hverifying
  | start hstart hvalid hgo hquiet => exact fun hverifying => by cases hquiet.status.symm.trans hverifying
  | @stream _ event to_ _ _ hrun hevent hkept =>
    intro hverifying
    rw [show to_ = .verifying from hkept.status.symm.trans hverifying] at hevent
    cases event <;> cases hevent
  | @refuse _ _ call _ _ hrun hrefuses =>
    generalize a.stopsRequest call = stops at hrefuses
    cases hrefuses with
    | denied hgoes => exact h.of_moves hgoes.moves rfl rfl
    | stopped => exact nofun
  | execute | ask => exact nofun
  | cutOff hrun hreason hfail => exact fun hverifying => by cases hfail.status.symm.trans hverifying
  | toolUse hrun hreason hgoes =>
    have hlanded : (a.withInFlight false).VerifiesLanded := fun _ => rfl
    exact hlanded.of_moves hgoes.moves rfl rfl
  | propose hrun hreason hdecides => exact VerifiesLanded.of_decides hdecides rfl
  | error hrun hfail => exact fun hverifying => by cases hfail.status.symm.trans hverifying
  | outcome houtcome hpending hgo hgoes => exact h.of_moves hgoes.moves rfl rfl
  | halt houtcome hpending hends hfail => exact fun hverifying => by cases hfail.status.symm.trans hverifying
  | drop => exact h
  | approve => exact nofun
  | deny hasked hpending hgoes => exact h.of_moves hgoes.moves rfl rfl
  | children hchild hto hkept =>
    intro hverifying
    rcases hto with rfl | rfl | ⟨rfl, -⟩
    · exact h.of_kept hkept rfl rfl hverifying
    · cases hkept.status.symm.trans hverifying
    · cases hkept.status.symm.trans hverifying
  | cancel hlive =>
    intro hverifying
    cases (congrArg Control.status (control_cancel hlive)).symm.trans hverifying
  | pause | reissue | wake => exact nofun
  | evaluated hstatus hrun hdecides => exact VerifiesLanded.of_decides hdecides (h hstatus)

structure FlightInv (s : Agent × List ExecutionRequest) : Prop where
  single : s.2.length ≤ 1
  flying : ∀ request ∈ s.2, s.1.state.activeRun = none ∨
    s.1.state.activeRun = some request.runId ∧ s.1.state.backendInFlight = true
  verifies : s.1.VerifiesLanded

theorem FlightInv.landed {s : Agent × List ExecutionRequest} (h : FlightInv s) (hrun : s.1.state.activeRun ≠ none)
    (hlanded : s.1.state.backendInFlight = false) : s.2 = [] := by
  rw [List.eq_nil_iff_forall_not_mem]
  intro request hmem
  rcases h.flying request hmem with hidle | ⟨-, hflying⟩
  · exact hrun hidle
  · rw [hlanded] at hflying
    cases hflying

theorem leftOpen_eq_nil_of_nil {a : Agent} {before : List ExecutionRequest} (h : before = []) :
    leftOpen before a c = [] := by
  rw [h]
  rfl

theorem leftOpen_sublist (before : List ExecutionRequest) (a : Agent) (c : AgentCommand) :
    (leftOpen before a c).Sublist before := List.filter_sublist

theorem FlightInv.leftOpen_ends {s : Agent × List ExecutionRequest} (h : FlightInv s)
    {request : ExecutionRequest} (hmem : request ∈ s.2) (hends : c.ends s.1 request = true) :
    leftOpen s.2 s.1 c = [] := by
  have hone : s.2 = [request] := by
    have hlength := h.single
    cases hs : s.2 with
    | nil =>
      rw [hs] at hmem
      cases hmem
    | cons first rest =>
      rw [hs] at hmem hlength
      have hrest : rest = [] := List.eq_nil_of_length_eq_zero (by simpa using hlength)
      rw [hrest, List.mem_singleton] at hmem
      rw [hrest, hmem]
  rw [hone]
  simp [leftOpen, hends]

theorem FlightInv.step {s : Agent × List ExecutionRequest} {c : AgentCommand} (h : FlightInv s)
    (hgenuine : Flight.Genuine (flights.stepAt s c)) (hoverlaps : ¬ Flight.Overlaps (flights.stepAt s c)) :
    FlightInv (flights.step s c).1 ∧ Flight.Single (flights.stepAt s c) := by
  have hverifies := h.verifies.transition (s.1.apply_transition c)
  have hafter : (flights.step s c).1 = ((s.1.apply c).1, leftOpen s.2 s.1 c ++ backendRequests (s.1.apply c).2) := rfl
  have houtstanding : Flight.outstanding (flights.stepAt s c) = leftOpen s.2 s.1 c := rfl
  have hout : (flights.stepAt s c).out = (s.1.apply c).2 := rfl
  rw [Flight.Single, houtstanding, hout, hafter]
  -- a request with none open before it
  have hasks : ∀ {request}, leftOpen s.2 s.1 c = [] → Asks (s.1.apply c).2 (s.1.apply c).1 request →
      FlightInv ((s.1.apply c).1, leftOpen s.2 s.1 c ++ backendRequests (s.1.apply c).2) ∧
        (backendRequests (s.1.apply c).2).length ≤ 1 ∧
          (backendRequests (s.1.apply c).2 ≠ [] → leftOpen s.2 s.1 c = []) := by
    intro request hleft hasks
    rw [hleft, hasks.backend]
    refine ⟨⟨by simp, ?_, hverifies⟩, by simp, fun _ => rfl⟩
    intro request' hmem
    simp only [List.nil_append, List.mem_singleton] at hmem
    rw [hmem]
    exact hasks.run
  -- no request
  have hrests : backendRequests (s.1.apply c).2 = [] → (∀ request ∈ leftOpen s.2 s.1 c,
      (s.1.apply c).1.state.activeRun = none ∨
        (s.1.apply c).1.state.activeRun = some request.runId ∧ (s.1.apply c).1.state.backendInFlight = true) →
      FlightInv ((s.1.apply c).1, leftOpen s.2 s.1 c ++ backendRequests (s.1.apply c).2) ∧
        (backendRequests (s.1.apply c).2).length ≤ 1 ∧
          (backendRequests (s.1.apply c).2 ≠ [] → leftOpen s.2 s.1 c = []) := by
    intro hbackend hflying
    rw [hbackend, List.append_nil]
    exact ⟨⟨(leftOpen_sublist _ _ _).length_le.trans h.single, hflying, hverifies⟩, by simp, fun hne => absurd rfl hne⟩
  rcases (s.1.apply_transition c).flow with hflow | @⟨runId, requestId, result, rfl, hrun, hflow⟩ | ⟨hflow, hrun, hlanded⟩ | ⟨hflow, hblind⟩
  · refine hrests hflow.backend fun request hmem => ?_
    rcases hflow.run with hnone | ⟨hsame, hflight⟩
    · exact .inl hnone
    · rw [hsame, hflight]
      exact h.flying request ((leftOpen_sublist _ _ _).subset hmem)
  · obtain ⟨request, hmem, hid, -⟩ := hgenuine _ _ rfl hrun
    have hends : (AgentCommand.backendEvent runId (.completed requestId result)).ends s.1 request = true :=
      beq_iff_eq.mpr hid.symm
    have hleft := h.leftOpen_ends hmem hends
    rcases hflow with hflow | ⟨request', hflow⟩
    · refine hrests hflow.backend fun request' hmem' => ?_
      rw [hleft] at hmem'
      cases hmem'
    · exact hasks hleft hflow
  · refine hasks (leftOpen_eq_nil_of_nil (h.landed hrun ?_)) hflow
    rcases hlanded with hlanded | hverifying
    · exact hlanded
    · exact h.verifies hverifying
  · refine hasks (leftOpen_eq_nil_of_nil ?_) hflow
    by_contra hopen
    exact hoverlaps ⟨hopen, hblind⟩

theorem backendRequests_of_requestsBlindly {a : Agent} (h : a.RequestsBlindly c) :
    backendRequests (a.apply c).2 ≠ [] := by
  rcases h with ⟨rfl, hpaused, hrun⟩ | ⟨m, input, hstart, hvalid, hgo⟩
  · obtain ⟨runId, hrun⟩ := Option.ne_none_iff_exists'.mp hrun
    simp [apply, resume, hpaused, hrun, backendRequests, AgentEffect.backendRequest?]
  · rw [apply_of_startInput hstart, startRun_of_acceptsRun hvalid]
    rcases m.takePendingSwitch.1.beginRun_cases input with ⟨hstop, -⟩ | ⟨-, b, es, hquiet, hbegin⟩
    · rw [hgo] at hstop
      cases hstop
    · simp [andThen, hbegin, startEffects, backendRequests, AgentEffect.backendRequest?]

theorem leftOpen_of_requestsBlindly {a : Agent} (h : a.RequestsBlindly c)
    (before : List ExecutionRequest) : leftOpen before a c = before := by
  refine List.filter_eq_self.mpr fun request _ => ?_
  rcases h with ⟨rfl, -⟩ | ⟨m, input, hstart, -⟩
  · rfl
  · cases c <;> first | rfl | cases hstart

theorem Flight.Overlaps.not_single {st : Flight} (h : st.Overlaps) (hout : st.out = (st.pre.1.apply st.input).2) :
    ¬ st.Single := by
  obtain ⟨hopen, hblind⟩ := h
  intro hsingle
  have hleft := hsingle.2 (by rw [hout]; exact backendRequests_of_requestsBlindly hblind)
  rw [Flight.outstanding, leftOpen_of_requestsBlindly hblind] at hleft
  exact hopen hleft

/-- In every run in which the backend reports only on open requests of the active run, every step makes at
    most one request and none while another is open, if and only if no step resumes or starts a run while
    a request is open. -/
theorem single_request_in_flight_iff {a : Agent} (hfresh : a.Fresh) (cs : List AgentCommand)
    (hgenuine : ∀ st ∈ flights.trace (a, []) cs, Flight.Genuine st) :
    (∀ st ∈ flights.trace (a, []) cs, Flight.Single st) ↔
      ∀ st ∈ flights.trace (a, []) cs, ¬ Flight.Overlaps st := by
  have hstart : FlightInv (a, []) := by
    obtain ⟨id, sessionId, parentId, depth, systemPrompt, capabilities, profile, library, trusted, params, rfl⟩ := hfresh
    exact ⟨by simp, by simp, nofun⟩
  have hreachable : flights.Reachable (fun s => s = (a, [])) (a, []) := .start rfl
  constructor
  · intro hsingle st hst hoverlaps
    obtain ⟨-, hstep⟩ := hreachable.mem_trace hst
    exact hoverlaps.not_single (congrArg Machine.Step.out hstep) (hsingle st hst)
  · intro hoverlaps
    have hstep : ∀ (s : Agent × List ExecutionRequest) (c : AgentCommand), FlightInv s →
        Flight.Genuine (flights.stepAt s c) ∧ ¬ Flight.Overlaps (flights.stepAt s c) →
        FlightInv (flights.step s c).1 ∧ Flight.Single (flights.stepAt s c) :=
      fun s c hinv hcond => hinv.step hcond.1 hcond.2
    have hcond : ∀ st ∈ flights.trace (a, []) cs, Flight.Genuine st ∧ ¬ Flight.Overlaps st :=
      fun st hst => ⟨hgenuine st hst, hoverlaps st hst⟩
    exact Machine.trace_rule hstep hstart hcond

end Agent

end

section

open Sample Agent

/-- A paused run is resumed while its first request is still open. -/
theorem resume_overlaps_iff :
    (∀ st ∈ flights.trace (agent .allow defaultProfile, []) [prompt, .pause, .resume], Flight.Single st) ↔
      ∀ st ∈ flights.trace (agent .allow defaultProfile, []) [prompt, .pause, .resume], ¬ Flight.Overlaps st := by
  refine single_request_in_flight_iff (fresh_agent .allow defaultProfile) _ ?_
  intro st hst runId event hinput
  have hmem := Machine.input_mem hst
  rw [hinput] at hmem
  simp [prompt] at hmem

set_option maxRecDepth 4096 in
theorem resume_makes_second_request : (agent .allow defaultProfile).Fresh ∧
    ∃ st ∈ flights.trace (agent .allow defaultProfile, []) [prompt, .pause, .resume],
      (backendRequests st.out).isEmpty = false ∧ (Flight.outstanding st).isEmpty = false :=
  ⟨fresh_agent .allow defaultProfile, by decide⟩

end

end RustyCore
