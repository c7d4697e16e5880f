import RustyCore.Theorems.Transition

/-! A run ends once. A monitor attributes every `finishRun` to the run it ends and records the
    cancellations; each run ends at most once, except where a late tool outcome or a second failure in one
    step finishes it again. -/

namespace RustyCore

open List Option

theorem Id.derived_injective {kind : IdKind} {seed : Uuid} {n n' ns : Nat} (hn : n ≤ maxU64) (hn' : n' ≤ maxU64)
    (h : (Id.derived seed n ns : Id kind) = Id.derived seed n' ns) : n = n' := by
  have hshift : BitVec.ofNat 128 n <<< 64 = BitVec.ofNat 128 n' <<< 64 := by
    have huuid := congrArg Id.uuid h
    simp only [Id.derived] at huuid
    rwa [BitVec.xor_left_inj, BitVec.xor_right_inj] at huuid
  have hnat := congrArg BitVec.toNat hshift
  simp only [BitVec.toNat_shiftLeft, BitVec.toNat_ofNat, Nat.shiftLeft_eq] at hnat
  unfold maxU64 at hn hn'
  omega

section

variable [Externals]

namespace Agent

inductive Ending where
  | finished (runId : Option RunId)
  | cancelled (runId : RunId)
deriving DecidableEq

def Ending.run : Ending → Option RunId
  | .finished runId => runId
  | .cancelled runId => some runId

def opens (a : Agent) (c : AgentCommand) : Option RunId :=
  match a.startInput c with
  | some (m, input) => if m.acceptsRun input then some (m.takePendingSwitch.1.openRun input).2 else none
  | none => none

/-- The run each `finishRun` of a command ends. A start that is refused ends the active run. One that is
    accepted may first end the active run by its pending switch; what comes then is about the run it opens.
    Any other command ends the active run or, with none active, the last one that was. -/
def finishedRuns (last : Option RunId) (a : Agent) (c : AgentCommand) : List (Option RunId) :=
  match a.startInput c with
  | some (m, input) =>
    if m.acceptsRun input then
      List.replicate (runResults m.takePendingSwitch.2).length a.state.activeRun ++
        List.replicate (runResults (m.takePendingSwitch.1.beginRun input).2).length
          (some (m.takePendingSwitch.1.openRun input).2)
    else List.replicate (runResults (m.startRun input).2).length a.state.activeRun
  | none => List.replicate (runResults (a.apply c).2).length (a.state.activeRun.or last)

def cancelledRuns (a : Agent) (c : AgentCommand) : List RunId :=
  match c with
  | .cancel => a.state.activeRun.toList
  | _ => []

structure Ledger where
  last : Option RunId
  endings : List Ending

def endingsOf (last : Option RunId) (a : Agent) (c : AgentCommand) : List Ending :=
  (finishedRuns last a c).map .finished ++ (cancelledRuns a c).map .cancelled

def ledgers : Machine (Agent × Ledger) AgentCommand AgentEffect :=
  machine.monitor fun st ledger =>
    ⟨(st.pre.opens st.input).or ledger.last, ledger.endings ++ endingsOf ledger.last st.pre st.input⟩

def refusalRecorded (a : Agent) (call : ToolCall) (preview : String) : Agent :=
  let r := (a.withTimeouts 0).appendPendingNotes call.id preview
  let a := r.1.withUsage { r.1.usage with toolCalls := saturatingAdd r.1.usage.toolCalls 1 }
  (a.pushMessage .tool [.toolResult call.id ⟨true, r.2⟩]).1

def requestRules (a : Agent) (call : ToolCall) : Agent × List AgentEffect × RuleOutcome :=
  let a := (a.recordToolRequest call).1
  (a.withBehavior (a.state.behavior.noteToolRequest call)).runRules .preToolUse (some ⟨call, none⟩) (some call.id)

def stopRecorded (a : Agent) (call : ToolCall) : Agent :=
  let r := a.requestRules call
  (r.1.forgetCall call.id).refusalRecorded call ("Denied: " ++ (r.2.2.stop.map (·.reason)).getD "")

theorem kept_refusalRecorded (a : Agent) (call : ToolCall) (preview : String) :
    Kept a (a.refusalRecorded call preview) :=
  (((a.kept_timeouts 0).trans (kept_appendPendingNotes _ call.id preview)).trans (kept_usage _ _)).trans
    (kept_pushMessage _ _ _)

theorem denyTool_eq {a : Agent} {call : ToolCall} {startedAt : Timestamp}
    (hp : a.state.pendingTools.lookup call.id = some ⟨call, startedAt⟩) (ruleId : Option String) (reason : String) :
    ∃ es, Notices es ∧ a.denyTool call.id ruleId reason =
      andThen ((a.forgetCall call.id).refusalRecorded call ("Denied: " ++ reason), es) fun a => a.continueAfterTools := by
  have hnext : ∀ m : Agent, m.state.consecutiveToolTimeouts = 0 → m.nextAfterResult none = m.continueAfterTools := by
    intro m hm
    simp [nextAfterResult, hm, maxConsecutiveToolTimeouts]
  have hnotices : ∀ summary, Notices [.emit (.toolCallDenied call.id ruleId reason),
      .emit (.toolCallCompleted call.id summary)] := by
    intro summary e he
    simp only [mem_cons, not_mem_nil, or_false] at he
    rcases he with rfl | rfl <;> rfl
  refine ⟨_, hnotices
    ⟨true, (((a.forgetCall call.id).withTimeouts 0).appendPendingNotes call.id ("Denied: " ++ reason)).2⟩, ?_⟩
  simp only [denyTool, toolFailed, hp, ToolError.executed, ToolError.isTimeout, ToolError.preview, recordToolResult,
    andThen, Bool.false_eq_true, if_false]
  rw [hnext _ rfl]
  rfl

theorem toolRequested_of_stops {a : Agent} {call : ToolCall} (h : a.stopsRequest call = true) :
    ∃ es code message, Notices es ∧ (a.toolRequested call).2 =
      es ++ (a.stopRecorded call).continueAfterTools.2 ++
        ((a.stopRecorded call).continueAfterTools.1.fail code message).2 := by
  simp only [stopsRequest, Bool.and_eq_true, isSome_iff_exists] at h
  obtain ⟨⟨⟨capability, hcap⟩, hscope⟩, stop, hstop⟩ := h
  obtain ⟨haligned, startedAt, hcontrol⟩ := a.recordToolRequest_spec call
  have hbehavior := a.recordToolRequest_behavior call
  -- the rules see the recorded request as they see the agent that has not recorded it
  have hrules : (a.requestRules call).2.2.stop = some stop := by
    rw [← hstop]
    simp only [requestRules, requestOutcome, runRules, withBehavior, hbehavior]
  have hquiet := (a.recordToolRequest call).1.quiet_requestRules call
  have hp : (a.requestRules call).1.state.pendingTools.lookup call.id = some ⟨call, startedAt⟩ := by
    rw [show (a.requestRules call).1.state.pendingTools = _ from hquiet.pendingTools,
      show (a.recordToolRequest call).1.state.pendingTools = _ from congrArg Control.pendingTools hcontrol]
    exact Table.lookup_insert_self
  obtain ⟨ns, hns, hdeny⟩ := denyTool_eq hp (some stop.ruleId) stop.reason
  have hevaluate : (a.recordToolRequest call).1.evaluateRequestRules call =
      ((andThen ((a.requestRules call).1.denyTool call.id (some stop.ruleId) stop.reason) fun a => a.behaviorStop stop).1,
        (a.requestRules call).2.1,
        .error (andThen ((a.requestRules call).1.denyTool call.id (some stop.ruleId) stop.reason)
          fun a => a.behaviorStop stop).2) := by
    unfold evaluateRequestRules
    dsimp only
    split
    · rename_i hnone
      rw [requestRules] at hrules
      rw [hnone] at hrules
      cases hrules
    · rename_i stop' hstop'
      rw [requestRules] at hrules
      rw [hstop'] at hrules
      cases hrules
      rfl
  have hadmit : (a.recordToolRequest call).1.admitToolCall call =
      ((andThen ((a.requestRules call).1.denyTool call.id (some stop.ruleId) stop.reason) fun a => a.behaviorStop stop).1,
        (a.requestRules call).2.1,
        .error (andThen ((a.requestRules call).1.denyTool call.id (some stop.ruleId) stop.reason)
          fun a => a.behaviorStop stop).2) := by
    have hcap' : (a.recordToolRequest call).1.sessionCapability call.name = some capability := by
      rw [← hcap]
      simp only [sessionCapability, haligned.capabilities]
    have hscope' : (a.recordToolRequest call).1.state.behavior.profile.allowsTool call.name = true := by
      rw [hbehavior]
      exact hscope
    simp only [admitToolCall, sessionPermission, hcap', requireProfileScope, hscope', if_true, hevaluate]
  have hrecorded : ((a.requestRules call).1.forgetCall call.id).refusalRecorded call ("Denied: " ++ stop.reason) =
      a.stopRecorded call := by
    simp only [stopRecorded, hrules, map_some, getD_some]
  refine ⟨(a.recordToolRequest call).2 ++ ((a.requestRules call).2.1 ++ ns), "BEHAVIOR_STOP",
    "stopped by rule " ++ stop.ruleId ++ ": " ++ stop.reason, ?_, ?_⟩
  · exact Notices.append (Notices.single rfl) (hquiet.notices.append hns)
  · simp only [toolRequested, andThen, hadmit, hdeny, hrecorded, behaviorStop, append_assoc]

/-- A requested call that a rule stops is refused first. If that refusal was the last thing the turn waited
    for and the next turn cannot begin, the run fails, and then it fails again by the stop. -/
def StopsTwice (a : Agent) (c : AgentCommand) : Prop :=
  ∃ runId requestId call, c = .backendEvent runId (.toolCallRequested requestId call) ∧
    a.state.activeRun = some runId ∧ a.stopsRequest call = true ∧ (a.stopRecorded call).continues = true ∧
    (a.stopRecorded call).turnBegins = false

/-- The command finishes a run again: the outcome of a call that outlived its run ends it, a stop fails it
    twice, or a run is opened under an id that has no successor because the sequence is used up. -/
def FinishesAgain (a : Agent) (c : AgentCommand) : Prop :=
  a.state.activeRun = none ∧ a.outcomeEnds c = true ∨ a.StopsTwice c ∨
    a.opens c ≠ none ∧ a.state.transitionSequence = maxU64

end Agent

inductive Closes (a : Agent) (es : List AgentEffect) (b : Agent) : Prop
  | without (h : runResults es = []) (hrun : b.state.activeRun = a.state.activeRun ∨ b.state.activeRun = none)
  | finishes {runId : RunId} (h : (runResults es).length = 1) (hrun : a.state.activeRun = some runId)
      (hover : b.state.activeRun = none)

section

variable {a m b : Agent} {es : List AgentEffect}

theorem Quiet.closes (h : Quiet a es b) : Closes a es b := .without h.notices.runResults_eq (.inl h.activeRun)

theorem Fails.closes {runId : RunId} (h : Fails m es b) (hrun : a.state.activeRun = some runId) : Closes a es b := by
  obtain ⟨result, hresult, -⟩ := h.runResults_eq
  exact .finishes (by rw [hresult]; rfl) hrun h.activeRun

theorem Moves.closes {runId : RunId} (h : Moves m es b) (hm : m.state.activeRun = a.state.activeRun)
    (hrun : a.state.activeRun = some runId) : Closes a es b := by
  cases h with
  | quiet h => exact .without h.notices.runResults_eq (.inl (h.activeRun.trans hm))
  | fail h => exact h.closes hrun
  | request h =>
    refine .without ?_ (.inl (h.activeRun.trans hm))
    rw [runResults_append, h.notices.runResults_eq, Agent.runResults_requestTurn]
    rfl

theorem Goes.closes (h : Goes m es b) (hm : m.state.activeRun = a.state.activeRun) : Closes a es b := by
  cases hcontinues : m.continues with
  | false =>
    have hquiet := h.quiet hcontinues
    exact .without hquiet.notices.runResults_eq (.inl (hquiet.activeRun.trans hm))
  | true =>
    simp only [Agent.continues, Bool.and_eq_true, isSome_iff_exists] at hcontinues
    obtain ⟨runId, hrun⟩ := hcontinues.2
    exact h.moves.closes hm (hm.symm.trans hrun)

theorem Decides.closes {runId : RunId} (h : Decides runId m es b) (hm : m.state.activeRun = a.state.activeRun)
    (hrun : a.state.activeRun = some runId) : Closes a es b := by
  cases h with
  | finish h =>
    refine .finishes ?_ hrun rfl
    rw [runResults_append, h.notices.runResults_eq]
    rfl
  | fail h => exact h.closes hm hrun
  | again h =>
    refine .without ?_ (.inl (h.activeRun.trans hm))
    rw [runResults_append, h.notices.runResults_eq]
    rfl
  | verify h =>
    refine .without ?_ (.inl (h.activeRun.trans hm))
    rw [runResults_append, h.notices.runResults_eq]
    rfl

end

namespace Agent

theorem runResults_continueAfterTools {a : Agent} (h : a.continues = false ∨ a.turnBegins = true) :
    runResults a.continueAfterTools.2 = [] := by
  rcases h with hidle | hbegins
  · exact ((goes_continueAfterTools a).quiet hidle).notices.runResults_eq
  · unfold continueAfterTools
    split
    · split
      · rfl
      · split
        · rename_i b failure hb
          simp [turnBegins, hb, Except.isOk, Except.toBool] at hbegins
        · rename_i b effects hb
          dsimp only
          rw [runResults_append, runResults_append, (beginTurn_ok hb).notices.runResults_eq]
          split <;> rfl
    · rfl

theorem closes_of_stops {a : Agent} {runId : RunId} {requestId : RequestId} {call : ToolCall}
    (hrun : a.state.activeRun = some runId) (hstops : a.stopsRequest call = true)
    (honce : ¬ a.StopsTwice (.backendEvent runId (.toolCallRequested requestId call))) :
    (runResults (a.toolRequested call).2).length = 1 := by
  obtain ⟨es, code, message, hes, heffects⟩ := toolRequested_of_stops hstops
  have hfirst : runResults (a.stopRecorded call).continueAfterTools.2 = [] := by
    apply runResults_continueAfterTools
    cases hcontinues : (a.stopRecorded call).continues with
    | false => exact .inl rfl
    | true =>
      cases hbegins : (a.stopRecorded call).turnBegins with
      | true => exact .inr rfl
      | false => exact absurd ⟨runId, requestId, call, rfl, hrun, hstops, hcontinues, hbegins⟩ honce
  rw [heffects, runResults_append, runResults_append, hes.runResults_eq, hfirst]
  rfl

theorem closes_of_transition {a b : Agent} {c : AgentCommand} {es : List AgentEffect} (h : Transition a c es b)
    (hes : (a.apply c).2 = es) (hstart : a.startInput c = none) (honce : ¬ a.FinishesAgain c) : Closes a es b := by
  cases h with
  | quiet h => exact h.closes
  | queue => exact .without rfl (.inl rfl)
  | reject hstart' | stop hstart' | start hstart' =>
    rw [hstart] at hstart'
    cases hstart'
  | stream hrun hevent hkept hturns => exact .without hturns.results (.inl hkept.activeRun)
  | @refuse runId requestId call _ _ hrun h =>
    generalize hstops : a.stopsRequest call = stops at h
    cases h with
    | denied h => exact h.closes rfl
    | stopped h code message =>
      have hout : (a.apply (.backendEvent runId (.toolCallRequested requestId call))).2 = (a.toolRequested call).2 := by
        simp [apply, backendEvent, hrun, handleBackendEvent]
      have hlength := closes_of_stops hrun hstops fun htwice => honce (.inr (.inl htwice))
      rw [← hout, hes] at hlength
      exact .finishes hlength hrun rfl
  | execute hrun hadmitted hnotices =>
    refine .without ?_ (.inl (congrArg Control.activeRun hadmitted.control))
    rw [runResults_append, hnotices.runResults_eq]
    rfl
  | ask hrun hadmitted hnotices =>
    refine .without ?_ (.inl (congrArg Control.activeRun hadmitted.control))
    rw [runResults_append, hnotices.runResults_eq]
    rfl
  | cutOff hrun hreason h => exact h.closes hrun
  | toolUse hrun hreason h => exact h.closes rfl
  | propose hrun hreason h => exact h.closes rfl hrun
  | error hrun h => exact h.closes hrun
  | outcome houtcome hpending hgo h => exact h.closes rfl
  | halt houtcome hpending hends h =>
    obtain ⟨runId, hrun⟩ := ne_none_iff_exists'.mp fun hidle => honce (.inl ⟨hidle, hends⟩)
    exact h.closes hrun
  | drop | approve => exact .without rfl (.inl rfl)
  | deny hasked hpending h => exact h.closes rfl
  | children hchild hto hkept hturns => exact .without hturns.results (.inl hkept.activeRun)
  | cancel hlive =>
    obtain ⟨ns, hns, heffects⟩ := cancel_effects hlive
    refine .without ?_ (.inr (congrArg Control.activeRun (control_cancel hlive)))
    rw [heffects, runResults_append, hns.runResults_eq]
    rfl
  | pause | reissue | wake => exact .without rfl (.inl rfl)
  | evaluated hstatus hrun h => exact h.closes rfl hrun

/-- The id was given to a run before the sequence number `n`. -/
def IdBefore (a : Agent) (runId : RunId) : Prop :=
  ∃ n < a.state.transitionSequence, runId = .derived a.id.uuid n 1

structure LedgerInv (s : Agent × Ledger) : Prop where
  sequence : s.1.state.transitionSequence ≤ maxU64
  nodup : (s.2.endings.filterMap Ending.run).Nodup
  closed : ∀ runId ∈ s.2.endings.filterMap Ending.run, s.1.state.activeRun ≠ some runId
  old : ∀ runId ∈ s.2.endings.filterMap Ending.run, s.1.IdBefore runId
  active : ∀ runId, s.1.state.activeRun = some runId → s.1.IdBefore runId

theorem IdBefore.aligned {a b : Agent} {runId : RunId} (h : a.IdBefore runId) (haligned : Aligned a b)
    (hsequence : a.state.transitionSequence ≤ maxU64) : b.IdBefore runId := by
  obtain ⟨n, hn, rfl⟩ := h
  exact ⟨n, hn.trans_le (haligned.sequence hsequence).1, by rw [haligned.id]⟩

theorem LedgerInv.extend {s : Agent × Ledger} {b : Agent} (h : LedgerInv s) (haligned : Aligned s.1 b)
    {xs : List Ending} {last : Option RunId}
    (hxs : xs.filterMap Ending.run = [] ∧ (b.state.activeRun = s.1.state.activeRun ∨ b.state.activeRun = none) ∨
      xs.filterMap Ending.run = s.1.state.activeRun.toList ∧ b.state.activeRun = none) :
    LedgerInv (b, ⟨last, s.2.endings ++ xs⟩) := by
  have hmem : ∀ runId ∈ xs.filterMap Ending.run, s.1.state.activeRun = some runId := by
    intro runId hrun
    rcases hxs with ⟨hnil, -⟩ | ⟨hone, -⟩
    · rw [hnil] at hrun
      cases hrun
    · rw [hone] at hrun
      simpa using hrun
  have hactive : ∀ runId, b.state.activeRun = some runId →
      s.1.state.activeRun = some runId ∧ xs.filterMap Ending.run = [] := by
    intro runId hrun
    rcases hxs with ⟨hnil, hsame | hnone⟩ | ⟨-, hnone⟩
    · exact ⟨hsame.symm.trans hrun, hnil⟩
    · rw [hnone] at hrun
      cases hrun
    · rw [hnone] at hrun
      cases hrun
  constructor
  · exact (haligned.sequence h.sequence).2
  · rw [filterMap_append, nodup_append]
    refine ⟨h.nodup, ?_, ?_⟩
    · rcases hxs with ⟨hnil, -⟩ | ⟨hone, -⟩
      · rw [hnil]
        exact nodup_nil
      · rw [hone]
        cases s.1.state.activeRun <;> simp
    · rintro runId hold _ hnew rfl
      exact h.closed runId hold (hmem runId hnew)
  · intro runId hin hrun
    obtain ⟨hrun', hnil⟩ := hactive runId hrun
    rw [filterMap_append, hnil, append_nil] at hin
    exact h.closed runId hin hrun'
  · intro runId hin
    rw [filterMap_append, mem_append] at hin
    rcases hin with hin | hin
    · exact (h.old runId hin).aligned haligned h.sequence
    · exact (h.active runId (hmem runId hin)).aligned haligned h.sequence
  · intro runId hrun
    exact (h.active runId (hactive runId hrun).1).aligned haligned h.sequence

omit [Externals] in
theorem filterMap_run_replicate (n : Nat) (runId : Option RunId) :
    ((List.replicate n runId).map Ending.finished).filterMap Ending.run = (List.replicate n runId).filterMap fun r => r := by
  rw [filterMap_map]
  rfl

omit [Externals] in
theorem filterMap_replicate_one (runId : Option RunId) :
    (List.replicate 1 runId).filterMap (fun r => r) = runId.toList := by
  cases runId <;> rfl

theorem sequence_takePendingSwitch (a : Agent) :
    a.takePendingSwitch.1.state.transitionSequence = a.state.transitionSequence := by
  have hfail : ∀ (m : Agent) (code message : String),
      (m.fail code message).1.state.transitionSequence = m.state.transitionSequence := by
    intro m code message
    simp only [fail, discardTrailingEmptyAssistantMessage]
    split <;> rfl
  unfold takePendingSwitch
  split
  · unfold applySwitch
    dsimp only
    split
    · rfl
    · split
      · exact hfail _ _ _
      · rfl
  · rfl

theorem LedgerInv.openRun {s : Agent × Ledger} (h : LedgerInv s) (hroom : s.1.state.transitionSequence < maxU64)
    (input : UserInput) : LedgerInv ((s.1.openRun input).1, s.2) := by
  have haligned := s.1.aligned_openRun input
  have hnew : (s.1.openRun input).2 = .derived s.1.id.uuid s.1.state.transitionSequence 1 := rfl
  have hlater : s.1.state.transitionSequence < (s.1.openRun input).1.state.transitionSequence := by
    have hpushed := (kept_pushMessage (s.1.withBehavior s.1.state.behavior.resetRun).nextRunId.1 .user
      (userContent input)).sequence
    have hnext : (s.1.withBehavior s.1.state.behavior.resetRun).nextRunId.1.state.transitionSequence =
        saturatingAdd s.1.state.transitionSequence 1 := rfl
    rw [hnext] at hpushed
    have hsaturated : saturatingAdd s.1.state.transitionSequence 1 = s.1.state.transitionSequence + 1 := by
      unfold saturatingAdd
      omega
    rw [hsaturated] at hpushed
    exact Nat.lt_of_succ_le (hpushed hroom).1
  refine ⟨(haligned.sequence h.sequence).2, h.nodup, ?_, ?_, ?_⟩
  · intro runId hin hrun
    obtain ⟨n, hn, rfl⟩ := h.old runId hin
    have hsame : (s.1.openRun input).2 = .derived s.1.id.uuid n 1 := Option.some.inj hrun
    rw [hnew] at hsame
    have := Id.derived_injective h.sequence (hn.le.trans h.sequence) hsame
    omega
  · exact fun runId hin => (h.old runId hin).aligned haligned h.sequence
  · intro runId hrun
    have hsame : (s.1.openRun input).2 = runId := Option.some.inj hrun
    exact ⟨s.1.state.transitionSequence, hlater, by rw [← hsame, hnew, haligned.id]⟩

theorem ledgers_step (s : Agent × Ledger) (c : AgentCommand) : (ledgers.step s c).1 =
    ((s.1.apply c).1, ⟨(s.1.opens c).or s.2.last, s.2.endings ++ endingsOf s.2.last s.1 c⟩) := rfl

theorem LedgerInv.other {s : Agent × Ledger} {c : AgentCommand} (h : LedgerInv s) (hstart : s.1.startInput c = none)
    (honce : ¬ s.1.FinishesAgain c) : LedgerInv (ledgers.step s c).1 := by
  have hfinished : finishedRuns s.2.last s.1 c =
      List.replicate (runResults (s.1.apply c).2).length (s.1.state.activeRun.or s.2.last) := by
    simp [finishedRuns, hstart]
  rw [ledgers_step]
  refine h.extend (s.1.apply_transition c).aligned ?_
  rw [endingsOf, hfinished, filterMap_append, filterMap_run_replicate]
  by_cases hcancel : c = .cancel
  · subst hcancel
    refine .inr ⟨?_, s.1.cancel_frame.2.2.2⟩
    rw [show runResults (s.1.apply .cancel).2 = [] from s.1.runResults_cancel]
    cases hactive : s.1.state.activeRun <;> simp [cancelledRuns, hactive, Ending.run]
  · have hnil : cancelledRuns s.1 c = [] := by
      cases c <;> first | rfl | exact absurd rfl hcancel
    rw [hnil]
    rcases closes_of_transition (s.1.apply_transition c) rfl hstart honce with ⟨hnone, hrun⟩ | ⟨hone, hrun, hover⟩
    · rw [hnone]
      exact .inl ⟨rfl, hrun⟩
    · rw [hone, hrun]
      exact .inr ⟨rfl, hover⟩

theorem LedgerInv.start {s : Agent × Ledger} {c : AgentCommand} {m : Agent} {input : UserInput} (h : LedgerInv s)
    (hstart : s.1.startInput c = some (m, input)) (honce : ¬ s.1.FinishesAgain c) :
    LedgerInv (ledgers.step s c).1 := by
  have hnil : cancelledRuns s.1 c = [] := by
    cases c <;> first | rfl | cases hstart
  have hm : Aligned s.1 m ∧ m.state.activeRun = s.1.state.activeRun ∧
      m.state.transitionSequence = s.1.state.transitionSequence := by
    obtain ⟨-, rfl⟩ | ⟨rest, -, -, rfl⟩ := startInput_cases hstart
    · exact ⟨Aligned.refl _, rfl, rfl⟩
    · exact ⟨⟨rfl, rfl, rfl, rfl, fun h => ⟨le_refl _, h⟩⟩, rfl, rfl⟩
  obtain ⟨halm, hrun, hseq⟩ := hm
  rw [ledgers_step, apply_of_startInput hstart, endingsOf, hnil]
  simp only [map_nil, append_nil, finishedRuns, hstart]
  cases hvalid : m.acceptsRun input with
  | false =>
    -- the refused start fails the active run
    have hrejected : ∃ code message, m.startRun input = m.fail code message := by
      unfold acceptsRun at hvalid
      unfold startRun
      split
      · exact ⟨_, _, rfl⟩
      · rename_i htranscript
        split
        · exact ⟨_, _, rfl⟩
        · rename_i hattachments
          simp [htranscript, hattachments, Except.isOk, Except.toBool] at hvalid
    obtain ⟨code, message, hfail⟩ := hrejected
    obtain ⟨result, hresult, -⟩ := m.runResults_fail code message
    rw [hfail, hresult]
    refine h.extend (halm.trans (m.aligned_fail code message)) (.inr ⟨?_, rfl⟩)
    rw [show [result].length = 1 from rfl]
    simp only [Bool.false_eq_true, if_false]
    rw [filterMap_run_replicate, filterMap_replicate_one]
  | true =>
    simp only [if_true]
    rw [startRun_of_acceptsRun hvalid, map_append, ← append_assoc]
    -- the pending switch may end the active run
    have hswitched : LedgerInv (m.takePendingSwitch.1, ⟨s.2.last, s.2.endings ++
        (List.replicate (runResults m.takePendingSwitch.2).length s.1.state.activeRun).map .finished⟩) := by
      refine h.extend (halm.trans m.moves_takePendingSwitch.aligned) ?_
      rw [filterMap_run_replicate]
      rcases m.takePendingSwitch_cases with hquiet | ⟨-, -, hfail⟩
      · rw [hquiet.notices.runResults_eq]
        exact .inl ⟨rfl, .inl (hquiet.activeRun.trans hrun)⟩
      · obtain ⟨result, hresult, -⟩ := hfail.runResults_eq
        rw [hresult]
        exact .inr ⟨filterMap_replicate_one _, hfail.activeRun⟩
    -- the run that is opened is new
    have hroom : m.takePendingSwitch.1.state.transitionSequence < maxU64 := by
      rw [sequence_takePendingSwitch, hseq]
      refine lt_of_le_of_ne h.sequence fun hfull => honce (.inr (.inr ⟨?_, hfull⟩))
      simp [opens, hstart, hvalid]
    have hopened := hswitched.openRun hroom input
    -- and it is finished at most once before its first request
    rcases m.takePendingSwitch.1.beginRun_cases input with ⟨-, hfail⟩ | ⟨-, b, es, hquiet, hbegin⟩
    · obtain ⟨result, hresult, -⟩ := hfail.runResults_eq
      rw [hresult]
      refine hopened.extend hfail.aligned (.inr ⟨?_, hfail.activeRun⟩)
      rw [show [result].length = 1 from rfl, filterMap_run_replicate, filterMap_replicate_one]
      rfl
    · have hnone : runResults (m.takePendingSwitch.1.beginRun input).2 = [] := by
        rw [hbegin, runResults_append, hquiet.notices.runResults_eq]
        rfl
      rw [hnone]
      refine hopened.extend ?_ (.inl ⟨rfl, .inl ?_⟩)
      · simp only [andThen, hbegin]
        exact hquiet.toAligned.trans (b.kept_buildRequest _ false).1
      · simp only [andThen, hbegin]
        exact hquiet.activeRun

theorem LedgerInv.step {s : Agent × Ledger} {c : AgentCommand} (h : LedgerInv s) (honce : ¬ s.1.FinishesAgain c) :
    LedgerInv (ledgers.step s c).1 := by
  cases hstart : s.1.startInput c with
  | none => exact h.other hstart honce
  | some start => exact h.start hstart honce

def endings (a : Agent) (cs : List AgentCommand) : List Ending := (ledgers.run (a, ⟨none, []⟩) cs).2.endings

/-- In every run without a step that finishes a run again, every run is finished at most once, and never
    after it was cancelled. -/
theorem run_finishes_once {a : Agent} (hfresh : a.Fresh) (cs : List AgentCommand)
    (honce : ∀ st ∈ ledgers.trace (a, ⟨none, []⟩) cs, ¬ st.pre.1.FinishesAgain st.input) :
    (∀ runId, (endings a cs).count (.finished (some runId)) ≤ 1) ∧
      ∀ before after runId, endings a cs = before ++ .cancelled runId :: after → .finished (some runId) ∉ after := by
  have hstart : LedgerInv (a, ⟨none, []⟩) := by
    obtain ⟨id, sessionId, parentId, depth, systemPrompt, capabilities, profile, library, trusted, params, rfl⟩ := hfresh
    exact ⟨Nat.zero_le _, nodup_nil, by simp, by simp, nofun⟩
  have hstep : ∀ (s : Agent × Ledger) (c : AgentCommand), LedgerInv s → ¬ s.1.FinishesAgain c →
      LedgerInv (ledgers.step s c).1 := fun s c h => h.step
  have hnodup := (Machine.run_rule hstep hstart honce).nodup
  constructor
  · intro runId
    -- two results of one run would be two entries of that run
    have hsublist : (List.replicate ((endings a cs).count (.finished (some runId))) runId).Sublist
        ((endings a cs).filterMap Ending.run) := by
      have hall := (replicate_sublist_iff.mpr (le_refl ((endings a cs).count (.finished (some runId))))).filterMap
        Ending.run
      rwa [filterMap_replicate_of_some (show Ending.run (.finished (some runId)) = some runId from rfl)] at hall
    have hrepeat := hnodup.sublist hsublist
    exact nodup_replicate.mp hrepeat
  · intro before after runId hsplit hmem
    rw [show (ledgers.run (a, ⟨none, []⟩) cs).2.endings = _ from hsplit, filterMap_append, nodup_append] at hnodup
    have htail := hnodup.2.1
    rw [filterMap_cons_some (show Ending.run (.cancelled runId) = some runId from rfl), nodup_cons] at htail
    exact htail.1 (mem_filterMap.mpr ⟨_, hmem, rfl⟩)

end Agent

end

section

open Sample Agent

/-- A run is cancelled while a tool is under way, and the tool completes afterwards. -/
def Sample.overtaken : List AgentCommand := [prompt, requests 5, .cancel, .toolCompleted ⟨5⟩ ⟨⟨5⟩, .null, false⟩]

theorem run_finishes_once_cancelled : endings (agent .allow defaultProfile) overtaken = [.cancelled firstRun] ∧
    (∀ runId, (endings (agent .allow defaultProfile) overtaken).count (.finished (some runId)) ≤ 1) ∧
      ∀ before after runId, endings (agent .allow defaultProfile) overtaken =
        before ++ .cancelled runId :: after → .finished (some runId) ∉ after := by
  refine ⟨by decide, run_finishes_once (fresh_agent .allow defaultProfile) _ ?_⟩
  intro st hst
  simp only [overtaken, Machine.trace_cons, Machine.trace_nil, mem_cons, not_mem_nil, or_false] at hst
  rcases hst with rfl | rfl | rfl | rfl
  · rintro (⟨-, hends⟩ | ⟨_, _, _, hc, -⟩ | ⟨-, hfull⟩)
    · cases hends
    · cases hc
    · exact absurd hfull (by decide)
  · rintro (⟨-, hends⟩ | ⟨_, _, _, hc, -, hstops, -⟩ | ⟨hopens, -⟩)
    · cases hends
    · cases hc
      exact absurd hstops (by decide)
    · exact hopens rfl
  · rintro (⟨-, hends⟩ | ⟨_, _, _, hc, -⟩ | ⟨hopens, -⟩)
    · cases hends
    · cases hc
    · exact hopens rfl
  · rintro (⟨-, hends⟩ | ⟨_, _, _, hc, -⟩ | ⟨hopens, -⟩)
    · exact absurd hends (by decide)
    · cases hc
    · exact hopens rfl

set_option maxRecDepth 8192 in
/-- The backend fails while three tools run; when all of them have timed out, the run is finished again. -/
theorem late_timeouts_finish_again : (agent .allow defaultProfile).Fresh ∧
    (endings (agent .allow defaultProfile) [prompt, requests 5, requests 6, requests 7,
      fromBackend (.error ⟨0⟩ .timeout), .toolFailed ⟨5⟩ .timeout, .toolFailed ⟨6⟩ .timeout,
      .toolFailed ⟨7⟩ .timeout]).count (.finished (some firstRun)) = 2 :=
  ⟨fresh_agent .allow defaultProfile, by decide⟩

end

end RustyCore
