import RustyCore.Lib.Except
import RustyCore.Theorems.Snapshot

/-! The transition sequence across restarts. The replay sets it to the event counter of the runner at the last
    status change, which counts emitted events from the start of that runner; the ids a live agent derives come
    from a counter of their own. -/

namespace RustyCore

open Replay List Except

def counterAfter (n : Nat) : List DurableSessionEvent → Nat
  | [] => n
  | event :: rest =>
    counterAfter (if event.envelope.event.stateChange?.isSome then event.envelope.agentSequence else n) rest

/-- How many events the runner of the last status change had emitted before it since it was started, in the 64 bits
    that the runner counts in; without a status change, `n`. -/
def emittedAtChange (n : Nat) : List Append → Nat
  | [] => n
  | p :: rest =>
    emittedAtChange (if p.event.envelope.event.stateChange?.isSome then p.before.length % 2 ^ 64 else n) rest

/-- Each append carries as its number how many events its runner had emitted before it. -/
def Ranked (appends : List Append) : Prop :=
  ∀ p ∈ appends, p.event.envelope.agentSequence = p.before.length % 2 ^ 64

theorem counterAfter_eq {n : Nat} {appends : List Append} (h : Ranked appends) :
    counterAfter n (appends.map (·.event)) = emittedAtChange n appends := by
  induction appends generalizing n with
  | nil => rfl
  | cons p rest ih =>
    obtain ⟨hp, hrest⟩ := forall_mem_cons.mp h
    rw [map_cons, counterAfter, emittedAtChange, ih hrest, hp]

theorem counterAfter_le {n k : Nat} {events : List DurableSessionEvent} (hn : n ≤ k)
    (h : ∀ event ∈ events, event.envelope.agentSequence ≤ k) : counterAfter n events ≤ k := by
  induction events generalizing n with
  | nil => exact hn
  | cons event rest ih =>
    obtain ⟨hevent, hrest⟩ := forall_mem_cons.mp h
    refine ih ?_ hrest
    split
    · exact hevent
    · exact hn

theorem le_getLast {ts : List Nat} (hsorted : ts.Pairwise (· ≤ ·)) (hne : ts ≠ []) : ∀ t ∈ ts, t ≤ ts.getLast hne := by
  intro t ht
  rw [← dropLast_append_getLast hne] at hsorted ht
  rcases mem_append.mp ht with ht | ht
  · exact (pairwise_append.mp hsorted).2.2 t ht _ mem_cons_self
  · exact (mem_singleton.mp ht).le

namespace Replay

theorem validateEvents_ok {sessionId : SessionId} {policy : GapPolicy} {seen : List String} {previous : Option Nat}
    {events validated : List DurableSessionEvent}
    (h : validateEvents sessionId policy seen previous events = .ok validated) : validated = events := by
  induction events generalizing seen previous validated with
  | nil =>
    cases h
    rfl
  | cons event rest ih =>
    unfold validateEvents at h
    obtain ⟨sequence, -, h⟩ := ok_of_bind h
    dsimp only at h
    split at h
    · obtain ⟨_, hthrown, -⟩ := ok_of_bind h
      cases hthrown
    split at h
    · obtain ⟨_, hthrown, -⟩ := ok_of_bind h
      cases hthrown
    split at h
    · obtain ⟨_, hthrown, -⟩ := ok_of_bind h
      cases hthrown
    obtain ⟨_, -, h⟩ := ok_of_bind h
    obtain ⟨_, -, h⟩ := ok_of_bind h
    obtain ⟨kept, hrest, h⟩ := ok_of_bind h
    cases h
    rw [ih hrest]

theorem restore_ok {snapshot restored : DurableSessionSnapshot} {events : List DurableSessionEvent} {policy : GapPolicy}
    (h : restore snapshot events policy = .ok restored) : replaySnapshot snapshot events = .ok restored := by
  obtain ⟨validated, hvalidated, happlied⟩ := ok_of_bind h
  obtain ⟨_, -, hvalidated⟩ := ok_of_bind hvalidated
  obtain ⟨kept, hkept, hvalidated⟩ := ok_of_bind hvalidated
  obtain ⟨_, -, hvalidated⟩ := ok_of_bind hvalidated
  cases hvalidated
  obtain rfl : validated = events := validateEvents_ok hkept
  exact happlied

theorem applyEvent_sequence {agent agent' : StoredAgentState} {envelope : AgentEventEnvelope} {sequence : Nat}
    (h : applyEvent agent envelope sequence = .ok agent') : agent'.agentId = agent.agentId ∧
      agent'.transitionSequence =
        if envelope.event.stateChange?.isSome then envelope.agentSequence else agent.transitionSequence := by
  unfold applyEvent at h
  cases hevent : envelope.event with
  | stateChanged from_ to_ =>
    rw [hevent] at h
    dsimp only [changeState] at h
    split at h
    · cases h
    · cases h
      exact ⟨rfl, rfl⟩
  | childAgentSpawned childId spec =>
    rw [hevent] at h
    dsimp only at h
    split at h <;> cases h <;> exact ⟨rfl, rfl⟩
  | _ =>
    rw [hevent] at h
    cases h
    exact ⟨rfl, rfl⟩

theorem replaySnapshot_sequence {snapshot restored : DurableSessionSnapshot} {events : List DurableSessionEvent}
    {agent : StoredAgentState} (hagents : snapshot.agents = [agent])
    (h : replaySnapshot snapshot events = .ok restored) : ∃ agent', restored.agents = [agent'] ∧
      agent'.agentId = agent.agentId ∧ agent'.transitionSequence = counterAfter agent.transitionSequence events := by
  induction events generalizing snapshot agent with
  | nil =>
    cases h
    exact ⟨agent, hagents, rfl, rfl⟩
  | cons event rest ih =>
    unfold replaySnapshot at h
    obtain ⟨sequence, -, h⟩ := ok_of_bind h
    obtain ⟨agents, happlied, h⟩ := ok_of_bind h
    rw [hagents] at happlied
    unfold applyTo at happlied
    split at happlied
    · obtain ⟨agent', happly, hagents'⟩ := ok_of_bind happlied
      cases hagents'
      obtain ⟨hid, hsequence⟩ := applyEvent_sequence happly
      obtain ⟨last, hlast, hlastId, hcounter⟩ := ih rfl h
      exact ⟨last, hlast, hlastId.trans hid, by rw [hcounter, hsequence, counterAfter]⟩
    · obtain ⟨none, hnone, -⟩ := ok_of_bind happlied
      cases hnone

end Replay

section

variable [Externals]

namespace AgentRunner

variable {stamp : Nat → Stamp}

/-- A runner counts the events it has emitted. -/
def Counting (r : AgentRunner) : Prop := r.agentSequence = r.emitted.length % 2 ^ 64

variable {r : AgentRunner}

theorem counts_emit (h : r.Counting) (event : AgentEvent) :
    (r.emit stamp event).1.Counting ∧ Ranked (r.emit stamp event).2.1 := by
  have hnext : (r.agentSequence + 1) % 2 ^ 64 = (r.emitted ++ [event]).length % 2 ^ 64 := by
    rw [length_append, length_singleton, h, Nat.mod_add_mod]
  by_cases hnil : (stamp r.stamped).eventId.uuid = 0
  · simp only [emit, envelope, SessionCommitter.commit, hnil, if_true]
    exact ⟨hnext, fun p hp => absurd hp not_mem_nil⟩
  · cases hdurable : isDurable event with
    | true =>
      simp only [emit, envelope, SessionCommitter.commit, hnil, if_false, hdurable, if_true]
      refine ⟨hnext, fun p hp => ?_⟩
      obtain rfl := mem_singleton.mp hp
      exact h
    | false =>
      simp only [emit, envelope, SessionCommitter.commit, hnil, if_false, hdurable, Bool.false_eq_true]
      exact ⟨hnext, fun p hp => absurd hp not_mem_nil⟩

theorem counts_executeBackend (h : r.Counting) (request : ExecutionRequest) :
    (r.executeBackend stamp request).1.Counting ∧ Ranked (r.executeBackend stamp request).2 := by
  have hnone {m : AgentRunner} (hm : m.Counting) : m.Counting ∧ Ranked [] :=
    ⟨hm, fun p hp => absurd hp not_mem_nil⟩
  have htrace (request : ExecutionRequest) :
      (r.traceRequest stamp request).1.Counting ∧ Ranked (r.traceRequest stamp request).2.1 := by
    unfold traceRequest
    dsimp only
    split
    · exact counts_emit h _
    · exact hnone h
  have hwatch {m : AgentRunner} (hm : m.Counting) (request : ExecutionRequest) :
      (m.watchPrefix stamp request).1.Counting ∧ Ranked (m.watchPrefix stamp request).2.1 := by
    unfold watchPrefix
    dsimp only
    split
    · exact hnone hm
    · exact @counts_emit _ stamp { m with promptPrefix := some (.of request) } hm _
  unfold executeBackend
  dsimp only
  generalize { request with messages := repairToolHistory request.messages } = prepared
  split
  · obtain ⟨hfirst, hranked⟩ := htrace prepared
    rcases hm : r.traceRequest stamp prepared with ⟨m, appends, committed⟩
    rw [hm] at hfirst hranked
    cases committed with
    | true =>
      obtain ⟨hlast, hlater⟩ := hwatch hfirst prepared
      exact ⟨hlast, forall_mem_append.mpr ⟨hranked, hlater⟩⟩
    | false => exact ⟨hfirst, hranked⟩
  · exact hnone h

theorem counts_dispatchEffects (h : r.Counting) (es : List AgentEffect) :
    (r.dispatchEffects stamp es).1.Counting ∧ Ranked (r.dispatchEffects stamp es).2 := by
  induction es generalizing r with
  | nil => exact ⟨h, fun p hp => absurd hp not_mem_nil⟩
  | cons e es ih =>
    cases e with
    | emit event =>
      have hemitted := @counts_emit _ stamp _ h event
      rcases hemit : r.emit stamp event with ⟨m, appends, committed⟩
      rw [hemit] at hemitted
      cases committed with
      | true =>
        simp only [dispatchEffects, hemit]
        obtain ⟨hlast, hlater⟩ := ih hemitted.1
        exact ⟨hlast, forall_mem_append.mpr ⟨hemitted.2, hlater⟩⟩
      | false =>
        simp only [dispatchEffects, hemit]
        exact hemitted
    | executeBackend request =>
      obtain ⟨hfirst, hranked⟩ := @counts_executeBackend _ stamp _ h request
      obtain ⟨hlast, hlater⟩ := ih hfirst
      simp only [dispatchEffects]
      exact ⟨hlast, forall_mem_append.mpr ⟨hranked, hlater⟩⟩
    | _ => exact ih h

end AgentRunner

variable [Serde]

namespace AgentHistory

open AgentRunner

def Restored.live (r : Restored) : List Nat := r.checkpointed :: r.replayed.map (·.projection.transitionSequence)

/-- The agent goes on from no number that it had used up when it emitted a replayed event, so that no id it derives
    from then on is one that it derived before. -/
def Restored.Fresh (r : Restored) : Prop :=
  ∀ t ∈ r.live, t ≤ r.resumed ∧ ∀ n < t, ∀ m, r.resumed ≤ m → m ≤ maxU64 → ∀ (kind : IdKind) (ns : Nat),
    (Id.derived r.agentId.uuid n ns : Id kind) ≠ Id.derived r.agentId.uuid m ns

def Restored.lastLive (r : Restored) : Nat := r.live.getLast (by simp [live])

/-- At the last replayed status change its runner had emitted at least as many events as the agent had used numbers
    when it emitted the last replayed event; without a status change, the agent stood there at the checkpoint. -/
def Restored.Counted (r : Restored) : Prop := r.lastLive ≤ emittedAtChange r.checkpointed r.replayed

theorem load_eq {c : AgentCheckpoint} {trail : List Append} {agent : Agent} (h : load c trail = some agent) :
    agent.id = c.stored.agentId ∧
      agent.state.transitionSequence = counterAfter c.stored.transitionSequence (trail.map (·.event)) := by
  unfold load at h
  split at h
  · cases h
  · rename_i snapshot hrestore
    obtain ⟨stored, hagents, hid, hsequence⟩ := replaySnapshot_sequence rfl (restore_ok hrestore)
    rw [hagents] at h
    simp only [List.head?_cons, Option.bind_some, restoredAgent] at h
    split at h
    · cases h
    · cases h
      exact ⟨hid, hsequence⟩

theorem restart_cases (h : AgentHistory) (appended : Nat) : h.restart appended = (h, []) ∨
    ∃ c agent, h.checkpoint = some c ∧ load c (h.settled ++ h.recent.take appended) = some agent ∧
      h.restart appended = ({ h with
        runner := h.resume agent (h.settled ++ h.recent.take appended)
        settled := h.settled ++ h.recent.take appended
        recent := [] }, [⟨agent.id, c.stored.transitionSequence, h.settled ++ h.recent.take appended,
          agent.state.transitionSequence⟩]) := by
  unfold restart
  dsimp only
  split
  · exact .inl rfl
  · rename_i c hc
    split
    · exact .inl rfl
    · rename_i agent hload
      exact .inr ⟨c, agent, hc, hload, rfl⟩

def marks (h : AgentHistory) : List Nat :=
  (h.checkpoint.map (·.stored.transitionSequence)).toList ++ h.settled.map (·.projection.transitionSequence)

structure Rising (h : AgentHistory) : Prop where
  running : h.runner.fatalError = false
  bound : h.runner.agent.state.transitionSequence ≤ maxU64
  counter : h.runner.Counting
  stored : ∀ c ∈ h.checkpoint, c.stored.transitionSequence ≤ maxU64
  stamps : Ranked (h.settled ++ h.recent)
  sorted : h.marks.Pairwise (· ≤ ·)
  reached : ∀ t ∈ h.marks, t ≤ h.runner.agent.state.transitionSequence
  recent : ∀ p ∈ h.recent, p.projection.transitionSequence = h.runner.agent.state.transitionSequence

variable {stamp : Nat → Stamp} {h : AgentHistory}

theorem Rising.command (hreal : ∀ i, (stamp i).eventId.uuid ≠ 0) (hr : Rising h) (c : AgentCommand) :
    Rising ((machine stamp).step h (.command c)).1 := by
  have hadvances := advances hreal hr.running c
  have haligned := (h.runner.agent.apply_transition c).aligned
  obtain ⟨hrise, hbound⟩ := haligned.sequence hr.bound
  have hcounts : (h.runner.handleCommand stamp c).1.Counting ∧ Ranked (h.runner.handleCommand stamp c).2 := by
    unfold handleCommand
    simp only [hr.running, Bool.false_eq_true, if_false]
    exact @counts_dispatchEffects _ stamp { h.runner with agent := (h.runner.agent.apply c).1, fatalError := false }
      hr.counter (h.runner.agent.apply c).2
  have hagent : (h.runner.handleCommand stamp c).1.agent = (h.runner.agent.apply c).1 := hadvances.agent
  have hmarks : ((machine stamp).step h (.command c)).1.marks =
      h.marks ++ h.recent.map (·.projection.transitionSequence) := by
    show (_ ++ (h.settled ++ h.recent).map _ : List Nat) = _
    rw [map_append, ← append_assoc]
    rfl
  have hreached : ∀ t ∈ h.marks ++ h.recent.map (·.projection.transitionSequence),
      t ≤ h.runner.agent.state.transitionSequence := by
    intro t ht
    rcases mem_append.mp ht with ht | ht
    · exact hr.reached t ht
    · obtain ⟨p, hp, rfl⟩ := mem_map.mp ht
      exact (hr.recent p hp).le
  refine ⟨hadvances.running, ?_, hcounts.1, hr.stored, ?_, ?_, ?_, ?_⟩
  · show (h.runner.handleCommand stamp c).1.agent.state.transitionSequence ≤ maxU64
    rw [hagent]
    exact hbound
  · intro p hp
    rcases mem_append.mp hp with hp | hp
    · exact hr.stamps p hp
    · exact hcounts.2 p hp
  · rw [hmarks, pairwise_append]
    refine ⟨hr.sorted, ?_, ?_⟩
    · rw [pairwise_map]
      exact pairwise_of_forall_mem_list fun p hp q hq => by rw [hr.recent p hp, hr.recent q hq]
    · intro t ht u hu
      obtain ⟨p, hp, rfl⟩ := mem_map.mp hu
      rw [hr.recent p hp]
      exact hr.reached t ht
  · intro t ht
    rw [hmarks] at ht
    show t ≤ (h.runner.handleCommand stamp c).1.agent.state.transitionSequence
    rw [hagent]
    exact (hreached t ht).trans hrise
  · intro p hp
    rw [hadvances.projection p hp]
    rfl

theorem Rising.checkpoint (hr : Rising h) (appended : Nat) (now : Timestamp) :
    Rising (h.takeCheckpoint appended now) := by
  refine ⟨hr.running, hr.bound, hr.counter, ?_, ?_, ?_, ?_, ?_⟩
  · rintro c ⟨⟩
    exact hr.bound
  · exact fun p hp => hr.stamps p (mem_append_right _ (mem_of_mem_drop hp))
  · exact pairwise_singleton _ _
  · intro t ht
    obtain rfl := mem_singleton.mp ht
    exact le_refl _
  · exact fun p hp => hr.recent p (mem_of_mem_drop hp)

omit [Serde] in
theorem Rising.live (hr : Rising h) {c : AgentCheckpoint} (hc : h.checkpoint = some c) (appended : Nat) :
    (c.stored.transitionSequence :: (h.settled ++ h.recent.take appended).map
      (·.projection.transitionSequence)).Pairwise (· ≤ ·) := by
  have hsplit : c.stored.transitionSequence :: (h.settled ++ h.recent.take appended).map
      (·.projection.transitionSequence) = h.marks ++ (h.recent.take appended).map (·.projection.transitionSequence) := by
    rw [marks, hc, map_append]
    rfl
  rw [hsplit, pairwise_append]
  refine ⟨hr.sorted, ?_, ?_⟩
  · rw [pairwise_map]
    exact pairwise_of_forall_mem_list fun p hp q hq => by
      rw [hr.recent p (mem_of_mem_take hp), hr.recent q (mem_of_mem_take hq)]
  · intro t ht u hu
    obtain ⟨p, hp, rfl⟩ := mem_map.mp hu
    rw [hr.recent p (mem_of_mem_take hp)]
    exact hr.reached t ht

omit [Externals] [Serde] in
theorem Restored.fresh_iff {r : Restored} (hsorted : r.live.Pairwise (· ≤ ·))
    (hresumed : r.resumed = emittedAtChange r.checkpointed r.replayed) : r.Fresh ↔ r.Counted := by
  have hne : r.live ≠ [] := by simp [Restored.live]
  rw [Counted, ← hresumed]
  constructor
  · exact fun hfresh => (hfresh _ (getLast_mem hne)).1
  · intro hcounted t ht
    have hle : t ≤ r.resumed := (le_getLast hsorted hne t ht).trans hcounted
    refine ⟨hle, fun n hn m hm hbound kind ns hsame => ?_⟩
    have heq := Id.derived_injective (by omega) hbound hsame
    omega

theorem Rising.restart (hr : Rising h) (appended : Nat) :
    (∀ r ∈ (h.restart appended).2, r.Fresh ↔ r.Counted) ∧
      ((∀ r ∈ (h.restart appended).2, r.Fresh) → Rising (h.restart appended).1) := by
  rcases h.restart_cases appended with heq | ⟨c, agent, hc, hload, heq⟩
  · rw [heq]
    exact ⟨fun r hr => absurd hr not_mem_nil, fun _ => hr⟩
  · have hlive := hr.live hc appended
    obtain ⟨hid, hsequence⟩ := load_eq hload
    have htrail : Ranked (h.settled ++ h.recent.take appended) := by
      intro p hp
      rcases mem_append.mp hp with hp | hp
      · exact hr.stamps p (mem_append_left _ hp)
      · exact hr.stamps p (mem_append_right _ (mem_of_mem_take hp))
    rw [heq]
    refine ⟨?_, ?_⟩
    · intro r hmem
      obtain rfl := mem_singleton.mp hmem
      exact Restored.fresh_iff hlive (hsequence.trans (counterAfter_eq htrail))
    · intro hfresh
      have hreached := hfresh _ (mem_singleton_self _)
      have hmarks : ∀ t, t ∈ (c.stored.transitionSequence :: (h.settled ++ h.recent.take appended).map
          (·.projection.transitionSequence)) → t ≤ agent.state.transitionSequence := fun t ht => (hreached t ht).1
      refine ⟨rfl, ?_, rfl, hr.stored, ?_, ?_, ?_, ?_⟩
      · show agent.state.transitionSequence ≤ maxU64
        rw [hsequence]
        refine counterAfter_le (hr.stored c hc) fun event hevent => ?_
        obtain ⟨p, hp, rfl⟩ := mem_map.mp hevent
        rw [htrail p hp]
        exact Nat.le_pred_of_lt (Nat.mod_lt _ (by decide))
      · intro p hp
        rw [append_nil] at hp
        exact htrail p hp
      · rw [marks, hc]
        exact hlive
      · rw [marks, hc]
        exact hmarks
      · exact fun p hp => absurd hp not_mem_nil

structure Start (h : AgentHistory) : Prop where
  agent : h.runner.agent.Fresh
  running : h.runner.fatalError = false
  counter : h.runner.agentSequence = 0
  emitted : h.runner.emitted = []
  checkpoint : h.checkpoint = none
  settled : h.settled = []
  recent : h.recent = []

omit [Serde] in
theorem Start.rising (hstart : Start h) : Rising h := by
  obtain ⟨runner, checkpoint, settled, recent⟩ := h
  obtain ⟨hagent, hrunning, hcounter, hemitted, rfl, rfl, rfl⟩ := hstart
  have hzero : runner.agent.state.transitionSequence = 0 := by
    obtain ⟨id, sessionId, parentId, depth, systemPrompt, capabilities, profile, library, trusted, params, heq⟩ := hagent
    rw [heq]
    rfl
  have hcounting : runner.Counting := by
    rw [AgentRunner.Counting, hcounter, hemitted]
    rfl
  refine ⟨hrunning, hzero.le.trans (Nat.zero_le _), hcounting, ?_, ?_, .nil, ?_, ?_⟩
  · exact fun c hc => absurd hc (by simp)
  · exact fun p hp => absurd hp not_mem_nil
  · exact fun t ht => absurd ht not_mem_nil
  · exact fun p hp => absurd hp not_mem_nil

/-- Every restart of a history keeps the ids of the agent apart exactly if at every restart the runner had emitted
    enough events. -/
theorem restored_ids_fresh_iff (hreal : ∀ i, (stamp i).eventId.uuid ≠ 0) (hstart : Start h) (inputs : List Input) :
    (∀ r ∈ (machine stamp).output h inputs, r.Fresh) ↔ ∀ r ∈ (machine stamp).output h inputs, r.Counted := by
  refine Machine.output_iff (I := Rising) (fun h input hr => ?_) hstart.rising
  cases input with
  | command c => exact ⟨fun r hr => absurd hr not_mem_nil, fun _ => hr.command hreal c⟩
  | checkpoint appended now => exact ⟨fun r hr => absurd hr not_mem_nil, fun _ => hr.checkpoint appended now⟩
  | restart appended => exact hr.restart appended

end AgentHistory

end

namespace Sample

open AgentHistory

def tracked : AgentHistory := ⟨{ agent := bare, committer := ⟨1, defaultSnapshotEvery, 0⟩ }, none, [], []⟩

theorem start_tracked : tracked.Start := ⟨fresh_bare, rfl, rfl, rfl, rfl, rfl, rfl⟩

def restarted : List AgentHistory.Input := [.checkpoint 0 (.fromSequence 9), .command prompt, .restart 2]

/-- The answer comes in eight parts, and the process restarts after the run. -/
def answered : List AgentHistory.Input :=
  [.checkpoint 0 (.fromSequence 9), .command prompt] ++
    List.replicate 8 (.command (fromBackend (.textDelta ⟨0⟩ "ha"))) ++
    [.command (fromBackend (.completed ⟨0⟩ ⟨⟨0⟩, {}, {}, "end_turn"⟩)), .restart 9]

end Sample

section

open Sample AgentHistory

/-- The runner has emitted eleven events when the run ends with a status change, and the agent has used six numbers. -/
theorem restored_ids_fresh_iff_answered : (∀ i, (stamps i).eventId.uuid ≠ 0) ∧ tracked.Start ∧
    ((machine stamps).output tracked answered).map
      (fun r => (r.lastLive, emittedAtChange r.checkpointed r.replayed)) = [(6, 11)] ∧
    ∀ r ∈ (machine stamps).output tracked answered, r.Fresh := by
  have hout : ((machine stamps).output tracked answered).map
      (fun r => (r.lastLive, emittedAtChange r.checkpointed r.replayed)) = [(6, 11)] := by decide
  refine ⟨stamps_real, start_tracked, hout, (restored_ids_fresh_iff stamps_real start_tracked answered).mpr ?_⟩
  intro r hr
  have hmem := mem_map_of_mem (f := fun r => (r.lastLive, emittedAtChange r.checkpointed r.replayed)) hr
  rw [hout] at hmem
  obtain ⟨hlive, hemitted⟩ := Prod.mk.inj (mem_singleton.mp hmem)
  rw [Restored.Counted, hlive, hemitted]
  decide

/-- The run has used up four numbers when its start is stored. The last status change was the first event of its
    runner, so that the restored agent counts from zero, and the id of its next run is that of the run before. -/
theorem restart_reuses_ids : (∀ i, (stamps i).eventId.uuid ≠ 0) ∧ tracked.Start ∧
    ∃ r ∈ (machine stamps).output tracked restarted, r.resumed = 0 ∧ r.live = [0, 4, 4] ∧ ¬ r.Fresh := by
  have hout : ((machine stamps).output tracked restarted).map (fun r => (r.resumed, r.live)) = [(0, [0, 4, 4])] := by
    decide
  obtain ⟨r, hr, hread⟩ := mem_map.mp (hout ▸ mem_singleton_self (0, [0, 4, 4]))
  obtain ⟨hresumed, hlive⟩ := Prod.mk.inj hread
  refine ⟨stamps_real, start_tracked, r, hr, hresumed, hlive, fun hfresh => ?_⟩
  have hle := (hfresh 4 (by rw [hlive]; simp)).1
  rw [hresumed] at hle
  exact absurd hle (by decide)

end

end RustyCore
