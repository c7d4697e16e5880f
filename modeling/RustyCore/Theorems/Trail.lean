import RustyCore.Store.Session
import RustyCore.Theorems.Resting

/-! The trail of a session: what its runner appends to the store, under which ids and sequence numbers. -/

namespace RustyCore

open Path List

def AgentEvent.stateChange? : AgentEvent → Option (AgentStatus × AgentStatus)
  | .stateChanged from_ to_ => some (from_, to_)
  | _ => none

def changesOf (events : List DurableSessionEvent) : List (AgentStatus × AgentStatus) :=
  events.filterMap (·.envelope.event.stateChange?)

def AgentEffect.emitted? : AgentEffect → Option AgentEvent
  | .emit event => some event
  | _ => none

def durableEvents (es : List AgentEffect) : List AgentEvent := (es.filterMap AgentEffect.emitted?).filter isDurable

theorem durableEvents_cons (e : AgentEffect) (es : List AgentEffect) :
    durableEvents (e :: es) = durableEvents [e] ++ durableEvents es := by
  rw [← singleton_append, durableEvents, filterMap_append, filter_append]
  rfl

theorem changes_durableEvents (es : List AgentEffect) :
    (durableEvents es).filterMap AgentEvent.stateChange? = stateChanges es := by
  unfold durableEvents stateChanges
  rw [filterMap_filter, filterMap_filterMap]
  congr 1
  funext e
  cases e with
  | emit event => cases event <;> rfl
  | _ => rfl

/-- The event with the `i`-th stamp and the session sequence `n`, of one agent in its session. -/
structure Stamped (stamp : Nat → Stamp) (sessionId : SessionId) (agentId : AgentId) (i n : Nat)
    (event : DurableSessionEvent) : Prop where
  eventId : event.envelope.eventId = (stamp i).eventId
  sessionId : event.envelope.sessionId = sessionId
  agentId : event.envelope.agentId = agentId
  sequence : event.sessionSequence = some n
  enveloped : event.envelope.sessionSequence = some n

/-- Events of one agent with rising stamps and rising sequence numbers: the stamps are the `i`-th to before
    the `i'`-th, the sequence numbers `n` to before `n'`. -/
inductive Laid (stamp : Nat → Stamp) (sessionId : SessionId) (agentId : AgentId) :
    Nat → Nat → List DurableSessionEvent → Nat → Nat → Prop
  | nil {i n i' n' : Nat} (hi : i ≤ i') (hn : n ≤ n') : Laid stamp sessionId agentId i n [] i' n'
  | cons {i n j k i' n' : Nat} {event : DurableSessionEvent} {rest : List DurableSessionEvent} (hi : i ≤ j)
      (hn : n ≤ k) (h : Stamped stamp sessionId agentId j k event)
      (hrest : Laid stamp sessionId agentId (j + 1) (k + 1) rest i' n') :
      Laid stamp sessionId agentId i n (event :: rest) i' n'

namespace Laid

variable {stamp : Nat → Stamp} {sessionId : SessionId} {agentId : AgentId} {i n j k i' n' : Nat}
  {xs ys : List DurableSessionEvent}

theorem mono (h : Laid stamp sessionId agentId i n xs i' n') (hi : j ≤ i) (hn : k ≤ n) :
    Laid stamp sessionId agentId j k xs i' n' := by
  cases h with
  | nil hi' hn' => exact .nil (by omega) (by omega)
  | cons hi' hn' hevent hrest => exact .cons (by omega) (by omega) hevent hrest

theorem append (h : Laid stamp sessionId agentId i n xs j k) (h' : Laid stamp sessionId agentId j k ys i' n') :
    Laid stamp sessionId agentId i n (xs ++ ys) i' n' := by
  induction h with
  | nil hi hn => exact h'.mono hi hn
  | cons hi hn hevent _ ih => exact .cons hi hn hevent (ih h')

theorem after {event : DurableSessionEvent} (h : Laid stamp sessionId agentId i n (xs ++ event :: ys) i' n') :
    ∃ j k, Stamped stamp sessionId agentId j k event ∧ Laid stamp sessionId agentId (j + 1) (k + 1) ys i' n' := by
  induction xs generalizing i n with
  | nil =>
    cases h with
    | cons _ _ hevent hrest => exact ⟨_, _, hevent, hrest⟩
  | cons x xs ih =>
    cases h with
    | cons _ _ _ hrest => exact ih hrest

end Laid

theorem SessionCommitter.nextSequence_exact {c : SessionCommitter} {skipped : Nat}
    (h : (c.nextSequence skipped).1.next < maxU64) :
    (c.nextSequence skipped).2 = c.next + skipped ∧ (c.nextSequence skipped).1.next = c.next + skipped + 1 := by
  simp only [nextSequence, saturatingAdd] at h ⊢
  omega

@[simp] theorem SessionCommitter.noteDurableAppend_next (c : SessionCommitter) :
    c.noteDurableAppend.1.next = c.next := by
  unfold noteDurableAppend
  dsimp only
  split <;> rfl

variable [Externals]

/-- What carrying out effects appends: the durable events among them in order, stamped one after the other,
    each with the projection of the agent as it is now. -/
structure Writes (stamp : Nat → Stamp) (r : AgentRunner) (events : List AgentEvent) (appends : List Append)
    (r' : AgentRunner) : Prop where
  agent : r'.agent = r.agent
  running : r'.fatalError = r.fatalError
  events : appends.map (·.event.envelope.event) = events
  projection : ∀ p ∈ appends, p.projection = storedAgentState r.agent
  laid : r'.committer.next < maxU64 → r.committer.next < maxU64 ∧
    Laid stamp r.agent.sessionId r.agent.id r.stamped r.committer.next (appends.map (·.event)) r'.stamped
      r'.committer.next

namespace Writes

variable {stamp : Nat → Stamp} {r m r' : AgentRunner} {xs ys : List AgentEvent} {ps qs : List Append}

theorem refl (r : AgentRunner) : Writes stamp r [] [] r := by
  refine ⟨rfl, rfl, rfl, ?_, ?_⟩
  · intro p hp
    cases hp
  · intro hroom
    exact ⟨hroom, .nil (Nat.le_refl _) (Nat.le_refl _)⟩

theorem trans (h : Writes stamp r xs ps m) (h' : Writes stamp m ys qs r') :
    Writes stamp r (xs ++ ys) (ps ++ qs) r' := by
  refine ⟨h'.agent.trans h.agent, h'.running.trans h.running, ?_, ?_, ?_⟩
  · rw [map_append, h.events, h'.events]
  · intro p hp
    rcases mem_append.mp hp with hp | hp
    · exact h.projection p hp
    · rw [h'.projection p hp, h.agent]
  · intro hroom
    obtain ⟨hmiddle, hlate⟩ := h'.laid hroom
    obtain ⟨hfirst, hearly⟩ := h.laid hmiddle
    rw [h.agent] at hlate
    rw [map_append]
    exact ⟨hfirst, hearly.append hlate⟩

end Writes

namespace AgentRunner

variable {stamp : Nat → Stamp}

theorem writes_emit (r : AgentRunner) (event : AgentEvent) (hreal : (stamp r.stamped).eventId.uuid ≠ 0) :
    (r.emit stamp event).2.2 = true ∧
      Writes stamp r ([event].filter isDurable) (r.emit stamp event).2.1 (r.emit stamp event).1 := by
  cases hdurable : isDurable event with
  | true =>
    simp only [emit, envelope, SessionCommitter.commit, hreal, if_false, hdurable, if_true, true_and]
    refine ⟨rfl, rfl, by simp [hdurable], by simp, ?_⟩
    intro hroom
    rw [SessionCommitter.noteDurableAppend_next] at hroom
    obtain ⟨hcurrent, hnext⟩ := SessionCommitter.nextSequence_exact hroom
    refine ⟨by omega, .cons (Nat.le_refl _) ?_ ⟨rfl, rfl, rfl, rfl, rfl⟩ (.nil (Nat.le_refl _) ?_)⟩
    · omega
    · rw [SessionCommitter.noteDurableAppend_next]
      omega
  | false =>
    simp only [emit, envelope, SessionCommitter.commit, hreal, if_false, hdurable, Bool.false_eq_true, true_and]
    refine ⟨rfl, rfl, by simp [hdurable], by simp, ?_⟩
    intro hroom
    obtain ⟨-, hnext⟩ := SessionCommitter.nextSequence_exact hroom
    dsimp only at hroom hnext ⊢
    exact ⟨by omega, .nil (Nat.le_succ _) (by omega)⟩

theorem writes_traceRequest (r : AgentRunner) (request : ExecutionRequest)
    (hreal : (stamp r.stamped).eventId.uuid ≠ 0) : (r.traceRequest stamp request).2.2 = true ∧
      Writes stamp r [] (r.traceRequest stamp request).2.1 (r.traceRequest stamp request).1 := by
  unfold traceRequest
  dsimp only
  split
  · exact r.writes_emit (.modelRequestPrepared request) hreal
  · exact ⟨rfl, .refl r⟩

theorem writes_watchPrefix (r : AgentRunner) (request : ExecutionRequest)
    (hreal : (stamp r.stamped).eventId.uuid ≠ 0) :
    Writes stamp r [] (r.watchPrefix stamp request).2.1 (r.watchPrefix stamp request).1 := by
  unfold watchPrefix
  dsimp only
  have hrefl : Writes stamp r [] [] r := .refl r
  have hwatched : Writes stamp r [] [] { r with promptPrefix := some (.of request) } :=
    ⟨hrefl.agent, hrefl.running, hrefl.events, hrefl.projection, hrefl.laid⟩
  split
  · exact hwatched
  · generalize Fingerprint.observe r.promptPrefix (.of request) = changed
    exact hwatched.trans (writes_emit { r with promptPrefix := some (.of request) }
      (.promptPrefixChanged request.runId request.requestId changed) hreal).2

/-- The notices of a model request are not durable. -/
theorem writes_executeBackend (r : AgentRunner) (request : ExecutionRequest)
    (hreal : ∀ i, (stamp i).eventId.uuid ≠ 0) :
    Writes stamp r [] (r.executeBackend stamp request).2 (r.executeBackend stamp request).1 := by
  unfold executeBackend
  dsimp only
  generalize { request with messages := repairToolHistory request.messages } = prepared
  split
  · obtain ⟨hcommitted, hfirst⟩ := r.writes_traceRequest prepared (hreal _)
    rcases htrace : r.traceRequest stamp prepared with ⟨m, appends, committed⟩
    rw [htrace] at hcommitted hfirst
    cases hcommitted
    exact hfirst.trans (m.writes_watchPrefix prepared (hreal _))
  · exact .refl r

theorem writes_dispatchEffects (r : AgentRunner) (es : List AgentEffect) (hreal : ∀ i, (stamp i).eventId.uuid ≠ 0) :
    Writes stamp r (durableEvents es) (r.dispatchEffects stamp es).2 (r.dispatchEffects stamp es).1 := by
  induction es generalizing r with
  | nil => exact .refl r
  | cons e es ih =>
    rw [durableEvents_cons]
    cases e with
    | emit event =>
      obtain ⟨hcommitted, hwrites⟩ := r.writes_emit event (hreal _)
      rcases hemit : r.emit stamp event with ⟨m, appends, committed⟩
      rw [hemit] at hcommitted hwrites
      cases hcommitted
      simp only [dispatchEffects, hemit]
      exact hwrites.trans (ih m)
    | executeBackend request =>
      simp only [dispatchEffects]
      exact (r.writes_executeBackend request hreal).trans (ih _)
    | _ => exact ih r

theorem writes_handleCommand {r : AgentRunner} (hrunning : r.fatalError = false) (c : AgentCommand)
    (hreal : ∀ i, (stamp i).eventId.uuid ≠ 0) :
    Writes stamp { r with agent := (r.agent.apply c).1 } (durableEvents (r.agent.apply c).2)
      (r.handleCommand stamp c).2 (r.handleCommand stamp c).1 := by
  unfold handleCommand
  simp only [hrunning, Bool.false_eq_true, if_false]
  exact writes_dispatchEffects _ _ hreal

structure Advances (stamp : Nat → Stamp) (r : AgentRunner) (c : AgentCommand) (appends : List Append)
    (r' : AgentRunner) : Prop where
  agent : r'.agent = (r.agent.apply c).1
  running : r'.fatalError = false
  changes : changesOf (appends.map (·.event)) = stateChanges (r.agent.apply c).2
  projection : ∀ p ∈ appends, p.projection = storedAgentState r'.agent
  laid : r'.committer.next < maxU64 → r.committer.next < maxU64 ∧
    Laid stamp r.agent.sessionId r.agent.id r.stamped r.committer.next (appends.map (·.event)) r'.stamped
      r'.committer.next

variable {r : AgentRunner}

theorem advances (hreal : ∀ i, (stamp i).eventId.uuid ≠ 0) (hrunning : r.fatalError = false) (c : AgentCommand) :
    Advances stamp r c ((session stamp).step r c).2 ((session stamp).step r c).1 := by
  have hwrites := writes_handleCommand hrunning c hreal
  have haligned := (r.agent.apply_transition c).aligned
  refine ⟨hwrites.agent, hwrites.running.trans hrunning, ?_, ?_, ?_⟩
  · rw [← changes_durableEvents, ← hwrites.events, changesOf, filterMap_map, filterMap_map]
    rfl
  · rw [show ((session stamp).step r c).1.agent = (r.agent.apply c).1 from hwrites.agent]
    exact hwrites.projection
  · intro hroom
    have hlaid := hwrites.laid hroom
    rw [haligned.id, haligned.sessionId] at hlaid
    exact hlaid

theorem laid_run (hreal : ∀ i, (stamp i).eventId.uuid ≠ 0) (hrunning : r.fatalError = false) (cs : List AgentCommand)
    (hroom : ((session stamp).run r cs).committer.next < maxU64) :
    r.committer.next < maxU64 ∧ Laid stamp r.agent.sessionId r.agent.id r.stamped r.committer.next
      (((session stamp).output r cs).map (·.event)) ((session stamp).run r cs).stamped
      ((session stamp).run r cs).committer.next := by
  induction cs generalizing r with
  | nil => exact ⟨hroom, .nil (Nat.le_refl _) (Nat.le_refl _)⟩
  | cons c cs ih =>
    have hadvances := advances hreal hrunning c
    have haligned := (r.agent.apply_transition c).aligned
    obtain ⟨hmiddle, hlate⟩ := ih hadvances.running hroom
    obtain ⟨hfirst, hearly⟩ := hadvances.laid hmiddle
    rw [hadvances.agent, haligned.id, haligned.sessionId] at hlate
    refine ⟨hfirst, ?_⟩
    rw [Machine.output, Machine.trace_cons, flatMap_cons, map_append]
    exact hearly.append hlate

theorem walk_run_iff (hreal : ∀ i, (stamp i).eventId.uuid ≠ 0) (hrunning : r.fatalError = false)
    (hr : r.agent.Reachable) (cs : List AgentCommand) :
    (walk AgentStatus.isTerminal r.agent.state.status
        (changesOf (((session stamp).output r cs).map (·.event)))).isSome = true ↔
      ∀ st ∈ (session stamp).trace r cs,
        ¬ st.pre.agent.MisreportsStatus st.input ∧ ¬ st.pre.agent.LeavesTerminal st.input := by
  induction cs generalizing r with
  | nil => simp [Machine.output, changesOf, walk]
  | cons c cs ih =>
    have hadvances := advances hreal hrunning c
    have hnext : ((session stamp).step r c).1.agent.Reachable := by
      rw [hadvances.agent]
      exact hr.step c
    have hchanges : changesOf (((session stamp).output r (c :: cs)).map (·.event)) =
        stateChanges (r.agent.apply c).2 ++
          changesOf (((session stamp).output ((session stamp).step r c).1 cs).map (·.event)) := by
      rw [← hadvances.changes, changesOf, changesOf, changesOf, ← filterMap_append, ← map_append]
      rfl
    rw [hchanges, walk_append, Machine.trace_cons, forall_mem_cons, ← ih hadvances.running hnext]
    cases hwalk : walk AgentStatus.isTerminal r.agent.state.status (stateChanges (r.agent.apply c).2) with
    | some to_ =>
      obtain ⟨rfl, hgood⟩ := (Agent.walk_changes_iff hr c to_).mp hwalk
      rw [hadvances.agent]
      exact ⟨fun h => ⟨hgood, h⟩, fun h => h.2⟩
    | none =>
      refine ⟨fun h => (by simp at h), fun h => ?_⟩
      rw [(Agent.walk_changes_iff hr c _).mpr ⟨rfl, h.1⟩] at hwalk
      cases hwalk

end AgentRunner

end RustyCore
