import RustyCore.Theorems.Trail

/-! What a trail restores to. The events an agent appends after a checkpoint pass the validation of the order
    and the ids, and so both passes accept them exactly when their status changes can be followed from the
    status in the checkpoint without leaving a terminal one. -/

namespace RustyCore

open Path List Option

namespace Replay

variable {stamp : Nat → Stamp} {sessionId : SessionId} {agentId : AgentId} {i n i' n' : Nat}
  {events : List DurableSessionEvent}

theorem ok_bind {α β : Type} (a : α) (f : α → Except ReplayError β) : (Except.ok a >>= f) = f a := rfl

/-- The first `i` stamps have distinct ids. -/
def DistinctIds (stamp : Nat → Stamp) (i : Nat) : Prop := ∀ j < i, ∀ k < i, (stamp j).eventId = (stamp k).eventId → j = k

theorem laid_le (h : Laid stamp sessionId agentId i n events i' n') : i ≤ i' := by
  induction h with
  | nil hi _ => exact hi
  | cons hi _ _ _ ih => omega

theorem validateEvents_of_laid (h : Laid stamp sessionId agentId i n events i' n') (hids : DistinctIds stamp i')
    {seen : List String} (hseen : ∀ id ∈ seen, ∃ j < i, id = (stamp j).eventId.display) {previous : Nat}
    (hprevious : previous < n) :
    validateEvents sessionId .allowEphemeralHoles seen (some previous) events = .ok events := by
  induction h generalizing seen previous with
  | nil => rfl
  | @cons i n j k i' n' event rest hi hn hstamped hrest ih =>
    have hfresh : seen.contains event.envelope.eventId.display = false := by
      rw [Bool.eq_false_iff]
      intro hcontains
      obtain ⟨j', hj', hdisplay⟩ := hseen _ (contains_iff_mem.mp hcontains)
      rw [hstamped.eventId] at hdisplay
      have hle := laid_le hrest
      have hsame := hids j (by omega) j' (by omega) (Id.display_inj hdisplay)
      omega
    have hlater : validateEvents sessionId .allowEphemeralHoles (event.envelope.eventId.display :: seen) (some k) rest =
        .ok rest := by
      refine ih hids ?_ (Nat.lt_succ_self k)
      intro id hid
      rcases mem_cons.mp hid with rfl | hid
      · exact ⟨j, Nat.lt_succ_self j, by rw [hstamped.eventId]⟩
      · obtain ⟨j', hj', hdisplay⟩ := hseen id hid
        exact ⟨j', by omega, hdisplay⟩
    have horder : checkOrder .allowEphemeralHoles (some previous) k = .ok () := by
      simp only [checkOrder]
      rw [if_neg (by omega), if_neg (by omega), if_neg (by simp)]
    simp only [validateEvents, finalSequence, hstamped.sequence, hstamped.enveloped, hstamped.sessionId, hfresh,
      ok_bind, ne_eq, not_true_eq_false, Bool.false_eq_true, if_false, horder, hlater, validatePayload]
    rfl

theorem checkTransition_cases {statuses : Table.Map AgentId AgentStatus} {status : AgentStatus}
    (hstatus : statuses.lookup agentId = some status) (from_ to_ : AgentStatus) (sequence : Nat) :
    (status = from_ ∧ status.isTerminal = false) ∧
        checkTransition statuses agentId from_ to_ sequence = .ok () ∨
      ¬ (status = from_ ∧ status.isTerminal = false) ∧
        ∃ e, checkTransition statuses agentId from_ to_ sequence = .error e := by
  simp only [checkTransition, hstatus]
  split
  · rename_i hne
    exact .inr ⟨fun h => hne h.1, _, rfl⟩
  · rename_i heq
    split
    · rename_i hterminal
      exact .inr ⟨fun h => (by simp [hterminal] at h), _, rfl⟩
    · rename_i hlive
      exact .inl ⟨⟨not_not.mp heq, by simpa using hlive⟩, rfl⟩

theorem changesOf_cons (event : DurableSessionEvent) (rest : List DurableSessionEvent) :
    changesOf (event :: rest) = event.envelope.event.stateChange?.toList ++ changesOf rest := by
  cases h : event.envelope.event.stateChange? <;> simp [changesOf, h]

theorem checkTransitions_of_laid (h : Laid stamp sessionId agentId i n events i' n')
    {statuses : Table.Map AgentId AgentStatus} {status : AgentStatus}
    (hstatus : statuses.lookup agentId = some status) :
    (checkTransitions statuses events).isOk = (walk AgentStatus.isTerminal status (changesOf events)).isSome := by
  induction h generalizing statuses status with
  | nil => rfl
  | @cons i n j k i' n' event rest hi hn hstamped hrest ih =>
    simp only [checkTransitions, finalSequence, hstamped.sequence, ok_bind, changesOf_cons]
    split
    · rename_i from_ to_ hevent
      have hinserted : (statuses.insert event.envelope.agentId to_).lookup agentId = some to_ := by
        rw [hstamped.agentId]
        exact Table.lookup_insert_self
      simp only [hevent, AgentEvent.stateChange?, toList_some, singleton_append, walk]
      rw [hstamped.agentId] at hinserted ⊢
      rcases checkTransition_cases hstatus from_ to_ k with ⟨hfollows, hok⟩ | ⟨hstuck, e, herror⟩
      · rw [hok, if_pos hfollows]
        exact ih hinserted
      · rw [herror, if_neg hstuck]
        rfl
    · rename_i hother
      have hnone : event.envelope.event.stateChange? = none := by
        cases hevent : event.envelope.event with
        | stateChanged from_ to_ => exact absurd hevent (hother from_ to_)
        | _ => rfl
      rw [hnone]
      exact ih hstatus

theorem applyEvent_cases (agent : StoredAgentState) (envelope : AgentEventEnvelope) (sequence : Nat) :
    (∃ from_ to_, envelope.event = .stateChanged from_ to_ ∧
        applyEvent agent envelope sequence = changeState agent from_ to_ envelope.agentSequence sequence) ∨
      envelope.event.stateChange? = none ∧ ∃ agent', applyEvent agent envelope sequence = .ok agent' ∧
        agent'.agentId = agent.agentId ∧ agent'.status = agent.status := by
  unfold applyEvent
  cases envelope.event with
  | stateChanged from_ to_ => exact .inl ⟨from_, to_, rfl, rfl⟩
  | childAgentSpawned childId _ =>
    refine .inr ⟨rfl, _, rfl, ?_⟩
    split <;> exact ⟨rfl, rfl⟩
  | _ => exact .inr ⟨rfl, _, rfl, rfl, rfl⟩

variable {snapshot : DurableSessionSnapshot} {agent : StoredAgentState}

theorem replaySnapshot_of_laid (h : Laid stamp sessionId agentId i n events i' n') {to_ : AgentStatus}
    (hagents : snapshot.agents = [agent]) (hid : agent.agentId = agentId)
    (hwalk : walk AgentStatus.isTerminal agent.status (changesOf events) = some to_) :
    ∃ restored agent', replaySnapshot snapshot events = .ok restored ∧ restored.agents = [agent'] ∧
      agent'.agentId = agentId ∧ agent'.status = to_ := by
  induction h generalizing snapshot agent with
  | nil => exact ⟨snapshot, agent, rfl, hagents, hid, Option.some.inj hwalk⟩
  | @cons i n j k i' n' event rest hi hn hstamped hrest ih =>
    rw [changesOf_cons] at hwalk
    simp only [replaySnapshot, finalSequence, hstamped.sequence, ok_bind, hagents, applyTo, hid, hstamped.agentId,
      if_true]
    rcases applyEvent_cases agent event.envelope k with ⟨from_, mid, hevent, happly⟩ | ⟨hnone, agent', happly, hid', hstatus⟩
    · simp only [hevent, AgentEvent.stateChange?, toList_some, singleton_append, walk] at hwalk
      split at hwalk
      · rename_i hfollows
        rw [happly, changeState, if_neg (by simp [hfollows.1])]
        exact ih rfl hid hwalk
      · cases hwalk
    · rw [hnone, toList_none, nil_append, ← hstatus] at hwalk
      rw [happly]
      exact ih rfl (hid'.trans hid) hwalk

theorem lookup_statusesOf
    (hagents : snapshot.agents = [agent]) : (statusesOf (some snapshot)).lookup agent.agentId = some agent.status := by
  simp only [statusesOf, hagents, map_some, getD_some, foldl_cons, foldl_nil]
  exact Table.lookup_insert_self

theorem restore_iff (h : Laid stamp sessionId agentId i n events i' n') (hids : DistinctIds stamp i') (hagents : snapshot.agents = [agent])
    (hid : agent.agentId = agentId) (hsession : snapshot.sessionId = sessionId)
    (hversion : snapshot.schemaVersion = schemaVersion) (hsequence : snapshot.sessionSequence < n) :
    (restore snapshot events .allowEphemeralHoles).isOk =
      (walk AgentStatus.isTerminal agent.status (changesOf events)).isSome := by
  have hvalid : validateEvents sessionId .allowEphemeralHoles [] (some snapshot.sessionSequence) events = .ok events :=
    validateEvents_of_laid h hids (by simp) hsequence
  have hchecked : checkVersion (some snapshot) = .ok () := by
    simp [checkVersion, checkSnapshotVersion, hversion, minSupportedSnapshotVersion]
  have htransitions := checkTransitions_of_laid h (hid ▸ lookup_statusesOf hagents)
  simp only [restore, validateTrailingReplay, validateTransitionStream, hchecked, ok_bind, map_some, hsession,
    hvalid]
  cases hwalk : walk AgentStatus.isTerminal agent.status (changesOf events) with
  | none =>
    rw [hwalk] at htransitions
    cases hpass : checkTransitions (statusesOf (some snapshot)) events with
    | ok => simp [hpass, Except.isOk, Except.toBool] at htransitions
    | error e => rfl
  | some to_ =>
    rw [hwalk] at htransitions
    obtain ⟨restored, agent', hrestored, -⟩ := replaySnapshot_of_laid h hagents hid hwalk
    cases hpass : checkTransitions (statusesOf (some snapshot)) events with
    | ok =>
      simp only [ok_bind]
      exact (congrArg Except.isOk hrestored).trans rfl
    | error e => simp [hpass, Except.isOk, Except.toBool] at htransitions

end Replay

namespace AgentRunner

variable [Externals] {stamp : Nat → Stamp} {r : AgentRunner} {cs : List AgentCommand}

structure Numbered (stamp : Nat → Stamp) (r : AgentRunner) (cs : List AgentCommand) : Prop where
  real : ∀ i, (stamp i).eventId.uuid ≠ 0
  distinct : Replay.DistinctIds stamp ((session stamp).run r cs).stamped
  room : ((session stamp).run r cs).committer.next < maxU64

theorem running_run (hreal : ∀ i, (stamp i).eventId.uuid ≠ 0) (hrunning : r.fatalError = false)
    (hr : r.agent.Reachable) (cs : List AgentCommand) :
    ((session stamp).run r cs).fatalError = false ∧ ((session stamp).run r cs).agent.Reachable := by
  induction cs generalizing r with
  | nil => exact ⟨hrunning, hr⟩
  | cons c cs ih =>
    have hadvances := advances hreal hrunning c
    refine ih hadvances.running ?_
    rw [hadvances.agent]
    exact hr.step c

theorem laid_after (hreal : ∀ i, (stamp i).eventId.uuid ≠ 0) (hrunning : r.fatalError = false) {c : AgentCommand}
    (hroom : ((session stamp).run r (c :: cs)).committer.next < maxU64) {early late : List Append} {p : Append}
    (hout : ((session stamp).step r c).2 = early ++ p :: late) :
    ∃ j k, Stamped stamp r.agent.sessionId r.agent.id j k p.event ∧
      Laid stamp r.agent.sessionId r.agent.id (j + 1) (k + 1)
        ((late ++ (session stamp).output ((session stamp).step r c).1 cs).map (·.event))
        ((session stamp).run r (c :: cs)).stamped ((session stamp).run r (c :: cs)).committer.next := by
  have hadvances := advances hreal hrunning c
  have haligned := (r.agent.apply_transition c).aligned
  obtain ⟨hmiddle, hlater⟩ := laid_run hreal hadvances.running cs hroom
  obtain ⟨-, hlaid⟩ := hadvances.laid hmiddle
  rw [hadvances.agent, haligned.id, haligned.sessionId] at hlater
  rw [hout, map_append, map_cons] at hlaid
  obtain ⟨j, k, hstamped, hlate⟩ := hlaid.after
  refine ⟨j, k, hstamped, ?_⟩
  rw [map_append]
  exact hlate.append hlater

theorem restore_checkpoint (hreal : ∀ i, (stamp i).eventId.uuid ≠ 0) (hrunning : r.fatalError = false) {c : AgentCommand}
    (hids : Replay.DistinctIds stamp ((session stamp).run r (c :: cs)).stamped)
    (hroom : ((session stamp).run r (c :: cs)).committer.next < maxU64) {early late : List Append} {p : Append}
    (hout : ((session stamp).step r c).2 = early ++ p :: late) (now : Timestamp) :
    (Replay.restore (p.checkpoint now)
        ((late ++ (session stamp).output ((session stamp).step r c).1 cs).map (·.event)) .allowEphemeralHoles).isOk =
      (walk AgentStatus.isTerminal ((session stamp).step r c).1.agent.state.status
        (changesOf (late.map (·.event)) ++
          changesOf (((session stamp).output ((session stamp).step r c).1 cs).map (·.event)))).isSome := by
  have hadvances := advances hreal hrunning c
  have haligned := (r.agent.apply_transition c).aligned
  obtain ⟨j, k, hstamped, hlaid⟩ := laid_after hreal hrunning hroom hout
  have hprojection : p.projection = storedAgentState ((session stamp).step r c).1.agent :=
    hadvances.projection p (by simp [hout])
  have hid : p.projection.agentId = r.agent.id := by
    rw [hprojection, hadvances.agent]
    exact haligned.id
  have hsequence : (p.checkpoint now).sessionSequence < k + 1 := by
    simp [Append.checkpoint, buildSnapshot, hstamped.sequence]
  rw [Replay.restore_iff hlaid hids rfl hid hstamped.sessionId rfl hsequence, hprojection, map_append, changesOf,
    filterMap_append]
  rfl

/-- A checkpoint taken at an append of a command is brought up to date by the events appended after it
    exactly when the command announces no change after it, other than from the status the agent has by then
    to itself, and no later command misreports the status or leaves a terminal one. -/
theorem trail_restores_iff (hr : r.agent.Reachable) (hrunning : r.fatalError = false) (hnumbered : Numbered stamp r cs)
    {before after : List (Machine.Step AgentRunner AgentCommand Append)}
    {st : Machine.Step AgentRunner AgentCommand Append}
    (htrace : (session stamp).trace r cs = before ++ st :: after) {early late : List Append} {p : Append}
    (hout : st.out = early ++ p :: late) (now : Timestamp) :
    (Replay.restore (p.checkpoint now) ((late ++ after.flatMap (·.out)).map (·.event)) .allowEphemeralHoles).isOk = true ↔
      (∀ change ∈ changesOf (late.map (·.event)), change = (st.post.agent.state.status, st.post.agent.state.status) ∧
          st.post.agent.state.status.isTerminal = false) ∧
        ∀ later ∈ after, ¬ later.pre.agent.MisreportsStatus later.input ∧ ¬ later.pre.agent.LeavesTerminal later.input := by
  obtain ⟨cs₁, c, cs₂, rfl, rfl, rfl, rfl⟩ := Machine.trace_split htrace
  obtain ⟨hrunning', hr'⟩ := running_run hnumbered.real hrunning hr cs₁
  obtain ⟨hreal, hids, hroom⟩ := hnumbered
  rw [Machine.run_append] at hids hroom
  generalize (session stamp).run r cs₁ = m at *
  have hadvances := advances hreal hrunning' c
  have hnext : ((session stamp).step m c).1.agent.Reachable := by
    rw [hadvances.agent]
    exact hr'.step c
  have hshape : Announced ((session stamp).step m c).1.agent.state.status
      (changesOf ((early ++ [p]).map (·.event)) ++ changesOf (late.map (·.event))) := by
    have hchanges := hadvances.changes
    rw [show ((session stamp).step m c).2 = early ++ p :: late from hout, append_cons, map_append, changesOf,
      filterMap_append] at hchanges
    rw [hadvances.agent]
    exact hchanges ▸ (m.agent.apply_transition c).announced
  rw [show (Machine.trace _ _ cs₂).flatMap (·.out) = (session stamp).output ((session stamp).step m c).1 cs₂ from rfl,
    restore_checkpoint hreal hrunning' hids hroom hout now, walk_append, ← walk_run_iff hreal hadvances.running hnext cs₂]
  have hlate := hshape.walk_late_iff
  cases hwalk : walk AgentStatus.isTerminal ((session stamp).step m c).1.agent.state.status
      (changesOf (late.map (·.event))) with
  | some to_ =>
    obtain ⟨rfl, hsame⟩ := (hlate to_).mp hwalk
    exact ⟨fun h => ⟨hsame, h⟩, fun h => h.2⟩
  | none =>
    refine ⟨fun h => (by simp at h), fun h => ?_⟩
    rw [(hlate _).mpr ⟨rfl, h.1⟩] at hwalk
    cases hwalk

end AgentRunner

namespace Sample

def stamps (i : Nat) : Stamp := ⟨⟨BitVec.ofNat 128 (2 * i + 1)⟩, .fromSequence i, 0⟩

def runner : AgentRunner where
  agent := agent .allow defaultProfile
  committer := ⟨0, defaultSnapshotEvery, 0⟩

theorem stamps_inj {i j : Nat} (hi : i < 1000) (hj : j < 1000) (h : (stamps i).eventId = (stamps j).eventId) : i = j := by
  have hvalue := congrArg (fun id : EventId => id.uuid.toNat) h
  simp only [stamps, BitVec.toNat_ofNat] at hvalue
  omega

theorem stamps_real (i : Nat) : (stamps i).eventId.uuid ≠ 0 := by
  intro hnil
  have hvalue := congrArg BitVec.toNat hnil
  simp only [stamps, BitVec.toNat_ofNat] at hvalue
  simp at hvalue
  omega

theorem numbered_stamps {cs : List AgentCommand} (hstamped : ((AgentRunner.session stamps).run runner cs).stamped ≤ 1000)
    (hroom : ((AgentRunner.session stamps).run runner cs).committer.next < maxU64) :
    AgentRunner.Numbered stamps runner cs := by
  refine ⟨stamps_real, ?_, hroom⟩
  intro j hj k hk hsame
  exact stamps_inj (by omega) (by omega) hsame

end Sample

section

open Sample Agent AgentRunner

/-- The checkpoint is taken at the first append of the first prompt; then the backend sends text. -/
theorem trail_restores_iff_prompt : runner.agent.Reachable ∧
    ∃ st after p late, (session stamps).trace runner [prompt, fromBackend (.textDelta ⟨0⟩ "hi")] = [] ++ st :: after ∧
      st.out = [] ++ p :: late ∧
      ((Replay.restore (p.checkpoint (.fromSequence 9)) ((late ++ after.flatMap (·.out)).map (·.event))
          .allowEphemeralHoles).isOk = true ↔
        (∀ change ∈ changesOf (late.map (·.event)), change = (st.post.agent.state.status, st.post.agent.state.status) ∧
            st.post.agent.state.status.isTerminal = false) ∧
          ∀ later ∈ after, ¬ later.pre.agent.MisreportsStatus later.input ∧
            ¬ later.pre.agent.LeavesTerminal later.input) := by
  have hnumbered : Numbered stamps runner [prompt, fromBackend (.textDelta ⟨0⟩ "hi")] :=
    numbered_stamps (by decide) (by decide)
  have hreachable : runner.agent.Reachable := .start (fresh_agent .allow defaultProfile)
  have htrace : (session stamps).trace runner [prompt, fromBackend (.textDelta ⟨0⟩ "hi")] =
      [] ++ (session stamps).stepAt runner prompt ::
        (session stamps).trace ((session stamps).step runner prompt).1 [fromBackend (.textDelta ⟨0⟩ "hi")] := rfl
  obtain ⟨p, late, hout⟩ : ∃ p late, ((session stamps).stepAt runner prompt).out = [] ++ p :: late := ⟨_, _, rfl⟩
  exact ⟨hreachable, _, _, p, late, htrace, hout, trail_restores_iff hreachable rfl hnumbered htrace hout _⟩

set_option maxRecDepth 4096 in
/-- A run fails, and a checkpoint is taken when its failure is appended. The next prompt leaves `failed`, which
    the validation takes for absorbing. -/
theorem failed_run_is_not_restored : runner.agent.Reachable ∧ runner.fatalError = false ∧
    Numbered stamps runner [prompt, fromBackend (.error ⟨0⟩ .timeout), prompt] ∧
    ∃ before st after early p late,
      (session stamps).trace runner [prompt, fromBackend (.error ⟨0⟩ .timeout), prompt] = before ++ st :: after ∧
      st.out = early ++ p :: late ∧
      (Replay.restore (p.checkpoint (.fromSequence 9)) ((late ++ after.flatMap (·.out)).map (·.event))
        .allowEphemeralHoles).isOk = false := by
  refine ⟨.start (fresh_agent .allow defaultProfile), rfl, numbered_stamps (by decide) (by decide),
    [(session stamps).stepAt runner prompt], _, _, [_], _, _, rfl, rfl, ?_⟩
  decide

end

end RustyCore
