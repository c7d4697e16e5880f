import RustyCore.Store.Committer

/-! The numbers that the commit boundary hands out, over any interleaving of its callers: how they grow, in what
    order the events reach the store, which events are published, and what a restart does to them. -/

namespace RustyCore

open List Option

namespace CommitBoundary

section

variable {b : CommitBoundary} {i : Input}

@[simp] theorem numbers_nil : numbers [] = [] := rfl

theorem numbers_append (es fs : List Effect) : numbers (es ++ fs) = numbers es ++ numbers fs := filterMap_append

@[simp] theorem setPhase_tasks (b : CommitBoundary) (t : Nat) (p : Phase) : (b.setPhase t p).tasks = b.tasks.set t p := rfl

@[simp] theorem setPhase_lock (b : CommitBoundary) (t : Nat) (p : Phase) : (b.setPhase t p).lock = b.lock := rfl

@[simp] theorem setPhase_store (b : CommitBoundary) (t : Nat) (p : Phase) : (b.setPhase t p).store = b.store := rfl

@[simp] theorem setPhase_sequencer (b : CommitBoundary) (t : Nat) (p : Phase) :
    (b.setPhase t p).sequencer = b.sequencer := rfl

@[simp] theorem setPhase_policy (b : CommitBoundary) (t : Nat) (p : Phase) : (b.setPhase t p).policy = b.policy := rfl

theorem noteDurableAppend_eq (b : CommitBoundary) : ∃ count due,
    b.noteDurableAppend = ({ b with appendsSinceCheckpoint := count }, due) := by
  unfold noteDurableAppend
  dsimp only
  split
  · exact ⟨0, true, rfl⟩
  · exact ⟨_, false, rfl⟩

/-- The step gives out the number `n`. -/
def Hands (b : CommitBoundary) (i : Input) (n : Nat) : Prop :=
  ∃ task fault envelope, i = .assign task fault ∧ b.tasks[task]? = some (.locked envelope) ∧
    (b.sequencer = .ready n ∨
      b.sequencer = .uninitialized ∧ fault = none ∧ n = saturatingAdd b.store.currentSequence 1)

theorem nextSequence_ok {s s' : SequencerState} {committed : Except StoreError Nat} {n : Nat}
    (h : s.nextSequence committed = .ok (s', n)) : s' = .ready (saturatingAdd n 1) ∧
      (s = .ready n ∨ s = .uninitialized ∧ ∃ c, committed = .ok c ∧ n = saturatingAdd c 1) := by
  unfold SequencerState.nextSequence at h
  split at h
  · cases h
    exact ⟨rfl, .inl rfl⟩
  · cases h
  · rename_i c
    cases h
    exact ⟨rfl, .inr ⟨rfl, c, rfl, rfl⟩⟩

theorem assign_cases (b : CommitBoundary) (task : Nat) (fault : Option StoreError) :
    b.assign task fault = (b, []) ∨
    (∃ envelope error, b.tasks[task]? = some (.locked envelope) ∧
      b.assign task fault = (b.finish task (.error (.store error)), [])) ∨
    ∃ envelope n, b.tasks[task]? = some (.locked envelope) ∧ b.Hands (.assign task fault) n ∧
      (b.assign task fault = (({ b with sequencer := .ready (saturatingAdd n 1) }).setPhase task
          (.sequenced { envelope with sessionSequence := some n } n), [.assigned task n]) ∨
        b.assign task fault = (({ b with sequencer := .ready (saturatingAdd n 1) }).finish task
          (.ok ⟨{ envelope with sessionSequence := some n }, false⟩), [.assigned task n])) := by
  unfold assign
  split
  · rename_i envelope hlocked
    dsimp only
    split
    · rename_i error heq
      exact .inr (.inl ⟨envelope, error, hlocked, rfl⟩)
    · rename_i sequencer n heq
      obtain ⟨rfl, hfrom⟩ := nextSequence_ok heq
      refine .inr (.inr ⟨envelope, n, hlocked, ⟨task, fault, envelope, rfl, hlocked, ?_⟩, ?_⟩)
      · rcases hfrom with hready | ⟨huninit, c, hc, rfl⟩
        · exact .inl hready
        · cases fault with
          | some e => cases hc
          | none =>
            cases hc
            exact .inr ⟨huninit, rfl, rfl⟩
      · split
        · exact .inl rfl
        · exact .inr rfl
  · exact .inl rfl

theorem append_cases (b : CommitBoundary) (task : Nat) (outcome : AppendOutcome) :
    b.append task outcome = (b, []) ∨
    ∃ envelope n kept count result es, b.tasks[task]? = some (.sequenced envelope n) ∧
      b.append task outcome = ({ b with
        store.events := b.store.events ++ kept
        appendsSinceCheckpoint := count }.finish task result, es) ∧
      (kept = [] ∨ kept = [⟨envelope, some n⟩]) ∧
      ((∃ error, outcome = .failed error outcome.keeps ∧ result = appendError b.policy envelope n error ∧
          es = [.appendFailed task]) ∨
        ∀ e ∈ es, e = .checkpointRequested n) := by
  unfold append
  split
  · rename_i envelope n hphase
    right
    have hstored : ∃ kept, (kept = [] ∨ kept = [⟨envelope, some n⟩]) ∧
        (if outcome.keeps then { b with store.events := b.store.events ++ [⟨envelope, some n⟩] } else b) =
          { b with store.events := b.store.events ++ kept } := by
      cases outcome.keeps
      · exact ⟨[], .inl rfl, by simp⟩
      · exact ⟨_, .inr rfl, rfl⟩
    obtain ⟨kept, hkept, heq⟩ := hstored
    dsimp only
    rw [heq]
    cases outcome with
    | appended =>
      obtain ⟨count, due, hnote⟩ := noteDurableAppend_eq { b with store.events := b.store.events ++ kept }
      dsimp only
      rw [hnote]
      refine ⟨envelope, n, kept, count, _, _, hphase, rfl, hkept, .inr fun e he => ?_⟩
      cases due
      · cases he
      · exact mem_singleton.mp he
    | failed error keeps =>
      exact ⟨envelope, n, kept, b.appendsSinceCheckpoint, _, _, hphase, rfl, hkept, .inl ⟨error, rfl, rfl, rfl⟩⟩
  · exact .inl rfl

theorem publish_cases (b : CommitBoundary) (task : Nat) :
    b.publish task = (b, []) ∨
    ∃ committed, b.tasks[task]? = some (.returned (.ok committed)) ∧ ∃ es, (∀ e ∈ es, ∃ n, e = .checkpointRequested n) ∧
      b.publish task = (b.setPhase task .done, es ++ [.published task committed.envelope]) := by
  unfold publish
  split
  · rename_i committed hphase
    refine .inr ⟨committed, hphase, _, ?_, rfl⟩
    intro e he
    split at he
    · exact ⟨_, mem_singleton.mp he⟩
    · exact ⟨_, mem_singleton.mp he⟩
    · cases he
  · exact .inl rfl

theorem acquire_cases (b : CommitBoundary) (task : Nat) :
    b.acquire task = b ∨
    ∃ envelope, b.lock = none ∧ b.tasks[task]? = some (.waiting envelope) ∧
      b.acquire task = { b with lock := some task }.setPhase task (.locked envelope) := by
  unfold acquire
  split
  · rename_i envelope hlock hphase
    exact .inr ⟨envelope, hlock, hphase, rfl⟩
  · exact .inl rfl

theorem step_hands {n : Nat} (h : b.Hands i n) :
    numbers (b.step i).2 = [n] ∧ (b.step i).1.sequencer = .ready (saturatingAdd n 1) := by
  obtain ⟨task, fault, envelope, rfl, hlocked, hnext⟩ := h
  have hseq : b.sequencer.nextSequence (fault.elim (.ok b.store.currentSequence) .error) =
      .ok (.ready (saturatingAdd n 1), n) := by
    rcases hnext with hready | ⟨huninit, rfl, rfl⟩
    · rw [hready]
      rfl
    · rw [huninit]
      rfl
  simp only [step, assign, hlocked, hseq]
  split
  · exact ⟨rfl, rfl⟩
  · exact ⟨rfl, rfl⟩

theorem step_numbers (b : CommitBoundary) (hi : i ≠ .restart) :
    (numbers (b.step i).2 = [] ∧ (b.step i).1.sequencer = b.sequencer) ∨ ∃ n, b.Hands i n := by
  cases i with
  | call | saveSnapshot | drop => exact .inl ⟨rfl, rfl⟩
  | restart => exact absurd rfl hi
  | acquire task =>
    left
    rcases acquire_cases b task with h | ⟨envelope, -, -, h⟩
    · rw [step, h]
      exact ⟨rfl, rfl⟩
    · rw [step, h]
      exact ⟨rfl, rfl⟩
  | assign task fault =>
    rcases assign_cases b task fault with h | ⟨envelope, error, -, h⟩ | ⟨envelope, n, -, hhands, -⟩
    · left
      rw [step, h]
      exact ⟨rfl, rfl⟩
    · left
      rw [step, h]
      exact ⟨rfl, rfl⟩
    · exact .inr ⟨n, hhands⟩
  | append task outcome =>
    left
    rcases append_cases b task outcome with h | ⟨envelope, n, kept, count, result, es, -, h, -, hes⟩
    · rw [step, h]
      exact ⟨rfl, rfl⟩
    · rw [step, h]
      refine ⟨filterMap_eq_nil_iff.mpr fun e he => ?_, rfl⟩
      rcases hes with ⟨error, -, -, rfl⟩ | hes
      · rw [mem_singleton.mp he]
        rfl
      · rw [hes e he]
        rfl
  | publish task =>
    left
    rcases publish_cases b task with h | ⟨committed, -, es, hes, h⟩
    · rw [step, h]
      exact ⟨rfl, rfl⟩
    · rw [step, h]
      refine ⟨filterMap_eq_nil_iff.mpr fun e he => ?_, rfl⟩
      rcases mem_append.mp he with he | he
      · obtain ⟨n, rfl⟩ := hes e he
        rfl
      · rw [mem_singleton.mp he]
        rfl

def Rises (a n : Nat) : Prop := a < n ∨ a = maxU64 ∧ n = maxU64

def floor : SequencerState → Nat
  | .uninitialized => 0
  | .ready next => next

/-- A sequencer's next number is a `u64`. -/
def Counts : SequencerState → Prop
  | .uninitialized => True
  | .ready next => next ≤ maxU64

theorem hands_bounds {n : Nat} (hc : Counts b.sequencer) (h : b.Hands i n) : floor b.sequencer ≤ n ∧ n ≤ maxU64 := by
  obtain ⟨task, fault, envelope, -, -, hready | ⟨huninit, -, rfl⟩⟩ := h
  · rw [hready] at hc ⊢
    exact ⟨Nat.le_refl n, hc⟩
  · rw [huninit]
    exact ⟨Nat.zero_le _, Nat.min_le_right _ _⟩

theorem rises_next {n k : Nat} (hn : n ≤ maxU64) (hk : saturatingAdd n 1 ≤ k) (hmax : k ≤ maxU64) : Rises n k := by
  unfold Rises
  unfold saturatingAdd at hk
  omega

theorem run_numbers {is : List Input} (hc : Counts b.sequencer) (his : ∀ i ∈ is, i ≠ .restart) :
    (∀ n ∈ numbers (machine.output b is), floor b.sequencer ≤ n ∧ n ≤ maxU64) ∧
      (numbers (machine.output b is)).Pairwise Rises := by
  induction is generalizing b with
  | nil => exact ⟨nofun, .nil⟩
  | cons i is ih =>
    obtain ⟨hi, his⟩ := forall_mem_cons.mp his
    have hout : machine.output b (i :: is) = (b.step i).2 ++ machine.output (b.step i).1 is := rfl
    rw [hout, numbers_append]
    rcases step_numbers b hi with ⟨hnone, hsame⟩ | ⟨n, hhands⟩
    · rw [hnone, nil_append, ← hsame]
      rw [← hsame] at hc
      exact ih hc his
    · obtain ⟨hone, hnext⟩ := step_hands hhands
      obtain ⟨hfloor, hmax⟩ := hands_bounds hc hhands
      have hc' : Counts (b.step i).1.sequencer := by
        rw [hnext]
        exact Nat.min_le_right _ _
      obtain ⟨hbounds, hrises⟩ := ih hc' his
      rw [hnext] at hbounds
      have hlater : ∀ k ∈ numbers (machine.output (b.step i).1 is), Rises n k :=
        fun k hk => rises_next hmax (hbounds k hk).1 (hbounds k hk).2
      rw [hone]
      refine ⟨fun k hk => ?_, pairwise_cons.mpr ⟨hlater, hrises⟩⟩
      rcases mem_cons.mp hk with rfl | hk
      · exact ⟨hfloor, hmax⟩
      · have hrise := hlater k hk
        unfold Rises at hrise
        exact ⟨by omega, (hbounds k hk).2⟩

end

section

variable {lock : Option Nat} {tasks : List Phase} {t : Nat} {p q : Phase}

def Holding (lock : Option Nat) (tasks : List Phase) : Prop :=
  ∀ (task : Nat) (phase : Phase), tasks[task]? = some phase → phase.holdsLock = true → lock = some task

def pending (lock : Option Nat) (tasks : List Phase) : List Nat :=
  match lock.bind (tasks[·]?) with
  | some (.sequenced _ n) => [n]
  | _ => []

theorem getElem?_set_cases {task : Nat} {phase : Phase} (h : (tasks.set t p)[task]? = some phase) :
    (task = t ∧ phase = p) ∨ (task ≠ t ∧ tasks[task]? = some phase) := by
  by_cases heq : task = t
  · subst heq
    obtain ⟨hlt, rfl⟩ := List.getElem?_eq_some_iff.mp h
    exact .inl ⟨rfl, by simp⟩
  · rw [List.getElem?_set_ne (Ne.symm heq)] at h
    exact .inr ⟨heq, h⟩

theorem Holding.idle (h : Holding lock tasks) (hp : p.holdsLock = false) : Holding lock (tasks.set t p) := by
  intro task phase hget hholds
  rcases getElem?_set_cases hget with ⟨-, rfl⟩ | ⟨-, hget⟩
  · rw [hp] at hholds
    cases hholds
  · exact h task phase hget hholds

theorem Holding.move (h : Holding lock tasks) (hq : tasks[t]? = some q) (hholds : q.holdsLock = true) :
    Holding lock (tasks.set t p) := by
  intro task phase hget hphase
  rcases getElem?_set_cases hget with ⟨rfl, -⟩ | ⟨-, hget⟩
  · exact h _ _ hq hholds
  · exact h task phase hget hphase

theorem Holding.take (h : Holding none tasks) : Holding (some t) (tasks.set t p) := by
  intro task phase hget hphase
  rcases getElem?_set_cases hget with ⟨rfl, -⟩ | ⟨-, hget⟩
  · rfl
  · cases h task phase hget hphase

theorem Holding.release (h : Holding lock tasks) (hq : tasks[t]? = some q) (hholds : q.holdsLock = true)
    (hp : p.holdsLock = false) : Holding none (tasks.set t p) := by
  intro task phase hget hphase
  rcases getElem?_set_cases hget with ⟨-, rfl⟩ | ⟨hne, hget⟩
  · rw [hp] at hphase
    cases hphase
  · have hboth := (h task phase hget hphase).symm.trans (h t q hq hholds)
    exact absurd (Option.some.inj hboth) hne

theorem Holding.call (h : Holding lock tasks) (hp : p.holdsLock = false) : Holding lock (tasks ++ [p]) := by
  intro task phase hget hphase
  by_cases hlt : task < tasks.length
  · rw [List.getElem?_append_left hlt] at hget
    exact h task phase hget hphase
  · rw [List.getElem?_append_right (by omega)] at hget
    obtain ⟨hlast, heq⟩ := List.getElem?_eq_some_iff.mp hget
    have hidle : phase = p := by simpa using heq.symm
    rw [hidle, hp] at hphase
    cases hphase

@[simp] theorem pending_unlocked : pending none tasks = [] := rfl

theorem pending_locked {envelope : AgentEventEnvelope} {n : Nat} (h : tasks[t]? = some (.sequenced envelope n)) :
    pending (some t) tasks = [n] := by
  unfold pending
  rw [bind_some, h]

theorem pending_set (hq : ∀ envelope n, tasks[t]? ≠ some (.sequenced envelope n)) (hp : p.holdsLock = false) :
    pending lock (tasks.set t p) = pending lock tasks := by
  cases lock with
  | none => rfl
  | some holder =>
    unfold pending
    rw [bind_some, bind_some]
    by_cases heq : holder = t
    · subst heq
      have hnone : ∀ found : Option Phase, (∀ envelope n, found ≠ some (.sequenced envelope n)) →
          (match found with | some (.sequenced _ n) => [n] | _ => []) = [] := by
        intro found hfound
        split
        · rename_i envelope n
          exact absurd rfl (hfound envelope n)
        · rfl
      rw [hnone _ hq, hnone]
      intro envelope n hget
      rcases getElem?_set_cases hget with ⟨-, rfl⟩ | ⟨hne, -⟩
      · cases hp
      · exact hne rfl
    · rw [List.getElem?_set_ne (Ne.symm heq)]

theorem pending_call (hp : p.holdsLock = false) : pending lock (tasks ++ [p]) = pending lock tasks := by
  cases lock with
  | none => rfl
  | some holder =>
    unfold pending
    rw [bind_some, bind_some]
    by_cases hlt : holder < tasks.length
    · rw [List.getElem?_append_left hlt]
    · rw [List.getElem?_eq_none (Nat.le_of_not_lt hlt), List.getElem?_append_right (Nat.le_of_not_lt hlt)]
      split
      · rename_i envelope n heq
        obtain ⟨hlast, heq⟩ := List.getElem?_eq_some_iff.mp heq
        have hidle : p = .sequenced envelope n := by simpa using heq
        rw [hidle] at hp
        cases hp
      · rfl

end

section

variable {b : CommitBoundary} {i : Input}

/-- What a step does to the lock, the calls and the store's events: events move from the pending number to the
    store, in order. -/
structure Ordered (b b' : CommitBoundary) (es : List Effect) : Prop where
  holding : Holding b'.lock b'.tasks
  stored : ∃ stored, b'.store.events = b.store.events ++ stored ∧
    (stored.map (·.sessionSequence) ++ (pending b'.lock b'.tasks).map some).Sublist
      ((pending b.lock b.tasks ++ numbers es).map some)

theorem Ordered.quiet {b' : CommitBoundary} {es : List Effect} (h : Holding b'.lock b'.tasks)
    (hevents : b'.store.events = b.store.events)
    (hpending : pending b'.lock b'.tasks = pending b.lock b.tasks ∨ pending b'.lock b'.tasks = [] ∨
      pending b'.lock b'.tasks = numbers es) : Ordered b b' es := by
  refine ⟨h, [], by rw [hevents, append_nil], ?_⟩
  rw [map_nil, nil_append]
  refine List.Sublist.map some ?_
  rcases hpending with heq | heq | heq
  · rw [heq]
    exact sublist_append_left _ _
  · rw [heq]
    exact nil_sublist _
  · rw [heq]
    exact sublist_append_right _ _

theorem not_sequenced {q : Phase} {t : Nat} (h : b.tasks[t]? = some q) (hq : ∀ envelope n, q ≠ .sequenced envelope n) :
    ∀ envelope n, b.tasks[t]? ≠ some (.sequenced envelope n) := by
  intro envelope n heq
  rw [h] at heq
  exact hq envelope n (Option.some.inj heq)

theorem drop_ordered (h : Holding b.lock b.tasks) (t : Nat) : Ordered b (b.drop t) [] := by
  by_cases hheld : (b.tasks[t]?).any (·.holdsLock) = true
  · obtain ⟨q, hq, hholds⟩ := (any_eq_true _ _).mp hheld
    have hlock : (b.drop t).lock = none := if_pos hheld
    refine .quiet ?_ rfl (.inr (.inl ?_))
    · rw [hlock]
      exact h.release hq hholds rfl
    · rw [hlock]
      rfl
  · have hlock : (b.drop t).lock = b.lock := if_neg hheld
    refine .quiet ?_ rfl (.inl ?_)
    · rw [hlock]
      exact h.idle rfl
    · rw [hlock]
      refine pending_set (fun envelope n hget => hheld ?_) rfl
      rw [hget]
      rfl

theorem assign_ordered (h : Holding b.lock b.tasks) (t : Nat) (fault : Option StoreError) :
    Ordered b (b.assign t fault).1 (b.assign t fault).2 := by
  rcases assign_cases b t fault with heq | ⟨envelope, error, hlocked, heq⟩ | ⟨envelope, n, hlocked, -, heq | heq⟩ <;>
    rw [heq]
  · exact .quiet h rfl (.inl rfl)
  · exact .quiet (h.release hlocked rfl rfl) rfl (.inr (.inl rfl))
  · refine .quiet (h.move hlocked rfl) rfl (.inr (.inr ?_))
    have hlt : t < b.tasks.length := (List.getElem?_eq_some_iff.mp hlocked).1
    rw [setPhase_lock, setPhase_tasks, h t _ hlocked rfl]
    exact pending_locked (List.getElem?_set_self hlt)
  · exact .quiet (h.release hlocked rfl rfl) rfl (.inr (.inl rfl))

theorem append_ordered (h : Holding b.lock b.tasks) (t : Nat) (outcome : AppendOutcome) :
    Ordered b (b.append t outcome).1 (b.append t outcome).2 := by
  rcases append_cases b t outcome with heq | ⟨envelope, n, kept, count, result, es, hphase, heq, hkept, -⟩ <;> rw [heq]
  · exact .quiet h rfl (.inl rfl)
  · refine ⟨h.release hphase rfl rfl, kept, rfl, ?_⟩
    have hpending : pending b.lock b.tasks = [n] := by
      rw [h t _ hphase rfl]
      exact pending_locked hphase
    rw [hpending]
    rcases hkept with rfl | rfl
    · exact nil_sublist _
    · exact (sublist_append_left [n] (numbers es)).map some

theorem step_ordered (h : Holding b.lock b.tasks) (hi : i ≠ .restart) : Ordered b (b.step i).1 (b.step i).2 := by
  cases i with
  | restart => exact absurd rfl hi
  | call envelope =>
    have hidle : (if envelope.eventId.uuid = 0 then Phase.returned (.error nilEventId)
        else .waiting envelope).holdsLock = false := by split <;> rfl
    exact .quiet (h.call hidle) rfl (.inl (pending_call hidle))
  | saveSnapshot snapshot => exact .quiet h rfl (.inl rfl)
  | drop task => exact drop_ordered h task
  | assign task fault => exact assign_ordered h task fault
  | append task outcome => exact append_ordered h task outcome
  | acquire task =>
    rcases acquire_cases b task with heq | ⟨envelope, hlock, hphase, heq⟩ <;> rw [step, heq]
    · exact .quiet h rfl (.inl rfl)
    · rw [hlock] at h
      have hlt : task < b.tasks.length := (List.getElem?_eq_some_iff.mp hphase).1
      refine .quiet h.take rfl (.inr (.inl ?_))
      unfold pending
      rw [setPhase_lock, setPhase_tasks, bind_some, List.getElem?_set_self hlt]
  | publish task =>
    rcases publish_cases b task with heq | ⟨committed, hphase, es, -, heq⟩ <;> rw [step, heq]
    · exact .quiet h rfl (.inl rfl)
    · exact .quiet (h.idle rfl) rfl (.inl (pending_set (not_sequenced hphase fun _ _ => nofun) rfl))

theorem run_stored {is : List Input} (h : Holding b.lock b.tasks) (his : ∀ i ∈ is, i ≠ .restart) :
    ∃ stored, (machine.run b is).store.events = b.store.events ++ stored ∧
      (stored.map (·.sessionSequence)).Sublist
        ((pending b.lock b.tasks ++ numbers (machine.output b is)).map some) := by
  induction is generalizing b with
  | nil => exact ⟨[], (append_nil _).symm, nil_sublist _⟩
  | cons i is ih =>
    obtain ⟨hi, his⟩ := forall_mem_cons.mp his
    obtain ⟨hholding, first, hfirst, hmoved⟩ := step_ordered h hi
    obtain ⟨rest, hrest, hlater⟩ := ih hholding his
    have hout : machine.output b (i :: is) = (b.step i).2 ++ machine.output (b.step i).1 is := rfl
    refine ⟨first ++ rest, ?_, ?_⟩
    · rw [Machine.run_cons]
      exact hrest.trans (by rw [hfirst, append_assoc])
    · rw [hout, numbers_append, ← append_assoc, map_append, map_append]
      rw [map_append] at hlater
      have hboth := hmoved.append (.refl ((numbers (machine.output (b.step i).1 is)).map some))
      rw [append_assoc] at hboth
      exact (hlater.append_left _).trans hboth

end

section

variable {b : CommitBoundary} {i : Input} {R : Except CommitError CommittedEvent → Prop} {t : Nat}

def Ended (R : Except CommitError CommittedEvent → Prop) (b : CommitBoundary) (t : Nat) : Prop :=
  b.tasks[t]? = some .done ∨ ∃ result, b.tasks[t]? = some (.returned result) ∧ R result

def Phase.underWay : Phase → Bool
  | .waiting _ | .locked _ | .sequenced .. => true
  | _ => false

theorem Ended.phase (h : Ended R b t) :
    ∃ phase, b.tasks[t]? = some phase ∧ (phase = .done ∨ ∃ result, phase = .returned result ∧ R result) := by
  rcases h with h | ⟨result, h, hR⟩
  · exact ⟨_, h, .inl rfl⟩
  · exact ⟨_, h, .inr ⟨result, rfl, hR⟩⟩

theorem Ended.move {b' : CommitBoundary} {task : Nat} {q p : Phase} (h : Ended R b t) (hq : b.tasks[task]? = some q)
    (hlive : q.underWay = true) (htasks : b'.tasks = b.tasks.set task p) : Ended R b' t := by
  have hne : task ≠ t := by
    rintro rfl
    rcases h with h | ⟨result, h, -⟩ <;>
      · rw [hq] at h
        rw [Option.some.inj h] at hlive
        cases hlive
  unfold Ended
  rw [htasks, List.getElem?_set_ne hne]
  exact h

theorem Ended.done {b' : CommitBoundary} {task : Nat} (h : Ended R b t)
    (htasks : b'.tasks = b.tasks.set task .done) : Ended R b' t := by
  obtain ⟨phase, hphase, -⟩ := h.phase
  by_cases heq : task = t
  · subst heq
    refine .inl ?_
    rw [htasks]
    exact List.getElem?_set_self (List.getElem?_eq_some_iff.mp hphase).1
  · unfold Ended
    rw [htasks, List.getElem?_set_ne heq]
    exact h

theorem Ended.step (h : Ended R b t) (hi : i ≠ .restart) : Ended R (b.step i).1 t := by
  cases i with
  | restart => exact absurd rfl hi
  | saveSnapshot snapshot => exact h
  | call envelope =>
    obtain ⟨phase, hphase, -⟩ := h.phase
    have hlt : t < b.tasks.length := (List.getElem?_eq_some_iff.mp hphase).1
    have hkeep : (b.call envelope).tasks[t]? = b.tasks[t]? := List.getElem?_append_left hlt
    unfold Ended
    rw [CommitBoundary.step, hkeep]
    exact h
  | drop task =>
    have htasks : (b.drop task).tasks = b.tasks.set task .done := rfl
    exact h.done htasks
  | acquire task =>
    rcases acquire_cases b task with heq | ⟨envelope, -, hphase, heq⟩ <;> rw [CommitBoundary.step, heq]
    · exact h
    · exact h.move hphase rfl rfl
  | assign task fault =>
    rcases assign_cases b task fault with heq | ⟨envelope, error, hphase, heq⟩ | ⟨envelope, n, hphase, -, heq | heq⟩ <;>
      rw [CommitBoundary.step, heq]
    · exact h
    · exact h.move hphase rfl rfl
    · exact h.move hphase rfl rfl
    · exact h.move hphase rfl rfl
  | append task outcome =>
    rcases append_cases b task outcome with heq | ⟨envelope, n, kept, count, result, es, hphase, heq, -, -⟩ <;>
      rw [CommitBoundary.step, heq]
    · exact h
    · exact h.move hphase rfl rfl
  | publish task =>
    rcases publish_cases b task with heq | ⟨committed, -, es, -, heq⟩ <;> rw [CommitBoundary.step, heq]
    · exact h
    · exact h.done rfl

theorem published_step {envelope : AgentEventEnvelope} (h : .published t envelope ∈ (b.step i).2) :
    (∃ committed, b.tasks[t]? = some (.returned (.ok committed))) ∧ (b.step i).1.tasks[t]? = some .done := by
  cases i with
  | call envelope | saveSnapshot snapshot | drop task | acquire task | restart => cases h
  | assign task fault =>
    rcases assign_cases b task fault with heq | ⟨envelope, error, -, heq⟩ | ⟨envelope, n, -, -, heq | heq⟩ <;>
      rw [CommitBoundary.step, heq] at h <;> simp at h
  | append task outcome =>
    rcases append_cases b task outcome with heq | ⟨envelope, n, kept, count, result, es, -, heq, -, hes⟩ <;>
      rw [CommitBoundary.step, heq] at h
    · cases h
    · rcases hes with ⟨error, -, -, rfl⟩ | hes
      · cases mem_singleton.mp h
      · cases hes _ h
  | publish task =>
    rcases publish_cases b task with heq | ⟨committed, hphase, es, hes, heq⟩ <;> rw [CommitBoundary.step, heq] at h ⊢
    · cases h
    · rcases mem_append.mp h with h | h
      · obtain ⟨n, heq⟩ := hes _ h
        cases heq
      · cases mem_singleton.mp h
        exact ⟨⟨committed, hphase⟩, List.getElem?_set_self (List.getElem?_eq_some_iff.mp hphase).1⟩

def Refused : Except CommitError CommittedEvent → Prop := fun result => ∃ error, result = .error error

theorem appendError_strict (envelope : AgentEventEnvelope) (n : Nat) (error : StoreError) :
    Refused (appendError .strict envelope n error) := by
  unfold appendError
  dsimp only
  split
  · split
    · exact ⟨_, rfl⟩
    · exact ⟨_, rfl⟩
  · exact ⟨_, rfl⟩

theorem failed_step (h : .appendFailed t ∈ (b.step i).2) :
    (∃ envelope n, b.tasks[t]? = some (.sequenced envelope n)) ∧ (b.policy = .strict → Ended Refused (b.step i).1 t) := by
  cases i with
  | call envelope | saveSnapshot snapshot | drop task | acquire task | restart => cases h
  | assign task fault =>
    rcases assign_cases b task fault with heq | ⟨envelope, error, -, heq⟩ | ⟨envelope, n, -, -, heq | heq⟩ <;>
      rw [CommitBoundary.step, heq] at h <;> simp at h
  | publish task =>
    rcases publish_cases b task with heq | ⟨committed, -, es, hes, heq⟩ <;> rw [CommitBoundary.step, heq] at h
    · cases h
    · rcases mem_append.mp h with h | h
      · obtain ⟨n, heq⟩ := hes _ h
        cases heq
      · cases mem_singleton.mp h
  | append task outcome =>
    rcases append_cases b task outcome with heq | ⟨envelope, n, kept, count, result, es, hphase, heq, -, hes⟩ <;>
      rw [CommitBoundary.step, heq] at h ⊢
    · cases h
    · rcases hes with ⟨error, -, rfl, rfl⟩ | hes
      · cases mem_singleton.mp h
        refine ⟨⟨envelope, n, hphase⟩, fun hstrict => .inr ⟨_, ?_, hstrict ▸ appendError_strict envelope n error⟩⟩
        exact List.getElem?_set_self (List.getElem?_eq_some_iff.mp hphase).1
      · cases hes _ h

theorem step_policy (b : CommitBoundary) (i : Input) : (b.step i).1.policy = b.policy := by
  cases i with
  | call envelope | saveSnapshot snapshot | drop task | restart => rfl
  | acquire task => rcases acquire_cases b task with heq | ⟨envelope, -, -, heq⟩ <;> simp [CommitBoundary.step, heq]
  | assign task fault =>
    rcases assign_cases b task fault with heq | ⟨envelope, error, -, heq⟩ | ⟨envelope, n, -, -, heq | heq⟩ <;>
      simp [CommitBoundary.step, heq, finish]
  | append task outcome =>
    rcases append_cases b task outcome with heq | ⟨envelope, n, kept, count, result, es, -, heq, -, -⟩ <;>
      simp [CommitBoundary.step, heq, finish]
  | publish task =>
    rcases publish_cases b task with heq | ⟨committed, -, es, -, heq⟩ <;> simp [CommitBoundary.step, heq]

theorem Ended.silent {is : List Input} {e : Effect} (hno : ∀ b i, Ended R b t → e ∉ (b.step i).2) (h : Ended R b t)
    (his : ∀ i ∈ is, i ≠ .restart) : e ∉ machine.output b is := by
  induction is generalizing b with
  | nil => exact not_mem_nil
  | cons i is ih =>
    obtain ⟨hi, his⟩ := forall_mem_cons.mp his
    intro hmem
    rcases mem_append.mp hmem with hmem | hmem
    · exact hno b i h hmem
    · exact ih (h.step hi) his hmem

theorem refused_unpublished {is : List Input} (h : Ended Refused b t) (his : ∀ i ∈ is, i ≠ .restart)
    (envelope : AgentEventEnvelope) : .published t envelope ∉ machine.output b is := by
  refine h.silent (fun b i h hmem => ?_) his
  obtain ⟨⟨committed, hreturned⟩, -⟩ := published_step hmem
  rcases h with h | ⟨result, h, error, rfl⟩ <;> rw [hreturned] at h <;> cases h

theorem ended_unfailed {is : List Input} (h : Ended (fun _ => True) b t) (his : ∀ i ∈ is, i ≠ .restart) :
    .appendFailed t ∉ machine.output b is := by
  refine h.silent (fun b i h hmem => ?_) his
  obtain ⟨⟨envelope, n, hsequenced⟩, -⟩ := failed_step hmem
  rcases h with h | ⟨result, h, -⟩ <;> rw [hsequenced] at h <;> cases h

theorem run_published {is : List Input} (hstrict : b.policy = .strict) (his : ∀ i ∈ is, i ≠ .restart)
    (hfailed : .appendFailed t ∈ machine.output b is) (envelope : AgentEventEnvelope) :
    .published t envelope ∉ machine.output b is := by
  induction is generalizing b with
  | nil => exact not_mem_nil
  | cons i is ih =>
    obtain ⟨hi, his⟩ := forall_mem_cons.mp his
    intro hpublished
    rcases mem_append.mp hfailed with hfailed | hfailed
    · obtain ⟨⟨_, n, hsequenced⟩, hrefused⟩ := failed_step hfailed
      rcases mem_append.mp hpublished with hpublished | hpublished
      · obtain ⟨⟨committed, hreturned⟩, -⟩ := published_step hpublished
        rw [hsequenced] at hreturned
        cases hreturned
      · exact refused_unpublished (hrefused hstrict) his envelope hpublished
    · rcases mem_append.mp hpublished with hpublished | hpublished
      · exact ended_unfailed (.inl (published_step hpublished).2) his hfailed
      · exact ih ((step_policy b i).trans hstrict) his hfailed hpublished

end

/-- However the calls of one committer interleave, and whichever appends fail, the numbers it hands out rise, the
    events reach the store in the order of their numbers, and an event whose strict append failed is never
    published. -/
theorem commits_keep_order (store : SessionRecords) (policy : DurabilityPolicy) (every : Nat) {is : List Input}
    (his : ∀ i ∈ is, i ≠ .restart) :
    (numbers (machine.output (new store policy every) is)).Pairwise Rises ∧
    (∃ stored, (machine.run (new store policy every) is).store.events = store.events ++ stored ∧
      (stored.map (·.sessionSequence)).Sublist ((numbers (machine.output (new store policy every) is)).map some)) ∧
    (policy = .strict → ∀ t, .appendFailed t ∈ machine.output (new store policy every) is →
      ∀ envelope, .published t envelope ∉ machine.output (new store policy every) is) := by
  have hholding : Holding (new store policy every).lock (new store policy every).tasks := by
    intro task phase hget
    cases hget
  exact ⟨(@run_numbers (new store policy every) is trivial his).2, run_stored hholding his,
    fun hstrict t hfailed => @run_published (new store policy every) t is hstrict his hfailed⟩

def recorded : Machine (CommitBoundary × List Nat) Input Effect :=
  machine.monitor fun st handedOut => handedOut ++ numbers st.out

/-- A number is about to be given out that is not above all the earlier ones: the counter is exhausted, or a fresh
    sequencer finds the store below a number already handed out. -/
def Regresses (st : Machine.Step (CommitBoundary × List Nat) Input Effect) : Prop :=
  (∃ n, st.pre.1.Hands st.input n) ∧ ∃ last ∈ st.pre.2,
    last = maxU64 ∨ (st.pre.1.sequencer = .uninitialized ∧ st.pre.1.store.currentSequence < last)

structure Rising (h : CommitBoundary × List Nat) : Prop where
  rising : h.2.Pairwise (· < ·)
  counts : Counts h.1.sequencer
  bounded : ∀ a ∈ h.2, a ≤ maxU64
  above : ∀ next, h.1.sequencer = .ready next → ∀ a ∈ h.2, a < next ∨ a = maxU64

theorem recorded_step (h : CommitBoundary × List Nat) (i : Input) :
    (recorded.step h i).1 = ((h.1.step i).1, h.2 ++ numbers (h.1.step i).2) := rfl

theorem pairwise_snoc {l : List Nat} {n : Nat} : (l ++ [n]).Pairwise (· < ·) ↔ l.Pairwise (· < ·) ∧ ∀ a ∈ l, a < n := by
  simp [pairwise_append]

theorem rising_step {h : CommitBoundary × List Nat} {i : Input} (hinv : Rising h)
    (hbad : ¬ Regresses (recorded.stepAt h i)) : Rising (recorded.step h i).1 := by
  obtain ⟨hrising, hcounts, hbounded, habove⟩ := hinv
  rw [recorded_step]
  by_cases hi : i = .restart
  · subst hi
    refine ⟨?_, trivial, ?_, nofun⟩
    · exact (append_nil h.2).symm ▸ hrising
    · exact (append_nil h.2).symm ▸ hbounded
  · rcases step_numbers h.1 hi with ⟨hnone, hsame⟩ | ⟨n, hhands⟩
    · rw [hnone, append_nil]
      refine ⟨hrising, hsame ▸ hcounts, hbounded, ?_⟩
      rw [hsame]
      exact habove
    · obtain ⟨hone, hnext⟩ := step_hands hhands
      have hmax := (hands_bounds hcounts hhands).2
      have hbelow : ∀ a ∈ h.2, a < n := by
        intro a ha
        have hnot : ¬ (a = maxU64 ∨ (h.1.sequencer = .uninitialized ∧ h.1.store.currentSequence < a)) :=
          fun hor => hbad ⟨⟨n, hhands⟩, a, ha, hor⟩
        have hle := hbounded a ha
        obtain ⟨task, fault, envelope, -, -, hready | ⟨huninit, -, rfl⟩⟩ := hhands
        · rcases habove n hready a ha with hlt | heq
          · exact hlt
          · exact absurd (.inl heq) hnot
        · have hstore : ¬ h.1.store.currentSequence < a := fun hlt => hnot (.inr ⟨huninit, hlt⟩)
          have hroom : a ≠ maxU64 := fun heq => hnot (.inl heq)
          unfold saturatingAdd
          omega
      rw [hone]
      refine ⟨pairwise_snoc.mpr ⟨hrising, hbelow⟩, ?_, ?_, ?_⟩
      · rw [hnext]
        exact Nat.min_le_right _ _
      · intro a ha
        rcases mem_append.mp ha with ha | ha
        · exact hbounded a ha
        · rw [mem_singleton.mp ha]
          exact hmax
      · intro next heq a ha
        rw [hnext] at heq
        cases heq
        have hle : a ≤ n := by
          rcases mem_append.mp ha with ha | ha
          · exact Nat.le_of_lt (hbelow a ha)
          · exact (mem_singleton.mp ha).le
        unfold saturatingAdd
        omega

theorem regress_breaks {h : CommitBoundary × List Nat} {i : Input} (hinv : Rising h)
    (hbad : Regresses (recorded.stepAt h i)) : ¬ (recorded.step h i).1.2.Pairwise (· < ·) := by
  obtain ⟨⟨n, hhands⟩, last, hlast, hwhy⟩ := hbad
  have hhands : h.1.Hands i n := hhands
  have hlast : last ∈ h.2 := hlast
  have hmax := (hands_bounds hinv.counts hhands).2
  rw [recorded_step, (step_hands hhands).1, pairwise_snoc]
  rintro ⟨-, hbelow⟩
  have hlt := hbelow last hlast
  rcases hwhy with rfl | ⟨huninit, hstore⟩
  · exact absurd hmax (Nat.not_le_of_lt hlt)
  · have huninit : h.1.sequencer = .uninitialized := huninit
    have hstore : h.1.store.currentSequence < last := hstore
    obtain ⟨task, fault, envelope, -, -, hready | ⟨-, -, rfl⟩⟩ := hhands
    · rw [huninit] at hready
      cases hready
    · unfold saturatingAdd at hlt
      omega

theorem always_rising {b : CommitBoundary} {handedOut : List Nat} {is : List Input} :
    recorded.Always (·.2.Pairwise (· < ·)) (b, handedOut) is ↔
      (handedOut ++ numbers (machine.output b is)).Pairwise (· < ·) := by
  induction is generalizing b handedOut with
  | nil =>
    rw [Machine.always_nil, show numbers (machine.output b []) = [] from rfl, append_nil]
  | cons i is ih =>
    have hout : machine.output b (i :: is) = (b.step i).2 ++ machine.output (b.step i).1 is := rfl
    rw [Machine.always_cons, recorded_step, ih, hout, numbers_append, append_assoc]
    refine ⟨fun h => h.2, fun h => ⟨h.sublist (sublist_append_left _ _), h⟩⟩

/-- Over any history of commits, snapshots and restarts, the numbers handed out rise strictly exactly if none is
    given out by a fresh sequencer that finds the store below an earlier one, nor after the largest number. -/
theorem numbers_rise_iff (store : SessionRecords) (policy : DurabilityPolicy) (every : Nat) (is : List Input) :
    (numbers (machine.output (new store policy every) is)).Pairwise (· < ·) ↔
      ∀ st ∈ recorded.trace (new store policy every, []) is, ¬ Regresses st := by
  rw [← nil_append (numbers _), ← always_rising]
  exact Machine.always_iff (fun h i => rising_step) (fun h => Rising.rising) (fun h i => regress_breaks)
    (⟨.nil, trivial, nofun, nofun⟩ : Rising (new store policy every, []))

namespace Sample

def envelope (event : AgentEvent) : AgentEventEnvelope where
  eventId := ⟨1⟩
  sessionId := ⟨2⟩
  agentId := ⟨3⟩
  parentAgentId := none
  runId := none
  agentSequence := 0
  sessionSequence := none
  timestamp := .fromSequence 0
  visibility := .user
  event := event

def stored : AgentEventEnvelope := envelope (.runStarted ⟨4⟩)

def ephemeral : AgentEventEnvelope := envelope (.assistantTextDelta ⟨5⟩ "hi")

def failing : List Input :=
  [.call stored, .call stored, .acquire 0, .assign 0 none, .append 0 (.failed (.io "disk full") false), .acquire 1,
    .assign 1 none, .append 1 .appended, .publish 1]

def restarted : List Input :=
  [.call stored, .acquire 0, .assign 0 none, .append 0 .appended, .publish 0,
    .call ephemeral, .acquire 1, .assign 1 none, .publish 1, .restart, .call stored, .acquire 0, .assign 0 none]

def exhausted : SessionRecords := { events := [⟨stored, some maxU64⟩] }

def twoCalls : List Input :=
  [.call ephemeral, .acquire 0, .assign 0 none, .call ephemeral, .acquire 1, .assign 1 none]

end Sample

section

open Sample

theorem commits_keep_order_failing :
    (numbers (machine.output (new {} .strict 512) failing)).Pairwise Rises ∧
    (∃ stored, (machine.run (new {} .strict 512) failing).store.events = [] ++ stored ∧
      (stored.map (·.sessionSequence)).Sublist ((numbers (machine.output (new {} .strict 512) failing)).map some)) ∧
    ∀ envelope, .published 0 envelope ∉ machine.output (new {} .strict 512) failing := by
  have hrestarts : ∀ i ∈ failing, i ≠ .restart := by simp [failing]
  obtain ⟨hnumbers, hstored, hpublished⟩ := commits_keep_order {} .strict 512 hrestarts
  have hfailed : .appendFailed 0 ∈ machine.output (new {} .strict 512) failing := .tail _ (.head _)
  exact ⟨hnumbers, hstored, hpublished rfl 0 hfailed⟩

/-- Both calls get the largest number. -/
theorem exhausted_repeats : numbers (machine.output (new exhausted .strict 512) twoCalls) = [maxU64, maxU64] ∧
    ¬ (numbers (machine.output (new exhausted .strict 512) twoCalls)).Pairwise (· ≠ ·) := by
  have hnumbers : numbers (machine.output (new exhausted .strict 512) twoCalls) = [maxU64, maxU64] := by decide
  rw [hnumbers]
  exact ⟨rfl, by decide⟩

/-- The number of the ephemeral event is handed out again. -/
theorem restart_reuses_number : numbers (machine.output (new {} .strict 512) restarted) = [1, 2, 2] ∧
    ¬ (numbers (machine.output (new {} .strict 512) restarted)).Pairwise (· < ·) := by
  have hnumbers : numbers (machine.output (new {} .strict 512) restarted) = [1, 2, 2] := by decide
  rw [hnumbers]
  exact ⟨rfl, by decide⟩

end

end CommitBoundary

end RustyCore
