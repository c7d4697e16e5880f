import RustyCore.Lib.Machine
import RustyCore.Theorems.Workflow.Log

/-! Resuming after a crash. The log and the snapshot of a run are written one after the other, and the next commit
    is checked against the log while the runner numbers from the snapshot: a crash between the two leaves a run
    that cannot be resumed. -/

namespace RustyCore

open StoreExternals List

section

variable [StoreExternals]

structure Persisted where
  store : FileOrchestrationStore := {}
  last : OrdMap OrchestrationRunId Nat := .empty

def resumeFrom : Option OrchestrationSnapshot → Nat
  | some snapshot => snapshot.lastSequence
  | none => 0

def Persisted.lastOf (p : Persisted) (runId : OrchestrationRunId) : Nat :=
  match p.last.get? runId with
  | some last => last
  | none =>
    match p.store.loadSnapshot runId with
    | .ok snapshot => resumeFrom snapshot
    | .error _ => 0

inductive PersistInput where
  | commit (commit : Commit)
  /-- The process ends between two commits. -/
  | restart
  /-- The process ends after the first `cut` operations of a commit. -/
  | crash (commit : Commit) (cut : Nat)

def persistence : Machine Persisted PersistInput (Except OrchestrationStoreError Unit) where
  step p
    | .commit commit =>
      match commit.persist p.store (p.lastOf commit.state.runId) with
      | .ok (store, last) => ({ store, last := p.last.insert commit.state.runId last }, [.ok ()])
      | .error e => (p, [.error e])
    | .restart => ({ store := p.store.reopen }, [])
    | .crash commit cut =>
      let last := p.lastOf commit.state.runId
      ({ store := p.store.crash (commit.batch last).envelopes (commit.snapshot last) cut }, [])

def GapFree (runId : OrchestrationRunId) (p : Persisted) : Prop :=
  ∃ events, p.store.loadEvents runId = .ok events ∧ events.map (·.sequence) = List.range' 1 events.length

/-- The snapshot of the run can be loaded, every commit of the resumed run is accepted, and its events stay free of
    gaps. -/
structure Resumable (runId : OrchestrationRunId) (p : Persisted) : Prop where
  loads : ∃ snapshot, p.store.loadSnapshot runId = .ok snapshot
  accepts : ∀ commits : List Commit, (∀ commit ∈ commits, commit.state.runId = runId) →
    ∀ st ∈ persistence.trace p (commits.map .commit), st.out = [.ok ()]
  gapFree : ∀ commits : List Commit, (∀ commit ∈ commits, commit.state.runId = runId) →
    persistence.Always (GapFree runId) p (commits.map .commit)

def Persisted.opsOf (p : Persisted) (commit : Commit) : List DiskOp :=
  commitOps (commit.batch (p.lastOf commit.state.runId)).envelopes (commit.snapshot (p.lastOf commit.state.runId))

/-- If the step is a crash, it comes before a byte of the events has been appended, or after the snapshot has been
    replaced. -/
def Spares (p : Persisted) : PersistInput → Prop
  | .crash commit cut =>
    (∀ byte, .append byte ∉ (p.opsOf commit).take cut) ∨ .rename ∈ (p.opsOf commit).take cut
  | _ => True

def FileOrchestrationStore.dirOf (store : FileOrchestrationStore) (runId : OrchestrationRunId) : RunDir :=
  (store.root.get? runId).getD {}

/-- The directory holds the events up to `n` and a snapshot made there. -/
structure Stored (dir : RunDir) (n : Nat) : Prop where
  log : ∃ events, dir.events.getD [] = eventsBuffer events ∧ events.map (·.sequence) = List.range' 1 n
  snapshot : (dir.snapshot = none ∧ n = 0) ∨
    ∃ snapshot, dir.snapshot = some (encodeSnapshot snapshot) ∧ snapshot.lastSequence = n

def InStep (p : Persisted) : Prop := ∀ runId, ∃ n, Stored (p.store.dirOf runId) n ∧
  (∀ m, p.store.lastSequences.get? runId = some m → m = n) ∧ ∀ m, p.last.get? runId = some m → m = n

variable {p p' : Persisted} {runId : OrchestrationRunId} {dir : RunDir} {n : Nat}
  {events : List OrchestrationEventEnvelope} {snapshot : OrchestrationSnapshot}

omit [StoreExternals] in
theorem runDir_safe (store : FileOrchestrationStore) (h : safeRunId runId = true) :
    store.runDir runId = .ok (store.dirOf runId) := if_pos h

theorem stored_empty : Stored {} 0 := ⟨⟨[], rfl, rfl⟩, Or.inl ⟨rfl, rfl⟩⟩

theorem inStep_empty : InStep {} := fun runId =>
  ⟨0, stored_empty, fun _ h => (by cases h), fun _ h => (by cases h)⟩

theorem InStep.update (h : InStep p) (hstored : Stored dir n) (hroot : p'.store.root = p.store.root.insert runId dir)
    (hsequences : ∀ k m, p'.store.lastSequences.get? k = some m →
      (k = runId ∧ m = n) ∨ (k ≠ runId ∧ p.store.lastSequences.get? k = some m))
    (hlast : ∀ k m, p'.last.get? k = some m → (k = runId ∧ m = n) ∨ (k ≠ runId ∧ p.last.get? k = some m)) :
    InStep p' := by
  intro k
  by_cases hk : k = runId
  · subst hk
    refine ⟨n, ?_, fun m hm => ?_, fun m hm => ?_⟩
    · rw [FileOrchestrationStore.dirOf, hroot, OrdMap.get?_insert, if_pos rfl]
      exact hstored
    · rcases hsequences k m hm with ⟨-, rfl⟩ | ⟨hne, -⟩
      · rfl
      · exact absurd rfl hne
    · rcases hlast k m hm with ⟨-, rfl⟩ | ⟨hne, -⟩
      · rfl
      · exact absurd rfl hne
  · obtain ⟨m, hold, hknown, hloop⟩ := h k
    refine ⟨m, ?_, fun m' hm => ?_, fun m' hm => ?_⟩
    · rw [FileOrchestrationStore.dirOf, hroot, OrdMap.get?_insert, if_neg hk]
      exact hold
    · exact hknown m' ((hsequences k m' hm).resolve_left fun h => hk h.1).2
    · exact hloop m' ((hlast k m' hm).resolve_left fun h => hk h.1).2

theorem commit_ok (store : FileOrchestrationStore) (events : List OrchestrationEventEnvelope)
    (snapshot : OrchestrationSnapshot) (hsafe : safeRunId snapshot.state.runId = true)
    (hcheck : checkCommit (store.dirOf snapshot.state.runId) (store.lastSequences.get? snapshot.state.runId) events
      snapshot = .ok n) :
    store.commit events snapshot = .ok
      { root := store.root.insert snapshot.state.runId
          ((store.dirOf snapshot.state.runId).run (commitOps events snapshot))
        lastSequences := store.lastSequences.insert snapshot.state.runId (lastSequenceOr n events) } := by
  rw [FileOrchestrationStore.commit, runDir_safe store hsafe]
  simp only [commitBlocking, bind, Except.bind, hcheck]
  rfl

theorem commit_error (store : FileOrchestrationStore) (events : List OrchestrationEventEnvelope)
    (snapshot : OrchestrationSnapshot) (hsafe : safeRunId snapshot.state.runId = true) {e : OrchestrationStoreError}
    (hcheck : checkCommit (store.dirOf snapshot.state.runId) (store.lastSequences.get? snapshot.state.runId) events
      snapshot = .error e) : store.commit events snapshot = .error e := by
  rw [FileOrchestrationStore.commit, runDir_safe store hsafe]
  simp only [commitBlocking, bind, Except.bind, hcheck]

theorem crash_ok (store : FileOrchestrationStore) (events : List OrchestrationEventEnvelope)
    (snapshot : OrchestrationSnapshot) (hsafe : safeRunId snapshot.state.runId = true)
    (hcheck : checkCommit (store.dirOf snapshot.state.runId) (store.lastSequences.get? snapshot.state.runId) events
      snapshot = .ok n) (cut : Nat) :
    store.crash events snapshot cut =
      { root := store.root.insert snapshot.state.runId
          ((store.dirOf snapshot.state.runId).run ((commitOps events snapshot).take cut)) } := by
  rw [FileOrchestrationStore.crash, runDir_safe store hsafe]
  simp only [hcheck]

theorem Stored.commit (h : Stored dir n) (snapshot : OrchestrationSnapshot) (hnumbered : events.map (·.sequence) = List.range' (n + 1) events.length)
    (hlast : snapshot.lastSequence = n + events.length) :
    Stored (dir.run (commitOps events snapshot)) (n + events.length) := by
  obtain ⟨hlog, hsnapshot⟩ := run_commitOps dir events snapshot
  obtain ⟨old, hold, hsequences⟩ := h.log
  refine ⟨⟨old ++ events, ?_, ?_⟩, Or.inr ⟨snapshot, hsnapshot, hlast⟩⟩
  · rw [hlog, hold, eventsBuffer_append]
  · rw [map_append, hsequences, hnumbered, Nat.add_comm n 1, range'_append_1]

variable (laws : StoreLaws)

include laws

theorem Stored.lastSequence (h : Stored dir n) : committedLast dir none = .ok n := by
  obtain ⟨old, hold, hsequences⟩ := h.log
  obtain ⟨read, hread, hsame⟩ := readEvents_stored laws hold
  have hlast := lastSequenceOr_numbered (n := 0) (hsame.trans hsequences)
  rw [Nat.zero_add] at hlast
  rw [committedLast, hread]
  exact congrArg Except.ok hlast

theorem Stored.check (h : Stored dir n) {last : Option Nat} (hknown : ∀ m, last = some m → m = n)
    (hnumbered : events.map (·.sequence) = List.range' (n + 1) events.length) :
    checkCommit dir last events snapshot = .ok n := by
  have hlast : committedLast dir last = .ok n := by
    cases last with
    | none => exact h.lastSequence laws
    | some m =>
      rw [hknown m rfl]
      rfl
  rw [checkCommit, hlast]
  show (if events.isEmpty then pure n else (checkSequence _ n events >>= fun _ => pure n)) = _
  split
  · rfl
  · rw [checkSequence_eq_ok.mpr hnumbered]
    rfl

theorem Stored.resumeFrom (h : Stored dir n) :
    ∃ snapshot, readSnapshot dir = .ok snapshot ∧ RustyCore.resumeFrom snapshot = n := by
  rcases h.snapshot with ⟨hnone, rfl⟩ | ⟨snapshot, hsome, rfl⟩
  · exact ⟨none, by rw [readSnapshot, hnone], rfl⟩
  · obtain ⟨read, hread, hsame⟩ := laws.snapshot_read snapshot
    exact ⟨some read, by rw [readSnapshot, hsome]; dsimp only; rw [hread], hsame⟩

theorem InStep.lastOf (h : InStep p) (hsafe : safeRunId runId = true) :
    Stored (p.store.dirOf runId) (p.lastOf runId) ∧
      ∀ m, p.store.lastSequences.get? runId = some m → m = p.lastOf runId := by
  obtain ⟨n, hstored, hknown, hloop⟩ := h runId
  have hlast : p.lastOf runId = n := by
    unfold Persisted.lastOf
    cases hget : p.last.get? runId with
    | some m => exact hloop m hget
    | none =>
      obtain ⟨snapshot, hread, hresume⟩ := hstored.resumeFrom laws
      have hload : p.store.loadSnapshot runId = .ok snapshot := by
        rw [FileOrchestrationStore.loadSnapshot, runDir_safe p.store hsafe]
        exact hread
      rw [hload]
      exact hresume
  rw [hlast]
  exact ⟨hstored, hknown⟩

omit [StoreExternals] laws in
theorem batch_numbered (commit : Commit) (last : Nat) :
    (commit.batch last).envelopes.map (·.sequence) = List.range' (last + 1) (commit.batch last).envelopes.length :=
  collectEffects_numbered.1

theorem check_batch (h : InStep p) (commit : Commit) (hsafe : safeRunId commit.state.runId = true) :
    checkCommit (p.store.dirOf commit.state.runId) (p.store.lastSequences.get? commit.state.runId)
      (commit.batch (p.lastOf commit.state.runId)).envelopes (commit.snapshot (p.lastOf commit.state.runId)) =
        .ok (p.lastOf commit.state.runId) := by
  obtain ⟨hstored, hknown⟩ := h.lastOf laws hsafe
  exact hstored.check laws hknown (batch_numbered commit _)

theorem inStep_commit (h : InStep p) (commit : Commit) (hsafe : safeRunId commit.state.runId = true) :
    InStep (persistence.step p (.commit commit)).1 ∧ (persistence.step p (.commit commit)).2 = [.ok ()] := by
  obtain ⟨last, hlast⟩ : ∃ last, p.lastOf commit.state.runId = last := ⟨_, rfl⟩
  have hcheck := check_batch laws h commit hsafe
  have hstored := (h.lastOf laws hsafe).1
  rw [hlast] at hcheck hstored
  have hnumbers := batch_numbered commit last
  have hcommit := commit_ok p.store (commit.batch last).envelopes (commit.snapshot last) hsafe hcheck
  rw [lastSequenceOr_numbered hnumbers] at hcommit
  have htotal : (commit.batch last).lastSequence = last + (commit.batch last).envelopes.length :=
    collectEffects_numbered.2
  obtain ⟨store, hstore⟩ : ∃ store, p.store.commit (commit.batch last).envelopes (commit.snapshot last) = .ok store :=
    ⟨_, hcommit⟩
  have hpersist : commit.persist p.store (p.lastOf commit.state.runId) =
      .ok (store, last + (commit.batch last).envelopes.length) := by
    rw [hlast, Commit.persist, hstore, ← htotal]
    rfl
  obtain rfl := Except.ok.inj (hcommit.symm.trans hstore)
  simp only [persistence, hpersist]
  refine ⟨h.update (hstored.commit (commit.snapshot last) hnumbers htotal) rfl (fun k m hm => ?_) (fun k m hm => ?_),
    trivial⟩
  · exact OrdMap.get?_insert_eq_some.mp hm
  · exact OrdMap.get?_insert_eq_some.mp hm

theorem step_crash (h : InStep p) (commit : Commit) (cut : Nat) (hsafe : safeRunId commit.state.runId = true) :
    (persistence.step p (.crash commit cut)).1 =
      { store.root := p.store.root.insert commit.state.runId
          ((p.store.dirOf commit.state.runId).run ((p.opsOf commit).take cut)) } := by
  have hcrash := crash_ok p.store _ (commit.snapshot (p.lastOf commit.state.runId)) hsafe (check_batch laws h commit hsafe) cut
  simp only [persistence, hcrash]
  rfl

theorem inStep_crash (h : InStep p) (commit : Commit) (cut : Nat) (hspares : Spares p (.crash commit cut)) :
    InStep (persistence.step p (.crash commit cut)).1 := by
  by_cases hsafe : safeRunId commit.state.runId = true
  · obtain ⟨last, hlast⟩ : ∃ last, p.lastOf commit.state.runId = last := ⟨_, rfl⟩
    have hstored := (h.lastOf laws hsafe).1
    rw [step_crash laws h commit cut hsafe, Persisted.opsOf]
    rw [Spares, Persisted.opsOf] at hspares
    rw [hlast] at hstored hspares ⊢
    by_cases hrename : .rename ∈ (commitOps (commit.batch last).envelopes (commit.snapshot last)).take cut
    · rw [take_commitOps hrename]
      have hdone := hstored.commit (commit.snapshot last) (batch_numbered commit last) collectEffects_numbered.2
      exact h.update hdone rfl (fun k m hm => (by cases hm)) (fun k m hm => (by cases hm))
    · have hclean := hspares.resolve_right hrename
      have hkept : Stored ((p.store.dirOf commit.state.runId).run
          ((commitOps (commit.batch last).envelopes (commit.snapshot last)).take cut)) last := by
        refine ⟨?_, ?_⟩
        · rw [run_events hclean]
          exact hstored.log
        · rw [run_snapshot hrename]
          exact hstored.snapshot
      exact h.update hkept rfl (fun k m hm => (by cases hm)) (fun k m hm => (by cases hm))
  · have hcrash : ∀ events snapshot, snapshot.state.runId = commit.state.runId →
        p.store.crash events snapshot cut = p.store.reopen := by
      intro events snapshot hid
      rw [FileOrchestrationStore.crash, FileOrchestrationStore.runDir, hid, if_neg hsafe]
    simp only [persistence]
    rw [hcrash _ _ rfl]
    exact fun runId => let ⟨n, hstored, _⟩ := h runId; ⟨n, hstored, fun _ hm => (by cases hm), fun _ hm => (by cases hm)⟩

theorem inStep_step (h : InStep p) (input : PersistInput) (hspares : Spares p input) :
    InStep (persistence.step p input).1 := by
  cases input with
  | commit commit =>
    by_cases hsafe : safeRunId commit.state.runId = true
    · exact (inStep_commit laws h commit hsafe).1
    · have hrefused : commit.persist p.store (p.lastOf commit.state.runId) =
          .error (.invalidRunId commit.state.runId) := by
        rw [Commit.persist, FileOrchestrationStore.commit, FileOrchestrationStore.runDir]
        simp only [Commit.snapshot, hsafe]
        rfl
      simp only [persistence, hrefused]
      exact h
  | restart =>
    exact fun runId => let ⟨n, hstored, _⟩ := h runId; ⟨n, hstored, fun _ hm => (by cases hm), fun _ hm => (by cases hm)⟩
  | crash commit cut => exact inStep_crash laws h commit cut hspares

theorem InStep.gapFree (h : InStep p) (hsafe : safeRunId runId = true) : GapFree runId p := by
  obtain ⟨hstored, -⟩ := h.lastOf laws hsafe
  obtain ⟨events, hlog, hsequences⟩ := hstored.log
  obtain ⟨read, hread, hsame⟩ := readEvents_stored laws hlog
  have hlength : read.length = p.lastOf runId := by
    have hcount := congrArg List.length (hsame.trans hsequences)
    rwa [length_map, length_range'] at hcount
  refine ⟨read, ?_, by rw [hsame, hsequences, hlength]⟩
  rw [FileOrchestrationStore.loadEvents, runDir_safe p.store hsafe]
  exact hread

theorem InStep.resumable (h : InStep p) (hsafe : safeRunId runId = true) : Resumable runId p := by
  have hcommits : ∀ (commits : List Commit), (∀ commit ∈ commits, commit.state.runId = runId) →
      ∀ st ∈ persistence.trace p (commits.map .commit), ∃ commit, st.input = .commit commit ∧ commit.state.runId = runId := by
    intro commits hids st hst
    obtain ⟨commit, hmem, hinput⟩ := mem_map.mp (Machine.input_mem hst)
    exact ⟨commit, hinput.symm, hids commit hmem⟩
  refine ⟨?_, fun commits hids => ?_, fun commits hids => ?_⟩
  · obtain ⟨snapshot, hread, -⟩ := (h.lastOf laws hsafe).1.resumeFrom laws
    refine ⟨snapshot, ?_⟩
    rw [FileOrchestrationStore.loadSnapshot, runDir_safe p.store hsafe]
    exact hread
  · refine Machine.trace_rule (P := InStep) (fun p input h hinput => ?_) h (hcommits commits hids)
    obtain ⟨commit, rfl, hid⟩ := hinput
    exact inStep_commit laws h commit (hid ▸ hsafe)
  · refine Machine.always_rule (I := InStep) (fun p input h hinput => ?_) (fun p h => h.gapFree laws hsafe) h
      (hcommits commits hids)
    obtain ⟨commit, rfl, hid⟩ := hinput
    exact (inStep_commit laws h commit (hid ▸ hsafe)).1

theorem check_torn (snapshot : OrchestrationSnapshot) {event : OrchestrationEventEnvelope} {k : Nat}
    {old : List OrchestrationEventEnvelope} (hevent : event.sequence = n + 1) (hold : old.map (·.sequence) = List.range' 1 n) (hnumbered : events.map (·.sequence) = List.range' (n + 1) events.length)
    (hlog : dir.events.getD [] = eventsBuffer old ++ (eventsBuffer events).take k)
    (hcut : (eventsBuffer events).take k ≠ []) : ∃ e, checkCommit dir none [event] snapshot = .error e := by
  rcases readEvents_torn laws hlog hcut with ⟨e, herror⟩ | ⟨shown, hshown, hne, read, hread, hsame⟩
  · refine ⟨e, ?_⟩
    rw [checkCommit, committedLast, herror]
    rfl
  · have hpart : shown.map (·.sequence) = List.range' (n + 1) shown.length := by
      obtain ⟨rest, rfl⟩ := hshown
      rw [map_append, length_append, ← range'_append_1] at hnumbered
      exact (append_inj hnumbered (by simp)).1
    have hlast : lastSequenceOr 0 read = n + shown.length := by
      have hall : read.map (·.sequence) = List.range' (0 + 1) (n + shown.length) := by
        rw [hsame, map_append, hold, hpart, Nat.add_comm n 1, range'_append_1]
      rw [lastSequenceOr_numbered hall, Nat.zero_add]
    have hpos := length_pos_of_ne_nil hne
    cases hcheck : checkSequence snapshot.state.runId (n + shown.length) [event] with
    | error e =>
      refine ⟨e, ?_⟩
      rw [checkCommit, committedLast, hread]
      show (checkSequence snapshot.state.runId (lastSequenceOr 0 read) [event] >>= _) = _
      rw [hlast, hcheck]
      rfl
    | ok =>
      have hnext := checkSequence_eq_ok.mp hcheck
      rw [map_singleton, hevent, length_singleton, range'_one, List.cons.injEq] at hnext
      omega

theorem lastOf_crash (h : InStep p) (commit : Commit) (cut : Nat) (hsafe : safeRunId commit.state.runId = true)
    (hrename : .rename ∉ (p.opsOf commit).take cut) :
    (persistence.step p (.crash commit cut)).1.lastOf commit.state.runId = p.lastOf commit.state.runId := by
  rw [step_crash laws h commit cut hsafe]
  generalize hp' : ({ store.root := p.store.root.insert commit.state.runId
                        ((p.store.dirOf commit.state.runId).run ((p.opsOf commit).take cut)) } : Persisted) = p'
  have hdir : p'.store.dirOf commit.state.runId =
      (p.store.dirOf commit.state.runId).run ((p.opsOf commit).take cut) := by
    rw [← hp', FileOrchestrationStore.dirOf, OrdMap.get?_insert, if_pos rfl]
    rfl
  obtain ⟨snapshot, hread, hfrom⟩ := (h.lastOf laws hsafe).1.resumeFrom laws
  have hload : p'.store.loadSnapshot commit.state.runId = .ok snapshot := by
    rw [FileOrchestrationStore.loadSnapshot, runDir_safe p'.store hsafe, hdir]
    show readSnapshot _ = _
    rw [readSnapshot, run_snapshot hrename]
    exact hread
  have hnone : p'.last.get? commit.state.runId = none := by
    rw [← hp']
    rfl
  unfold Persisted.lastOf
  rw [hnone, hload]
  exact hfrom

theorem not_resumable_crash (h : InStep p) (commit : Commit) (cut : Nat) (hsafe : safeRunId commit.state.runId = true)
    (hspares : ¬ Spares p (.crash commit cut)) :
    ¬ Resumable commit.state.runId (persistence.step p (.crash commit cut)).1 := by
  rw [Spares, not_or] at hspares
  obtain ⟨happend, hrename⟩ := hspares
  rw [not_forall] at happend
  have hresumed := lastOf_crash laws h commit cut hsafe hrename
  have hstored := (h.lastOf laws hsafe).1
  obtain ⟨p', hstep, hp'⟩ : ∃ p', (persistence.step p (.crash commit cut)).1 = p' ∧
      p' = { store.root := p.store.root.insert commit.state.runId
               ((p.store.dirOf commit.state.runId).run ((p.opsOf commit).take cut)) } :=
    ⟨_, rfl, step_crash laws h commit cut hsafe⟩
  have hdir : p'.store.dirOf commit.state.runId =
      (p.store.dirOf commit.state.runId).run ((p.opsOf commit).take cut) := by
    rw [hp', FileOrchestrationStore.dirOf, OrdMap.get?_insert, if_pos rfl]
    rfl
  rw [hstep] at hresumed
  rw [Persisted.opsOf] at happend hdir
  generalize p.lastOf commit.state.runId = last at happend hdir hresumed hstored
  obtain ⟨k, hlog, hcut⟩ := @run_commitOps_torn _ (p.store.dirOf commit.state.runId) _ _ _
    (happend.imp fun _ => not_not.mp)
  obtain ⟨old, hold, hsequences⟩ := hstored.log
  rw [hold] at hlog
  rw [hstep]
  intro hresume
  let restored : Commit := { state := commit.state, effects := [.emit .runRestored], timestampMs := 0, elapsedMs := 0 }
  have haccepted := hresume.accepts [restored] (by simp [restored]) (persistence.stepAt p' (.commit restored))
    mem_cons_self
  have hrefused : ∃ e, restored.persist p'.store (p'.lastOf restored.state.runId) = .error e := by
    obtain ⟨event, hbatch, hevent⟩ : ∃ event, (restored.batch last).envelopes = [event] ∧ event.sequence = last + 1 :=
      ⟨_, rfl, rfl⟩
    rw [← hdir] at hlog
    obtain ⟨e, he⟩ := check_torn laws (restored.snapshot last) hevent hsequences (batch_numbered commit last) hlog hcut
    have hnone : p'.store.lastSequences.get? commit.state.runId = none := by
      rw [hp']
      rfl
    rw [← hnone, ← hbatch] at he
    refine ⟨e, ?_⟩
    rw [show p'.lastOf restored.state.runId = last from hresumed, Commit.persist,
      commit_error p'.store (restored.batch last).envelopes (restored.snapshot last) hsafe he]
    rfl
  obtain ⟨e, he⟩ := hrefused
  simp only [Machine.stepAt, persistence, he] at haccepted
  cases haccepted

/-- A crashed commit can be resumed exactly if the crash spared the log or came after the rename. -/
theorem crashed_commit_resumable_iff (inputs : List PersistInput)
    (hinputs : ∀ st ∈ persistence.trace {} inputs, Spares st.pre st.input) (commit : Commit) (cut : Nat)
    (hsafe : safeRunId commit.state.runId = true) :
    Resumable commit.state.runId (persistence.step (persistence.run {} inputs) (.crash commit cut)).1 ↔
      Spares (persistence.run {} inputs) (.crash commit cut) := by
  have hinStep := Machine.run_rule (P := InStep) (fun p input h hspares => inStep_step laws h input hspares)
    inStep_empty hinputs
  constructor
  · intro hresume
    by_contra hspares
    exact not_resumable_crash laws hinStep commit cut hsafe hspares hresume
  · intro hspares
    exact (inStep_crash laws hinStep commit cut hspares).resumable laws hsafe

end

namespace Sample

def numbered (head tail : List Char) (n : Nat) : List Char := head ++ (Nat.toDigits 10 n ++ tail)

def readNumber (head tail text : List Char) : Except String Nat :=
  let body := text.drop head.length
  if head.isPrefixOf text && body.dropWhile Char.isDigit == tail then
    .ok (Nat.ofDigitChars 10 (body.takeWhile Char.isDigit) 0)
  else .error "EOF while parsing an object"

theorem isDigit_toDigits {n : Nat} : ∀ c ∈ Nat.toDigits 10 n, c.isDigit = true := fun _ =>
  Nat.isDigit_of_mem_toDigits (by decide) (by decide)

theorem readNumber_numbered {head tail : List Char} {n : Nat} (htail : tail.head?.any Char.isDigit = false) :
    readNumber head tail (numbered head tail n) = .ok n := by
  have hdrop : (Nat.toDigits 10 n ++ tail).dropWhile Char.isDigit = tail := by
    rw [dropWhile_append_of_pos isDigit_toDigits]
    cases tail with
    | nil => rfl
    | cons c tail => exact dropWhile_cons_of_neg (by simpa using htail)
  have htake : (Nat.toDigits 10 n ++ tail).takeWhile Char.isDigit = Nat.toDigits 10 n := by
    rw [takeWhile_append_of_pos isDigit_toDigits]
    cases tail with
    | nil => simp
    | cons c tail => rw [takeWhile_cons_of_neg (by simpa using htail), append_nil]
  have hstart : head.isPrefixOf (head ++ (Nat.toDigits 10 n ++ tail)) = true :=
    isPrefixOf_iff_prefix.mpr (prefix_append _ _)
  simp only [readNumber, numbered, drop_left, hdrop, htake, hstart, beq_self_eq_true, Bool.and_true, if_true]
  rw [Nat.ofDigitChars_toDigits (by decide) (by decide)]

theorem readNumber_part {head tail part : List Char} {n : Nat} (hne : tail ≠ []) (hpart : part <+: numbered head tail n) (hcut : part ≠ numbered head tail n) :
    ∃ message, readNumber head tail part = .error message := by
  unfold readNumber
  dsimp only
  split
  · rename_i hread
    rw [Bool.and_eq_true, isPrefixOf_iff_prefix, beq_iff_eq] at hread
    obtain ⟨⟨body, rfl⟩, hdrop⟩ := hread
    rw [drop_left] at hdrop
    obtain ⟨rest, hrest⟩ := (prefix_append_right_inj head).mp hpart
    rcases append_eq_append_iff.mp hrest with ⟨more, hdigits, -⟩ | ⟨more, rfl, hmore⟩
    · -- The cut is within the digits.
      have hall : ∀ c ∈ body, c.isDigit = true := fun c hc =>
        isDigit_toDigits c (hdigits ▸ mem_append_left more hc)
      rw [dropWhile_eq_nil_iff.mpr hall] at hdrop
      exact absurd hdrop.symm hne
    · rw [dropWhile_append_of_pos isDigit_toDigits] at hdrop
      have hlength : more.length = tail.length := by
        have hle := (dropWhile_sublist Char.isDigit (l := more)).length_le
        rw [hdrop] at hle
        have heq := congrArg List.length hmore
        rw [length_append] at heq
        omega
      have hsame : more = tail := by
        rw [hmore] at hlength ⊢
        have hnil : rest = [] := by
          rw [length_append] at hlength
          exact length_eq_zero_iff.mp (by omega)
        rw [hnil, append_nil]
      rw [hsame] at hcut
      exact absurd rfl hcut
  · exact ⟨_, rfl⟩

def eventHead : List Char :=
  "\x7b\"run_id\":\"run\",\"definition_id\":\"flow\",\"revision\":1,\"sequence\":".toList

def eventTail : List Char := ",\"timestamp_ms\":0,\"event\":\x7b\"type\":\"run_started\"\x7d\x7d".toList

def snapshotHead : List Char := (Text.join "\n" ["\x7b", "  \"state\": \x7b", "    \"run_id\": \"run\",",
  "    \"definition_id\": \"flow\",", "    \"definition_revision\": 1,", "    \"definition_hash\": \"\",",
  "    \"status\": \"created\",", "    \"paused\": false,", "    \"input\": null,", "    \"steps\": \x7b\x7d,",
  "    \"final_output\": null,", "    \"error\": null,", "    \"failed_step\": null,", "    \"total_attempts\": 0,",
  "    \"usage\": \x7b", "      \"model_requests\": 0,", "      \"tool_calls\": 0,", "      \"tokens\": 0,",
  "      \"tokens_unknown\": false,", "      \"cost_usd\": 0.0,", "      \"cost_unknown\": false", "    \x7d,",
  "    \"options\": \x7b", "      \"auto_approve\": false", "    \x7d", "  \x7d,", "  \"last_sequence\": "]).toList

def snapshotTail : List Char := ",\n  \"elapsed_ms\": 0\n\x7d".toList

def emptyRun : OrchestrationRunState where
  runId := "run"
  definitionId := "flow"
  definitionRevision := 1
  definitionHash := ""
  steps := .empty

def eventOf (sequence : Nat) : OrchestrationEventEnvelope where
  runId := "run"
  definitionId := "flow"
  revision := 1
  sequence := sequence
  timestampMs := 0
  event := .runStarted

def snapshotOf (lastSequence : Nat) : OrchestrationSnapshot where
  state := emptyRun
  lastSequence := lastSequence
  elapsedMs := 0

def parseSnapshot : Option (List Char) → Except String OrchestrationSnapshot
  | none => .error "invalid unicode code point"
  | some text => (readNumber snapshotHead snapshotTail text).map snapshotOf

/-- `serde_json` on the envelopes and snapshots of this run that differ only in their sequence. -/
scoped instance storeExternals : StoreExternals where
  encodeEvent event := numbered eventHead eventTail event.sequence
  decodeEvent text := (readNumber eventHead eventTail text).map eventOf
  encodeSnapshot snapshot := Utf8.encode (numbered snapshotHead snapshotTail snapshot.lastSequence)
  decodeSnapshot bytes := parseSnapshot (Utf8.decode bytes)

theorem storeLaws : StoreLaws where
  event_line event := by
    have hline : ∀ c, c ∉ eventHead → c.isDigit = false → c ∉ eventTail → c ∉ numbered eventHead eventTail event.sequence := by
      intro c hhead hdigit htail hmem
      rcases mem_append.mp hmem with hmem | hmem
      · exact hhead hmem
      · rcases mem_append.mp hmem with hmem | hmem
        · rw [isDigit_toDigits c hmem] at hdigit
          cases hdigit
        · exact htail hmem
    exact ⟨hline '\n' (by decide) (by decide) (by decide), hline '\r' (by decide) (by decide) (by decide)⟩
  event_brace event := rfl
  event_part event part hpart hcut hne := by
    obtain ⟨message, herror⟩ := readNumber_part (by decide) hpart hcut
    refine ⟨message, ?_⟩
    show (readNumber eventHead eventTail part).map eventOf = _
    rw [herror]
    rfl
  event_read event := by
    refine ⟨eventOf event.sequence, ?_, rfl⟩
    show (readNumber eventHead eventTail (numbered eventHead eventTail event.sequence)).map eventOf = _
    rw [readNumber_numbered (by decide)]
    rfl
  snapshot_read snapshot := by
    refine ⟨snapshotOf snapshot.lastSequence, ?_, rfl⟩
    have hdecode := Utf8.decode_eq_some.mpr (Eq.refl (Utf8.encode (numbered snapshotHead snapshotTail snapshot.lastSequence)))
    show parseSnapshot (Utf8.decode (Utf8.encode (numbered snapshotHead snapshotTail snapshot.lastSequence))) = _
    rw [hdecode, parseSnapshot, readNumber_numbered (by decide)]
    rfl

def begun : Commit := { state := emptyRun, effects := [.emit .runStarted], timestampMs := 0, elapsedMs := 0 }

theorem brace_mem_begun (last : Nat) : .append 123 ∈ appendOps (begun.batch last).envelopes := by
  obtain ⟨event, hbatch⟩ : ∃ event, (begun.batch last).envelopes = [event] := ⟨_, rfl⟩
  have hbyte : 123 ∈ eventsBuffer [event] := by
    refine mem_flatMap.mpr ⟨event, mem_cons_self, mem_append_left _ ?_⟩
    exact mem_flatMap.mpr ⟨'\x7b', mem_append_left _ (by decide), by decide⟩
  rw [hbatch]
  exact mem_cons_of_mem _ (mem_map_of_mem hbyte)

theorem not_spares_begun (p : Persisted) : ¬ Spares p (.crash begun ((p.opsOf begun).length - 1)) := by
  rintro (happend | hrename)
  · refine happend 123 ?_
    rw [← dropLast_eq_take, Persisted.opsOf, commitOps_eq, dropLast_concat]
    exact mem_append_left _ (mem_cons_of_mem _ (brace_mem_begun _))
  · have hlength := congrArg List.length (take_commitOps hrename)
    rw [length_take] at hlength
    simp [Persisted.opsOf, commitOps] at hlength

end Sample

section

open Sample

/-- A crash before anything of the second commit was written. -/
theorem crashed_commit_resumable_iff_begun : StoreLaws ∧
    (∀ st ∈ persistence.trace {} [.commit begun], Spares st.pre st.input) ∧ safeRunId begun.state.runId = true ∧
    Resumable begun.state.runId (persistence.step (persistence.run {} [.commit begun]) (.crash begun 1)).1 := by
  have hspares : ∀ st ∈ persistence.trace {} [.commit begun], Spares st.pre st.input := by
    intro st hst
    rw [mem_singleton.mp hst]
    trivial
  have hsafe : safeRunId begun.state.runId = true := by decide
  refine ⟨storeLaws, hspares, hsafe, ?_⟩
  refine (crashed_commit_resumable_iff storeLaws [.commit begun] hspares begun 1 hsafe).mpr (Or.inl fun byte => ?_)
  simp [Persisted.opsOf, commitOps]

/-- A crash of the second commit after its event was appended and before the snapshot was renamed. -/
theorem crashed_commit_not_resumable : safeRunId begun.state.runId = true ∧
    ¬ Resumable begun.state.runId (persistence.step (persistence.run {} [.commit begun])
      (.crash begun (((persistence.run {} [.commit begun]).opsOf begun).length - 1))).1 := by
  have hsafe : safeRunId begun.state.runId = true := by decide
  have hinStep : InStep (persistence.run {} [.commit begun]) := (inStep_commit storeLaws inStep_empty begun hsafe).1
  exact ⟨hsafe, not_resumable_crash storeLaws hinStep begun _ hsafe (not_spares_begun _)⟩

end

end RustyCore
