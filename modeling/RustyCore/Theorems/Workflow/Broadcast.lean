import RustyCore.Theorems.Workflow.Acts
import RustyCore.Theorems.Workflow.Resume
import RustyCore.Theorems.Workflow.Retry
import RustyCore.Theorems.Workflow.WindDown

/-! Commit before publish. Whatever happens around the run loop and whatever its store answers, the events and states
    it has shown to others are those of a sequence of commits that the store took first. What agents say is passed on
    live, without a commit. -/

namespace RustyCore

open Reducer StoreExternals WorkflowCompiler

/-- What others see of a run besides what its agents say: the numbered log, the events and states that subscribers and
    watchers are sent, and the result. -/
structure Broadcast where
  lastSequence : Nat
  log : List OrchestrationEventEnvelope := []
  told : List Message := []
  result : Option OrchestrationResult := none

def Broadcast.commit (seen : Broadcast) (commit : Commit) : Broadcast :=
  let batch := commit.batch seen.lastSequence
  { lastSequence := batch.lastSequence
    log := seen.log ++ batch.envelopes
    told := seen.told ++ batch.envelopes.map .event ++ [.state commit.state]
    result := batch.finish <|> seen.result }

/-- What is seen of a run after commits that the store took, each numbered from the one before. -/
inductive Shown (runner : OrchestrationRunner) (runId : OrchestrationRunId) (first : Broadcast) :
    List Commit → Broadcast → Prop
  | nothing : Shown runner runId first [] first
  | commit {commits : List Commit} {seen : Broadcast} {commit : Commit} (h : Shown runner runId first commits seen)
      (hrun : commit.state.runId = runId) (htaken : ∀ store, runner.store = some store →
        store (commit.batch seen.lastSequence).envelopes (commit.snapshot seen.lastSequence) = .ok ()) :
      Shown runner runId first (commits ++ [commit]) (seen.commit commit)

def RunLoop.broadcast (loop : RunLoop) : Broadcast :=
  ⟨loop.lastSequence, loop.log, loop.sent.filter Message.told, loop.result⟩

structure Broadcasts (runner : OrchestrationRunner) (runId : OrchestrationRunId) (first : Broadcast) (loop : RunLoop) :
    Prop where
  same : loop.runner = runner
  run : loop.state.runId = runId
  sound : Sound runner.compiled loop.state
  shown : ∃ commits, Shown runner runId first commits loop.broadcast

section

variable {runner : OrchestrationRunner} {runId : OrchestrationRunId} {first seen : Broadcast} {loop loop' : RunLoop}
  {commits : List Commit}

theorem Shown.numbered (h : Shown runner runId ⟨last, [], [], none⟩ commits seen) :
    seen.log.map (·.sequence) = List.range' (last + 1) seen.log.length ∧ seen.lastSequence = last + seen.log.length := by
  induction h with
  | nothing => exact ⟨rfl, rfl⟩
  | @commit commits seen commit h hrun htaken ih =>
    obtain ⟨hnumbers, hlast⟩ := ih
    obtain ⟨hbatch, hnext⟩ := @collectEffects_numbered commit.state seen.lastSequence commit.timestampMs commit.effects
    unfold Broadcast.commit Commit.batch
    dsimp only
    rw [List.map_append, hnumbers, hbatch, hnext, List.length_append, hlast]
    exact ⟨by rw [show last + seen.log.length + 1 = last + 1 + seen.log.length by omega, List.range'_append_1],
      Nat.add_assoc ..⟩

theorem RunLoop.commitDone_same (loop : RunLoop) (batch : EffectBatch) :
    (loop.commitDone batch).runner = loop.runner ∧ (loop.commitDone batch).state = loop.state := by
  unfold RunLoop.commitDone
  dsimp only
  split <;> exact ⟨rfl, rfl⟩

theorem broadcast_commitDone (loop : RunLoop) (effects : List OrchestrationEffect) (elapsedMs : Nat) :
    (loop.commitDone (collectEffects loop.state loop.lastSequence loop.nowMs effects)).broadcast =
      loop.broadcast.commit ⟨loop.state, effects, loop.nowMs, elapsedMs⟩ := by
  have hevents : ∀ events : List OrchestrationEventEnvelope, (events.map Message.event).filter Message.told =
      events.map .event := fun events => List.filter_eq_self.mpr fun m hm => by
    obtain ⟨event, -, rfl⟩ := List.mem_map.mp hm
    rfl
  unfold RunLoop.commitDone RunLoop.publishCommitted RunLoop.broadcast Broadcast.commit
  dsimp only
  split <;> simp [RunLoop.dispatch, RunLoop.cancelMatching, RunLoop.withActive, hevents, Message.told, Commit.batch]

theorem Broadcasts.quiet (h : Broadcasts runner runId first loop) (hquiet : RunLoop.Quiet loop loop') :
    Broadcasts runner runId first loop' := by
  refine ⟨hquiet.runner.trans h.same, by rw [hquiet.state, h.run], hquiet.state ▸ h.sound, ?_⟩
  unfold RunLoop.broadcast
  rw [hquiet.lastSequence, hquiet.log, hquiet.told, hquiet.result]
  exact h.shown

variable [WorkflowExternals]

theorem runId_apply {c : CompiledOrchestration} {s : OrchestrationRunState} (hv : c.Valid) (hs : Sound c s)
    (command : OrchestrationCommand) : (apply c s command).1.runId = s.runId := by
  have hsettle : ∀ t : OrchestrationRunState, (settle t).runId = t.runId := fun t => by
    unfold settle
    split <;> rfl
  by_cases hopen : s.status.isTerminal = true
  · rw [apply_terminal hopen]
  · have hout := outcome_apply hv hs (Bool.not_eq_true _ ▸ hopen) command
    generalize apply c s command = applied at hout
    cases hout <;> first | rfl | exact hsettle _

theorem Broadcasts.tryApply (hv : runner.compiled.Valid) (h : Broadcasts runner runId first loop)
    (command : OrchestrationCommand) : Broadcasts runner runId first (loop.tryApply command).1 := by
  obtain ⟨rfl, hrun, hsound, commits, hshown⟩ := h
  have hid := (runId_apply hv hsound command).trans hrun
  have hsound' := sound_apply hv hsound command
  unfold RunLoop.tryApply
  rcases happly : apply loop.runner.compiled loop.state command with ⟨s', e | effects⟩
  · rw [happly] at hid hsound'
    exact ⟨rfl, hid, hsound', commits, hshown⟩
  · rw [happly] at hid hsound'
    dsimp only
    generalize hclock : loop.clock.trackInputWait loop.now _ = clock
    split
    · exact ⟨rfl, hid, hsound', commits, hshown⟩
    · rename_i hpersist
      have htaken : ∀ store, loop.runner.store = some store → store
          (collectEffects s' loop.lastSequence loop.nowMs effects).envelopes
          (Commit.snapshot ⟨s', effects, loop.nowMs, clock.elapsedMs loop.now⟩ loop.lastSequence) = .ok () := by
        intro store hstore
        unfold RunLoop.persist at hpersist
        simp only [hstore] at hpersist
        exact hpersist
      obtain ⟨hrunner, hstate⟩ := RunLoop.commitDone_same { loop with state := s', clock }
        (collectEffects s' loop.lastSequence loop.nowMs effects)
      have hdone := broadcast_commitDone { loop with state := s', clock } effects (clock.elapsedMs loop.now)
      refine ⟨hrunner, hstate ▸ hid, hstate ▸ hsound', commits ++ [⟨s', effects, loop.nowMs, clock.elapsedMs loop.now⟩], ?_⟩
      exact hdone ▸ Shown.commit hshown hid htaken

theorem Broadcasts.acts (hv : runner.compiled.Valid) (h : Broadcasts runner runId first loop) (hacts : RunLoop.Acts loop loop') :
    Broadcasts runner runId first loop' := by
  induction hacts with
  | refl => exact h
  | tail _ hact ih =>
    cases hact with
    | quiet hquiet => exact ih.quiet hquiet
    | apply => exact ih.tryApply hv _

variable [RunnerExternals]

theorem Broadcasts.onWake (hv : runner.compiled.Valid) (h : Broadcasts runner runId first loop) (wake : Wake) :
    Broadcasts runner runId first (loop.onWake wake).1 := by
  have hfree : Broadcasts runner runId first { loop with active := none } := ⟨h.same, h.run, h.sound, h.shown⟩
  cases loop.woken wake with
  | acts hacts => exact h.acts hv hacts
  | ends hacts heq =>
    rw [heq]
    exact hfree.acts hv hacts
  | reports hactive hacts hdrained heq =>
    rw [heq]
    exact (hfree.acts hv hacts).tryApply hv _

theorem broadcasts_kept (hv : runner.compiled.Valid) : Driving.Kept (Broadcasts runner runId first) fun _ _ => True where
  beside _ _ _ _ _ h := ⟨h.same, h.run, h.sound, h.shown⟩
  apply _ command h _ _ _ := h.tryApply hv command
  onWake _ wake h _ _ := h.onWake hv wake

end

/-- How a run is launched: it is started afresh, or recovered in any state that commands and retries leave. -/
inductive Launched [WorkflowExternals] (c : CompiledOrchestration) : OrchestrationRunState → OrchestrationCommand → Prop
  | start {s : OrchestrationRunState} {input : Value} (h : Fresh c s) : Launched c s (.start input)
  | recover {s : OrchestrationRunState} (h : (retriable c).Reachable (Fresh c) s) : Launched c s .recover

/-- The loop has taken on a command or a wake-up in this step, whether or not an error ends it. -/
inductive Driving.Handles [WorkflowExternals] [RunnerExternals] : Driving → LoopInput → RunLoop → Prop
  | turn {loop m : RunLoop} {command : OrchestrationCommand} (h : loop.nextCommand = (m, .ok (some command))) :
      Handles (.deciding loop) .turn (m.apply command).1
  | wake {loop : RunLoop} {wake : Wake} : Handles (.waiting loop) (.wake wake) (loop.onWake wake).1

section

variable [WorkflowExternals] {c : CompiledOrchestration} {s : OrchestrationRunState} {command : OrchestrationCommand}

theorem Launched.sound (h : Launched c s command) (hv : c.Valid) : Sound c s := by
  cases h with
  | start h => exact sound_fresh h
  | recover h => exact sound_of_retriable hv h

variable {runner : OrchestrationRunner} {d : OrchestrationDefinition}

/-- The loop before its first command. -/
def RunLoop.launch (runner : OrchestrationRunner) (s : OrchestrationRunState) (last elapsed : Nat) (cancellation : Bool)
    (now nowMs : Nat) : RunLoop :=
  { runner, state := s, lastSequence := last, clock := ⟨elapsed, now, 0, none⟩, cancellation, now, nowMs }

theorem broadcasts_launch (hv : runner.compiled.Valid) (hlaunched : Launched runner.compiled s command) (last elapsed : Nat)
    (cancellation : Bool) (now nowMs : Nat) : Broadcasts runner s.runId ⟨last, [], [], none⟩
      ((RunLoop.launch runner s last elapsed cancellation now nowMs).apply command).1 := by
  have h : Broadcasts runner s.runId ⟨last, [], [], none⟩ (.launch runner s last elapsed cancellation now nowMs) :=
    ⟨rfl, rfl, hlaunched.sound hv, [], .nothing⟩
  exact h.tryApply hv command

/-- Whatever the launching command and each step of the run make the loop do, and also where an error ends it, the
    events and states it has shown are those of a sequence of commits that the store took beforehand; its events are
    numbered on from where the run was launched, and a run that ends hands out the events and the result of those
    commits. -/
theorem updates_follow_commits [RunnerExternals] (hc : d.compile = .ok runner.compiled) (hlaunched : Launched runner.compiled s command)
    (last elapsed now nowMs : Nat) (cancellation : Bool) (inputs : List LoopInput) :
    let start := Driving.spawn runner s last elapsed command cancellation now nowMs
    let Faithful := fun seen : Broadcast => (∃ commits, Shown runner s.runId ⟨last, [], [], none⟩ commits seen) ∧
      seen.log.map (·.sequence) = List.range' (last + 1) seen.log.length
    Faithful ((RunLoop.launch runner s last elapsed cancellation now nowMs).apply command).1.broadcast ∧
    (∀ st ∈ driver.trace start inputs, ∀ loop, st.pre.Handles st.input loop → Faithful loop.broadcast) ∧
      ∀ output, driver.run start inputs = .ended (.ok output) →
        ∃ seen, Faithful seen ∧ seen.log = output.events ∧ seen.result = some output.result := by
  intro start Faithful
  have hv := valid_of_compile hc
  have hfirst := broadcasts_launch hv hlaunched last elapsed cancellation now nowMs
  have hstart : start.Holds (Broadcasts runner s.runId ⟨last, [], [], none⟩) := Driving.holds_proceed fun _ => hfirst
  refine ⟨⟨hfirst.shown, ?_⟩, fun st hst loop hhandles => ?_, fun output hended => ?_⟩
  · obtain ⟨commits, hshown⟩ := hfirst.shown
    exact hshown.numbered.1
  · obtain ⟨commits, hshown⟩ : ∃ commits, Shown runner s.runId ⟨last, [], [], none⟩ commits loop.broadcast := by
      have h := (broadcasts_kept hv).trace hstart (fun _ _ => Driving.meets_of fun _ _ => trivial) st hst
      generalize st.pre = driving at h hhandles
      generalize st.input = input at hhandles
      cases hhandles with
      | @turn loop m command hnext =>
        obtain ⟨⟨applied, rfl⟩, -⟩ := RunLoop.nextCommand_cases hnext
        have hm := (broadcasts_kept hv).beside loop loop.cancellation applied loop.now loop.nowMs h
        exact (hm.tryApply hv command).shown
      | @wake loop wake => exact (Broadcasts.onWake hv h wake).shown
    exact ⟨⟨commits, hshown⟩, hshown.numbered.1⟩
  · have hrun := (broadcasts_kept hv).run hstart inputs fun _ _ => Driving.meets_of fun _ _ => trivial
    rw [hended] at hrun
    obtain ⟨loop, ⟨-, -, -, commits, hshown⟩, hlog, hresult⟩ := hrun
    exact ⟨_, ⟨⟨commits, hshown⟩, hshown.numbered.1⟩, hlog, hresult⟩

end

section

open Sample

/-- The store takes the start of the run and refuses the admission of its input step, on which the run ends: only the
    start has been shown. -/
theorem updates_follow_commits_line :
    let runner : OrchestrationRunner := { compiled := compiled line, store := some fun envelopes _ =>
      if (envelopes.map (·.sequence)).contains 1 then .ok () else .error (.io "disk full") }
    let start := Driving.spawn runner (.new "run" (compiled line)) 0 0 (.start .null) false 0 0
    let Faithful := fun seen : Broadcast => (∃ commits, Shown runner "run" ⟨0, [], [], none⟩ commits seen) ∧
      seen.log.map (·.sequence) = List.range' 1 seen.log.length
    (∃ error, driver.run start [.turn] = .ended (.error (.persistence error))) ∧
      Faithful ((RunLoop.launch runner (.new "run" (compiled line)) 0 0 false 0 0).apply (.start .null)).1.broadcast ∧
      ∀ st ∈ driver.trace start [.turn], ∀ loop, st.pre.Handles st.input loop → Faithful loop.broadcast := by
  intro runner start Faithful
  have hlaunched : Launched (compiled line) (.new "run" (compiled line)) (.start .null) := .start ⟨"run", {}, rfl⟩
  obtain ⟨hfirst, hsteps, -⟩ := @updates_follow_commits _ _ _ runner _ _ compile_line hlaunched 0 0 0 0 false [.turn]
  exact ⟨⟨_, rfl⟩, hfirst, hsteps⟩

end

end RustyCore
