import RustyCore.Theorems.Workflow.Pairing
import RustyCore.Theorems.Workflow.Progress

/-! The run loop never runs out of work. As long as no failure it reports leaves work behind, a loop whose run has no
    result yet finds a step to admit, or has an attempt or a caller to wait for. -/

namespace RustyCore

open Reducer WorkflowCompiler

/-- The run has been started, and its status is what its steps make it, unless it is over or being cancelled. -/
structure Underway (c : CompiledOrchestration) (s : OrchestrationRunState) : Prop where
  clear : Clear c s
  input : s.input.isSome = true
  derived : s.Closing ∨ s.status = derivedStatus s

/-- The run is under way, and the loop has its result once it is over. -/
structure Proceeding (c : CompiledOrchestration) (loop : RunLoop) : Prop where
  same : loop.runner.compiled = c
  reliable : loop.runner.Reliable
  sound : Sound c loop.state
  underway : Underway c loop.state
  finished : loop.state.status.isTerminal = true → loop.result.isSome = true

section

variable {c : CompiledOrchestration} {s s' : OrchestrationRunState} {effects : List OrchestrationEffect} {loop loop' : RunLoop}

theorem derived_settle : (settle s).Closing ∨ (settle s).status = derivedStatus (settle s) := by
  unfold settle
  split
  · rename_i hover
    exact .inl (by simpa [OrchestrationRunState.Closing] using hover)
  · exact .inr rfl

theorem collectEffects_finish {last timestampMs : Nat} :
    (collectEffects s last timestampMs effects).finish = (finishes (.ok effects)).getLast? := by
  have hloop : ∀ (effects : List OrchestrationEffect) (batch : EffectBatch),
      (effects.foldl (collectEffect s timestampMs) batch).finish = ((finishes (.ok effects)).getLast? <|> batch.finish) := by
    intro effects
    induction effects with
    | nil => exact fun _ => rfl
    | cons effect effects ih =>
      intro batch
      rw [List.foldl_cons, ih]
      cases effect with
      | finish result =>
        show _ = ((result :: finishes (.ok effects)).getLast? <|> _)
        rw [List.getLast?_cons]
        cases (finishes (.ok effects)).getLast? <;> rfl
      | emit | executeStep | cancelStep => rfl
  exact (hloop effects _).trans (by simp)

theorem result_commitDone (loop : RunLoop) (batch : EffectBatch) :
    (loop.commitDone batch).result = (batch.finish <|> loop.result) := by
  unfold RunLoop.commitDone
  dsimp only
  split <;> rfl

theorem Proceeding.quiet (h : Proceeding c loop) (hquiet : RunLoop.Quiet loop loop') : Proceeding c loop' :=
  ⟨hquiet.runner ▸ h.same, hquiet.runner ▸ h.reliable, hquiet.state ▸ h.sound, hquiet.state ▸ h.underway,
    hquiet.state ▸ hquiet.result ▸ h.finished⟩

variable [WorkflowExternals] {command : OrchestrationCommand} {applied : Applied}

theorem input_outcome (h : Outcome c s command applied) (hok : applied.2 = .ok effects) :
    applied.1.input = s.input ∨ applied.1.input.isSome = true := by
  cases h with
  | rejected | leakedSuccess | leakedFailure | stuckSuccess | stuckFailure => cases hok
  | started => exact .inr (by rw [settle_input]; rfl)
  | admitted | advanced | rerouted | retried | sentBack | touched | woken | paused | resumed | restored | replayed =>
    exact .inl settle_input
  | _ => exact .inl rfl

theorem derived_outcome (hs : Sound c s) (hs' : Sound c applied.1) (h : Outcome c s command applied)
    (hok : applied.2 = .ok effects) (hderived : command.Asks → s.Closing ∨ s.status = derivedStatus s) :
    applied.1.Closing ∨ applied.1.status = derivedStatus applied.1 := by
  cases h with
  | rejected | leakedSuccess | leakedFailure | stuckSuccess | stuckFailure => cases hok
  | started | admitted | advanced | rerouted | retried | sentBack | touched | woken | paused | resumed | restored | replayed =>
    exact derived_settle
  | checkpointed hin =>
    have hstatus := (hderived trivial).resolve_left (hs.not_closing hin.found hin.isLive)
    refine .inr (hstatus.trans ?_)
    unfold derivedStatus
    rw [hs.activeStep_eq hin.found hin.active,
      hs'.activeStep_eq (OrchestrationRunState.step_setStep_self hin.found) hin.active]
    rfl
  | cancelling => exact .inl (.inr rfl)
  | _ => exact .inl (.inl rfl)

/-- An accepted command that leaves no work behind keeps a run underway, and so does one that launches it. -/
theorem underway_apply (hv : c.Valid) (hs : Sound c s) (hclear : Clear c s)
    (hinput : s.input.isSome = true ∨ ∃ input, command = .start input)
    (hderived : command.Asks → s.Closing ∨ s.status = derivedStatus s) (hgood : ¬ LeavesBehind c s command)
    (h : apply c s command = (s', .ok effects)) : Underway c s' := by
  by_cases hopen : s.status.isTerminal = true
  · rw [apply_terminal hopen] at h
    cases h
  have hs' := sound_apply hv hs command
  have hmove := move_apply hv hs command
  have houtcome := outcome_apply hv hs (Bool.not_eq_true _ ▸ hopen) command
  rw [h] at hs' hmove houtcome
  refine ⟨clear_move hv hs hs' hclear hmove hgood, ?_, derived_outcome hs hs' houtcome rfl hderived⟩
  rcases input_outcome houtcome rfl with hsame | hsome
  · rcases hinput with hsome | ⟨input, rfl⟩
    · rwa [hsame]
    · cases houtcome with
      | started =>
        rw [settle_input]
        rfl
      | touched hin htouch => cases htouch
  · exact hsome

/-- The loop after an accepted command, which its store takes. -/
theorem proceeding_applied (hv : c.Valid) (hsame : loop.runner.compiled = c) (hreliable : loop.runner.Reliable)
    (hs : Sound c loop.state) (happly : apply c loop.state command = (s', .ok effects)) (hunderway : Underway c s') :
    Proceeding c (loop.tryApply command).1 := by
  subst hsame
  have hs' := sound_apply hv hs command
  obtain ⟨clock, heq⟩ := tryApply_accepted hreliable happly
  obtain ⟨hrunner, hstate⟩ := RunLoop.commitDone_same { loop with state := s', clock }
    (collectEffects s' loop.lastSequence loop.nowMs effects)
  rw [happly] at hs'
  rw [heq]
  refine ⟨congrArg _ hrunner, (congrArg OrchestrationRunner.Reliable hrunner).mpr hreliable, hstate ▸ hs', hstate ▸ hunderway, fun hover => ?_⟩
  rw [hstate] at hover
  by_cases hopen : loop.state.status.isTerminal = true
  · rw [apply_terminal hopen] at happly
    cases happly
  · have houtcome := outcome_apply hv hs (Bool.not_eq_true _ ▸ hopen) command
    rw [happly] at houtcome
    rw [result_commitDone, collectEffects_finish]
    rcases finishes_outcome (Bool.not_eq_true _ ▸ hopen) houtcome with ⟨-, hgoing⟩ | ⟨result, hresult, -⟩
    · rw [hover] at hgoing
      cases hgoing
    · rw [hresult]
      rfl

theorem Proceeding.asks (hv : c.Valid) (h : Proceeding c loop) (hasks : command.Asks) : Proceeding c (loop.tryApply command).1 := by
  obtain ⟨rfl, hreliable, hs, hunderway, hfinished⟩ := h
  rcases happly : apply loop.runner.compiled loop.state command with ⟨s', e | effects⟩
  · obtain rfl := apply_rejected hv hs hasks happly
    rw [tryApply_rejected happly]
    exact ⟨rfl, hreliable, hs, hunderway, hfinished⟩
  · refine proceeding_applied hv rfl hreliable hs happly ?_
    refine underway_apply hv hs hunderway.clear (.inl hunderway.input) (fun _ => hunderway.derived) (fun hleaves => ?_) happly
    cases command with
    | stepFailed => exact hasks
    | _ => exact hleaves

theorem Proceeding.acts (hv : c.Valid) (h : Proceeding c loop) (hacts : RunLoop.Acts loop loop') : Proceeding c loop' := by
  induction hacts with
  | refl => exact h
  | tail _ hact ih =>
    cases hact with
    | quiet hquiet => exact ih.quiet hquiet
    | apply hasks => exact ih.asks hv hasks

/-- A command that launches the run, admits a step or reports how one ended; unless it is accepted, the loop ends. -/
theorem proceeding_apply (hv : c.Valid) (hsame : loop.runner.compiled = c) (hreliable : loop.runner.Reliable)
    (hs : Sound c loop.state) (hclear : Clear c loop.state)
    (hinput : loop.state.input.isSome = true ∨ ∃ input, command = .start input) (hnot : ¬ command.Asks)
    (hgood : ¬ LeavesBehind c loop.state command) (hok : (loop.apply command).2 = .ok ()) :
    Proceeding c (loop.apply command).1 := by
  subst hsame
  unfold RunLoop.apply at hok ⊢
  rcases happly : apply loop.runner.compiled loop.state command with ⟨s', e | effects⟩
  · rw [tryApply_rejected happly] at hok
    cases hok
  · exact proceeding_applied hv rfl hreliable hs happly
      (underway_apply hv hs hclear hinput (fun hasks => absurd hasks hnot) hgood happly)

omit [WorkflowExternals] in
theorem readySteps_ne_nil {id : OrchestrationNodeId} {step : StepRun} (hstatus : s.status = .ready) (hpaused : s.paused = false)
    (hstep : s.steps.get? id = some step) (hready : step.status = .ready) : readySteps c s ≠ [] := by
  have hmem : id ∈ (s.steps.entries.filter (·.2.status == .ready)).map Prod.fst :=
    List.mem_map.mpr ⟨(id, step), List.mem_filter.mpr ⟨OrdMap.mem_entries.mpr hstep, by simp [hready]⟩, rfl⟩
  unfold readySteps
  rw [if_neg (by simp [hstatus, hpaused])]
  intro hnil
  have hlength := congrArg List.length ((List.take_eq_nil_iff.mp hnil).resolve_left Nat.one_ne_zero)
  rw [List.length_insertionSort] at hlength
  rw [List.length_eq_zero_iff.mp hlength] at hmem
  cases hmem

/-- The live step is in flight, and the loop has that attempt, or it can be admitted or tried again. -/
theorem not_stalled (hv : c.Valid) (hpaired : Paired c loop) (h : Proceeding c loop) (hresult : loop.result = none) :
    ∃ m next, loop.nextCommand = (m, .ok next) := by
  rcases heq : loop.nextCommand with ⟨m, outcome⟩
  obtain ⟨-, hnext⟩ := RunLoop.nextCommand_cases heq
  cases hnext with
  | asks | admits | waits => exact ⟨m, _, rfl⟩
  | stalls hidle hcancelling hpaused hnone =>
    have hopen : ¬ loop.state.status.isTerminal = true := fun hover => by
      have hsome := h.finished hover
      rw [hresult] at hsome
      cases hsome
    obtain ⟨l, ⟨step, hstep, hlive⟩, -⟩ := (h.underway.clear.progress hv h.sound).live h.underway.input
      (Bool.not_eq_true _ ▸ hopen) hcancelling
    have hattempt : loop.state.inFlight = none := by
      rw [hpaired.flying.resolve_right fun h => h.elim hopen hcancelling, RunLoop.attempt, hidle]
      rfl
    have hgrounded : step.status.isActive = false := by
      by_contra hactive
      rw [h.sound.inFlight_active hstep (Bool.not_eq_false _ ▸ hactive)] at hattempt
      cases hattempt
    unfold RunLoop.admission at hnone
    split at hnone
    · cases hnone
    · rename_i hfind
      have hretry := List.find?_eq_none.mp hfind (l, step) (OrdMap.mem_entries.mpr hstep)
      have hready : step.status = .ready := by
        simpa [StepStatus.isLive, hgrounded, show step.status ≠ .retryScheduled by simpa using hretry] using hlive
      have hstatus : loop.state.status = .ready := by
        rw [h.underway.derived.resolve_left fun h => h.elim hopen hcancelling]
        unfold derivedStatus
        rw [Option.map_eq_none_iff.mp hattempt, hpaused]
        rfl
      refine absurd ?_ (readySteps_ne_nil (c := loop.runner.compiled) hstatus hpaused hstep hready)
      exact List.head?_eq_none_iff.mp (Option.map_eq_none_iff.mp hnone)

variable [RunnerExternals]

/-- The wake-up makes the loop report a failure that leaves work behind. -/
def RunLoop.LeavesWork (loop : RunLoop) : Wake → Prop
  | .stepDone joined final => ∃ active m active', loop.active = some active ∧
    { loop with active := none }.drainFinalSignals active final = (m, active', .ok ()) ∧
    LeavesBehind m.runner.compiled m.state (m.finishedAttemptCommand active' (m.attemptExecution joined active'))
  | _ => False

theorem Proceeding.onWake (hv : c.Valid) (h : Proceeding c loop) {wake : Wake} (hgood : ¬ loop.LeavesWork wake)
    (hok : (loop.onWake wake).2 = .ok ()) : Proceeding c (loop.onWake wake).1 := by
  have hfree : Proceeding c { loop with active := none } := ⟨h.same, h.reliable, h.sound, h.underway, h.finished⟩
  cases loop.woken wake with
  | acts hacts => exact h.acts hv hacts
  | ends hacts heq =>
    rw [heq]
    exact hfree.acts hv hacts
  | @reports joined final active active' m hactive hacts hdrained heq =>
    rw [heq] at hok ⊢
    have hm := hfree.acts hv hacts
    refine proceeding_apply hv hm.same hm.reliable hm.sound hm.underway.clear (.inl hm.underway.input)
      (m.finishedAttemptCommand_reports active' _).1 (fun hleaves => hgood ?_) hok
    exact ⟨active, m, active', hactive, hdrained, hm.same ▸ hleaves⟩

theorem proceeding_kept (hv : c.Valid) :
    Driving.Kept (fun loop => Paired c loop ∧ Proceeding c loop) fun loop wake => ¬ loop.LeavesWork wake where
  beside loop cancellation cancelApplied now nowMs h :=
    ⟨(paired_kept hv).beside loop cancellation cancelApplied now nowMs h.1,
      h.2.same, h.2.reliable, h.2.sound, h.2.underway, h.2.finished⟩
  apply loop command h hresult hnext hok := by
    refine ⟨(paired_kept hv).apply loop command h.1 hresult hnext hok, ?_⟩
    cases hnext with
    | asks hasks => exact h.2.asks hv hasks
    | admits =>
      exact proceeding_apply hv h.2.same h.2.reliable h.2.sound h.2.underway.clear (.inl h.2.underway.input) id id hok
  onWake loop wake h hgood hok := ⟨(paired_kept hv).onWake loop wake h.1 trivial hok, h.2.onWake hv hgood hok⟩

end

/-- How a run is launched that nothing was left behind in: it is started afresh, or recovered after commands that
    have started it. -/
inductive LaunchedClear [WorkflowExternals] (c : CompiledOrchestration) : OrchestrationRunState → OrchestrationCommand → Prop
  | start {s input} (h : Fresh c s) : LaunchedClear c s (.start input)
  | recover {s commands} (h : Fresh c s)
      (hgood : ∀ st ∈ (reducer c).trace s commands, ¬ LeavesBehind c st.pre st.input)
      (hstarted : ((reducer c).run s commands).input.isSome = true) :
      LaunchedClear c ((reducer c).run s commands) .recover

section

variable [WorkflowExternals] {c : CompiledOrchestration} {s : OrchestrationRunState} {command : OrchestrationCommand}

theorem LaunchedClear.sound (hv : c.Valid) (h : LaunchedClear c s command) : Sound c s ∧ Clear c s := by
  cases h with
  | start h => exact ⟨sound_fresh h, clear_fresh h⟩
  | recover h hgood =>
    refine Machine.run_rule (P := fun s => Sound c s ∧ Clear c s) (fun s command hs hgood => ?_)
      ⟨sound_fresh h, clear_fresh h⟩ hgood
    have hs' := sound_apply hv hs.1 command
    exact ⟨hs', clear_move hv hs.1 hs' hs.2 (move_apply hv hs.1 command) hgood⟩

theorem LaunchedClear.launches (h : LaunchedClear c s command) : (s.input.isSome = true ∨ ∃ input, command = .start input) ∧
    ¬ command.Asks ∧ ¬ LeavesBehind c s command := by
  cases h with
  | start => exact ⟨.inr ⟨_, rfl⟩, id, id⟩
  | recover h hgood hstarted => exact ⟨.inl hstarted, id, id⟩

variable [RunnerExternals] {runner : OrchestrationRunner} {d : OrchestrationDefinition}

/-- While its store takes every commit and no failure it reports leaves work behind, the loop has something to do or to
    wait for on each of its turns, until it has the result of the run. -/
theorem loop_never_stalls (hc : d.compile = .ok runner.compiled) (hreliable : runner.Reliable)
    (hlaunched : LaunchedClear runner.compiled s command) (last elapsed now nowMs : Nat) (cancellation : Bool)
    (inputs : List LoopInput) :
    let start := Driving.spawn runner s last elapsed command cancellation now nowMs
    (∀ st ∈ driver.trace start inputs, st.pre.Meets (fun loop wake => ¬ loop.LeavesWork wake) st.input) →
      ∀ st ∈ driver.trace start inputs, ∀ loop, st.pre = .deciding loop → loop.result = none →
        ∃ m next, loop.nextCommand = (m, .ok next) := by
  intro start hgood st hst loop hpre hresult
  have hv := valid_of_compile hc
  obtain ⟨hs, hclear⟩ := hlaunched.sound hv
  obtain ⟨hinput, hnot, hleaves⟩ := hlaunched.launches
  have hstart : start.Holds fun loop => Paired runner.compiled loop ∧ Proceeding runner.compiled loop :=
    Driving.holds_proceed fun hok =>
      ⟨paired_apply hv ⟨rfl, hs, .inl rfl⟩ rfl hnot hok, proceeding_apply hv rfl hreliable hs hclear hinput hnot hleaves hok⟩
  have h := (proceeding_kept hv).trace hstart hgood st hst
  rw [hpre] at h
  exact not_stalled hv h.1 h.2 hresult

end

namespace Sample

def calm : Driving → Bool
  | .waiting loop => !loop.active.any (·.stalled)
  | _ => true

/-- An attempt that has not stalled and was successful reports no failure. -/
theorem not_leavesWork {loop : RunLoop} (h : calm (.waiting loop) = true) (output : Value) (details : AttemptDetails) :
    ¬ loop.LeavesWork (.stepDone (.ok ⟨.ok output, details⟩) []) := by
  rintro ⟨active, m, active', hactive, hdrained, hleaves⟩
  cases hdrained
  have hcalm : active.stalled = false := by simpa [calm, hactive] using h
  simp only [RunLoop.finishedAttemptCommand, RunLoop.attemptExecution, hcalm] at hleaves
  exact hleaves

end Sample

section

open Sample List

theorem loop_never_stalls_line : line.compile = .ok (compiled line) ∧ storing.Reliable ∧
    LaunchedClear (compiled line) (.new "run" (compiled line)) (.start .null) ∧
    (∀ st ∈ driver.trace launchedStoring served, st.pre.Meets (fun loop wake => ¬ loop.LeavesWork wake) st.input) ∧
    ∀ st ∈ driver.trace launchedStoring served, ∀ loop, st.pre = .deciding loop → loop.result = none →
      ∃ m next, loop.nextCommand = (m, .ok next) := by
  have hreliable : storing.Reliable := by
    rintro commit ⟨⟩ envelopes snapshot
    rfl
  have hlaunched : LaunchedClear (compiled line) (.new "run" (compiled line)) (.start .null) := .start ⟨"run", {}, rfl⟩
  have hcalm : (driver.trace launchedStoring served).all (fun st => calm st.pre) = true := by decide
  have hgood : ∀ st ∈ driver.trace launchedStoring served,
      st.pre.Meets (fun loop wake => ¬ loop.LeavesWork wake) st.input := by
    intro st hst
    have hpre := all_eq_true.mp hcalm st hst
    have hinput : st.input ∈ served := Machine.input_mem hst
    generalize st.pre = pre at hpre ⊢
    simp only [served, mem_cons, not_mem_nil, or_false] at hinput
    rcases hinput with h | h | h | h <;> rw [h] <;> cases pre <;> first | trivial | exact not_leavesWork hpre _ _
  exact ⟨compile_line, hreliable, hlaunched, hgood,
    loop_never_stalls compile_line hreliable hlaunched 0 0 0 0 false served hgood⟩

end

end RustyCore
