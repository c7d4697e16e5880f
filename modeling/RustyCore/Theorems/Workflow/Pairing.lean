import RustyCore.Theorems.Workflow.Broadcast
import RustyCore.Theorems.Workflow.FinalOutput

/-! The run loop and the reducer agree on what is executed. While a run goes on, the loop executes the attempt that the
    run has in flight and no other, and it takes none up before the last one has ended. -/

namespace RustyCore

open Reducer WorkflowCompiler

/-- The attempt that the run has in flight. -/
def OrchestrationRunState.inFlight (s : OrchestrationRunState) : Option (OrchestrationNodeId × Nat) :=
  s.activeStep.map fun entry => (entry.1, entry.2.attempts.length)

/-- The run is over, or being cancelled. -/
def OrchestrationRunState.Closing (s : OrchestrationRunState) : Prop := s.status.isTerminal = true ∨ s.status = .cancelling

/-- The effects start no attempt. -/
def Reducer.Flightless (effects : List OrchestrationEffect) : Prop :=
  ∀ e ∈ effects, ∀ id attempt, e ≠ .executeStep id attempt

/-- What an accepted command does about the attempt in flight. -/
inductive Flight (s : OrchestrationRunState) : OrchestrationCommand → OrchestrationRunState → List OrchestrationEffect → Prop
  | takesOff {s' id attempt} (hflying : s'.inFlight = some (id, attempt)) :
      Flight s (.stepAdmitted id attempt) s' [.emit (.stepStarted id attempt), .executeStep id attempt]
  | closes {command s' effects} (hrests : Flightless effects) (hclosing : s'.Closing) :
      Flight s command s' effects
  | holds {command s' effects} (hrests : Flightless effects) (hasks : command.Asks)
      (hsame : s'.inFlight = s.inFlight) (hclosing : s.Closing → s'.Closing) :
      Flight s command s' effects
  | lands {command s' effects} (hrests : Flightless effects) (hnot : ¬ command.Asks) (hnone : s'.inFlight = none) :
      Flight s command s' effects

section

variable {c : CompiledOrchestration} {s s' : OrchestrationRunState} {id : OrchestrationNodeId} {step : StepRun}

theorem Sound.inFlight_active (hs : Sound c s) (hstep : s.steps.get? id = some step) (hactive : step.status.isActive = true) :
    s.inFlight = some (id, step.attempts.length) := by
  rw [OrchestrationRunState.inFlight, hs.activeStep_eq hstep hactive]
  rfl

theorem Idle.inFlight (h : Idle s) : s.inFlight = none := by
  refine Option.map_eq_none_iff.mpr (List.find?_eq_none.mpr fun entry hmem => ?_)
  rw [h entry.1 entry.2 (OrdMap.mem_entries.mp hmem)]
  exact Bool.false_ne_true

theorem inFlight_congr (h : s'.steps = s.steps) : s'.inFlight = s.inFlight := by
  unfold OrchestrationRunState.inFlight OrchestrationRunState.activeStep
  rw [h]

theorem Sound.not_closing (hs : Sound c s) (hstep : s.steps.get? id = some step) (hlive : step.status.isLive = true) :
    ¬ s.Closing := by
  obtain ⟨hopen, hcancelling, -⟩ := hs.going hstep hlive
  rintro (hover | hover)
  · rw [hopen] at hover
    cases hover
  · exact hcancelling hover

namespace Reducer

variable {effects more : List OrchestrationEffect}

theorem Emits.flightless (h : Emits effects) : Flightless effects := by
  rintro e he id attempt rfl
  obtain ⟨event, hevent⟩ := h _ he
  cases hevent

theorem Stops.flightless (h : Stops effects) : Flightless effects := by
  rintro e he id attempt rfl
  obtain ⟨id', attempt', hstop⟩ := h _ he
  cases hstop

theorem Flightless.finish (h : Flightless effects)
    (hmore : ∀ e ∈ more, (∃ event, e = .emit event) ∨ ∃ result, e = .finish result) :
    Flightless (effects ++ more) := by
  intro e he id attempt heq
  rcases List.mem_append.mp he with he | he
  · exact h e he id attempt heq
  · rcases hmore e he with ⟨event, rfl⟩ | ⟨result, rfl⟩ <;> cases heq

end Reducer

variable [WorkflowExternals] {command : OrchestrationCommand} {applied : Applied} {effects : List OrchestrationEffect}

theorem flight_outcome (hs : Sound c s) (hs' : Sound c applied.1) (hopen : s.status.isTerminal = false)
    (h : Outcome c s command applied) (hok : applied.2 = .ok effects) : Flight s command applied.1 effects := by
  have hfail : ∀ t error, ∀ e ∈ failedEffects t error, (∃ event, e = .emit event) ∨ ∃ result, e = .finish result := by
    simp [failedEffects]
  have hnil : Flightless [] := fun _ he => absurd he List.not_mem_nil
  cases h with
  | rejected | leakedSuccess | leakedFailure | stuckSuccess | stuckFailure => cases hok
  | started hcreated hstep hes =>
    cases hok
    exact .lands hes.flightless id (idle_of_waiting hs' settle_steps hstep rfl rfl).inFlight
  | denied =>
    cases hok
    exact .closes (hnil.finish (hfail _ _)) (.inl rfl)
  | @admitted id attempt step hready hpaused hstep hstatus hattempt =>
    cases hok
    refine .takesOff ?_
    let step' : StepRun := { step with status := .running, attempts := step.attempts ++ [{ attempt, status := .running }] }
    have hstep' : (settle (({ s with totalAttempts := s.totalAttempts + 1 } : OrchestrationRunState).setStep id fun _ =>
        step')).steps.get? id = some step' := by
      rw [settle_steps]
      exact OrchestrationRunState.step_setStep_self hstep
    rw [hs'.inFlight_active hstep' rfl, List.length_append, hattempt]
    rfl
  | completed hin hrunning hkind hresult hes =>
    cases hok
    exact .closes (hes.flightless.finish (by simp)) (.inl rfl)
  | failed hnode hin hretry hback hedge hes =>
    cases hok
    exact .closes (hes.flightless.finish (hfail _ _)) (.inl rfl)
  | aborted hes =>
    cases hok
    exact .closes (hes.flightless.finish (hfail _ _)) (.inl rfl)
  | cancelling hcancelling hstep hactive hes =>
    cases hok
    exact .closes hes.flightless (.inr rfl)
  | cancelled | cancellationCompleted | restoredCancelling =>
    cases hok
    exact .closes (hnil.finish (by simp)) (.inl rfl)
  | interrupted =>
    cases hok
    exact .closes (hnil.finish (List.forall_mem_cons.mpr ⟨.inl ⟨_, rfl⟩, hfail _ _⟩)) (.inl rfl)
  | @advanced source _ _ _ _ next current edge es hin hrunning hkind hedge hnext hpending hes =>
    cases hok
    obtain ⟨st, hst⟩ := exists_setStep source hnext
    exact .lands hes.flightless id (idle_of_waiting hs' settle_steps hst rfl rfl).inFlight
  | @rerouted source _ _ _ _ _ next current edge es hnode hin hretry hback hedge hnext hpending hes =>
    cases hok
    obtain ⟨st, hst⟩ := exists_setStep source hnext
    exact .lands hes.flightless id (idle_of_waiting hs' settle_steps hst rfl rfl).inFlight
  | retried hnode hin hretry hes =>
    cases hok
    exact .lands hes.flightless id (idle_of_waiting hs' settle_steps hin.found rfl rfl).inFlight
  | @sentBack source target _ error _ _ _ _ span revise _ hnode hin hretry hback hlink hes =>
    cases hok
    refine .lands hes.flightless id (Idle.inFlight fun k st hst => ?_)
    obtain ⟨old, hold⟩ := hs.exists_step hlink.target_node
    by_cases hk : k = target
    · subst hk
      rw [settle_steps, OrdMap.get?_mapEntries, hold, Option.map_some, sentBackStep, if_pos rfl] at hst
      cases hst
      rfl
    · refine hs'.isActive_other ⟨targetStep target error revise old, ?_, rfl⟩ hst hk
      rw [settle_steps, OrdMap.get?_mapEntries, hold, Option.map_some, sentBackStep, if_pos rfl]
  | @touched _ id attempt step step' current event hin htouch =>
    cases hok
    obtain ⟨hactive, hattempts⟩ := htouch.isActive hin.active
    have hstep' : (settle (s.setStep id fun _ => step')).steps.get? id = some step' := by
      rw [settle_steps]
      exact OrchestrationRunState.step_setStep_self hin.found
    refine .holds (by simp [Flightless]) (by cases htouch <;> trivial) ?_ fun h => absurd h (hs.not_closing hin.found hin.isLive)
    rw [hs'.inFlight_active hstep' hactive, hs.inFlight_active hin.found hin.active, hattempts]
  | @checkpointed id attempt value step current event hin =>
    cases hok
    refine .holds (by simp [Flightless]) trivial ?_ fun h => absurd h (hs.not_closing hin.found hin.isLive)
    rw [hs'.inFlight_active (OrchestrationRunState.step_setStep_self hin.found) hin.active, hs.inFlight_active hin.found hin.active]
  | @woken id step hstep hstatus =>
    cases hok
    have hlive : step.status.isLive = true := by rw [hstatus]; rfl
    refine .holds (by simp [Flightless]) trivial ?_ fun h => absurd h (hs.not_closing hstep hlive)
    rw [(idle_of_waiting hs' settle_steps hstep rfl rfl).inFlight]
    refine (Idle.inFlight fun k st hst => ?_).symm
    by_cases hk : k = id
    · subst hk
      rw [hstep] at hst
      cases hst
      rw [hstatus]
      rfl
    · exact hs.isActive_other ⟨step, hstep, hlive⟩ hst hk
  | paused hpaused hcreated hcancelling =>
    cases hok
    refine .holds (by simp [Flightless]) trivial (inFlight_congr settle_steps) fun h => ?_
    exact absurd h (by rw [OrchestrationRunState.Closing, hopen]; simpa using hcancelling)
  | resumed hpaused =>
    cases hok
    refine .holds (by simp [Flightless]) trivial (inFlight_congr settle_steps) fun h => ?_
    rcases h with h | h
    · rw [hopen] at h
      cases h
    · rw [settle_over (s := { s with paused := false }) (.inr h)]
      exact .inr h
  | restored hcancelling hnone =>
    cases hok
    refine .lands (by simp [Flightless]) id (Idle.inFlight fun k st hst => hnone k st ?_)
    rwa [settle_steps] at hst
  | replayed hcancelling hin =>
    cases hok
    exact .lands (by simp [Flightless]) id (idle_of_waiting hs' settle_steps hin.found rfl rfl).inFlight

theorem flight_apply (hv : c.Valid) (hs : Sound c s) (h : apply c s command = (s', .ok effects)) :
    Flight s command s' effects := by
  by_cases hopen : s.status.isTerminal = true
  · rw [apply_terminal hopen] at h
    cases h
  · have hs' := sound_apply hv hs command
    have houtcome := outcome_apply hv hs (Bool.not_eq_true _ ▸ hopen) command
    rw [h] at hs' houtcome
    exact flight_outcome hs hs' (Bool.not_eq_true _ ▸ hopen) houtcome rfl

theorem apply_rejected (hv : c.Valid) (hs : Sound c s) (hasks : command.Asks) {e : TransitionError}
    (h : apply c s command = (s', .error e)) : s' = s := by
  by_cases hopen : s.status.isTerminal = true
  · rw [apply_terminal hopen] at h
    cases h
    rfl
  · have houtcome := outcome_apply hv hs (Bool.not_eq_true _ ▸ hopen) command
    rw [h] at houtcome
    cases houtcome with
    | rejected => rfl
    | leakedSuccess | leakedFailure | stuckSuccess | stuckFailure => cases hasks

end

/-- The run has the attempt in flight, unless it is over or being cancelled. -/
structure Expects (c : CompiledOrchestration) (attempt : Option (OrchestrationNodeId × Nat)) (loop : RunLoop) : Prop where
  same : loop.runner.compiled = c
  sound : Sound c loop.state
  flying : loop.state.inFlight = attempt ∨ loop.state.Closing

/-- The loop executes what the run has in flight. -/
def Paired (c : CompiledOrchestration) (loop : RunLoop) : Prop := Expects c loop.attempt loop

section

variable {c : CompiledOrchestration} {attempt : Option (OrchestrationNodeId × Nat)} {loop loop' : RunLoop}
  {s' : OrchestrationRunState} {effects : List OrchestrationEffect}

theorem collectEffects_flightless {last timestampMs : Nat} (h : Flightless effects) :
    (collectEffects s' last timestampMs effects).execute = none := by
  have hloop : ∀ (effects : List OrchestrationEffect), Flightless effects → ∀ batch : EffectBatch, batch.execute = none →
      (effects.foldl (collectEffect s' timestampMs) batch).execute = none := by
    intro effects
    induction effects with
    | nil => exact fun _ batch h => h
    | cons effect effects ih =>
      intro hrests batch h
      refine ih (fun e he => hrests e (List.mem_cons_of_mem _ he)) _ ?_
      cases effect with
      | executeStep id attempt => exact absurd rfl (hrests _ List.mem_cons_self id attempt)
      | emit | finish | cancelStep => exact h
  exact hloop effects h _ rfl

theorem attempt_commitDone (loop : RunLoop) (batch : EffectBatch) :
    (loop.commitDone batch).attempt = (batch.execute <|> loop.attempt) := by
  unfold RunLoop.commitDone
  dsimp only
  cases batch.execute with
  | none =>
    refine (RunLoop.quiet_withActive (f := fun active => if batch.cancels.contains (active.nodeId, active.attempt) then
      { active with cancelled := true } else active) fun active => ?_).attempt
    split <;> exact ⟨rfl, rfl⟩
  | some execute => rfl

theorem Expects.quiet (h : Expects c attempt loop) (hquiet : RunLoop.Quiet loop loop') : Expects c attempt loop' :=
  ⟨hquiet.runner ▸ h.same, hquiet.state ▸ h.sound, hquiet.state ▸ h.flying⟩

variable [WorkflowExternals] {command : OrchestrationCommand}

/-- The store refuses the commit of an accepted command, and the loop keeps the new state to itself, or it takes it. -/
theorem tryApply_cases (h : apply loop.runner.compiled loop.state command = (s', .ok effects)) : ∃ clock,
    (∃ e, loop.tryApply command = ({ loop with state := s', clock }, .error (.fatal (.persistence e)))) ∨
      loop.tryApply command = (({ loop with state := s', clock } : RunLoop).commitDone
        (collectEffects s' loop.lastSequence loop.nowMs effects), .ok ()) := by
  refine ⟨loop.clock.trackInputWait loop.now (s'.status == OrchestrationStatus.waitingForInput), ?_⟩
  unfold RunLoop.tryApply
  rw [h]
  dsimp only
  split
  · rename_i e he
    exact .inl ⟨e, rfl⟩
  · exact .inr rfl

theorem attempt_tryApply (hv : c.Valid) (h : Expects c attempt loop) (hnot : ∀ id n, command ≠ .stepAdmitted id n) :
    (loop.tryApply command).1.attempt = loop.attempt := by
  obtain ⟨rfl, hs, -⟩ := h
  rcases happly : apply loop.runner.compiled loop.state command with ⟨s', e | effects⟩
  · rw [tryApply_rejected happly]
    rfl
  · have hrests : Flightless effects := by
      cases flight_apply hv hs happly with
      | takesOff => exact absurd rfl (hnot _ _)
      | closes hrests | holds hrests | lands hrests => exact hrests
    obtain ⟨clock, ⟨e, heq⟩ | heq⟩ := tryApply_cases happly
    · rw [heq]
      rfl
    · rw [heq, attempt_commitDone, collectEffects_flightless hrests]
      rfl

theorem state_tryApply (h : apply loop.runner.compiled loop.state command = (s', .ok effects)) :
    (loop.tryApply command).1.runner = loop.runner ∧ (loop.tryApply command).1.state = s' := by
  obtain ⟨clock, ⟨e, heq⟩ | heq⟩ := tryApply_cases h <;> rw [heq]
  · exact ⟨rfl, rfl⟩
  · exact RunLoop.commitDone_same _ _

theorem Expects.asks (hv : c.Valid) (h : Expects c attempt loop) (hasks : command.Asks) :
    Expects c attempt (loop.tryApply command).1 := by
  obtain ⟨rfl, hs, hflying⟩ := h
  rcases happly : apply loop.runner.compiled loop.state command with ⟨s', e | effects⟩
  · obtain rfl := apply_rejected hv hs hasks happly
    rw [tryApply_rejected happly]
    exact ⟨rfl, hs, hflying⟩
  · obtain ⟨hrunner, hstate⟩ := state_tryApply happly
    have hs' := sound_apply hv hs command
    rw [happly] at hs'
    refine ⟨congrArg _ hrunner, hstate ▸ hs', ?_⟩
    rw [hstate]
    cases flight_apply hv hs happly with
    | takesOff => cases hasks
    | closes hrests hclosing => exact .inr hclosing
    | holds hrests hasks hsame hclosing => exact hflying.imp hsame.trans hclosing
    | lands hrests hnot => exact absurd hasks hnot

theorem Expects.acts (hv : c.Valid) (h : Expects c attempt loop) (hacts : RunLoop.Acts loop loop') :
    Expects c attempt loop' ∧ loop'.attempt = loop.attempt := by
  induction hacts with
  | refl => exact ⟨h, rfl⟩
  | tail _ hact ih =>
    cases hact with
    | quiet hquiet => exact ⟨ih.1.quiet hquiet, hquiet.attempt.trans ih.2⟩
    | apply hasks =>
      refine ⟨ih.1.asks hv hasks, (attempt_tryApply hv ih.1 ?_).trans ih.2⟩
      rintro id n rfl
      cases hasks

/-- A loop without an attempt reports one that has ended, or takes up the next one. -/
theorem paired_apply (hv : c.Valid) (h : Expects c attempt loop) (hidle : loop.attempt = none) (hnot : ¬ command.Asks)
    (hok : (loop.apply command).2 = .ok ()) : Paired c (loop.apply command).1 := by
  obtain ⟨rfl, hs, -⟩ := h
  unfold RunLoop.apply at hok ⊢
  rcases happly : apply loop.runner.compiled loop.state command with ⟨s', e | effects⟩
  · rw [tryApply_rejected happly] at hok
    cases hok
  · have hs' := sound_apply hv hs command
    rw [happly] at hs'
    obtain ⟨clock, ⟨e, heq⟩ | heq⟩ := tryApply_cases happly
    · rw [heq] at hok
      cases hok
    · rw [heq]
      dsimp only
      obtain ⟨hrunner, hstate⟩ := RunLoop.commitDone_same { loop with state := s', clock }
        (collectEffects s' loop.lastSequence loop.nowMs effects)
      refine ⟨congrArg _ hrunner, hstate ▸ hs', ?_⟩
      rw [hstate, attempt_commitDone]
      cases flight_apply hv hs happly with
      | takesOff hflying => exact .inl hflying
      | closes hrests hclosing => exact .inr hclosing
      | holds hrests hasks => exact absurd hasks hnot
      | lands hrests hnot hnone =>
        rw [collectEffects_flightless hrests]
        exact .inl (hnone.trans hidle.symm)

variable [RunnerExternals]

theorem paired_onWake (hv : c.Valid) (h : Paired c loop) {wake : Wake} (hwoken : RunLoop.Woken loop wake) :
    ((loop.onWake wake).2 = .ok () → Paired c (loop.onWake wake).1) ∧
      ((loop.onWake wake).1.attempt = loop.attempt ∨
        (loop.onWake wake).1.attempt = none ∧ ∃ joined final, wake = .stepDone joined final) := by
  have hfree : Expects c loop.attempt { loop with active := none } := ⟨h.same, h.sound, h.flying⟩
  cases hwoken with
  | acts hacts =>
    obtain ⟨hkept, hsame⟩ := Expects.acts hv h hacts
    exact ⟨fun _ => ⟨hkept.same, hkept.sound, hsame ▸ hkept.flying⟩, .inl hsame⟩
  | ends hacts heq hover =>
    obtain ⟨hm, hnone⟩ := hfree.acts hv hacts
    rw [heq]
    exact ⟨fun hok => ⟨hm.same, hm.sound, .inr (hover hok)⟩, .inr ⟨hnone, _, _, rfl⟩⟩
  | @reports joined final active active' m hactive hacts hdrained heq =>
    obtain ⟨hm, hnone⟩ := hfree.acts hv hacts
    obtain ⟨hnot, hne⟩ := m.finishedAttemptCommand_reports active' (m.attemptExecution joined active')
    rw [heq]
    exact ⟨paired_apply hv hm hnone hnot, .inr ⟨(attempt_tryApply hv hm hne).trans hnone, _, _, rfl⟩⟩

theorem paired_kept (hv : c.Valid) : Driving.Kept (Paired c) fun _ _ => True where
  beside _ _ _ _ _ h := ⟨h.same, h.sound, h.flying⟩
  apply loop command h _ hnext hok := by
    cases hnext with
    | asks hasks =>
      have hkept := (h.asks hv hasks).flying
      rw [← (h.acts hv (.single (.apply hasks))).2] at hkept
      exact ⟨(h.asks hv hasks).same, (h.asks hv hasks).sound, hkept⟩
    | admits hidle => exact paired_apply hv h (by rw [RunLoop.attempt, hidle]; rfl) id hok
  onWake loop wake h _ hok := (paired_onWake hv h (loop.woken wake)).1 hok

end

/-- The loop, unless it is over. -/
def Driving.loop? : Driving → Option RunLoop
  | .deciding loop | .waiting loop => some loop
  | .ended _ => none

/-- How the attempt of the loop changes: it is taken up on a turn of a loop that has none, and given up when it is done. -/
inductive Handover (before after : RunLoop) : LoopInput → Prop
  | keeps {input : LoopInput} (h : after.attempt = before.attempt) : Handover before after input
  | takes (h : before.attempt = none) : Handover before after .turn
  | gives {joined : Except String StepExecution} {final : List StepSignal} (h : after.attempt = none) :
      Handover before after (.wake (.stepDone joined final))

section

variable {c : CompiledOrchestration}

theorem Driving.loop?_proceed {handled : Handled} {loop : RunLoop} (h : (Driving.proceed handled).loop? = some loop) :
    handled.1 = loop := by
  obtain ⟨m, e | ⟨⟩⟩ := handled
  · cases h
  · exact Option.some.inj h

variable [WorkflowExternals] [RunnerExternals]

theorem handover_step (hv : c.Valid) {driving : Driving} (h : driving.Holds (Paired c)) (input : LoopInput)
    {before after : RunLoop} (hbefore : driving.loop? = some before) (hafter : (driving.step input).loop? = some after) :
    Handover before after input := by
  cases driving with
  | ended => cases hbefore
  | deciding loop =>
    cases hbefore
    cases input with
    | wake | cancel | tick =>
      cases hafter
      exact .keeps rfl
    | turn =>
      change (Driving.turn before).loop? = some after at hafter
      unfold Driving.turn at hafter
      cases hresult : before.result with
      | some result =>
        rw [hresult] at hafter
        cases hafter
      | none =>
        rcases heq : before.nextCommand with ⟨m, e | command⟩
        · rw [hresult, heq] at hafter
          cases hafter
        · obtain ⟨⟨applied, rfl⟩, hnext⟩ := RunLoop.nextCommand_cases heq
          rw [hresult, heq] at hafter
          cases hnext with
          | asks hasks =>
            have hm : Expects c before.attempt { before with cancelApplied := applied } := ⟨h.same, h.sound, h.flying⟩
            rw [← Driving.loop?_proceed hafter]
            exact .keeps (hm.acts hv (.single (.apply hasks))).2
          | admits hidle => exact .takes (by rw [RunLoop.attempt, hidle]; rfl)
          | waits =>
            cases hafter
            exact .keeps rfl
  | waiting loop =>
    cases hbefore
    cases input with
    | turn | cancel | tick =>
      cases hafter
      exact .keeps rfl
    | wake wake =>
      change (if before.listens wake then Driving.proceed (before.onWake wake) else .waiting before).loop? = some after at hafter
      split at hafter
      · rw [← Driving.loop?_proceed hafter]
        obtain hsame | ⟨hnone, joined, final, rfl⟩ := (paired_onWake hv h (before.woken wake)).2
        · exact .keeps hsame
        · exact .gives hnone
      · cases hafter
        exact .keeps rfl

omit [RunnerExternals] in
theorem Launched.not_asks {s : OrchestrationRunState} {command : OrchestrationCommand} (h : Launched c s command) :
    ¬ command.Asks := by
  cases h <;> exact id

variable {runner : OrchestrationRunner} {d : OrchestrationDefinition} {s : OrchestrationRunState} {command : OrchestrationCommand}

omit [RunnerExternals] in
theorem paired_spawn (hv : runner.compiled.Valid) (hs : Sound runner.compiled s) (hnot : ¬ command.Asks)
    (last elapsed now nowMs : Nat) (cancellation : Bool) :
    (Driving.spawn runner s last elapsed command cancellation now nowMs).Holds (Paired runner.compiled) := by
  have h : Expects runner.compiled s.inFlight { runner, state := s, lastSequence := last, clock := ⟨elapsed, now, 0, none⟩, cancellation, now, nowMs } :=
    ⟨rfl, hs, .inl rfl⟩
  exact Driving.holds_proceed (paired_apply hv h rfl hnot)

/-- As long as its run is neither over nor being cancelled, the loop executes just what the run has in flight, whatever
    wakes it; it takes up an attempt only when it has none, and gives it up only when it is done. -/
theorem loop_executes_what_is_in_flight (hc : d.compile = .ok runner.compiled) (hlaunched : Launched runner.compiled s command)
    (last elapsed now nowMs : Nat) (cancellation : Bool) (inputs : List LoopInput) :
    ∀ st ∈ driver.trace (.spawn runner s last elapsed command cancellation now nowMs) inputs,
      ∀ loop, st.pre.loop? = some loop → (loop.state.Closing ∨ loop.attempt = loop.state.inFlight) ∧
        ∀ after, (st.pre.step st.input).loop? = some after → Handover loop after st.input := by
  intro st hst loop hloop
  have hv := valid_of_compile hc
  have h := (paired_kept hv).trace (paired_spawn hv (hlaunched.sound hv) hlaunched.not_asks last elapsed now nowMs cancellation)
    (fun _ _ => Driving.meets_of fun _ _ => trivial) st hst
  refine ⟨?_, fun after hafter => handover_step hv h st.input hloop hafter⟩
  generalize st.pre = driving at h hloop
  cases driving with
  | ended => cases hloop
  | deciding | waiting =>
    cases hloop
    exact h.flying.symm.imp_right Eq.symm

end

section

open Sample

theorem loop_executes_what_is_in_flight_line : line.compile = .ok (compiled line) ∧
    Launched (compiled line) (.new "run" (compiled line)) (.start .null) ∧
    ∀ st ∈ driver.trace launchedStoring served, ∀ loop, st.pre.loop? = some loop →
      (loop.state.Closing ∨ loop.attempt = loop.state.inFlight) ∧
        ∀ after, (st.pre.step st.input).loop? = some after → Handover loop after st.input := by
  have hlaunched : Launched (compiled line) (.new "run" (compiled line)) (.start .null) := .start ⟨"run", {}, rfl⟩
  exact ⟨compile_line, hlaunched, loop_executes_what_is_in_flight compile_line
    hlaunched 0 0 0 0 false served⟩

end

end RustyCore
