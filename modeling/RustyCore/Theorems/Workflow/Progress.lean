import RustyCore.Theorems.Workflow.Atomic
import RustyCore.Theorems.Workflow.Moves

/-! Progress. Nothing downstream of the live step of a run has been run, so the run never meets a route that is
    blocked, and a run that has started has a live step until it ends. A send-back can break this, by leaving
    behind a step downstream of its target that lies on no path to the step it comes from. -/

namespace RustyCore

open Reducer WorkflowCompiler

section

variable [WorkflowExternals] (c : CompiledOrchestration) (s : OrchestrationRunState)

/-- The live step has only pending steps downstream, no command finds its route blocked, and a run that has
    started and is neither over nor being cancelled has exactly one live step. -/
structure Progress : Prop where
  ahead : ∀ l b, s.Live l → c.Below l b → ∀ step, s.steps.get? b = some step → step.status = .pending
  routes : ∀ command e, (apply c s command).2 = .error e → e.code ≠ "target_not_pending"
  live : s.input.isSome = true → s.status.isTerminal = false → s.status ≠ .cancelling → ∃! l, s.Live l

/-- The failure sends work back to a step that has, downstream and on no path to the failed step, a step that
    has been run: the send-back does not reset that one. -/
def LeavesBehind : OrchestrationCommand → Prop
  | .stepFailed id attempt error details => ∃ node step current target revise, c.node id = some node ∧
      InFlight c s id attempt step current ∧
      retriesSame node.retry error attempt step.retryBase (budgetLeft c s details) = false ∧
      SendsBack c s id attempt error details node target revise ∧
      ∃ b other, c.Below target b ∧ b ≠ id ∧ ¬ c.Below b id ∧ s.steps.get? b = some other ∧ other.status ≠ .pending
  | _ => False

end

structure Clear (c : CompiledOrchestration) (s : OrchestrationRunState) : Prop where
  ahead : ∀ l b, s.Live l → c.Below l b → ∀ step, s.steps.get? b = some step → step.status = .pending
  fresh : s.status = .created → s.input = none ∧ ∀ k step, s.steps.get? k = some step → step.status = .pending
  live : s.input.isSome = true → Going s.status → ∃ l, s.Live l

section

variable {c : CompiledOrchestration} {s s' : OrchestrationRunState} {id l : OrchestrationNodeId} {step step' : StepRun}

theorem clear_fresh (h : Fresh c s) : Clear c s := by
  have hnone := (sound_fresh h).idle
  obtain ⟨runId, options, rfl⟩ := h
  refine ⟨fun l b hl => (hnone (Or.inr (Or.inr rfl)) l hl).elim, fun _ => ⟨rfl, fun k step hstep => ?_⟩,
    fun h => by cases h⟩
  obtain ⟨-, -, rfl⟩ := Option.map_eq_some_iff.mp (OrdMap.get?_mapEntries.symm.trans hstep)
  rfl

theorem Clear.of_live (hs : Sound c s) (hlive : s.Live l)
    (hahead : ∀ b, c.Below l b → ∀ step, s.steps.get? b = some step → step.status = .pending) : Clear c s := by
  obtain ⟨step, hstep, hstatus⟩ := hlive
  refine ⟨fun l' b hl' hbelow => ?_, fun hcreated => ?_, fun _ _ => ⟨l, step, hstep, hstatus⟩⟩
  · rw [hs.single l' l hl' ⟨step, hstep, hstatus⟩] at hbelow
    exact hahead b hbelow
  · exact absurd ⟨step, hstep, hstatus⟩ (hs.idle (Or.inr (Or.inr hcreated)) l)

theorem Clear.update (h : Clear c s) (hv : c.Valid) (hs' : Sound c s') (hstep : s.steps.get? id = some step)
    (hlive : step.status.isLive = true) (hsteps : s'.steps = (s.setStep id fun _ => step').steps)
    (hlive' : step'.status.isLive = true) : Clear c s' := by
  refine Clear.of_live hs' (l := id) ⟨step', ?_, hlive'⟩ fun b hbelow st hst => ?_
  · rw [hsteps, OrchestrationRunState.step_setStep_self hstep]
  · rw [hsteps, OrchestrationRunState.step_setStep_ne (hv.ne_of_below hbelow).symm] at hst
    exact h.ahead id b ⟨step, hstep, hlive⟩ hbelow st hst

theorem Clear.advance (h : Clear c s) (hv : c.Valid) (hs' : Sound c s') {target : OrchestrationNodeId} {next : StepRun}
    (hstep : s.steps.get? id = some step) (hlive : step.status.isLive = true) (hedge : c.Edge id target)
    (hnext : s.steps.get? target = some next)
    (hsteps : s'.steps = ((s.setStep id fun _ => step').setStep target fun _ => { next with status := .ready }).steps) :
    Clear c s' := by
  have hne : target ≠ id := (hv.ne_of_below (.single hedge)).symm
  refine Clear.of_live hs' (l := target) ⟨{ next with status := .ready }, ?_, rfl⟩ fun b hbelow st hst => ?_
  · rw [hsteps]
    exact OrchestrationRunState.step_setStep_self ((OrchestrationRunState.step_setStep_ne hne).trans hnext)
  · have hfar : c.Below id b := .head hedge hbelow
    rw [hsteps, OrchestrationRunState.step_setStep_ne (hv.ne_of_below hbelow).symm,
      OrchestrationRunState.step_setStep_ne (hv.ne_of_below hfar).symm] at hst
    exact h.ahead id b ⟨step, hstep, hlive⟩ hfar st hst

variable [WorkflowExternals]

theorem clear_move (hv : c.Valid) (hs : Sound c s) (hs' : Sound c s') (h : Clear c s) {command : OrchestrationCommand}
    (hmove : Move c s command s') (hgood : ¬ LeavesBehind c s command) : Clear c s' := by
  cases hmove with
  | still hsteps hinput hstatus =>
    have hlive : ∀ l, s'.Live l ↔ s.Live l := fun l => by
      rw [OrchestrationRunState.Live, hsteps]
      rfl
    refine ⟨fun l b hl => ?_, fun hcreated => ?_, fun hsome hgoing => ?_⟩
    · rw [hsteps]
      exact h.ahead l b ((hlive l).mp hl)
    · rcases hstatus with hsame | ⟨-, -, hgoing⟩
      · rw [hsteps, hinput]
        exact h.fresh (hsame.symm.trans hcreated)
      · exact absurd hcreated hgoing.2.2
    · have hgoing' : Going s.status := by
        rcases hstatus with hsame | ⟨hopen, hcancelling, -⟩
        · exact hsame ▸ hgoing
        · refine ⟨hopen, hcancelling, fun hcreated => ?_⟩
          rw [hinput, (h.fresh hcreated).1] at hsome
          cases hsome
      obtain ⟨l, hl⟩ := h.live (hinput ▸ hsome) hgoing'
      exact ⟨l, (hlive l).mpr hl⟩
  | @begin _ _ step hcreated hstep hsteps =>
    refine Clear.of_live hs' (l := c.entryNode) ⟨{ step with status := .ready }, ?_, rfl⟩ fun b hbelow st hst => ?_
    · rw [hsteps, OrchestrationRunState.step_setStep_self hstep]
    · rw [hsteps, OrchestrationRunState.step_setStep_ne (hv.ne_of_below hbelow).symm] at hst
      exact (h.fresh hcreated).2 b st hst
  | keep hstep hlive hsteps hlive' => exact h.update hv hs' hstep hlive hsteps hlive'
  | admission hstep hready hsteps hrunning =>
    exact h.update hv hs' hstep (by rw [hready]; rfl) hsteps (by rw [hrunning]; rfl)
  | again hnode hin hleft hsteps hstatus =>
    exact h.update hv hs' hin.found hin.isLive hsteps (by rw [hstatus]; rfl)
  | replay hin hsteps hstatus => exact h.update hv hs' hin.found hin.isLive hsteps (by rw [hstatus]; rfl)
  | advance hin hedge hends hnext hpending hsteps =>
    exact h.advance hv hs' hin.found hin.isLive (outgoingFor_mem hedge).1 hnext hsteps
  | @sendBack _ id target attempt error details node step current span revise hnode hin hretry hback hlink hsteps =>
    obtain ⟨old, hold⟩ := hs.exists_step hlink.target_node
    obtain ⟨new, hnew, hsent⟩ := hsteps target old hold
    refine Clear.of_live hs' (l := target) ⟨new, hnew, by rw [(hsent.again rfl).1]; rfl⟩ fun b hbelow st hst => ?_
    obtain ⟨old, hold⟩ := hs.exists_step (hv.below_mem hbelow)
    obtain ⟨new, hnew, hsent⟩ := hsteps b old hold
    obtain rfl := Option.some.inj (hst.symm.trans hnew)
    by_cases hmem : b ∈ span
    · exact (hsent.reset (hv.ne_of_below hbelow).symm hmem).1
    · rw [hsent.other hmem]
      -- What the span leaves out is on no path back to the failed step.
      have hne : b ≠ id := fun h => hmem ((hlink.mem_span b).mpr (Or.inr (Or.inr h)))
      have hoff : ¬ c.Below b id := fun h => hmem ((hlink.mem_span b).mpr (Or.inl ⟨hbelow, h⟩))
      by_contra hrun
      exact hgood ⟨node, step, current, target, revise, hnode, hin, hretry, hback, b, old, hbelow, hne, hoff, hold, hrun⟩
  | stick hin hedge hends hnext hblocked =>
    exact absurd (h.ahead _ _ ⟨_, hin.found, hin.isLive⟩ (.single (outgoingFor_mem hedge).1) _ hnext) hblocked
  | close hover =>
    have hnone := hs'.idle (hover.imp_right Or.inl)
    refine ⟨fun l b hl => (hnone l hl).elim, fun hcreated => ?_, fun _ hgoing => ?_⟩
    · rw [hcreated] at hover
      simp [OrchestrationStatus.isTerminal] at hover
    · rcases hover with hover | hover
      · rw [hgoing.1] at hover
        cases hover
      · exact absurd hover hgoing.2.1

theorem Clear.routes (hv : c.Valid) (hs : Sound c s) (h : Clear c s) {command : OrchestrationCommand}
    {e : TransitionError} (herror : (apply c s command).2 = .error e) : Plain e := by
  by_cases hopen : s.status.isTerminal = true
  · rw [apply_terminal hopen] at herror
    cases herror
    exact (by decide : terminalRun.code ≠ "target_not_pending")
  · rw [Bool.not_eq_true] at hopen
    have houtcome := outcome_apply hv hs hopen command
    generalize apply c s command = applied at herror houtcome
    have hfree : ∀ {id condition edge next step}, s.steps.get? id = some step → step.status.isLive = true →
        c.outgoingFor id condition = some edge → s.steps.get? edge.target = some next → next.status = .pending := by
      intro id condition edge next step hstep hlive hedge hnext
      exact h.ahead id _ ⟨step, hstep, hlive⟩ (.single (outgoingFor_mem hedge).1) next hnext
    cases houtcome with
    | rejected hplain | leakedSuccess hplain | leakedFailure hplain =>
      cases herror
      exact hplain
    | stuckSuccess hin hrunning hkind hedge hnext hblocked =>
      exact absurd (hfree hin.found hin.isLive hedge hnext) hblocked
    | stuckFailure hnode hin hretry hback hedge hnext hblocked =>
      exact absurd (hfree hin.found hin.isLive hedge hnext) hblocked
    | _ => cases herror

theorem Clear.progress (hv : c.Valid) (hs : Sound c s) (h : Clear c s) : Progress c s := by
  refine ⟨h.ahead, fun command e => h.routes hv hs, fun hsome hopen hcancelling => ?_⟩
  have hcreated : s.status ≠ .created := fun hcreated => by
    rw [(h.fresh hcreated).1] at hsome
    cases hsome
  obtain ⟨l, hl⟩ := h.live hsome ⟨hopen, hcancelling, hcreated⟩
  exact ⟨l, hl, fun l' hl' => hs.single l' l hl' hl⟩

theorem not_progress_of_leavesBehind (hv : c.Valid) (hs : Sound c s) {command : OrchestrationCommand}
    (h : LeavesBehind c s command) : ¬ Progress c (apply c s command).1 := by
  cases command with
  | stepFailed id attempt error details =>
    obtain ⟨node, step, current, target, revise, hnode, hin, hretry, hback, b, other, hbelow, hne, hoff, hother, hrun⟩ := h
    have houtcome := outcome_apply hv hs (hs.going hin.found hin.isLive).1 (.stepFailed id attempt error details)
    obtain ⟨span, hlink, hsteps⟩ := sentBack_of_sendsBack hv houtcome hnode hin hretry hback
    obtain ⟨old, hold⟩ := hs.exists_step hlink.target_node
    obtain ⟨new, hnew, hsent⟩ := hsteps target old hold
    obtain ⟨other', hother', hsent'⟩ := hsteps b other hother
    have hout : b ∉ span := by
      rw [hlink.mem_span b]
      rintro (⟨-, h⟩ | h | h)
      · exact hoff h
      · exact hv.ne_of_below hbelow h.symm
      · exact hne h
    rw [hsent'.other hout] at hother'
    intro hprogress
    exact hrun (hprogress.ahead target b ⟨new, hnew, by rw [(hsent.again rfl).1]; rfl⟩ hbelow other hother')
  | _ => cases h

/-- Every state of a run has progress exactly if no step of the run leaves work behind. -/
theorem progress_iff {d : OrchestrationDefinition} (hc : d.compile = .ok c) (hfresh : Fresh c s)
    (commands : List OrchestrationCommand) : (reducer c).Always (Progress c) s commands ↔
      ∀ st ∈ (reducer c).trace s commands, ¬ LeavesBehind c st.pre st.input := by
  have hv := valid_of_compile hc
  refine Machine.always_iff (I := fun s => Sound c s ∧ Clear c s) (fun s command h hgood => ?_)
    (fun s h => h.2.progress hv h.1) (fun s command h hbad => ?_) ⟨sound_fresh hfresh, clear_fresh hfresh⟩
  · have hs' := sound_apply hv h.1 command
    exact ⟨hs', clear_move hv h.1 hs' h.2 (move_apply hv h.1 command) hgood⟩
  · exact not_progress_of_leavesBehind hv h.1 hbad

end

namespace Sample

def thrice : RetryPolicy := ⟨3, [.verificationFailed]⟩

/-- Two branches that join again, each with a verifier: `join` sends work back to `side`, `check` to `first`. -/
def branching : OrchestrationDefinition :=
  workflow [agentNode "first" thrice [], agentNode "deep" {} [], agentNode "side" thrice [], verifyNode "join" "side",
      verifyNode "check" "first"]
    [edge "input" "first" .onSuccess, edge "first" "deep" .onSuccess, edge "first" "side" .onFailure,
      edge "deep" "join" .onSuccess, edge "side" "join" .onSuccess, edge "side" "check" .onFailure,
      edge "join" "output" .onSuccess, edge "check" "output" .onSuccess]

theorem compile_branching : branching.compile = .ok (compiled branching) :=
  compile_eq_compiled (by decide) (by decide)

/-- The run goes down `deep`, is sent to `side` by `join`, and from there over `check` back to `first`, whose
    success then finds `deep` done. -/
def detour : List OrchestrationCommand := opening ++
  [.stepAdmitted "first" 1, succeeded "first" 1, .stepAdmitted "deep" 1, succeeded "deep" 1, .stepAdmitted "join" 1,
    failure "join" 1 .verificationFailed, .retryStep "side", .stepAdmitted "side" 1, failure "side" 1 .toolTimeout,
    .stepAdmitted "check" 1, failure "check" 1 .verificationFailed, .retryStep "first", .stepAdmitted "first" 2]

end Sample

section

open Sample List

theorem progress_iff_line : line.compile = .ok (compiled line) ∧ Fresh (compiled line) (.new "run" (compiled line)) ∧
    (∀ st ∈ (reducer (compiled line)).trace (.new "run" (compiled line)) opening,
      ¬ LeavesBehind (compiled line) st.pre st.input) ∧
    (reducer (compiled line)).Always (Progress (compiled line)) (.new "run" (compiled line)) opening := by
  refine ⟨compile_line, ⟨"run", {}, rfl⟩, (and_iff_left_of_imp (progress_iff compile_line ⟨"run", {}, rfl⟩ opening).mpr).mpr ?_⟩
  intro st hst
  simp only [opening, Machine.trace_cons, Machine.trace_nil, mem_cons, not_mem_nil, or_false] at hst
  rcases hst with rfl | rfl | rfl <;> exact id

theorem first_finds_deep_done : branching.compile = .ok (compiled branching) ∧
    ReachableRun (compiled branching) (runOf branching detour) ∧
    (apply (compiled branching) (runOf branching detour) (succeeded "first" 2)).2 =
      .error ⟨"target_not_pending", "target step deep is not pending"⟩ :=
  ⟨compile_branching, reachable_runOf branching detour, refusal_eq (by decide)⟩

end

end RustyCore
