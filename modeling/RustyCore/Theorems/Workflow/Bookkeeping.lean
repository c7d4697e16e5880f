import RustyCore.Theorems.Workflow.Attempts
import RustyCore.Theorems.Workflow.Waiting

/-! Bookkeeping. The attempts of each step are numbered from one and only the last can be running, the totals of
    the run are the sums over its attempts, and a run finishes once. Only the usage can go wrong: a report that is
    refused may already have been counted, and a sum may leave what its type can hold. -/

namespace RustyCore

open Reducer WorkflowCompiler List OrdMap

namespace UsageSummary

/-- The true sum of two usages, whatever its counters come to. -/
def plus (a b : UsageSummary) : UsageSummary where
  modelRequests := a.modelRequests + b.modelRequests
  toolCalls := a.toolCalls + b.toolCalls
  tokens := a.tokens + b.tokens
  tokensUnknown := a.tokensUnknown || b.tokensUnknown
  costUsd := a.costUsd + b.costUsd
  costUnknown := a.costUnknown || b.costUnknown

theorem plus_assoc (a b c : UsageSummary) : (a.plus b).plus c = a.plus (b.plus c) := by
  simp [plus, Nat.add_assoc, Bool.or_assoc, Rat.add_assoc]

theorem plus_comm (a b : UsageSummary) : a.plus b = b.plus a := by
  simp [plus, Nat.add_comm, Bool.or_comm, Rat.add_comm]

theorem plus_zero (a : UsageSummary) : a.plus {} = a := by
  rw [plus, Rat.add_zero]
  simp

instance : Add UsageSummary := ⟨plus⟩

instance : Zero UsageSummary := ⟨{}⟩

instance : AddCommMonoid UsageSummary where
  add_assoc := plus_assoc
  add_comm := plus_comm
  add_zero := plus_zero
  zero_add a := (plus_comm {} a).trans a.plus_zero
  nsmul := nsmulRec

/-- The counters of the sum stay in `u64`, and the sum of the costs is a float. -/
structure Fits [WorkflowExternals] (total usage : UsageSummary) : Prop where
  modelRequests : total.modelRequests + usage.modelRequests < 2 ^ 64
  toolCalls : total.toolCalls + usage.toolCalls < 2 ^ 64
  tokens : total.tokens + usage.tokens < 2 ^ 64
  costUsd : WorkflowExternals.addFloat total.costUsd usage.costUsd = total.costUsd + usage.costUsd

end UsageSummary

theorem usageTotal_eq_iff [WorkflowExternals] {total usage : UsageSummary} :
    usageTotal total usage = total + usage ↔ (usage ≠ {} → total.Fits usage) := by
  by_cases hempty : usage = {}
  · subst hempty
    exact iff_of_true (UsageSummary.plus_zero total).symm fun h => absurd rfl h
  · have hmod : ∀ n : Nat, n % 2 ^ 64 = n ↔ n < 2 ^ 64 :=
      fun n => ⟨fun h => h ▸ Nat.mod_lt n (by decide), Nat.mod_eq_of_lt⟩
    rw [usageTotal, if_neg hempty]
    show total.add usage = total.plus usage ↔ _
    rw [UsageSummary.add, UsageSummary.plus, UsageSummary.mk.injEq, hmod, hmod, hmod]
    exact ⟨fun ⟨hmodel, htools, htokens, _, hcost, _⟩ _ => ⟨hmodel, htools, htokens, hcost⟩,
      fun h => ⟨(h hempty).modelRequests, (h hempty).toolCalls, (h hempty).tokens, rfl, (h hempty).costUsd, rfl⟩⟩

def StepRun.usage (step : StepRun) : UsageSummary :=
  ((step.attempts.filter (·.status ≠ .running)).map (·.details.usage)).sum

def StepRun.account (step : StepRun) : Nat × UsageSummary := (step.attempts.length, step.usage)

def OrchestrationRunState.totals (s : OrchestrationRunState) : Nat × UsageSummary := (s.totalAttempts, s.usage)

def OrchestrationRunState.account (s : OrchestrationRunState) : Nat × UsageSummary := s.steps.sum fun _ => StepRun.account

section

variable {s s' : OrchestrationRunState} {id : OrchestrationNodeId} {step step' : StepRun} {current a : StepAttempt}
  {d : Nat × UsageSummary}

theorem account_congr (h : step'.attempts = step.attempts) : step'.account = step.account := by
  rw [StepRun.account, StepRun.account, StepRun.usage, StepRun.usage, h]

theorem account_close (hlast : step.attempts.getLast? = some current) (hrunning : current.status = .running)
    (hattempts : step'.attempts = step.attempts.dropLast ++ [a]) (hstatus : a.status ≠ .running) :
    step'.account = step.account + (0, a.details.usage) := by
  have hsplit := dropLast_append_getLast? current hlast
  have hlength : step'.attempts.length = step.attempts.length := by
    rw [hattempts, ← hsplit]
    simp
  have husage : step'.usage = step.usage + a.details.usage := by
    rw [StepRun.usage, StepRun.usage, hattempts, ← hsplit]
    simp [hrunning, hstatus]
  rw [StepRun.account, StepRun.account, hlength, husage]
  rfl

theorem account_admission (hattempts : step'.attempts = step.attempts ++ [a]) (hstatus : a.status = .running) :
    step'.account = step.account + (1, 0) := by
  have husage : step'.usage = step.usage := by
    rw [StepRun.usage, StepRun.usage, hattempts]
    simp [hstatus]
  rw [StepRun.account, StepRun.account, husage, hattempts, length_append, length_singleton, Prod.mk_add_mk,
    add_zero]

theorem account_setStep (hstep : s.steps.get? id = some step) (hsteps : s'.steps = (s.setStep id fun _ => step').steps)
    (haccount : step'.account = step.account + d) : s'.account = s.account + d := by
  rw [OrchestrationRunState.account, hsteps]
  exact sum_modify (g := fun _ => StepRun.account) hstep haccount

theorem account_keep (hstep : s.steps.get? id = some step) (hsteps : s'.steps = (s.setStep id fun _ => step').steps)
    (haccount : step'.account = step.account) : s'.account = s.account := by
  rw [account_setStep (d := 0) hstep hsteps (by rw [haccount, add_zero]), add_zero]

theorem account_map {f : OrchestrationNodeId → StepRun → StepRun} (hsteps : s'.steps = s.steps.mapEntries f)
    (haccount : ∀ k st, s.steps.get? k = some st → (f k st).account = st.account) : s'.account = s.account := by
  rw [OrchestrationRunState.account, hsteps, sum_mapEntries]
  exact sum_congr haccount

theorem account_abandonStep : (abandonStep step).account = step.account := account_congr attempts_abandonStep

theorem account_stopStep (h : step.Numbered) : (stopStep step).account = step.account := by
  unfold stopStep
  split
  · rename_i current hcurrent
    split
    · rename_i hactive
      have hrunning := (h.last current hcurrent).mpr hactive
      rw [account_close hcurrent hrunning (a := { current with status := .cancelled }) rfl AttemptStatus.noConfusion,
        h.unused current hcurrent hrunning]
      exact add_zero step.account
    · rfl
  · rfl

@[simp] theorem totals_settle : (settle s).totals = s.totals := by
  rw [OrchestrationRunState.totals, settle_totalAttempts, settle_usage]
  rfl

def Balanced (s : OrchestrationRunState) : Prop := s.totals = s.account

theorem Balanced.next (h : Balanced s) (haccount : s'.account = s.account + d) (htotals : s'.totals = s.totals + d) :
    Balanced s' := by
  rw [Balanced, htotals, h, haccount]

theorem Balanced.same (h : Balanced s) (haccount : s'.account = s.account) (htotals : s'.totals = s.totals) :
    Balanced s' := by
  rw [Balanced, htotals, h, haccount]

end

section

variable {c : CompiledOrchestration} {s s' : OrchestrationRunState} {id : OrchestrationNodeId} {attempt : Nat}
  {step : StepRun} {current : StepAttempt}

theorem balanced_fresh (h : Fresh c s) : Balanced s := by
  obtain ⟨runId, options, rfl⟩ := h
  have hzero : (c.nodes.sum fun _ _ => StepRun.account {}) = 0 := sum_map_zero
  exact (sum_mapEntries.trans hzero).symm

theorem account_succeedStep (hin : InFlight c s id attempt step current) (hstep : step.Numbered) {output : Value}
    {details : AttemptDetails} :
    (succeedStep step current output details).account = step.account + (0, details.usage) :=
  account_close (a := { current with status := .succeeded, output := some output, details }) hin.current_eq
    ((hstep.last current hin.current_eq).mpr hin.active) rfl AttemptStatus.noConfusion

theorem account_failStep (hin : InFlight c s id attempt step current) (hstep : step.Numbered) {error : OrchestrationError}
    {details : AttemptDetails} : (failStep step current error details).account = step.account + (0, details.usage) :=
  account_close (a := { current with status := .failed, error := some error, details }) hin.current_eq
    ((hstep.last current hin.current_eq).mpr hin.active) rfl AttemptStatus.noConfusion

theorem account_givenUp (hin : InFlight c s id attempt step current) (hstep : step.Numbered) {step' : StepRun}
    {a : StepAttempt} (hattempts : step'.attempts = step.attempts.dropLast ++ [a]) (hstatus : a.status ≠ .running)
    (husage : a.details.usage = current.details.usage) : step'.account = step.account := by
  have hrunning := (hstep.last current hin.current_eq).mpr hin.active
  rw [account_close hin.current_eq hrunning hattempts hstatus, husage, hstep.unused current hin.current_eq hrunning]
  exact add_zero step.account

theorem account_handOver (hin : InFlight c s id attempt step current) {target : OrchestrationNodeId}
    {step' next : StepRun} {d : Nat × UsageSummary} (hnext : s.steps.get? target = some next) (hne : target ≠ id)
    (haccount : step'.account = step.account + d)
    (hsteps : s'.steps = ((s.setStep id fun _ => step').setStep target fun _ => { next with status := .ready }).steps) :
    s'.account = s.account + d := by
  have hfirst : (s.setStep id fun _ => step').account = s.account + d := account_setStep hin.found rfl haccount
  have hfound := (OrchestrationRunState.step_setStep_ne (f := fun _ => step') hne).trans hnext
  rw [account_keep hfound hsteps (account_congr rfl), hfirst]

theorem attempts_sentBackStep {source target k : OrchestrationNodeId} {span : List OrchestrationNodeId} {failed st : StepRun}
    {error : OrchestrationError} {revise : Bool} (hne : k ≠ source) :
    (sentBackStep source target span failed error revise k st).attempts = st.attempts := by
  rw [sentBackStep, if_neg hne]
  split
  · rfl
  · split <;> rfl

variable [WorkflowExternals]

/-- The command reports the end of the running attempt, and its usage. -/
def Reports (c : CompiledOrchestration) (s : OrchestrationRunState) : OrchestrationCommand → AttemptDetails → Prop
  | .stepSucceeded id attempt _ details, reported => reported = details ∧
      ∃ step current, InFlight c s id attempt step current ∧ step.status = .running
  | .stepFailed id attempt _ details, reported => reported = details ∧
      ∃ step current, InFlight c s id attempt step current
  | _, _ => False

/-- The attempt reports a usage that the totals cannot take up. -/
def Overflows (c : CompiledOrchestration) (s : OrchestrationRunState) (command : OrchestrationCommand) : Prop :=
  ∃ details, Reports c s command details ∧ details.usage ≠ {} ∧ ¬ s.usage.Fits details.usage

/-- What a reported attempt adds to the accounts, and what it makes of the totals. -/
theorem account_reported (hv : c.Valid) (hnumbered : ∀ k step, s.steps.get? k = some step → step.Numbered)
    {command : OrchestrationCommand} {applied : Applied} (houtcome : Outcome c s command applied)
    {details : AttemptDetails} (hreports : Reports c s command details) :
    applied.1.account = s.account + (0, details.usage) ∧ applied.1.totals = (spend s details).totals := by
  cases houtcome with
  | rejected hplain hheeded =>
    cases command with
    | stepSucceeded => exact absurd trivial hheeded
    | stepFailed =>
      obtain ⟨-, step, current, hin⟩ := hreports
      exact absurd hin.known hheeded
    | _ => cases hreports
  | leakedSuccess hplain hno =>
    obtain ⟨-, step, current, hin, hrunning⟩ := hreports
    exact absurd hrunning (hno step current hin)
  | leakedFailure hplain hknown hno =>
    obtain ⟨-, step, current, hin⟩ := hreports
    exact absurd hin (hno step current)
  | stuckSuccess hin | completed hin =>
    obtain ⟨rfl, -⟩ := hreports
    exact ⟨account_setStep hin.found rfl (account_succeedStep hin (hnumbered _ _ hin.found)), rfl⟩
  | stuckFailure hnode hin =>
    obtain ⟨rfl, -⟩ := hreports
    exact ⟨account_setStep hin.found rfl (account_failStep hin (hnumbered _ _ hin.found)), rfl⟩
  | advanced hin hrunning hkind hedge hnext hpending =>
    obtain ⟨rfl, -⟩ := hreports
    have hne := (hv.ne_of_below (.single (outgoingFor_mem hedge).1)).symm
    exact ⟨account_handOver hin hnext hne (account_succeedStep hin (hnumbered _ _ hin.found)) settle_steps,
      totals_settle⟩
  | rerouted hnode hin hretry hback hedge hnext hpending =>
    obtain ⟨rfl, -⟩ := hreports
    have hne := (hv.ne_of_below (.single (outgoingFor_mem hedge).1)).symm
    exact ⟨account_handOver hin hnext hne (account_failStep hin (hnumbered _ _ hin.found)) settle_steps,
      totals_settle⟩
  | @retried id attempt error _ node step current es hnode hin =>
    obtain ⟨rfl, -⟩ := hreports
    have haccount : (failStep step current error details).account = _ := account_failStep hin (hnumbered _ _ hin.found)
    exact ⟨account_setStep hin.found settle_steps ((account_congr rfl).trans haccount), totals_settle⟩
  | sentBack hnode hin hretry hback hlink =>
    obtain ⟨rfl, -⟩ := hreports
    refine ⟨?_, totals_settle⟩
    rw [OrchestrationRunState.account, settle_steps, sum_mapEntries]
    refine sum_single hin.found ?_ fun k st hst hne => ?_
    · rw [sentBackStep, if_neg (hv.ne_of_below hlink.upstream).symm, if_pos rfl]
      exact account_failStep hin (hnumbered _ _ hin.found)
    · exact account_congr (attempts_sentBackStep hne)
  | failed hnode hin =>
    obtain ⟨rfl, -⟩ := hreports
    exact ⟨(account_map rfl fun _ _ _ => account_abandonStep).trans
      (account_setStep hin.found rfl (account_failStep hin (hnumbered _ _ hin.found))), rfl⟩
  | touched hin htouch => cases htouch <;> cases hreports
  | _ => cases hreports

theorem balanced_reported_iff (h : Balanced s) {s' : OrchestrationRunState} {details : AttemptDetails}
    (haccount : s'.account = s.account + (0, details.usage)) (htotals : s'.totals = (spend s details).totals) :
    Balanced s' ↔ (details.usage ≠ {} → s.usage.Fits details.usage) := by
  rw [← usageTotal_eq_iff, Balanced, haccount, htotals, ← h]
  show (s.totalAttempts, usageTotal s.usage details.usage) = (s.totalAttempts + 0, s.usage + details.usage) ↔ _
  rw [Nat.add_zero, Prod.mk.injEq, and_iff_right rfl]

theorem balanced_outcome (hv : c.Valid) (hopen : s.status.isTerminal = false) (h : Balanced s)
    (hnumbered : ∀ k step, s.steps.get? k = some step → step.Numbered) {command : OrchestrationCommand}
    {applied : Applied} (houtcome : Outcome c s command applied) (hleaks : ¬ LeaksUsage c s command)
    (hfits : ¬ Overflows c s command) : Balanced applied.1 := by
  by_cases hreported : ∃ details, Reports c s command details
  · obtain ⟨details, hreports⟩ := hreported
    obtain ⟨haccount, htotals⟩ := account_reported hv hnumbered houtcome hreports
    refine (balanced_reported_iff h haccount htotals).mpr fun hne => ?_
    by_contra hover
    exact hfits ⟨details, hreports, hne, hover⟩
  have hsucceeds {id : OrchestrationNodeId} {attempt : Nat} {step : StepRun} {current : StepAttempt} {output : Value}
      {details : AttemptDetails} (hin : InFlight c s id attempt step current) (hrunning : step.status = .running) :
      ¬ command = .stepSucceeded id attempt output details := by
    rintro rfl
    exact hreported ⟨details, rfl, step, current, hin, hrunning⟩
  have hfails {id : OrchestrationNodeId} {attempt : Nat} {step : StepRun} {current : StepAttempt}
      {error : OrchestrationError} {details : AttemptDetails} (hin : InFlight c s id attempt step current) :
      ¬ command = .stepFailed id attempt error details := by
    rintro rfl
    exact hreported ⟨details, rfl, step, current, hin⟩
  cases houtcome with
  | rejected | cancellationCompleted | restoredCancelling => exact h
  | @leakedSuccess id attempt output details e hplain hno =>
    have hsame : usageTotal s.usage details.usage = s.usage := by
      by_contra hne
      exact hleaks ⟨hopen, hno, hne⟩
    rwa [spend_eq_iff.mpr hsame]
  | @leakedFailure id attempt error details e hplain hknown hno =>
    have hsame : usageTotal s.usage details.usage = s.usage := by
      by_contra hne
      exact hleaks ⟨hopen, hknown, hno, hne⟩
    rwa [spend_eq_iff.mpr hsame]
  | stuckSuccess hin hrunning | completed hin hrunning | advanced hin hrunning =>
    exact absurd rfl (hsucceeds hin hrunning)
  | stuckFailure hnode hin | rerouted hnode hin | retried hnode hin | sentBack hnode hin | failed hnode hin =>
    exact absurd rfl (hfails hin)
  | started hcreated hstep => exact h.same (account_keep hstep settle_steps (account_congr rfl)) totals_settle
  | denied => exact h.same (account_map rfl fun _ _ _ => account_abandonStep) rfl
  | admitted hready hpaused hstep hstatus =>
    refine h.next (account_setStep hstep settle_steps (account_admission rfl rfl)) ?_
    rw [totals_settle]
    show (s.totalAttempts + 1, s.usage) = (s.totalAttempts, s.usage) + (1, 0)
    rw [Prod.mk_add_mk, add_zero]
  | touched hin htouch =>
    exact h.same (account_keep hin.found settle_steps (account_congr (htouch.isActive hin.active).2)) totals_settle
  | checkpointed hin => exact h.same (account_keep hin.found rfl (account_congr rfl)) rfl
  | woken hstep => exact h.same (account_keep hstep settle_steps (account_congr rfl)) totals_settle
  | paused | resumed | restored => exact h.same (congrArg (OrdMap.sum · _) settle_steps) totals_settle
  | aborted =>
    refine h.same ((account_map rfl fun _ _ _ => account_abandonStep).trans
      (account_map (f := fun _ => stopStep) rfl fun k st hst => ?_)) rfl
    exact account_stopStep (hnumbered k st hst)
  | cancelling | cancelled =>
    refine h.same (account_map (f := fun _ => closeStep) rfl fun k st hst => ?_) rfl
    exact account_abandonStep.trans (account_stopStep (hnumbered k st hst))
  | replayed hcancelling hin =>
    refine h.same (account_keep hin.found settle_steps ?_) totals_settle
    exact account_givenUp hin (hnumbered _ _ hin.found) rfl AttemptStatus.noConfusion rfl
  | interrupted hcancelling hin =>
    refine h.same ((account_map rfl fun _ _ _ => account_abandonStep).trans (account_keep hin.found rfl ?_)) rfl
    exact account_givenUp hin (hnumbered _ _ hin.found) rfl AttemptStatus.noConfusion rfl

end

def finishes : Except TransitionError (List OrchestrationEffect) → List OrchestrationResult
  | .ok effects => effects.filterMap fun
    | .finish result => some result
    | _ => none
  | .error _ => []

def OrchestrationOutcome.status : OrchestrationOutcome → OrchestrationStatus
  | .completed => .completed
  | .failed => .failed
  | .cancelled => .cancelled

section

theorem finishes_append {es fs : List OrchestrationEffect} :
    finishes (.ok (es ++ fs)) = finishes (.ok es) ++ finishes (.ok fs) := filterMap_append

theorem finishes_emits {es : List OrchestrationEffect} (h : Emits es) : finishes (.ok es) = [] := by
  refine filterMap_eq_nil_iff.mpr fun e he => ?_
  obtain ⟨event, rfl⟩ := h e he
  rfl

theorem finishes_stops {es : List OrchestrationEffect} (h : Stops es) : finishes (.ok es) = [] := by
  refine filterMap_eq_nil_iff.mpr fun e he => ?_
  obtain ⟨id, attempt, rfl⟩ := h e he
  rfl

theorem finishes_failed {s : OrchestrationRunState} {error : OrchestrationError} {es : List OrchestrationEffect}
    (h : finishes (.ok es) = []) :
    finishes (.ok (es ++ failedEffects s error)) = [.fromState (failedRun s error) .failed] := by
  rw [finishes_append, h]
  rfl

theorem isTerminal_settle {s : OrchestrationRunState} : (settle s).status.isTerminal = s.status.isTerminal := by
  by_cases h : s.status.isTerminal = true ∨ s.status = .cancelling
  · rw [settle_over h]
  · rw [not_or, Bool.not_eq_true] at h
    rw [(settle_open h.1 h.2).1, h.1]

variable [WorkflowExternals] {c : CompiledOrchestration} {s : OrchestrationRunState}

theorem finishes_outcome (hopen : s.status.isTerminal = false) {command : OrchestrationCommand} {applied : Applied}
    (h : Outcome c s command applied) :
    (finishes applied.2 = [] ∧ applied.1.status.isTerminal = false) ∨
      ∃ result, finishes applied.2 = [result] ∧ applied.1.status = result.status.status := by
  cases h with
  | rejected | leakedSuccess | leakedFailure | stuckSuccess | stuckFailure => exact Or.inl ⟨rfl, hopen⟩
  | started _ _ hes | advanced _ _ _ _ _ _ hes | retried _ _ _ hes | sentBack _ _ _ _ _ hes
  | rerouted _ _ _ _ _ _ _ hes =>
    exact Or.inl ⟨finishes_emits hes, isTerminal_settle.trans hopen⟩
  | admitted | touched | woken | paused | resumed | restored | replayed =>
    exact Or.inl ⟨rfl, isTerminal_settle.trans hopen⟩
  | checkpointed => exact Or.inl ⟨rfl, hopen⟩
  | cancelling _ _ _ hes => exact Or.inl ⟨finishes_stops hes, rfl⟩
  | denied | interrupted => exact Or.inr ⟨_, rfl, rfl⟩
  | completed _ _ _ hresult hes =>
    refine Or.inr ⟨_, ?_, by rw [hresult]; rfl⟩
    rw [finishes_append, finishes_emits hes]
    rfl
  | failed _ _ _ _ _ hes => exact Or.inr ⟨_, finishes_failed (finishes_emits hes), rfl⟩
  | aborted hes => exact Or.inr ⟨_, finishes_failed (finishes_stops hes), rfl⟩
  | cancelled _ _ hresult | cancellationCompleted _ hresult | restoredCancelling _ hresult =>
    exact Or.inr ⟨_, rfl, by rw [hresult]; rfl⟩

end

structure Books (s : OrchestrationRunState) : Prop where
  numbers : ∀ k step, s.steps.get? k = some step →
    step.attempts.map (·.attempt) = List.range' 1 step.attempts.length
  running : ∀ k step, s.steps.get? k = some step → (∀ a ∈ step.attempts.dropLast, a.status ≠ .running) ∧
    ((∃ a, step.attempts.getLast? = some a ∧ a.status = .running) ↔ step.status.isActive = true)
  totalAttempts : s.totalAttempts = s.steps.sum fun _ step => step.attempts.length
  usage : s.usage = s.steps.sum fun _ step => step.usage

/-- One result at most is put out, by the step that ends the run and with the outcome it ends with; from then on
    every command is refused. -/
structure FinishesOnce
    (steps : List (Machine.Step OrchestrationRunState OrchestrationCommand
      (Except TransitionError (List OrchestrationEffect)))) : Prop where
  once : (steps.flatMap fun st => st.out.flatMap finishes).length ≤ 1
  exactly : ∀ st ∈ steps, st.out.flatMap finishes ≠ [] ↔
    st.pre.status.isTerminal = false ∧ st.post.status.isTerminal = true
  outcome : ∀ st ∈ steps, ∀ result ∈ st.out.flatMap finishes, st.post.status = result.status.status
  after : ∀ st ∈ steps, st.pre.status.isTerminal = true → st.out = [.error terminalRun] ∧ st.post = st.pre

section

variable {c : CompiledOrchestration} {s : OrchestrationRunState}

theorem balanced_iff : Balanced s ↔ s.totalAttempts = (s.steps.sum fun _ step => step.attempts.length) ∧
    s.usage = s.steps.sum fun _ step => step.usage := by
  have haccount : s.account = (s.steps.sum fun _ step => step.attempts.length, s.steps.sum fun _ step => step.usage) :=
    sum_pair
  rw [Balanced, haccount, OrchestrationRunState.totals, Prod.mk.injEq]

theorem books_iff (hs : Sound c s) (h : ∀ k step, s.steps.get? k = some step → step.Numbered) : Books s ↔ Balanced s := by
  rw [balanced_iff]
  refine ⟨fun h => ⟨h.totalAttempts, h.usage⟩, fun hsums => ⟨fun k step hstep => (h k step hstep).numbers, ?_,
    hsums.1, hsums.2⟩⟩
  intro k step hstep
  refine ⟨(h k step hstep).past, ?_, fun hactive => ?_⟩
  · rintro ⟨a, ha, hrunning⟩
    exact ((h k step hstep).last a ha).mp hrunning
  · obtain ⟨a, ha⟩ := hs.current k step hstep hactive
    exact ⟨a, ha, ((h k step hstep).last a ha).mpr hactive⟩

variable [WorkflowExternals]

theorem not_balanced_of_leaksUsage (hv : c.Valid) (hs : Sound c s) (h : Balanced s) {command : OrchestrationCommand}
    (hleaks : LeaksUsage c s command) : ¬ Balanced (apply c s command).1 := by
  have hspend : ∀ details : AttemptDetails, usageTotal s.usage details.usage ≠ s.usage → ¬ Balanced (spend s details) :=
    fun details hne hbalanced => hne (congrArg Prod.snd (hbalanced.trans h.symm))
  have hopen : s.status.isTerminal = false := by
    cases command with
    | stepSucceeded | stepFailed => exact hleaks.1
    | _ => cases hleaks
  have houtcome := outcome_apply hv hs hopen command
  have hchanges : ¬ ∀ e, (apply c s command).2 = .error e → (apply c s command).1 = s :=
    fun h => ((atomic_outcome hopen houtcome).mp h).1 hleaks
  generalize apply c s command = applied at houtcome hchanges
  cases houtcome with
  | rejected => exact absurd (fun _ _ => rfl) hchanges
  | leakedSuccess => exact hspend _ hleaks.2.2
  | leakedFailure => exact hspend _ hleaks.2.2.2
  | stuckSuccess hin hrunning => exact absurd hleaks (hin.not_leaks_success hrunning)
  | stuckFailure hnode hin => exact absurd hleaks hin.not_leaks_failure
  | _ => exact absurd (fun _ h => by cases h) hchanges

theorem not_balanced_of_overflows (hv : c.Valid) (hs : Sound c s) (h : Balanced s)
    (hnumbered : ∀ k step, s.steps.get? k = some step → step.Numbered) {command : OrchestrationCommand}
    (hover : Overflows c s command) : ¬ Balanced (apply c s command).1 := by
  obtain ⟨details, hreports, hne, hfits⟩ := hover
  have hopen : s.status.isTerminal = false := by
    cases command with
    | stepSucceeded =>
      obtain ⟨-, step, current, hin, -⟩ := hreports
      exact (hs.going hin.found hin.isLive).1
    | stepFailed =>
      obtain ⟨-, step, current, hin⟩ := hreports
      exact (hs.going hin.found hin.isLive).1
    | _ => cases hreports
  obtain ⟨haccount, htotals⟩ := account_reported hv hnumbered (outcome_apply hv hs hopen command) hreports
  rw [balanced_reported_iff h haccount htotals]
  exact fun hall => hfits (hall hne)

theorem finishes_step (hv : c.Valid) (hs : Sound c s) (command : OrchestrationCommand) :
    (finishes (apply c s command).2 = [] ∧ (apply c s command).1.status.isTerminal = s.status.isTerminal) ∨
      ∃ result, finishes (apply c s command).2 = [result] ∧ s.status.isTerminal = false ∧
        (apply c s command).1.status = result.status.status := by
  by_cases hopen : s.status.isTerminal = true
  · rw [apply_terminal hopen]
    exact Or.inl ⟨rfl, rfl⟩
  · rw [Bool.not_eq_true] at hopen
    rw [hopen]
    exact (finishes_outcome hopen (outcome_apply hv hs hopen command)).imp_right
      fun ⟨result, hfinishes, hstatus⟩ => ⟨result, hfinishes, rfl, hstatus⟩

theorem finishes_trace (hv : c.Valid) (hs : Sound c s) (commands : List OrchestrationCommand) :
    (((reducer c).trace s commands).flatMap fun st => st.out.flatMap finishes).length ≤
      if s.status.isTerminal then 0 else 1 := by
  induction commands generalizing s with
  | nil => exact Nat.zero_le _
  | cons command rest ih =>
    have hrest := ih (sound_apply hv hs command)
    rw [Machine.trace_cons, flatMap_cons, length_append]
    have hout : ((reducer c).stepAt s command).out.flatMap finishes = finishes (apply c s command).2 := append_nil _
    rw [hout]
    rcases finishes_step hv hs command with ⟨hnone, hsame⟩ | ⟨result, hone, hopen, hstatus⟩
    · rw [hnone, ← hsame, length_nil, Nat.zero_add]
      exact hrest
    · have hover : (apply c s command).1.status.isTerminal = true := by
        rw [hstatus]
        cases result.status <;> rfl
      rw [if_pos hover] at hrest
      rw [hone, hopen]
      exact Nat.add_le_add_left hrest 1

theorem finishesOnce_trace (hv : c.Valid) (hr : ReachableRun c s) (commands : List OrchestrationCommand) :
    FinishesOnce ((reducer c).trace s commands) := by
  have hstep : ∀ st ∈ (reducer c).trace s commands, Sound c st.pre ∧
      st.out.flatMap finishes = finishes (apply c st.pre st.input).2 ∧ st.post = (apply c st.pre st.input).1 := by
    intro st hst
    obtain ⟨hpre, heq⟩ := hr.mem_trace hst
    refine ⟨sound_of_reachable hv hpre, ?_, ?_⟩
    · rw [heq]
      exact append_nil _
    · rw [heq]
      rfl
  refine ⟨?_, fun st hst => ?_, fun st hst result hresult => ?_, fun st hst hover => ?_⟩
  · refine (finishes_trace hv (sound_of_reachable hv hr) commands).trans ?_
    split <;> decide
  · obtain ⟨hs, hout, hpost⟩ := hstep st hst
    rw [hout, hpost]
    rcases finishes_step hv hs st.input with ⟨hnone, hsame⟩ | ⟨result, hone, hopen, hstatus⟩
    · rw [hnone, hsame]
      simp
    · rw [hone, hopen, hstatus]
      cases result.status <;> simp [OrchestrationOutcome.status, OrchestrationStatus.isTerminal]
  · obtain ⟨hs, hout, hpost⟩ := hstep st hst
    rw [hout] at hresult
    rw [hpost]
    rcases finishes_step hv hs st.input with ⟨hnone, -⟩ | ⟨result', hone, -, hstatus⟩
    · rw [hnone] at hresult
      cases hresult
    · rw [hone, mem_singleton] at hresult
      rw [hresult, hstatus]
  · obtain ⟨-, heq⟩ := hr.mem_trace hst
    rw [heq]
    show [(apply c st.pre st.input).2] = _ ∧ (apply c st.pre st.input).1 = _
    rw [apply_terminal hover]
    exact ⟨rfl, rfl⟩

/-- A run finishes once, and its books are right in every state exactly if no step leaks usage or reports more than
    the totals can hold. -/
theorem bookkeeping_iff {d : OrchestrationDefinition} (hc : d.compile = .ok c) (hfresh : Fresh c s)
    (commands : List OrchestrationCommand) :
    ((reducer c).Always Books s commands ∧ FinishesOnce ((reducer c).trace s commands)) ↔
      ∀ st ∈ (reducer c).trace s commands, ¬ (LeaksUsage c st.pre st.input ∨ Overflows c st.pre st.input) := by
  have hv := valid_of_compile hc
  rw [and_iff_left (finishesOnce_trace hv (.start hfresh) commands)]
  refine Machine.always_iff
    (I := fun s => Sound c s ∧ (∀ k step, s.steps.get? k = some step → step.Numbered) ∧ Balanced s)
    (fun s command ⟨hs, hnumbered, hbalanced⟩ hgood => ?_) (fun s h => (books_iff h.1 h.2.1).mpr h.2.2)
    (fun s command ⟨hs, hnumbered, hbalanced⟩ hbad hbooks => ?_)
    ⟨sound_fresh hfresh, numbered_fresh hfresh, balanced_fresh hfresh⟩
  · refine ⟨sound_apply hv hs command, numbered_apply hv hs hnumbered command, ?_⟩
    by_cases hopen : s.status.isTerminal = true
    · show Balanced (apply c s command).1
      rw [apply_terminal hopen]
      exact hbalanced
    · rw [Bool.not_eq_true] at hopen
      obtain ⟨hleaks, hfits⟩ := not_or.mp hgood
      exact balanced_outcome hv hopen hbalanced hnumbered (outcome_apply hv hs hopen command) hleaks hfits
  · have hnext := (books_iff (sound_apply hv hs command) (numbered_apply hv hs hnumbered command)).mp hbooks
    rcases hbad with hleaks | hover
    · exact not_balanced_of_leaksUsage hv hs hbalanced hleaks hnext
    · exact not_balanced_of_overflows hv hs hbalanced hnumbered hover hnext

end

section

open Sample

/-- The input step, which is under way, reports what it used, and the totals take it up. -/
theorem bookkeeping_iff_reported :
    let commands := opening.take 2 ++ [.stepSucceeded "input" 1 .null { usage := { tokens := 5, costUsd := 1 / 4 } }]
    line.compile = .ok (compiled line) ∧ (runOf line commands).usage = { tokens := 5, costUsd := 1 / 4 } ∧
      (reducer (compiled line)).Always Books (.new "run" (compiled line)) commands ∧
      FinishesOnce ((reducer (compiled line)).trace (.new "run" (compiled line)) commands) := by
  intro commands
  refine ⟨compile_line, by decide +kernel, (bookkeeping_iff compile_line ⟨"run", {}, rfl⟩ commands).mpr ?_⟩
  have hin : InFlight (compiled line) (runOf line (opening.take 2)) "input" 1
      { status := .running, attempts := [{ attempt := 1, status := .running }] } { attempt := 1, status := .running } :=
    ⟨by decide, rfl, rfl, rfl, rfl⟩
  refine forall_mem_cons.mpr ⟨?_, forall_mem_cons.mpr ⟨?_, forall_mem_singleton.mpr ?_⟩⟩
  · rintro (h | ⟨_, h, -⟩) <;> cases h
  · rintro (h | ⟨_, h, -⟩) <;> cases h
  · rintro (⟨-, hno, -⟩ | ⟨details, ⟨rfl, -⟩, -, hover⟩)
    · exact hno _ _ hin rfl
    · exact hover ⟨by decide +kernel, by decide +kernel, by decide +kernel, by decide +kernel⟩

theorem late_success_unbalances : line.compile = .ok (compiled line) ∧
    ReachableRun (compiled line) (runOf line (opening ++ [lateSuccess])) ∧
    (runOf line (opening ++ [lateSuccess])).usage ≠
      (runOf line (opening ++ [lateSuccess])).steps.sum fun _ step => step.usage :=
  ⟨compile_line, reachable_runOf line (opening ++ [lateSuccess]), by decide⟩

end

end RustyCore
