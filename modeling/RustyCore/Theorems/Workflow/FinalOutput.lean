import RustyCore.Theorems.Workflow.Available
import RustyCore.Theorems.Workflow.Bookkeeping

/-! The final output of a completed run: it is what the output step computed from its own source, it conforms to the
    contract's schema where that is asked for, and it is the value of the contract's source exactly if the two
    sources resolve to one value. -/

namespace RustyCore

open Reducer Steps WorkflowCompiler Option

structure Execution where
  nodeId : OrchestrationNodeId
  attempt : Nat
  state : OrchestrationRunState

def executionOf (s : OrchestrationRunState) (effects : List OrchestrationEffect) : Option Execution :=
  effects.findSome? fun
    | .executeStep id attempt => some ⟨id, attempt, s⟩
    | _ => none

section

variable [WorkflowExternals]

def executing (c : CompiledOrchestration) : Machine (OrchestrationRunState × Option Execution) OrchestrationCommand
    (Except TransitionError (List OrchestrationEffect)) :=
  (reducer c).monitor fun st last =>
    match (apply c st.pre st.input).2 with
    | .ok effects => executionOf st.post effects <|> last
    | .error _ => last

variable [SchemaExternals]

def ReportsOutput (c : CompiledOrchestration) (st : Machine.Step (OrchestrationRunState × Option Execution)
    OrchestrationCommand (Except TransitionError (List OrchestrationEffect))) : Prop :=
  ∀ id attempt output details node config, st.input = .stepSucceeded id attempt output details →
    c.node id = some node → node.kind = .output config →
    ∃ s, st.pre.2 = some ⟨id, attempt, s⟩ ∧ executeOutput c s config = .ok output

omit [WorkflowExternals] in
def Conforms (c : CompiledOrchestration) (value : Value) : Prop :=
  ∃ schema, SchemaExternals.resolve c.definition.outputContract.schema = .ok schema ∧
    SchemaExternals.validate schema value = .ok ()

end

theorem executionOf_state {s : OrchestrationRunState} {effects : List OrchestrationEffect} {x : Execution}
    (h : executionOf s effects = some x) : x.state = s := by
  obtain ⟨effect, -, heffect⟩ := List.exists_of_findSome?_eq_some h
  split at heffect
  · cases heffect
    rfl
  · cases heffect

structure SameReads (s s' : OrchestrationRunState) : Prop where
  input : s'.input = s.input
  outputs : ∀ k, (s'.steps.get? k).bind (·.output) = (s.steps.get? k).bind (·.output)

def Idle (s : OrchestrationRunState) : Prop := ∀ k step, s.steps.get? k = some step → step.status.isActive = false

section

variable {s s' t : OrchestrationRunState} {id : OrchestrationNodeId} {step step' : StepRun}

theorem SameReads.refl (s : OrchestrationRunState) : SameReads s s := ⟨rfl, fun _ => rfl⟩

theorem SameReads.trans (h : SameReads s s') (h' : SameReads s' t) : SameReads s t :=
  ⟨h'.input.trans h.input, fun k => (h'.outputs k).trans (h.outputs k)⟩

theorem SameReads.resolve (h : SameReads s s') (binding : OutputBinding) :
    resolveBinding s' binding = resolveBinding s binding := by
  cases binding with
  | runInput pointer => rw [resolveBinding, resolveBinding, h.input]
  | nodeOutput k pointer => rw [resolveBinding, resolveBinding, h.outputs k]

theorem sameReads_setStep (hstep : s.steps.get? id = some step) (hsteps : s'.steps = (s.setStep id fun _ => step').steps)
    (hinput : s'.input = s.input) (houtput : step'.output = step.output) : SameReads s s' := by
  refine ⟨hinput, fun k => ?_⟩
  rw [hsteps, OrchestrationRunState.step_setStep]
  split
  · rename_i heq
    rw [heq, hstep, map_some, bind_some, bind_some, houtput]
  · rfl

theorem resolve_setStep {binding : OutputBinding} (hsteps : s'.steps = (s.setStep id fun _ => step').steps)
    (hinput : s'.input = s.input) (hother : ∀ source pointer, binding = .nodeOutput source pointer → source ≠ id) :
    resolveBinding s' binding = resolveBinding s binding := by
  cases binding with
  | runInput pointer => rw [resolveBinding, resolveBinding, hinput]
  | nodeOutput k pointer =>
    rw [resolveBinding, resolveBinding, hsteps, OrchestrationRunState.step_setStep_ne (hother k pointer rfl)]

variable (id) in
theorem exists_setStep {k : OrchestrationNodeId} {f : StepRun → StepRun} (h : s.steps.get? k = some step) :
    ∃ st, (s.setStep id f).steps.get? k = some st := by
  rw [OrchestrationRunState.step_setStep]
  split
  · exact ⟨f step, by rw [h]; rfl⟩
  · exact ⟨step, h⟩

end

section

variable [WorkflowExternals] {c : CompiledOrchestration} {s s' : OrchestrationRunState} {l : OrchestrationNodeId}
variable {step : StepRun} {command : OrchestrationCommand} {applied : Applied}

omit [WorkflowExternals] in
theorem idle_of_waiting {t : OrchestrationRunState} {next : StepRun} (hs : Sound c s)
    (hsteps : s.steps = (t.setStep l fun _ => next).steps) (hfound : t.steps.get? l = some step)
    (hlive : next.status.isLive = true) (hidle : next.status.isActive = false) : Idle s := by
  have hnext : s.steps.get? l = some next := by
    rw [hsteps]
    exact OrchestrationRunState.step_setStep_self hfound
  intro k st hst
  by_cases hk : k = l
  · subst hk
    rw [hnext] at hst
    cases hst
    exact hidle
  · exact hs.isActive_other ⟨next, hnext, hlive⟩ hst hk

omit [WorkflowExternals] in
theorem idle_of_over (hs : Sound c s) (hover : s.status.isTerminal = true ∨ s.status = .cancelling) : Idle s :=
  fun _ _ hst => hs.isActive_idle (hover.imp id .inl) hst

omit [WorkflowExternals] in
theorem idle_of_ended (hs : Sound c s) (hlive : s.Live l) {next : StepRun} (hended : next.status.isActive = false) {f : StepRun → StepRun}
    (hf : ∀ st, f st = next) : Idle (s.setStep l f) := by
  intro k st hst
  rw [OrchestrationRunState.step_setStep] at hst
  split at hst
  · obtain ⟨st', -, rfl⟩ := map_eq_some_iff.mp hst
    rw [hf]
    exact hended
  · rename_i hk
    exact hs.isActive_other hlive hst hk

theorem reads_outcome (hs : Sound c s) (hs' : Sound c applied.1) (h : Outcome c s command applied) :
    (∃ id attempt effects, applied.2 = .ok effects ∧ executionOf applied.1 effects = some ⟨id, attempt, applied.1⟩) ∨
      Idle applied.1 ∨ (SameReads s applied.1 ∧ (Idle s → Idle applied.1)) := by
  cases h with
  | rejected | leakedSuccess | leakedFailure => exact .inr (.inr ⟨⟨rfl, fun _ => rfl⟩, fun h => h⟩)
  | stuckSuccess hin | stuckFailure hnode hin =>
    refine .inr (.inl ?_)
    exact idle_of_ended (s := spend s _) ⟨hs.ident, hs.keys, hs.current, hs.single, hs.idle⟩ ⟨_, hin.found, hin.isLive⟩ rfl
      fun _ => rfl
  | started hcreated hstep =>
    exact .inr (.inl (idle_of_waiting hs' settle_steps hstep rfl rfl))
  | denied | completed | failed | aborted | cancelled | cancellationCompleted | restoredCancelling | interrupted =>
    exact .inr (.inl (idle_of_over hs' (.inl rfl)))
  | cancelling => exact .inr (.inl (idle_of_over hs' (.inr rfl)))
  | @admitted id attempt => exact .inl ⟨id, attempt, _, rfl, rfl⟩
  | @advanced id attempt output details step next current edge es hin hrunning hkind hedge hnext
  | @rerouted id attempt error details node step next current edge es hnode hin hretry hback hedge hnext =>
    obtain ⟨st, hst⟩ := exists_setStep id hnext
    exact .inr (.inl (idle_of_waiting hs' settle_steps hst rfl rfl))
  | @retried id attempt error details node step current es hnode hin =>
    exact .inr (.inl (idle_of_waiting hs' settle_steps hin.found rfl rfl))
  | @sentBack id target attempt error details node step current span revise es hnode hin =>
    refine .inr (.inl fun k st hst => ?_)
    rw [settle_steps, OrdMap.get?_mapEntries] at hst
    obtain ⟨st', hst', rfl⟩ := map_eq_some_iff.mp hst
    unfold sentBackStep
    split
    · rfl
    · split
      · rfl
      · split
        · rfl
        · rename_i hid _
          exact hs.isActive_other ⟨_, hin.found, hin.isLive⟩ hst' hid
  | touched hin htouch =>
    refine .inr (.inr ⟨sameReads_setStep hin.found settle_steps settle_input ?_, fun h => ?_⟩)
    · cases htouch <;> rfl
    · have hidle := h _ _ hin.found
      rw [hin.active] at hidle
      cases hidle
  | checkpointed hin =>
    refine .inr (.inr ⟨sameReads_setStep hin.found rfl rfl rfl, fun h => ?_⟩)
    have hidle := h _ _ hin.found
    rw [hin.active] at hidle
    cases hidle
  | @woken id step hstep =>
    exact .inr (.inl (idle_of_waiting hs' settle_steps hstep rfl rfl))
  | paused | resumed =>
    refine .inr (.inr ⟨⟨settle_input, fun k => by rw [settle_steps]⟩, fun h => ?_⟩)
    intro k st hst
    rw [settle_steps] at hst
    exact h k st hst
  | restored hcancelling hnone =>
    refine .inr (.inl fun k st hst => hnone k st ?_)
    rwa [settle_steps] at hst
  | @replayed id attempt step current hcancelling hin =>
    exact .inr (.inl (idle_of_waiting hs' settle_steps hin.found rfl rfl))

theorem completed_outcome (hopen : s.status.isTerminal = false) (h : Outcome c s command applied)
    (hdone : applied.1.status = .completed) : ∃ id attempt output details step current,
      command = .stepSucceeded id attempt output details ∧ InFlight c s id attempt step current ∧
      (c.node id).any (·.kind.isOutput) = true ∧ applied.1.finalOutput = some output ∧ applied.1.input = s.input ∧
      applied.1.steps = (s.setStep id fun _ => succeedStep step current output details).steps ∧
      ∃ effects, applied.2 = .ok effects ∧ executionOf applied.1 effects = none := by
  have hnot : ∀ t : OrchestrationRunState, t.status.isTerminal = false → t.status ≠ .completed := by
    intro t ht heq
    rw [heq] at ht
    cases ht
  have hsettled : ∀ t : OrchestrationRunState, t.status = s.status → (settle t).status ≠ .completed := by
    intro t ht
    exact hnot _ (by rw [isTerminal_settle, ht, hopen])
  cases h with
  | rejected | leakedSuccess | leakedFailure | stuckSuccess | stuckFailure | checkpointed =>
    exact absurd hdone (hnot s hopen)
  | started | admitted | advanced | retried | sentBack | rerouted | touched | woken | paused | resumed | restored
  | replayed => exact absurd hdone (hsettled _ rfl)
  | denied | failed | aborted | cancelling | cancelled | cancellationCompleted | restoredCancelling | interrupted =>
    cases hdone
  | @completed id attempt output details step current result es hin hrunning hkind hresult hes =>
    refine ⟨id, attempt, output, details, step, current, rfl, hin, hkind, rfl, rfl, rfl, _, rfl, ?_⟩
    refine List.findSome?_eq_none_iff.mpr fun e he => ?_
    rcases List.mem_append.mp he with he | he
    · obtain ⟨event, rfl⟩ := hes e he
      rfl
    · rw [List.mem_singleton.mp he]

variable [SchemaExternals]

omit [WorkflowExternals] in
theorem executeOutput_ok {config : OutputNodeConfig} {value : Value} (h : executeOutput c s config = .ok value) :
    resolveBinding s config.source = .ok value ∧
      ((config.strict || c.definition.outputContract.strict) = true → Conforms c value) := by
  unfold executeOutput at h
  split at h
  · cases h
  · rename_i resolved hresolve
    split at h
    · split at h
      · cases h
      · rename_i schema hschema
        split at h
        · cases h
        · rename_i hcheck
          cases h
          refine ⟨hresolve, fun _ => ⟨schema, ?_, ?_⟩⟩
          · unfold resolveSchema at hschema
            cases heq : SchemaExternals.resolve c.definition.outputContract.schema with
            | error e => rw [heq] at hschema; cases hschema
            | ok found => rw [heq] at hschema; cases hschema; rfl
          · unfold checkValue at hcheck
            cases heq : SchemaExternals.validate schema value with
            | error e => rw [heq] at hcheck; cases hcheck
            | ok u => rfl
    · rename_i hlax
      cases h
      exact ⟨hresolve, fun hstrict => absurd hstrict hlax⟩

end

def EndedBy (c : CompiledOrchestration) (r : OrchestrationRunState × Option Execution) (config : OutputNodeConfig) :
    Prop :=
  ∃ last node, r.2 = some last ∧ c.node last.nodeId = some node ∧ node.kind = .output config

/-- The final output is the value of the source, and conforms to the schema of the contract if that or the output
    step is strict. -/
def Delivers [SchemaExternals] (c : CompiledOrchestration) (s : OrchestrationRunState) (config : OutputNodeConfig)
    (source : OutputBinding) : Prop :=
  ∃ value, s.finalOutput = some value ∧ resolveBinding s source = .ok value ∧
    ((config.strict || c.definition.outputContract.strict) = true → Conforms c value)

def contractSource (c : CompiledOrchestration) (config : OutputNodeConfig) : OutputBinding :=
  c.definition.outputContract.source.getD config.source

def HonoursContract [SchemaExternals] (c : CompiledOrchestration) (r : OrchestrationRunState × Option Execution) : Prop :=
  ∃ config, EndedBy c r config ∧ Delivers c r.1 config (contractSource c config)

section

variable [WorkflowExternals] [SchemaExternals] {d : OrchestrationDefinition} {c : CompiledOrchestration}

/-- The last execution was against a state with the outputs there are now, or it is over; and a completed run
    delivers the value of its output step's source. -/
structure Tracked (c : CompiledOrchestration) (r : OrchestrationRunState × Option Execution) : Prop where
  sound : Sound c r.1
  current : ∀ last, r.2 = some last → SameReads last.state r.1 ∨ Idle r.1
  done : r.1.status = .completed → ∃ config, EndedBy c r config ∧ Delivers c r.1 config config.source

omit [WorkflowExternals] [SchemaExternals] in
theorem EndedBy.unique {r : OrchestrationRunState × Option Execution} {config config' : OutputNodeConfig}
    (h : EndedBy c r config) (h' : EndedBy c r config') : config = config' := by
  obtain ⟨last, node, hlast, hnode, hkind⟩ := h
  obtain ⟨last', node', hlast', hnode', hkind'⟩ := h'
  rw [hlast] at hlast'
  cases hlast'
  rw [hnode] at hnode'
  cases hnode'
  rw [hkind] at hkind'
  exact OrchestrationNodeKind.output.inj hkind'

omit [SchemaExternals] in
theorem source_ne (hc : d.compile = .ok c) {id : OrchestrationNodeId} {node : OrchestrationNode}
    {config : OutputNodeConfig} (hnode : c.node id = some node) (hkind : node.kind = .output config)
    (source : OrchestrationNodeId) (pointer : String) (h : config.source = .nodeOutput source pointer) : source ≠ id := by
  refine (valid_of_compile hc).ne_of_below (below_of_reads hc hnode ⟨pointer, ?_⟩)
  rw [OrchestrationNode.reads, hkind]
  exact List.mem_append_right _ (by rw [← h]; exact List.mem_singleton_self _)

theorem tracked_step (hc : d.compile = .ok c) (r : OrchestrationRunState × Option Execution)
    (command : OrchestrationCommand) (h : Tracked c r) (hreports : ReportsOutput c ((executing c).stepAt r command)) :
    Tracked c ((executing c).step r command).1 := by
  have hv := valid_of_compile hc
  obtain ⟨s, last⟩ := r
  obtain ⟨hs, hcurrent, hdone⟩ := h
  have hs' : Sound c (apply c s command).1 := sound_apply hv hs command
  by_cases hterminal : s.status.isTerminal = true
  · have hsame : ((executing c).step (s, last) command).1 = (s, last) := by
      simp only [executing, Machine.monitor, reducer, Machine.stepAt, apply_terminal hterminal]
    rw [hsame]
    exact ⟨hs, hcurrent, hdone⟩
  · rw [Bool.not_eq_true] at hterminal
    have hout := outcome_apply hv hs hterminal command
    have hpost : ((executing c).step (s, last) command).1 = ((apply c s command).1,
        match (apply c s command).2 with
        | .ok effects => executionOf (apply c s command).1 effects <|> last
        | .error _ => last) := rfl
    rw [hpost]
    refine ⟨hs', fun x hx => ?_, fun hcompleted => ?_⟩
    · have hkept : last = some x → (SameReads s (apply c s command).1 ∧ (Idle s → Idle (apply c s command).1)) →
          SameReads x.state (apply c s command).1 ∨ Idle (apply c s command).1 := by
        rintro hlast ⟨hsame, hidle⟩
        exact (hcurrent x hlast).imp (·.trans hsame) hidle
      have hreads := reads_outcome hs hs' hout
      dsimp only at hx
      cases heffects : (apply c s command).2 with
      | error e =>
        rw [heffects] at hx
        rcases hreads with ⟨id, attempt, effects, hok, -⟩ | hidle | hsame
        · rw [heffects] at hok
          cases hok
        · exact .inr hidle
        · exact hkept hx hsame
      | ok effects =>
        rw [heffects] at hx
        cases hexecuted : executionOf (apply c s command).1 effects with
        | some y =>
          simp only [hexecuted] at hx
          obtain rfl := Option.some.inj hx
          rw [executionOf_state hexecuted]
          exact .inl (.refl _)
        | none =>
          simp only [hexecuted] at hx
          rcases hreads with ⟨id, attempt, effects', hok, hsome⟩ | hidle | hsame
          · rw [heffects] at hok
            cases hok
            rw [hexecuted] at hsome
            cases hsome
          · exact .inr hidle
          · exact hkept hx hsame
    · obtain ⟨id, attempt, output, details, step, current, rfl, hin, hkind, hfinal, hinput, hsteps, effects, heffects,
        hnone⟩ := completed_outcome hterminal hout hcompleted
      obtain ⟨node, hnode, hnodeKind⟩ := (any_eq_true _ _).mp hkind
      obtain ⟨config, hconfig⟩ : ∃ config, node.kind = .output config := by
        cases hcase : node.kind with
        | output config => exact ⟨config, rfl⟩
        | _ => rw [hcase] at hnodeKind; cases hnodeKind
      obtain ⟨s₀, hlast, hexecute⟩ := hreports id attempt output details node config rfl hnode hconfig
      obtain rfl : last = some ⟨id, attempt, s₀⟩ := hlast
      obtain ⟨hresolve, hconforms⟩ := executeOutput_ok hexecute
      rw [heffects]
      simp only [hnone]
      refine ⟨config, ⟨_, node, rfl, hnode, hconfig⟩, output, hfinal, ?_, hconforms⟩
      rcases hcurrent _ rfl with hsame | hidle
      · rw [resolve_setStep hsteps hinput (source_ne hc hnode hconfig), hsame.resolve]
        exact hresolve
      · have hactive := hidle _ _ hin.found
        rw [hin.active] at hactive
        cases hactive

theorem tracked_run (hc : d.compile = .ok c) {r : OrchestrationRunState × Option Execution} (h : Tracked c r)
    {commands : List OrchestrationCommand} (hreports : ∀ st ∈ (executing c).trace r commands, ReportsOutput c st) :
    Tracked c ((executing c).run r commands) :=
  Machine.run_rule (tracked_step hc) h hreports

/-- A completed run of a compiled workflow honours the output contract exactly if the contract's source, where it has
    one, resolves to the same as the source of the output step that ended the run. -/
theorem honours_contract_iff (hc : d.compile = .ok c) {s : OrchestrationRunState} (hfresh : Fresh c s)
    {commands : List OrchestrationCommand}
    (hreports : ∀ st ∈ (executing c).trace (s, none) commands, ReportsOutput c st)
    (hdone : ((executing c).run (s, none) commands).1.status = .completed) :
    HonoursContract c ((executing c).run (s, none) commands) ↔
      ∃ config, EndedBy c ((executing c).run (s, none) commands) config ∧
        resolveBinding ((executing c).run (s, none) commands).1 (contractSource c config) =
          resolveBinding ((executing c).run (s, none) commands).1 config.source := by
  have hstart : Tracked c (s, none) := by
    refine ⟨sound_fresh hfresh, fun _ hlast => absurd hlast (by simp), fun h => ?_⟩
    obtain ⟨runId, options, rfl⟩ := hfresh
    cases h
  obtain ⟨config, hended, value, hfinal, hvalue, hconforms⟩ := (tracked_run hc hstart hreports).done hdone
  constructor
  · rintro ⟨config', hended', value', hfinal', hvalue', -⟩
    obtain rfl := hended.unique hended'
    rw [hfinal] at hfinal'
    cases hfinal'
    exact ⟨config, hended, hvalue'.trans hvalue.symm⟩
  · rintro ⟨config', hended', hsame⟩
    obtain rfl := hended.unique hended'
    exact ⟨config, hended, value, hfinal, hsame.trans hvalue, hconforms⟩

end

namespace Sample

/-- The registry holds nothing but inline schemas; the validator knows the schema of a text. -/
scoped instance schemaExternals : SchemaExternals where
  resolve
    | .inline _ schema => .ok schema
    | .registry schemaId _ => .error ("unknown schema " ++ schemaId)
  validate
    | _, .string _ => .ok ()
    | _, _ => .error "value is not of type string"

def contracted : OrchestrationDefinition :=
  { line with outputContract := { source := some (.nodeOutput "work" "") } }

theorem compile_contracted : contracted.compile = .ok (compiled contracted) :=
  compile_eq_compiled (by decide) (by decide)

def given : OrchestrationRunState := .new "run" (compiled contracted)

def delivered : List OrchestrationCommand :=
  [.start (.string "given"), .stepAdmitted "input" 1, .stepSucceeded "input" 1 (.string "given") {},
    .stepAdmitted "work" 1, .stepSucceeded "work" 1 (.string "made") {},
    .stepAdmitted "output" 1, .stepSucceeded "output" 1 (.string "given") {}]

def text : Value → Option String
  | .string s => some s
  | _ => none

theorem text_eq {value : Value} {s : String} (h : text value = some s) : value = .string s := by
  cases value <;> simp_all [text]

def reports (c : CompiledOrchestration) (st : Machine.Step (OrchestrationRunState × Option Execution)
    OrchestrationCommand (Except TransitionError (List OrchestrationEffect))) : Bool :=
  match st.input with
  | .stepSucceeded id attempt output _ =>
    match (c.node id).map OrchestrationNode.kind, st.pre.2 with
    | some (.output config), some last =>
      last.nodeId == id && last.attempt == attempt && (text output).isSome &&
        (executeOutput c last.state config).toOption.bind text == text output
    | some (.output _), none => false
    | _, _ => true
  | _ => true

theorem reportsOutput_of_reports {c : CompiledOrchestration} {st : Machine.Step (OrchestrationRunState × Option Execution)
    OrchestrationCommand (Except TransitionError (List OrchestrationEffect))} (h : reports c st = true) :
    ReportsOutput c st := by
  intro id attempt output details node config hinput hnode hkind
  unfold reports at h
  simp only [hinput, hnode, map_some, hkind] at h
  cases hlast : st.pre.2 with
  | none => simp [hlast] at h
  | some last =>
    obtain ⟨lastId, lastAttempt, s⟩ := last
    simp only [hlast, Bool.and_eq_true, beq_iff_eq] at h
    obtain ⟨⟨⟨rfl, rfl⟩, htext⟩, hsame⟩ := h
    obtain ⟨words, hwords⟩ := isSome_iff_exists.mp htext
    rw [hwords] at hsame
    refine ⟨s, rfl, ?_⟩
    cases hexecute : executeOutput c s config with
    | error e =>
      rw [hexecute] at hsame
      cases hsame
    | ok value =>
      rw [hexecute] at hsame
      rw [text_eq hsame, text_eq hwords]

theorem delivered_reports : ∀ st ∈ (executing (compiled contracted)).trace (given, none) delivered,
    ReportsOutput (compiled contracted) st := by
  have hall : ((executing (compiled contracted)).trace (given, none) delivered).all (reports (compiled contracted)) = true := by
    decide
  exact fun st hst => reportsOutput_of_reports (List.all_eq_true.mp hall st hst)

theorem delivered_completed :
    ((executing (compiled contracted)).run (given, none) delivered).1.status = .completed := by decide

theorem delivered_texts :
    ((executing (compiled contracted)).run (given, none) delivered).1.finalOutput.bind text = some "given" ∧
    (resolveBinding ((executing (compiled contracted)).run (given, none) delivered).1 (.nodeOutput "work" "")).toOption.bind
      text = some "made" := by decide

end Sample

section

open Sample

theorem honours_contract_iff_delivered : contracted.compile = .ok (compiled contracted) ∧
    (HonoursContract (compiled contracted) ((executing (compiled contracted)).run (given, none) delivered) ↔
      ∃ config, EndedBy (compiled contracted) ((executing (compiled contracted)).run (given, none) delivered) config ∧
        resolveBinding ((executing (compiled contracted)).run (given, none) delivered).1
            (contractSource (compiled contracted) config) =
          resolveBinding ((executing (compiled contracted)).run (given, none) delivered).1 config.source) :=
  ⟨compile_contracted, honours_contract_iff compile_contracted ⟨"run", {}, rfl⟩ delivered_reports delivered_completed⟩

/-- The result of the agent step is asked for, and the run's input is put out. -/
theorem contract_source_is_ignored : contracted.compile = .ok (compiled contracted) ∧ Fresh (compiled contracted) given ∧
    (∀ st ∈ (executing (compiled contracted)).trace (given, none) delivered, ReportsOutput (compiled contracted) st) ∧
    ((executing (compiled contracted)).run (given, none) delivered).1.status = .completed ∧
    ¬ HonoursContract (compiled contracted) ((executing (compiled contracted)).run (given, none) delivered) := by
  refine ⟨compile_contracted, ⟨"run", {}, rfl⟩, delivered_reports, delivered_completed, ?_⟩
  rintro ⟨config, -, value, hfinal, hvalue, -⟩
  obtain ⟨hput, hasked⟩ := delivered_texts
  have hsource : contractSource (compiled contracted) config = .nodeOutput "work" "" := rfl
  rw [hsource] at hvalue
  rw [hfinal] at hput
  rw [hvalue] at hasked
  exact absurd (hput.symm.trans hasked) (by decide)

end

end RustyCore
