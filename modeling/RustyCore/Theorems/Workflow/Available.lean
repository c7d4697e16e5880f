import RustyCore.Theorems.Workflow.Moves
import RustyCore.Workflow.Inputs

/-! Bound inputs. The compiler lets a node read the output of any ancestor. A run follows one route, though, and
    an ancestor on another branch, or one that the route left by its failure edge, has no output: a step that is
    executed finds what it reads exactly as long as the run never enters a node past one of its sources. -/

namespace RustyCore

open Reducer WorkflowCompiler Steps List Option

def OrchestrationRunState.Available (s : OrchestrationRunState) (id : OrchestrationNodeId) : Prop :=
  ∃ step, s.steps.get? id = some step ∧ step.status = .succeeded ∧ step.output.isSome = true

/-- The node reads an output of `source`. -/
def OrchestrationNode.Reads (node : OrchestrationNode) (source : OrchestrationNodeId) : Prop :=
  ∃ pointer, .nodeOutput source pointer ∈ node.reads

structure Supplied (s : OrchestrationRunState) (node : OrchestrationNode) : Prop where
  sources : ∀ source, node.Reads source → s.Available source
  bindings : ∀ binding ∈ node.reads, ∀ e, resolveBinding s binding = .error e → e.code ≠ "missing_output"
  inputs : ∀ e, resolveInputs s node.inputBindings = .error e → e.code ≠ "missing_output"

section

variable [WorkflowExternals] (c : CompiledOrchestration) (s : OrchestrationRunState)

def BoundInputs : Prop := ∀ command effects id attempt, (apply c s command).2 = .ok effects →
  .executeStep id attempt ∈ effects → ∀ node, c.node id = some node → Supplied (apply c s command).1 node

/-- The node reads an output that is not there, other than those of `done`. -/
def Lacks (id : OrchestrationNodeId) (done : List OrchestrationNodeId) : Prop :=
  ∃ node source, c.node id = some node ∧ node.Reads source ∧ source ∉ done ∧ ¬ s.Available source

def Unsupplied (id : OrchestrationNodeId) (done : List OrchestrationNodeId) : Prop :=
  (∃ step, s.steps.get? id = some step ∧ step.status = .pending) ∧ Lacks c s id done

/-- The command takes the run into a node past one of its sources: along the edge of a success or a failure, or
    by sending work back. -/
def EntersPast : OrchestrationCommand → Prop
  | .stepSucceeded id attempt _ _ => ∃ step current edge, InFlight c s id attempt step current ∧
      step.status = .running ∧ (c.node id).any (·.kind.isOutput) = false ∧
      c.outgoingFor id .onSuccess = some edge ∧ Unsupplied c s edge.target [id]
  | .stepFailed id attempt error details => ∃ node step current, c.node id = some node ∧
      InFlight c s id attempt step current ∧
      retriesSame node.retry error attempt step.retryBase (budgetLeft c s details) = false ∧
      ((∃ target revise, SendsBack c s id attempt error details node target revise ∧ Lacks c s target []) ∨
        ((∀ target revise, ¬ SendsBack c s id attempt error details node target revise) ∧
          ∃ edge, c.outgoingFor id .onFailure = some edge ∧ Unsupplied c s edge.target []))
  | _ => False

end

/-- The ways through a workflow, each with the nodes whose outputs are there when it arrives: the nodes it left by
    their success edge and that nothing sent back since. -/
inductive Walk (c : CompiledOrchestration) : OrchestrationNodeId → List OrchestrationNodeId → Prop
  | enter : Walk c c.entryNode []
  | success {id : OrchestrationNodeId} {done : List OrchestrationNodeId} {edge : OrchestrationEdge}
      (h : Walk c id done) (hedge : c.outgoingFor id .onSuccess = some edge) : Walk c edge.target (id :: done)
  | failure {id : OrchestrationNodeId} {done : List OrchestrationNodeId} {edge : OrchestrationEdge}
      (h : Walk c id done) (hedge : c.outgoingFor id .onFailure = some edge) : Walk c edge.target done
  | back {id target : OrchestrationNodeId} {done span : List OrchestrationNodeId} (h : Walk c id done)
      (hlink : c.Link id target span) : Walk c target (done.filter (· ∉ span))

def Guaranteed (c : CompiledOrchestration) : Prop := ∀ id done node, Walk c id done → c.node id = some node →
  ∀ source, node.Reads source → source ∈ done

theorem guaranteed_of_certain {c : CompiledOrchestration} (certain : OrchestrationNodeId → List OrchestrationNodeId)
    (hentry : certain c.entryNode = [])
    (hsuccess : ∀ id edge, c.outgoingFor id .onSuccess = some edge → certain edge.target ⊆ id :: certain id)
    (hfailure : ∀ id edge, c.outgoingFor id .onFailure = some edge → certain edge.target ⊆ certain id)
    (hback : ∀ id target span, c.Link id target span → ∀ k ∈ certain target, k ∈ certain id ∧ k ∉ span)
    (hreads : ∀ id node, c.node id = some node → ∀ source, node.Reads source → source ∈ certain id) :
    Guaranteed c := by
  have hwalk : ∀ id done, Walk c id done → certain id ⊆ done := by
    intro id done h
    induction h with
    | enter => rw [hentry]; exact nil_subset _
    | success _ hedge ih => exact List.Subset.trans (hsuccess _ _ hedge) (cons_subset_cons _ ih)
    | failure _ hedge ih => exact List.Subset.trans (hfailure _ _ hedge) ih
    | back _ hlink ih =>
      intro k hk
      obtain ⟨hmem, hout⟩ := hback _ _ _ hlink k hk
      exact mem_filter.mpr ⟨ih hmem, by simpa using hout⟩
  exact fun id done node h hnode source hsource => hwalk id done h (hreads id node hnode source hsource)

namespace WorkflowCompiler

variable {d : OrchestrationDefinition} {c : CompiledOrchestration}

variable {source : OrchestrationNodeId}

theorem checkBindingSource_eq_nil {pointer path : String}
    {upstream : List OrchestrationNodeId} {nodes : Nodes}
    (h : checkBindingSource (.nodeOutput source pointer) upstream nodes path = []) : source ∈ upstream := by
  rw [checkBindingSource] at h
  split at h
  · cases h
  · rw [reject_eq_nil] at h
    simpa using h

variable {node : OrchestrationNode}

theorem reads_upstream {nodes : Nodes} {outgoing : Edges}
    (h : checkNodeDataFlow node nodes outgoing = []) (hreads : node.Reads source) :
    source ∈ ancestors outgoing node.id := by
  obtain ⟨pointer, hmem⟩ := hreads
  obtain ⟨hbindings, hkind⟩ := append_eq_nil_iff.mp h
  rcases mem_append.mp hmem with hmem | hmem
  · obtain ⟨binding, hbinding, hsource⟩ := mem_map.mp hmem
    obtain ⟨index, hindex⟩ := mem_iff_getElem?.mp hbinding
    have hnil := flatMap_eq_nil_iff.mp hbindings (binding, index) (mem_zipIdx_iff_getElem?.mpr hindex)
    dsimp only at hnil
    rw [hsource] at hnil
    exact checkBindingSource_eq_nil hnil
  · cases hnode : node.kind with
    | output config =>
      rw [hnode] at hmem hkind
      rw [mem_singleton] at hmem
      dsimp only at hkind
      rw [← hmem] at hkind
      exact checkBindingSource_eq_nil (append_eq_nil_iff.mp hkind).2
    | approval config =>
      rw [hnode] at hmem hkind
      rw [mem_singleton] at hmem
      dsimp only [checkApprovalNode] at hkind
      rw [← hmem] at hkind
      simp only [append_eq_nil_iff] at hkind
      exact checkBindingSource_eq_nil hkind.1.1.2
    | _ =>
      rw [hnode] at hmem
      cases hmem

variable [WorkflowExternals]

theorem below_of_reads (h : d.compile = .ok c) {id source : OrchestrationNodeId}
    (hnode : c.node id = some node) (hreads : node.Reads source) : c.Below source id := by
  obtain ⟨entry, hentry, hissues, rfl⟩ := compile_eq_ok h
  obtain ⟨-, -, hdata, -⟩ := issues_eq_nil hentry hissues
  have hnil := flatMap_eq_nil_iff.mp (append_eq_nil_iff.mp hdata).1 node (OrdMap.mem_values.mpr ⟨id, hnode⟩)
  have hup := reads_upstream hnil hreads
  rw [(get?_nodesById hnode).1] at hup
  exact filed_buildEdges.mem_ancestors.mp hup

theorem reached_of_compile (h : d.compile = .ok c) {id : OrchestrationNodeId} (hid : id ∈ c.nodes.keys) :
    id = c.entryNode ∨ c.Below c.entryNode id := by
  obtain ⟨entry, hentry, hissues, rfl⟩ := compile_eq_ok h
  simp only [OrchestrationDefinition.issues, hentry, append_eq_nil_iff] at hissues
  obtain ⟨⟨-, hreach⟩, -⟩ := hissues
  have hnil := flatMap_eq_nil_iff.mp (append_eq_nil_iff.mp hreach).2 id hid
  rw [reject_eq_nil] at hnil
  by_cases heq : id = entry
  · exact Or.inl heq
  · have hmem : id ∈ descendants (buildEdges d (nodesById d)).outgoing entry := by simpa [heq] using hnil
    exact Or.inr (mem_descendants.mp hmem)

theorem not_reads_entry (h : d.compile = .ok c)
    (hnode : c.node c.entryNode = some node) : ¬ node.Reads source := by
  intro hreads
  have hv := valid_of_compile h
  have hbelow := below_of_reads h hnode hreads
  obtain ⟨next, hedge, -⟩ := Relation.TransGen.head'_iff.mp hbelow
  rcases reached_of_compile h (hv.edge _ _ hedge).1 with rfl | hup
  · exact hv.ne_of_below hbelow rfl
  · exact hv.ne_of_below (hbelow.trans hup) rfl

end WorkflowCompiler

section

variable {c : CompiledOrchestration} {s s' : OrchestrationRunState} {node : OrchestrationNode}

theorem resolveInputs_error {bindings : List InputBinding} {e : OrchestrationError}
    (h : resolveInputs s bindings = .error e) : ∃ binding ∈ bindings, resolveBinding s binding.source = .error e := by
  have hloop : ∀ (bindings : List InputBinding) (fields : List (String × Value)),
      bindings.foldlM (fun fields binding => do
        return Value.insertField binding.target (← resolveBinding s binding.source) fields) fields = .error e →
      ∃ binding ∈ bindings, resolveBinding s binding.source = .error e := by
    intro bindings
    induction bindings with
    | nil => exact fun fields h => by cases h
    | cons binding rest ih =>
      intro fields h
      rw [foldlM_cons] at h
      cases hvalue : resolveBinding s binding.source with
      | error e' =>
        rw [hvalue] at h
        cases h
        exact ⟨binding, mem_cons_self, hvalue⟩
      | ok value =>
        rw [hvalue] at h
        obtain ⟨found, hmem, hfound⟩ := ih _ h
        exact ⟨found, mem_cons_of_mem _ hmem, hfound⟩
  refine hloop bindings [] ?_
  unfold resolveInputs at h
  cases hfold : bindings.foldlM (fun fields binding => do
      return Value.insertField binding.target (← resolveBinding s binding.source) fields) [] with
  | error e' =>
    rw [hfold] at h
    cases h
    rfl
  | ok fields =>
    rw [hfold] at h
    cases h

theorem supplied_of_available (h : ∀ source, node.Reads source → s.Available source) : Supplied s node := by
  have hbindings : ∀ binding ∈ node.reads, ∀ e, resolveBinding s binding = .error e → e.code ≠ "missing_output" := by
    intro binding hmem e he
    cases binding with
    | runInput pointer =>
      rw [resolveBinding] at he
      split at he
      · rw [pointerValue_error he]
        simp [invalidPointer]
      · cases he
        simp [missingInput]
    | nodeOutput source pointer =>
      obtain ⟨step, hstep, -, houtput⟩ := h source ⟨pointer, hmem⟩
      obtain ⟨value, hvalue⟩ := isSome_iff_exists.mp houtput
      rw [resolveBinding, hstep, bind_some, hvalue] at he
      rw [pointerValue_error he]
      simp [invalidPointer]
  refine ⟨h, hbindings, fun e he => ?_⟩
  obtain ⟨binding, hmem, hfound⟩ := resolveInputs_error he
  exact hbindings binding.source (mem_append_left _ (mem_map_of_mem hmem)) e hfound

theorem available_congr (hsteps : s'.steps = s.steps) {id : OrchestrationNodeId} : s'.Available id ↔ s.Available id := by
  rw [OrchestrationRunState.Available, hsteps]
  rfl

theorem OrchestrationRunState.Available.ne_live {id l : OrchestrationNodeId} {step : StepRun} (h : s.Available id)
    (hstep : s.steps.get? l = some step) (hlive : step.status.isLive = true) : id ≠ l := by
  rintro rfl
  obtain ⟨st, hst, hstatus, -⟩ := h
  obtain rfl := Option.some.inj (hst.symm.trans hstep)
  rw [hstatus] at hlive
  cases hlive

theorem OrchestrationRunState.Available.setStep {id k : OrchestrationNodeId} {f : StepRun → StepRun} (h : s.Available k)
    (hne : k ≠ id) : (s.setStep id f).Available k := by
  obtain ⟨step, hstep, hrest⟩ := h
  exact ⟨step, (OrchestrationRunState.step_setStep_ne hne).trans hstep, hrest⟩

theorem Reducer.InFlight.ne_pending {id target : OrchestrationNodeId} {attempt : Nat} {step next : StepRun}
    {current : StepAttempt} (hin : InFlight c s id attempt step current) (hnext : s.steps.get? target = some next)
    (hpending : next.status = .pending) : target ≠ id := by
  rintro rfl
  have hactive := hin.active
  rw [Option.some.inj (hin.found.symm.trans hnext), hpending] at hactive
  cases hactive

theorem available_advance {id target k : OrchestrationNodeId} {attempt : Nat} {condition : EdgeCondition}
    {step step' next : StepRun} {current : StepAttempt} (hin : InFlight c s id attempt step current)
    (hends : Ends condition step step') (hnext : s.steps.get? target = some next) (hpending : next.status = .pending)
    (hsteps : s'.steps = ((s.setStep id fun _ => step').setStep target fun _ => { next with status := .ready }).steps)
    (h : s.Available k ∨ (condition = .onSuccess ∧ k = id)) : s'.Available k := by
  rw [available_congr hsteps]
  rcases h with h | ⟨rfl, rfl⟩
  · have hne : k ≠ target := by
      rintro rfl
      obtain ⟨st, hst, hstatus, -⟩ := h
      obtain rfl := Option.some.inj (hst.symm.trans hnext)
      rw [hstatus] at hpending
      cases hpending
    exact (h.setStep (h.ne_live hin.found hin.isLive)).setStep hne
  · refine ⟨step', ?_, hends.status, hends.output rfl⟩
    rw [OrchestrationRunState.step_setStep_ne (hin.ne_pending hnext hpending).symm,
      OrchestrationRunState.step_setStep_self hin.found]

variable [WorkflowExternals] {Q : OrchestrationNodeId → (OrchestrationNodeId → Prop) → Prop}

variable {command : OrchestrationCommand}

theorem live_rule (hs : Sound c s) (hs' : Sound c s') (hmono : ∀ l A B, Q l A → (∀ k, A k → B k) → Q l B)
    (hentry : ∀ A, Q c.entryNode A)
    (hadvance : ∀ {id attempt step current condition edge next}, InFlight c s id attempt step current →
      Leaves c s id attempt step condition command → c.outgoingFor id condition = some edge →
      s.steps.get? edge.target = some next → next.status = .pending → Q id s.Available →
      Q edge.target fun k => s.Available k ∨ (condition = .onSuccess ∧ k = id))
    (hsendBack : ∀ {id attempt error details node step current target revise span},
      command = .stepFailed id attempt error details → c.node id = some node → InFlight c s id attempt step current →
      retriesSame node.retry error attempt step.retryBase (budgetLeft c s details) = false →
      SendsBack c s id attempt error details node target revise → c.Link id target span → Q id s.Available →
      Q target fun k => s.Available k ∧ k ∉ span)
    (h : ∀ l, s.Live l → Q l s.Available) (hmove : Move c s command s') : ∀ l, s'.Live l → Q l s'.Available := by
  -- A move that only changes the live step leaves it the only one that can be live.
  have hupdate : ∀ {id step step'}, s.steps.get? id = some step → step.status.isLive = true →
      s'.steps = (s.setStep id fun _ => step').steps → ∀ l, s'.Live l → Q l s'.Available := by
    intro id step step' hstep hlive hsteps l hl
    have hid : l = id := by
      by_contra hne
      obtain ⟨st, hst, hst'⟩ := hl
      rw [hsteps, OrchestrationRunState.step_setStep_ne hne] at hst
      exact hne (hs.single l id ⟨st, hst, hst'⟩ ⟨step, hstep, hlive⟩)
    subst hid
    refine hmono l _ _ (h l ⟨step, hstep, hlive⟩) fun k hk => ?_
    exact (available_congr hsteps).mpr (hk.setStep (hk.ne_live hstep hlive))
  intro l hl
  cases hmove with
  | still hsteps =>
    obtain ⟨step, hstep, hlive⟩ := hl
    rw [hsteps] at hstep
    exact hmono l _ _ (h l ⟨step, hstep, hlive⟩) fun k hk => (available_congr hsteps).mpr hk
  | begin hcreated hstep hsteps =>
    have hl' : s'.Live c.entryNode := ⟨_, by rw [hsteps, OrchestrationRunState.step_setStep_self hstep], rfl⟩
    obtain rfl := hs'.single l c.entryNode hl hl'
    exact hentry _
  | keep hstep hlive hsteps => exact hupdate hstep hlive hsteps l hl
  | admission hstep hready hsteps => exact hupdate hstep (by rw [hready]; rfl) hsteps l hl
  | again hnode hin hleft hsteps => exact hupdate hin.found hin.isLive hsteps l hl
  | replay hin hsteps => exact hupdate hin.found hin.isLive hsteps l hl
  | stick hin hedge hends hnext hblocked hsteps => exact hupdate hin.found hin.isLive hsteps l hl
  | @advance _ _ id attempt condition edge step step' next current hin hedge hends hnext hpending hsteps hinput hgoing
      hleaves =>
    have hl' : s'.Live edge.target := by
      refine ⟨{ next with status := .ready }, ?_, rfl⟩
      have hne := hin.ne_pending hnext hpending
      rw [hsteps]
      exact OrchestrationRunState.step_setStep_self ((OrchestrationRunState.step_setStep_ne hne).trans hnext)
    rw [hs'.single l edge.target hl hl']
    refine hmono _ _ _ (hadvance hin hleaves hedge hnext hpending (h id ⟨step, hin.found, hin.isLive⟩)) fun k hk => ?_
    exact available_advance hin hends hnext hpending hsteps hk
  | @sendBack _ id target attempt error details node step current span revise hnode hin hretry hback hlink hsteps =>
    obtain ⟨old, hold⟩ := hs.exists_step hlink.target_node
    obtain ⟨new, hnew, hsent⟩ := hsteps target old hold
    have hl' : s'.Live target := ⟨new, hnew, by rw [(hsent.again rfl).1]; rfl⟩
    rw [hs'.single l target hl hl']
    refine hmono _ _ _ (hsendBack rfl hnode hin hretry hback hlink (h id ⟨step, hin.found, hin.isLive⟩)) ?_
    rintro k ⟨⟨st, hst, hrest⟩, hout⟩
    obtain ⟨st', hst', hsent⟩ := hsteps k st hst
    rw [hsent.other hout] at hst'
    exact ⟨st, hst', hrest⟩
  | close hover => exact (hs'.idle (hover.imp_right Or.inl) l hl).elim

def LiveSupplied (c : CompiledOrchestration) (s : OrchestrationRunState) : Prop :=
  ∀ l, s.Live l → ∀ node, c.node l = some node → ∀ source, node.Reads source → s.Available source

theorem liveSupplied_apply {d : OrchestrationDefinition} (hc : d.compile = .ok c) (hs : Sound c s)
    (h : LiveSupplied c s) (hgood : ¬ EntersPast c s command) :
    LiveSupplied c (apply c s command).1 := by
  have hv := valid_of_compile hc
  have hlacks : ∀ {id done}, ¬ Lacks c s id done → ∀ node, c.node id = some node → ∀ source, node.Reads source →
      source ∈ done ∨ s.Available source := by
    intro id done hnot node hnode source hreads
    by_contra hno
    rw [not_or] at hno
    exact hnot ⟨node, source, hnode, hreads, hno.1, hno.2⟩
  refine live_rule (Q := fun l A => ∀ node, c.node l = some node → ∀ source, node.Reads source → A source) hs
    (sound_apply hv hs command) (fun l A B hl hAB node hnode source hreads => hAB _ (hl node hnode source hreads))
    (fun A node hnode source hreads => absurd hreads (not_reads_entry hc hnode)) ?_ ?_ h (move_apply hv hs command)
  · intro id attempt step current condition edge next hin hleaves hedge hnext hpending _
    cases hleaves with
    | success hrunning hkind =>
      have hnot : ¬ Lacks c s edge.target [id] := fun hlacks =>
        hgood ⟨step, current, edge, hin, hrunning, hkind, hedge, ⟨next, hnext, hpending⟩, hlacks⟩
      intro node hnode source hreads
      rcases hlacks hnot node hnode source hreads with hmem | havailable
      · exact Or.inr ⟨rfl, mem_singleton.mp hmem⟩
      · exact Or.inl havailable
    | failure hnode hretry hback =>
      have hnot : ¬ Lacks c s edge.target [] := fun hlacks =>
        hgood ⟨_, step, current, hnode, hin, hretry, Or.inr ⟨hback, edge, hedge, ⟨next, hnext, hpending⟩, hlacks⟩⟩
      intro node hnode source hreads
      rcases hlacks hnot node hnode source hreads with hmem | havailable
      · cases hmem
      · exact Or.inl havailable
  · intro id attempt error details node step current target revise span hcommand hnode hin hretry hback hlink _
    subst hcommand
    have hnot : ¬ Lacks c s target [] := fun hlacks =>
      hgood ⟨node, step, current, hnode, hin, hretry, Or.inl ⟨target, revise, hback, hlacks⟩⟩
    intro node hnode source hreads
    refine ⟨(hlacks hnot node hnode source hreads).resolve_left (by simp), fun hmem => ?_⟩
    -- The span lies downstream of the target, what the target reads upstream of it.
    have hup := below_of_reads hc hnode hreads
    rcases (hlink.mem_span source).mp hmem with ⟨hdown, -⟩ | heq | heq
    · exact hv.ne_of_below (hup.trans hdown) rfl
    · exact hv.ne_of_below hup heq
    · exact hv.ne_of_below (hup.trans hlink.upstream) heq

def Covered (c : CompiledOrchestration) (s : OrchestrationRunState) : Prop :=
  ∀ l, s.Live l → ∃ done, Walk c l done ∧ ∀ k ∈ done, s.Available k

theorem covered_apply (hv : c.Valid) (hs : Sound c s) (h : Covered c s) (command : OrchestrationCommand) :
    Covered c (apply c s command).1 := by
  refine live_rule (Q := fun l A => ∃ done, Walk c l done ∧ ∀ k ∈ done, A k) hs (sound_apply hv hs command)
    (fun l A B ⟨done, hwalk, hall⟩ hAB => ⟨done, hwalk, fun k hk => hAB k (hall k hk)⟩)
    (fun A => ⟨[], .enter, fun k hk => by cases hk⟩) ?_ ?_ h (move_apply hv hs command)
  · rintro id attempt step current condition edge next hin hleaves hedge - - ⟨done, hwalk, hall⟩
    cases condition with
    | onSuccess =>
      refine ⟨id :: done, hwalk.success hedge, fun k hk => ?_⟩
      rcases mem_cons.mp hk with rfl | hk
      · exact Or.inr ⟨rfl, rfl⟩
      · exact Or.inl (hall k hk)
    | onFailure => exact ⟨done, hwalk.failure hedge, fun k hk => Or.inl (hall k hk)⟩
  · rintro id attempt error details node step current target revise span - - - - - hlink ⟨done, hwalk, hall⟩
    refine ⟨_, hwalk.back hlink, fun k hk => ?_⟩
    obtain ⟨hmem, hout⟩ := mem_filter.mp hk
    exact ⟨hall k hmem, by simpa using hout⟩

theorem not_entersPast_of_guaranteed (hv : c.Valid) (hs : Sound c s) (h : Covered c s) (hguaranteed : Guaranteed c)
    (command : OrchestrationCommand) : ¬ EntersPast c s command := by
  have hfull : ∀ {id done done'}, Walk c id done → (∀ k ∈ done, k ∈ done' ∨ s.Available k) → ¬ Lacks c s id done' := by
    rintro id done done' hwalk hall ⟨node, source, hnode, hreads, hout, hmissing⟩
    exact (hall source (hguaranteed id done node hwalk hnode source hreads)).elim hout hmissing
  intro hbad
  cases command with
  | stepSucceeded id attempt output details =>
    obtain ⟨step, current, edge, hin, -, -, hedge, -, hlacks⟩ := hbad
    obtain ⟨done, hwalk, hall⟩ := h id ⟨step, hin.found, hin.isLive⟩
    refine hfull (hwalk.success hedge) (fun k hk => ?_) hlacks
    rcases mem_cons.mp hk with rfl | hk
    · exact Or.inl mem_cons_self
    · exact Or.inr (hall k hk)
  | stepFailed id attempt error details =>
    obtain ⟨node, step, current, hnode, hin, hretry, hways⟩ := hbad
    obtain ⟨done, hwalk, hall⟩ := h id ⟨step, hin.found, hin.isLive⟩
    rcases hways with ⟨target, revise, hback, hlacks⟩ | ⟨-, edge, hedge, -, hlacks⟩
    · have houtcome := outcome_apply hv hs (hs.going hin.found hin.isLive).1 (.stepFailed id attempt error details)
      obtain ⟨span, hlink, -⟩ := sentBack_of_sendsBack hv houtcome hnode hin hretry hback
      exact hfull (hwalk.back hlink) (fun k hk => Or.inr (hall k (mem_filter.mp hk).1)) hlacks
    · exact hfull (hwalk.failure hedge) (fun k hk => Or.inr (hall k hk)) hlacks
  | _ => exact hbad

theorem executed_outcome {applied : Applied} (h : Outcome c s command applied)
    {effects : List OrchestrationEffect} (hok : applied.2 = .ok effects) {id : OrchestrationNodeId} {attempt : Nat}
    (hmem : .executeStep id attempt ∈ effects) : ∃ step step', s.steps.get? id = some step ∧ step.status = .ready ∧
      applied.1.steps = (s.setStep id fun _ => step').steps := by
  have hemits : ∀ {es}, Emits es → .executeStep id attempt ∉ es := fun hes hmem => by
    obtain ⟨event, heq⟩ := hes _ hmem
    cases heq
  have hstops : ∀ {es}, Stops es → .executeStep id attempt ∉ es := fun hes hmem => by
    obtain ⟨k, n, heq⟩ := hes _ hmem
    cases heq
  cases h with
  | rejected | leakedSuccess | leakedFailure | stuckSuccess | stuckFailure => cases hok
  | admitted hready hpaused hstep hstatus =>
    cases hok
    obtain ⟨rfl, -⟩ : id = _ ∧ attempt = _ := by simpa using hmem
    exact ⟨_, _, hstep, hstatus, settle_steps⟩
  | started hcreated hstep hes | advanced hin hrunning hkind hedge hnext hpending hes | retried hnode hin hretry hes
  | sentBack hnode hin hretry hback hlink hes | rerouted hnode hin hretry hback hedge hnext hpending hes =>
    cases hok
    exact absurd hmem (hemits hes)
  | completed hin hrunning hkind hresult hes | failed hnode hin hretry hback hedge hes =>
    cases hok
    simp [failedEffects, hemits hes] at hmem
  | aborted hes =>
    cases hok
    simp [failedEffects, hstops hes] at hmem
  | cancelling hcancelling hstep hactive hes =>
    cases hok
    exact absurd hmem (hstops hes)
  | _ =>
    cases hok
    simp [failedEffects] at hmem

theorem LiveSupplied.boundInputs (hv : c.Valid) (hs : Sound c s) (h : LiveSupplied c s) : BoundInputs c s := by
  intro command effects id attempt hok hmem node hnode
  refine supplied_of_available fun source hreads => ?_
  by_cases hopen : s.status.isTerminal = true
  · rw [apply_terminal hopen] at hok
    cases hok
  · rw [Bool.not_eq_true] at hopen
    obtain ⟨step, step', hstep, hready, hsteps⟩ := executed_outcome (outcome_apply hv hs hopen command) hok hmem
    have hlive : step.status.isLive = true := by rw [hready]; rfl
    have havailable := h id ⟨step, hstep, hlive⟩ node hnode source hreads
    exact (available_congr hsteps).mpr (havailable.setStep (havailable.ne_live hstep hlive))

/-- Every step that is executed in a run finds what it reads, if the run never enters a node past one of its
    sources; and it never does where every way to a node passes its sources. -/
theorem bound_inputs_available {d : OrchestrationDefinition} (hc : d.compile = .ok c) (hfresh : Fresh c s)
    (commands : List OrchestrationCommand) :
    ((∀ st ∈ (reducer c).trace s commands, ¬ EntersPast c st.pre st.input) →
        (reducer c).Always (BoundInputs c) s commands) ∧
      (Guaranteed c → ∀ st ∈ (reducer c).trace s commands, ¬ EntersPast c st.pre st.input) := by
  have hv := valid_of_compile hc
  have hs := sound_fresh hfresh
  have hnone : ∀ l, ¬ s.Live l := hs.idle (Or.inr (Or.inr (by obtain ⟨-, -, rfl⟩ := hfresh; rfl)))
  refine ⟨fun hgood => ?_, fun hguaranteed => ?_⟩
  · refine Machine.always_rule (I := fun s => Sound c s ∧ LiveSupplied c s) (fun s command h hgood => ?_)
      (fun s h => h.2.boundInputs hv h.1) ⟨hs, fun l hl => (hnone l hl).elim⟩ hgood
    exact ⟨sound_apply hv h.1 command, liveSupplied_apply hc h.1 h.2 hgood⟩
  · refine Machine.trace_invariant (P := fun s => Sound c s ∧ Covered c s)
      (fun s command h => ⟨⟨sound_apply hv h.1 command, covered_apply hv h.1 h.2 command⟩, ?_⟩)
      ⟨hs, fun l hl => (hnone l hl).elim⟩
    exact not_entersPast_of_guaranteed hv h.1 h.2 hguaranteed command

end

namespace Sample

/-- The node reads the whole output of `source`. -/
def readerNode (id source : OrchestrationNodeId) : OrchestrationNode := agentNode id {} [⟨"given", .nodeOutput source ""⟩]

def chain : OrchestrationDefinition :=
  workflow [agentNode "first" {} [], readerNode "second" "first"]
    [edge "input" "first" .onSuccess, edge "first" "second" .onSuccess, edge "second" "output" .onSuccess]

/-- Two branches, by the success and by the failure of `first`, and a join that reads the former. -/
def diamond : OrchestrationDefinition :=
  workflow [agentNode "first" {} [], agentNode "done" {} [], agentNode "repair" {} [], readerNode "join" "done"]
    [edge "input" "first" .onSuccess, edge "first" "done" .onSuccess, edge "first" "repair" .onFailure,
      edge "done" "join" .onSuccess, edge "repair" "join" .onSuccess, edge "join" "output" .onSuccess]

theorem compile_chain : chain.compile = .ok (compiled chain) :=
  compile_eq_compiled (by decide) (by decide)

theorem compile_diamond : diamond.compile = .ok (compiled diamond) :=
  compile_eq_compiled (by decide) (by decide)

/-- The run takes the failure route, and `join` is ready. -/
def repaired : List OrchestrationCommand := opening ++
  [.stepAdmitted "first" 1, failure "first" 1 .toolTimeout, .stepAdmitted "repair" 1, succeeded "repair" 1]

def executed (applied : Applied) : List (OrchestrationNodeId × Nat) :=
  match applied.2 with
  | .ok effects => effects.filterMap fun
    | .executeStep id attempt => some (id, attempt)
    | _ => none
  | .error _ => []

theorem executed_mem {applied : Applied} {id : OrchestrationNodeId} {attempt : Nat} (h : (id, attempt) ∈ executed applied) :
    ∃ effects, applied.2 = .ok effects ∧ .executeStep id attempt ∈ effects := by
  unfold executed at h
  split at h
  · rename_i effects hok
    obtain ⟨effect, hmem, heq⟩ := mem_filterMap.mp h
    split at heq
    · cases heq
      exact ⟨effects, hok, hmem⟩
    · cases heq
  · cases h

theorem guaranteed_chain : Guaranteed (compiled chain) := by
  have hv := valid_of_compile compile_chain
  have hkeys : ∀ {id edge condition}, (compiled chain).outgoingFor id condition = some edge →
      id ∈ (compiled chain).nodes.keys := fun hedge => (hv.edge _ _ (outgoingFor_mem hedge).1).1
  let certain : OrchestrationNodeId → List OrchestrationNodeId := fun id => if id = "second" then ["first"] else []
  have hsuccess : ∀ id ∈ (compiled chain).nodes.keys, ((compiled chain).outgoingFor id .onSuccess).all
      fun edge => decide (certain edge.target ⊆ id :: certain id) := by decide
  have hfailure : ∀ id ∈ (compiled chain).nodes.keys, ((compiled chain).outgoingFor id .onFailure).isNone := by
    decide
  have hreads : ∀ id ∈ (compiled chain).nodes.keys, ((compiled chain).node id).all fun node =>
      node.reads.all fun binding => OutputBinding.casesOn (motive := fun _ => Bool) binding (fun _ => true)
        (fun source _ => decide (source ∈ certain id)) := by decide
  have hspans : (compiled chain).retrySpans.keys = [] := by decide
  refine guaranteed_of_certain certain rfl (fun id edge hedge => ?_) (fun id edge hedge => ?_)
    (fun id target span hlink => ?_) (fun id node hnode source hsource => ?_)
  · have hall := hsuccess id (hkeys hedge)
    rw [hedge] at hall
    exact of_decide_eq_true hall
  · have hnone := hfailure id (hkeys hedge)
    rw [hedge] at hnone
    cases hnone
  · have hmem := OrdMap.mem_keys_of_get? hlink.span_eq
    rw [hspans] at hmem
    cases hmem
  · have hall := hreads id (OrdMap.mem_keys_of_get? hnode)
    obtain ⟨pointer, hmem⟩ := hsource
    rw [hnode] at hall
    exact of_decide_eq_true (all_eq_true.mp hall _ hmem)

end Sample

section

open Sample

theorem bound_inputs_available_chain : chain.compile = .ok (compiled chain) ∧
    Fresh (compiled chain) (.new "run" (compiled chain)) ∧
    (reducer (compiled chain)).Always (BoundInputs (compiled chain)) (.new "run" (compiled chain))
      (opening ++ [.stepAdmitted "first" 1, succeeded "first" 1, .stepAdmitted "second" 1]) :=
  have h := bound_inputs_available compile_chain ⟨"run", {}, rfl⟩
    (opening ++ [.stepAdmitted "first" 1, succeeded "first" 1, .stepAdmitted "second" 1])
  ⟨compile_chain, ⟨"run", {}, rfl⟩, h.1 (h.2 guaranteed_chain)⟩

theorem join_misses_output : diamond.compile = .ok (compiled diamond) ∧
    ReachableRun (compiled diamond) (runOf diamond repaired) ∧ ¬ BoundInputs (compiled diamond) (runOf diamond repaired) ∧
    resolveBinding (apply (compiled diamond) (runOf diamond repaired) (.stepAdmitted "join" 1)).1
      (.nodeOutput "done" "") = .error (missingOutput "done") := by
  refine ⟨compile_diamond, reachable_runOf diamond repaired, fun h => ?_, resolveBinding_missing.mpr ?_⟩
  · have hmem : ("join", 1) ∈ executed (apply (compiled diamond) (runOf diamond repaired) (.stepAdmitted "join" 1)) := by
      decide
    have hreads : ((compiled diamond).node "join").map (·.reads) = some [.nodeOutput "done" ""] := by decide
    have hpending : ((apply (compiled diamond) (runOf diamond repaired) (.stepAdmitted "join" 1)).1.steps.get? "done").map
        (·.status) = some .pending := by decide
    obtain ⟨effects, hok, hexecute⟩ := executed_mem hmem
    obtain ⟨node, hnode, hreads⟩ := map_eq_some_iff.mp hreads
    have hsource : node.Reads "done" := ⟨"", by rw [hreads]; exact mem_cons_self⟩
    obtain ⟨step, hstep, hstatus, -⟩ := (h _ effects "join" 1 hok hexecute node hnode).sources "done" hsource
    rw [hstep, map_some, hstatus] at hpending
    cases hpending
  · rw [← isNone_iff_eq_none]
    decide

end

end RustyCore
