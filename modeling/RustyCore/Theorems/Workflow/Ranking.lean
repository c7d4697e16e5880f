import RustyCore.Theorems.Workflow.Runs

/-! # The graph analysis of a workflow is exact

All of it rests on the edges whose ends exist. Repeated edges, edges for success and failure between the same nodes
and self-loops count as often in the in-degrees as they are released, so no in-degree is lowered below zero, and the
nodes that stay without a rank are those a cycle holds back. -/

namespace RustyCore

open WorkflowCompiler Relation List OrdMap

/-- There is an edge from `a` to `b` in the definition, and both are nodes of it. -/
def OrchestrationDefinition.ValidEdge (d : OrchestrationDefinition) (a b : OrchestrationNodeId) : Prop :=
  (∃ edge ∈ d.edges, edge.source = a ∧ edge.target = b) ∧ a ∈ d.nodes.map (·.id) ∧ b ∈ d.nodes.map (·.id)

namespace WorkflowCompiler

variable {d : OrchestrationDefinition} {nodes : Nodes} {outgoing : Edges} {a b id : OrchestrationNodeId}
  {edge : OrchestrationEdge} {issues others : List DefinitionIssue} {path code message : String}

def heldFrom (outgoing : Edges) (id : OrchestrationNodeId) : List OrchestrationEdge := (outgoing.get? id).getD []

theorem heldFrom_addEdge {built : EdgeBuild} {index : Nat} :
    heldFrom (addEdge nodes built edge index).outgoing id = heldFrom built.outgoing id ++
      if nodes.contains edge.source ∧ nodes.contains edge.target ∧ edge.source = id then [edge] else [] := by
  unfold addEdge
  by_cases hsource : nodes.contains edge.source = true
  · by_cases htarget : nodes.contains edge.target = true
    · simp only [hsource, htarget, Bool.not_true, Bool.false_eq_true, if_false, true_and]
      rw [heldFrom, pushEdge, OrdMap.get?_upsert]
      by_cases hid : id = edge.source
      · rw [if_pos hid, if_pos hid.symm, hid, heldFrom]
        rfl
      · rw [if_neg hid, if_neg (Ne.symm hid), append_nil, heldFrom]
    · simp [hsource, htarget]
  · simp [hsource]

theorem heldFrom_buildEdges : edge ∈ heldFrom (buildEdges d nodes).outgoing id ↔
    edge ∈ d.edges ∧ edge.source = id ∧ edge.source ∈ nodes.keys ∧ edge.target ∈ nodes.keys := by
  have hloop : ∀ (edges : List (OrchestrationEdge × Nat)) (built : EdgeBuild),
      edge ∈ heldFrom (edges.foldl (fun b e => addEdge nodes b e.1 e.2) built).outgoing id ↔
        edge ∈ heldFrom built.outgoing id ∨
          edge ∈ edges.map Prod.fst ∧ edge.source = id ∧ edge.source ∈ nodes.keys ∧ edge.target ∈ nodes.keys := by
    intro edges
    induction edges with
    | nil => simp
    | cons e rest ih =>
      intro built
      rw [foldl_cons, ih, heldFrom_addEdge, mem_append, map_cons, mem_cons, or_assoc]
      refine or_congr_right ?_
      have hknown : ∀ id, nodes.contains id = true ↔ id ∈ nodes.keys := fun id => isSome_get?
      by_cases hadd : nodes.contains e.1.source = true ∧ nodes.contains e.1.target = true ∧ e.1.source = id
      · rw [if_pos hadd, mem_singleton]
        obtain ⟨hsource, htarget, hid⟩ := hadd
        constructor
        · rintro (rfl | h)
          · exact ⟨.inl rfl, hid, (hknown _).mp hsource, (hknown _).mp htarget⟩
          · exact ⟨.inr h.1, h.2⟩
        · rintro ⟨rfl | h, hrest⟩
          · exact .inl rfl
          · exact .inr ⟨h, hrest⟩
      · rw [if_neg hadd]
        constructor
        · rintro (h | h)
          · cases h
          · exact ⟨.inr h.1, h.2⟩
        · rintro ⟨rfl | h, hid, hsource, htarget⟩
          · exact absurd ⟨(hknown _).mpr hsource, (hknown _).mpr htarget, hid⟩ hadd
          · exact .inr ⟨h, hid, hsource, htarget⟩
  have hstart : heldFrom (nodes.mapEntries fun _ _ => []) id = [] := by
    rw [heldFrom, OrdMap.get?_mapEntries]
    cases nodes.get? id <;> rfl
  have hall := hloop d.edges.zipIdx { outgoing := nodes.mapEntries fun _ _ => [], incoming := nodes.mapEntries fun _ _ => [] }
  rw [hstart, zipIdx_map_fst] at hall
  rw [buildEdges]
  exact hall.trans (by simp)

theorem mem_keys_nodesById : id ∈ (nodesById d).keys ↔ id ∈ d.nodes.map (·.id) := by
  rw [nodesById, mem_keys_ofList, List.map_map]
  rfl

theorem edge_iff : Graph.Edge (successors (buildEdges d (nodesById d)).outgoing) a b ↔ d.ValidEdge a b := by
  have hheld : b ∈ successors (buildEdges d (nodesById d)).outgoing a ↔
      ∃ edge ∈ heldFrom (buildEdges d (nodesById d)).outgoing a, edge.target = b := List.mem_map
  rw [Graph.Edge, hheld]
  simp only [heldFrom_buildEdges, mem_keys_nodesById]
  constructor
  · rintro ⟨edge, ⟨hedge, rfl, hsource, htarget⟩, rfl⟩
    exact ⟨⟨edge, hedge, rfl, rfl⟩, hsource, htarget⟩
  · rintro ⟨⟨edge, hedge, rfl, rfl⟩, hsource, htarget⟩
    exact ⟨edge, ⟨hedge, rfl, hsource, htarget⟩, rfl⟩

theorem below_iff : Graph.Below (successors (buildEdges d (nodesById d)).outgoing) a b ↔ TransGen d.ValidEdge a b := by
  have hedges : Graph.Edge (successors (buildEdges d (nodesById d)).outgoing) = d.ValidEdge :=
    funext₂ fun a b => propext edge_iff
  rw [Graph.Below, hedges]

theorem below_mem (h : TransGen d.ValidEdge a b) : a ∈ d.nodes.map (·.id) := by
  obtain ⟨c, hedge, -⟩ := TransGen.head'_iff.mp h
  exact hedge.2.1

def NoCycle (issues : List DefinitionIssue) : Prop := ∀ issue ∈ issues, issue.code ≠ "cycle"

@[simp] theorem noCycle_nil : NoCycle [] := nofun

@[simp] theorem noCycle_singleton : NoCycle [⟨path, code, message⟩] ↔ code ≠ "cycle" := forall_mem_singleton

@[simp] theorem noCycle_append : NoCycle (issues ++ others) ↔ NoCycle issues ∧ NoCycle others := forall_mem_append

@[simp] theorem noCycle_flatMap {α : Type} {l : List α} {f : α → List DefinitionIssue} :
    NoCycle (l.flatMap f) ↔ ∀ x ∈ l, NoCycle (f x) := forall_mem_flatMap

@[simp] theorem noCycle_reject {bad : Bool} (h : code ≠ "cycle") : NoCycle (reject bad path code message) := by
  cases bad with
  | true => exact noCycle_singleton.mpr h
  | false => exact noCycle_nil

theorem noCycle_schemaParts (fields : List (String × Value)) (path : String) :
    NoCycle (checkKeywords fields path) ∧ NoCycle (checkType fields path) ∧ NoCycle (checkRequired fields path) ∧
      NoCycle (checkAdditionalProperties fields path) ∧ NoCycle (checkEnum fields path) := by
  refine ⟨by simp [checkKeywords], ?_, ?_, ?_, ?_⟩
  · unfold checkType
    split <;> simp
  · unfold checkRequired
    split <;> simp
  · unfold checkAdditionalProperties
    split <;> simp
  · unfold checkEnum
    split <;> simp

mutual

theorem noCycle_schemaValue (path : String) (schema : Value) : NoCycle (checkSchemaValue path schema) := by
  match schema with
  | .object fields =>
    obtain ⟨hkeywords, htype, hrequired, hadditional, henum⟩ := noCycle_schemaParts fields path
    rw [checkSchemaValue]
    simp only [noCycle_append]
    exact ⟨⟨⟨⟨⟨⟨hkeywords, htype⟩, hrequired⟩, noCycle_properties path fields⟩, noCycle_items path fields⟩,
      hadditional⟩, henum⟩
  | .null | .bool _ | .number _ | .string _ | .array _ => simp [checkSchemaValue]

theorem noCycle_properties (path : String) (fields : List (String × Value)) : NoCycle (checkProperties path fields) := by
  match fields with
  | [] =>
    rw [checkProperties]
    exact noCycle_nil
  | (key, child) :: rest =>
    rw [checkProperties]
    split_ifs
    · exact noCycle_propertyMap path child
    · exact noCycle_properties path rest

theorem noCycle_propertyMap (path : String) (schema : Value) : NoCycle (checkPropertyMap path schema) := by
  match schema with
  | .object properties =>
    rw [checkPropertyMap]
    exact noCycle_eachProperty path properties
  | .null | .bool _ | .number _ | .string _ | .array _ => simp [checkPropertyMap]

theorem noCycle_eachProperty (path : String) (properties : List (String × Value)) :
    NoCycle (checkEachProperty path properties) := by
  match properties with
  | [] =>
    rw [checkEachProperty]
    exact noCycle_nil
  | (name, child) :: rest =>
    rw [checkEachProperty, noCycle_append]
    exact ⟨noCycle_schemaValue _ child, noCycle_eachProperty path rest⟩

theorem noCycle_items (path : String) (fields : List (String × Value)) : NoCycle (checkItems path fields) := by
  match fields with
  | [] =>
    rw [checkItems]
    exact noCycle_nil
  | (key, child) :: rest =>
    rw [checkItems]
    split_ifs
    · exact noCycle_schemaValue _ child
    · exact noCycle_items path rest

end

@[simp] theorem noCycle_schemaReference {reference : SchemaReference} : NoCycle (checkSchemaReference reference path) := by
  cases reference with
  | inline name schema => simp [checkSchemaReference, noCycle_schemaValue]
  | registry schemaId revision => simp [checkSchemaReference]

@[simp] theorem noCycle_pointer {pointer : String} : NoCycle (checkPointer pointer path) := by
  simp [checkPointer]

theorem noCycle_header : NoCycle (checkHeader d) := by
  unfold checkHeader checkBudgets
  cases d.policies.maxSteps <;> cases d.inputSchema <;> simp

theorem noCycle_agentConfig {config : AgentNodeConfig} : NoCycle (checkAgentConfig config path) := by
  unfold checkAgentConfig
  cases config.taskQueue <;> cases config.tools <;> simp

variable {node : OrchestrationNode}

theorem noCycle_node : NoCycle (checkNode node path) := by
  unfold checkNode checkOutputSchema
  cases node.kind <;> cases node.outputSchema <;> simp [noCycle_agentConfig]

theorem noCycle_nodes : NoCycle (checkNodes d) := by
  simp [checkNodes, noCycle_node]

theorem noCycle_contextAccess : NoCycle (checkContextAccess d nodes) := by
  refine noCycle_flatMap.mpr fun entry _ => ?_
  dsimp only
  split
  · split <;> simp
  · simp

theorem noCycle_entryAndExit : NoCycle (checkEntryAndExit d) := by
  simp [checkEntryAndExit]

theorem noCycle_addEdge {built : EdgeBuild} {index : Nat} (h : NoCycle built.issues) :
    NoCycle (addEdge nodes built edge index).issues := by
  unfold addEdge
  split_ifs <;> simp [h]

theorem noCycle_buildEdges : NoCycle (buildEdges d nodes).issues := by
  have hloop : ∀ (edges : List (OrchestrationEdge × Nat)) (built : EdgeBuild), NoCycle built.issues →
      NoCycle (edges.foldl (fun b e => addEdge nodes b e.1 e.2) built).issues := by
    intro edges
    induction edges with
    | nil => exact fun built h => h
    | cons e rest ih => exact fun built h => ih _ (noCycle_addEdge h)
  exact hloop _ _ noCycle_nil

theorem noCycle_routes : NoCycle (checkRoutes nodes outgoing) := by
  refine noCycle_flatMap.mpr fun node _ => ?_
  dsimp only
  split <;> simp

@[simp] theorem noCycle_bindingSource {source : OutputBinding} {upstream : List OrchestrationNodeId} :
    NoCycle (checkBindingSource source upstream nodes path) := by
  unfold checkBindingSource
  split
  · simp
  · split_ifs <;> simp

theorem noCycle_verification {check : VerificationCheck} :
    NoCycle (checkVerification node check nodes path) := by
  unfold checkVerification checkSchemaCheckHasSchema checkCriteriaStatuses
  cases check with
  | criteria pointer planPointer blockOn defer repair => cases planPointer <;> simp
  | _ => simp

theorem noCycle_verifyNode {config : VerifyNodeConfig} :
    NoCycle (checkVerifyNode node config nodes) := by
  simp [checkVerifyNode, noCycle_verification]

theorem noCycle_subflowTarget {target : SubflowTarget} : NoCycle (checkSubflowTarget target path) := by
  unfold checkSubflowTarget
  split <;> simp

theorem noCycle_taskQueue {queue : TaskQueueConfig} :
    NoCycle (checkTaskQueue node queue nodes) := by
  unfold checkTaskQueue
  rw [noCycle_append]
  constructor
  · refine noCycle_flatMap.mpr fun entry _ => ?_
    dsimp only
    split_ifs
    · simp
    · exact noCycle_subflowTarget
  · unfold checkPlanSource
    split
    · simp
    · split <;> simp

theorem noCycle_approvalNode {config : ApprovalNodeConfig}
    {upstream : List OrchestrationNodeId} : NoCycle (checkApprovalNode node config upstream nodes) := by
  unfold checkApprovalNode
  cases config.skipIfEmpty <;> simp

theorem noCycle_nodeDataFlow : NoCycle (checkNodeDataFlow node nodes outgoing) := by
  unfold checkNodeDataFlow
  refine noCycle_append.mpr ⟨by simp, ?_⟩
  cases node.kind with
  | input | output => simp
  | verify => exact noCycle_verifyNode
  | approval => exact noCycle_approvalNode
  | subflow => exact noCycle_subflowTarget
  | agent config =>
    cases hqueue : config.taskQueue with
    | none => simp [hqueue]
    | some queue => simp [hqueue, noCycle_taskQueue]

theorem noCycle_outputContract : NoCycle (checkOutputContract d nodes outgoing) := by
  unfold checkOutputContract
  split
  · simp
  · rename_i source _
    cases source <;> simp

theorem noCycle_dataFlow : NoCycle (checkDataFlow d nodes outgoing) := by
  simp [checkDataFlow, noCycle_nodeDataFlow, noCycle_outputContract]

theorem noCycle_retrySpans {ranks : Ranks} : NoCycle (checkRetrySpans nodes outgoing ranks) := by
  refine noCycle_flatMap.mpr fun node _ => ?_
  split
  · simp
  · rename_i link _
    split
    · rename_i issue hissue
      unfold spanFor at hissue
      dsimp only at hissue
      repeat' split at hissue
      all_goals cases hissue
      all_goals simp
    · simp

theorem cycle_reported_iff : (∃ issue ∈ d.issues, issue.code = "cycle") ↔ (entryNode d).isSome ∧
    (topologicalRanks (nodesById d) (buildEdges d (nodesById d)).outgoing).size ≠ (nodesById d).size := by
  have hunreachable : ∀ entry, NoCycle ((nodesById d).keys.flatMap fun id =>
      reject (id != entry && !(descendants (buildEdges d (nodesById d)).outgoing entry).contains id) ("nodes." ++ id)
        "unreachable_node" "node is not reachable from the input node") := by
    simp
  have hrest : ∀ ranks : Ranks, NoCycle (if ranks.size = (nodesById d).size then
      checkDataFlow d (nodesById d) (buildEdges d (nodesById d)).outgoing ++
        checkRetrySpans (nodesById d) (buildEdges d (nodesById d)).outgoing ranks else []) := by
    intro ranks
    split
    · exact noCycle_append.mpr ⟨noCycle_dataFlow, noCycle_retrySpans⟩
    · exact noCycle_nil
  constructor
  · rintro ⟨issue, hissue, hcode⟩
    rw [OrchestrationDefinition.issues] at hissue
    simp only [mem_append] at hissue
    rcases hissue with (((((((h | h) | h) | h) | h) | h) | h) | h)
    · exact absurd hcode (noCycle_header issue h)
    · exact absurd hcode (noCycle_nodes issue h)
    · exact absurd hcode (noCycle_contextAccess issue h)
    · exact absurd hcode (noCycle_entryAndExit issue h)
    · exact absurd hcode (noCycle_buildEdges issue h)
    · exact absurd hcode (noCycle_routes issue h)
    · cases hentry : entryNode d with
      | none =>
        rw [hentry] at h
        cases h
      | some entry =>
        rw [hentry] at h
        rcases mem_append.mp h with h | h
        · refine ⟨rfl, fun hfull => ?_⟩
          rw [hfull, bne_self_eq_false] at h
          cases h
        · exact absurd hcode (hunreachable entry issue h)
    · exact absurd hcode (hrest _ issue h)
  · rintro ⟨hentry, hpart⟩
    obtain ⟨entry, hentry⟩ := Option.isSome_iff_exists.mp hentry
    have hreport : ⟨"edges", "cycle", "cycles are not supported in schema version 1"⟩ ∈
        checkReachability entry (nodesById d) (buildEdges d (nodesById d)).outgoing := by
      refine mem_append_left _ ?_
      rw [bne_iff_ne.mpr hpart]
      exact mem_singleton.mpr rfl
    refine ⟨⟨"edges", "cycle", "cycles are not supported in schema version 1"⟩, ?_, rfl⟩
    rw [OrchestrationDefinition.issues, hentry]
    exact mem_append_left _ (mem_append_right _ hreport)

def topologicalRanksChecked (nodes : Nodes) (outgoing : Edges) : Option Ranks :=
  Graph.ranksChecked (successors outgoing) nodes.keys ((allEdges outgoing).map (·.target))
    (nodes.size + (allEdges outgoing).length)

theorem Filed.successors_mem (h : Filed nodes outgoing) : ∀ u ∈ nodes.keys, ∀ t ∈ successors outgoing u, t ∈ nodes.keys := by
  intro u _ t ht
  obtain ⟨edges, hget, edge, hedge, rfl⟩ := mem_successors.mp ht
  exact (h.ends u edges hget edge hedge).2

theorem Filed.finished (h : Filed nodes outgoing) :
    topologicalRanksChecked nodes outgoing = some (topologicalRanks nodes outgoing) ∧
      Graph.Finished (successors outgoing) nodes.keys (topologicalRanks nodes outgoing) :=
  Graph.finished_ranks nodes.nodup_keys h.successors_mem (List.Perm.of_eq h.targets) (by rw [size_keys]; omega)

theorem full_iff_acyclic : (topologicalRanks (nodesById d) (buildEdges d (nodesById d)).outgoing).size = (nodesById d).size ↔
    ∀ id, ¬TransGen d.ValidEdge id id := by
  have hfiled : Filed (nodesById d) (buildEdges d (nodesById d)).outgoing := filed_buildEdges
  have hfull := hfiled.finished.2.full_iff (nodesById d).nodup_keys hfiled.successors_mem
  rw [size_keys] at hfull
  simp only [below_iff] at hfull
  rw [hfull]
  exact ⟨fun h id hcycle => h id (mem_keys_nodesById.mpr (below_mem hcycle)) hcycle, fun h id _ => h id⟩

/-- What the ranks of an acyclic definition are: a numbering of its nodes from zero on that rises along every valid
    edge. -/
structure Numbering (d : OrchestrationDefinition) (ranks : Ranks) : Prop where
  node : ∀ id, id ∈ d.nodes.map (·.id) ↔ ∃ i, ranks.get? id = some i
  number : ∀ i, i < (nodesById d).size ↔ ∃ id, ranks.get? id = some i
  inj : ∀ a b i, ranks.get? a = some i → ranks.get? b = some i → a = b
  rises : ∀ a b i j, d.ValidEdge a b → ranks.get? a = some i → ranks.get? b = some j → i < j

theorem numbering_of_acyclic (h : ∀ id, ¬TransGen d.ValidEdge id id) :
    Numbering d (topologicalRanks (nodesById d) (buildEdges d (nodesById d)).outgoing) := by
  have hfiled : Filed (nodesById d) (buildEdges d (nodesById d)).outgoing := filed_buildEdges
  have hfull := full_iff_acyclic.mpr h
  obtain ⟨-, hfinished⟩ := hfiled.finished
  obtain ⟨degree, hranking, -⟩ := hfinished.ended
  obtain ⟨hranked, hrises⟩ := hfiled.rank_spec hfull
  have hnode : ∀ id, id ∈ d.nodes.map (·.id) ↔
      ∃ i, (topologicalRanks (nodesById d) (buildEdges d (nodesById d)).outgoing).get? id = some i := by
    intro id
    rw [← mem_keys_nodesById]
    constructor
    · intro hid
      obtain ⟨i, hi, -⟩ := hranked id hid
      exact ⟨i, hi⟩
    · rintro ⟨i, hi⟩
      exact (hranking.settled id (mem_keys_of_get? hi)).1
  refine ⟨hnode, fun i => ?_, hfinished.numbered.inj, fun a b i j hedge hi hj => ?_⟩
  · rw [← hfull]
    exact ⟨hfinished.numbered.onto i, fun ⟨id, hid⟩ => hfinished.numbered.lt id i hid⟩
  · exact hrises a (mem_keys_nodesById.mpr hedge.2.1) b (edge_iff.mpr hedge) i j hi hj

structure SpanOf (d : OrchestrationDefinition) (ranks : Ranks) (target source : OrchestrationNodeId)
    (span : List OrchestrationNodeId) : Prop where
  between : ∀ id, id ∈ span ↔ ReflTransGen d.ValidEdge target id ∧ ReflTransGen d.ValidEdge id source
  ordered : span.Pairwise fun a b => ∃ i j, ranks.get? a = some i ∧ ranks.get? b = some j ∧ i < j

theorem between_iff {target source : OrchestrationNodeId} (h : TransGen d.ValidEdge target source) :
    ((TransGen d.ValidEdge target id ∧ TransGen d.ValidEdge id source) ∨ id = target ∨ id = source) ↔
      ReflTransGen d.ValidEdge target id ∧ ReflTransGen d.ValidEdge id source := by
  constructor
  · rintro (⟨hup, hdown⟩ | rfl | rfl)
    · exact ⟨hup.to_reflTransGen, hdown.to_reflTransGen⟩
    · exact ⟨.refl, h.to_reflTransGen⟩
    · exact ⟨h.to_reflTransGen, .refl⟩
  · rintro ⟨hup, hdown⟩
    rcases reflTransGen_iff_eq_or_transGen.mp hup with rfl | hup
    · exact .inr (.inl rfl)
    · rcases reflTransGen_iff_eq_or_transGen.mp hdown with rfl | hdown
      · exact .inr (.inr rfl)
      · exact .inl ⟨hup, hdown⟩

theorem rising_insertionSort {ranks : Ranks} (hinj : ∀ a b i, ranks.get? a = some i → ranks.get? b = some i → a = b)
    {ids : List OrchestrationNodeId} (hnodup : ids.Nodup) (hranked : ∀ id ∈ ids, ∃ i, ranks.get? id = some i) :
    (ids.insertionSort fun a b => (ranks.get? a).getD maxU64 ≤ (ranks.get? b).getD maxU64).Pairwise fun a b =>
      ∃ i j, ranks.get? a = some i ∧ ranks.get? b = some j ∧ i < j := by
  let le (a b : OrchestrationNodeId) : Prop := (ranks.get? a).getD maxU64 ≤ (ranks.get? b).getD maxU64
  have : IsTrans OrchestrationNodeId le := ⟨fun _ _ _ => le_trans⟩
  have : Std.Total le := ⟨fun _ _ => le_total _ _⟩
  have hsorted := pairwise_insertionSort le ids
  have hdistinct : (ids.insertionSort le).Nodup := (perm_insertionSort le ids).nodup_iff.mpr hnodup
  refine (hsorted.and hdistinct).imp_of_mem fun {a b} ha hb hle => ?_
  obtain ⟨i, hi⟩ := hranked a ((mem_insertionSort le).mp ha)
  obtain ⟨j, hj⟩ := hranked b ((mem_insertionSort le).mp hb)
  refine ⟨i, j, hi, hj, lt_of_le_of_ne ?_ fun heq => hle.2 (hinj a b i hi (heq ▸ hj))⟩
  have hle := hle.1
  simpa only [le, hi, hj, Option.getD_some] using hle

theorem spanOf_spanFor (h : ∀ id, ¬TransGen d.ValidEdge id id) {link : RetryLink}
    {span : List OrchestrationNodeId}
    (hspan : spanFor node link (nodesById d) (buildEdges d (nodesById d)).outgoing
      (topologicalRanks (nodesById d) (buildEdges d (nodesById d)).outgoing) = .ok span) :
    SpanOf d (topologicalRanks (nodesById d) (buildEdges d (nodesById d)).outgoing) link.targetId node.id span := by
  have hfiled : Filed (nodesById d) (buildEdges d (nodesById d)).outgoing := filed_buildEdges
  obtain ⟨-, hup, hmem⟩ := hfiled.mem_span hspan
  simp only [below_iff] at hup hmem
  have hnumbering := numbering_of_acyclic h
  refine ⟨fun id => (hmem id).trans (between_iff hup), ?_⟩
  have hranked : ∀ id ∈ span, ∃ i,
      (topologicalRanks (nodesById d) (buildEdges d (nodesById d)).outgoing).get? id = some i := by
    intro id hid
    refine (hnumbering.node id).mp ?_
    rcases (hmem id).mp hid with ⟨-, hdown⟩ | rfl | rfl
    · exact below_mem hdown
    · exact below_mem hup
    · obtain ⟨c, -, hedge⟩ := TransGen.tail'_iff.mp hup
      exact hedge.2.2
  unfold spanFor at hspan
  dsimp only at hspan
  repeat' split at hspan
  all_goals cases hspan
  refine rising_insertionSort hnumbering.inj ?_ fun id hid => hranked id ((mem_insertionSort _).mpr hid)
  -- no end of the span lies strictly between its ends
  refine nodup_append.mpr ⟨Graph.nodup_reach.filter _, ?_, fun a ha b hb hab => ?_⟩
  · refine nodup_cons.mpr ⟨fun hsame => ?_, nodup_singleton _⟩
    rw [mem_singleton.mp hsame] at hup
    exact h _ hup
  · obtain ⟨hdescendant, hancestor⟩ := mem_filter.mp ha
    rw [mem_descendants, below_iff] at hdescendant
    rw [contains_iff_mem, hfiled.mem_ancestors, below_iff] at hancestor
    subst hab
    rcases mem_cons.mp hb with rfl | hb
    · exact h _ hdescendant
    · rw [mem_singleton.mp hb] at hancestor
      exact h _ hancestor

end WorkflowCompiler

section
variable [WorkflowExternals]

/-- `compile` fails and a cycle is among what it reports. -/
def OrchestrationDefinition.ReportsCycle (d : OrchestrationDefinition) : Prop :=
  ∃ issues, d.compile = .error issues ∧ ∃ issue ∈ issues, issue.code = "cycle"

theorem reportsCycle_iff {d : OrchestrationDefinition} : d.ReportsCycle ↔ ∃ issue ∈ d.issues, issue.code = "cycle" := by
  have hcompile : ∀ issue ∈ d.issues, d.compile = .error d.issues := by
    intro issue hissue
    unfold OrchestrationDefinition.compile
    split
    · exact if_neg (ne_nil_of_mem hissue)
    · rfl
  constructor
  · rintro ⟨issues, hissues, issue, hissue, hcode⟩
    unfold OrchestrationDefinition.compile at hissues
    split at hissues
    · split at hissues
      · cases hissues
      · cases hissues
        exact ⟨issue, hissue, hcode⟩
    · cases hissues
      exact ⟨issue, hissue, hcode⟩
  · rintro ⟨issue, hissue, hcode⟩
    exact ⟨d.issues, hcompile issue hissue, issue, hissue, hcode⟩

/-- For every definition: with an input node, `compile` reports a cycle exactly when the valid edges have one, and
    without one it looks for none; the ranking ends and lowers no in-degree below zero; without a cycle it numbers
    the nodes so that every edge rises; descendants and ancestors are the closures of the edges; and in what
    `compile` accepts, each node that can send work back has for its span what lies on a path from its target to
    it, in rank order. -/
theorem graph_analysis_exact (d : OrchestrationDefinition) :
    ((entryNode d).isSome → (d.ReportsCycle ↔ ∃ id, TransGen d.ValidEdge id id)) ∧
    (entryNode d = none → ¬d.ReportsCycle) ∧
    topologicalRanksChecked (nodesById d) (buildEdges d (nodesById d)).outgoing =
      some (topologicalRanks (nodesById d) (buildEdges d (nodesById d)).outgoing) ∧
    ((∀ id, ¬TransGen d.ValidEdge id id) →
      Numbering d (topologicalRanks (nodesById d) (buildEdges d (nodesById d)).outgoing)) ∧
    (∀ a b, (b ∈ descendants (buildEdges d (nodesById d)).outgoing a ↔ TransGen d.ValidEdge a b) ∧
      (a ∈ ancestors (buildEdges d (nodesById d)).outgoing b ↔ TransGen d.ValidEdge a b)) ∧
    (∀ c, d.compile = .ok c → ∀ id node link, c.node id = some node → retryLink node c.nodes = some link →
      ∃ span, c.retrySpans.get? id = some span ∧ SpanOf d c.topologicalRank link.targetId id span) := by
  have hfiled : WorkflowCompiler.Filed (nodesById d) (buildEdges d (nodesById d)).outgoing := filed_buildEdges
  refine ⟨fun hentry => ?_, fun hentry hreport => ?_, hfiled.finished.1, numbering_of_acyclic, fun a b => ⟨?_, ?_⟩, ?_⟩
  · rw [reportsCycle_iff, cycle_reported_iff, and_iff_right hentry, ne_eq, full_iff_acyclic]
    simp only [not_forall, not_not]
  · obtain ⟨hsome, -⟩ := cycle_reported_iff.mp (reportsCycle_iff.mp hreport)
    rw [hentry] at hsome
    cases hsome
  · rw [mem_descendants, below_iff]
  · rw [hfiled.mem_ancestors, below_iff]
  · intro c hcompile id node link hnode hlink
    obtain ⟨entry, hentry, hissues, rfl⟩ := compile_eq_ok hcompile
    obtain ⟨-, hfull, -, hspans⟩ := issues_eq_nil hentry hissues
    have hkey := span_of_link hspans hnode hlink
    rw [(get?_nodesById hnode).1] at hkey
    obtain ⟨span, hspan⟩ := exists_get? hkey
    obtain ⟨key, node', link', hkey', hid, hlink', hok⟩ := mem_compileRetrySpans hspan
    obtain ⟨rfl, -⟩ := get?_nodesById hkey'
    subst hid
    cases hkey'.symm.trans hnode
    cases hlink'.symm.trans hlink
    exact ⟨span, hspan, spanOf_spanFor (full_iff_acyclic.mp hfull) hok⟩

end

namespace Sample

def selfLoop : OrchestrationDefinition :=
  { line with nodes := [agentNode "work" {} []], edges := [edge "work" "work" .onSuccess] }

/-- No cycle is reported of it, though there is one. -/
theorem selfLoop_unreported : ¬(selfLoop.ReportsCycle ↔ ∃ id, TransGen selfLoop.ValidEdge id id) := by
  intro h
  have hedge : selfLoop.ValidEdge "work" "work" :=
    ⟨⟨_, mem_singleton.mpr rfl, rfl, rfl⟩, mem_singleton.mpr rfl, mem_singleton.mpr rfl⟩
  obtain ⟨hsome, -⟩ := cycle_reported_iff.mp (reportsCycle_iff.mp (h.mpr ⟨"work", TransGen.single hedge⟩))
  cases hsome

def doubleChecked : OrchestrationDefinition :=
  workflow [agentNode "work" ⟨2, [.verificationFailed]⟩ [], verifyNode "check" "work", verifyNode "recheck" "work"]
    [edge "input" "work" .onSuccess, edge "work" "check" .onSuccess, edge "check" "output" .onSuccess,
      edge "check" "recheck" .onFailure, edge "recheck" "output" .onSuccess,
      { edge "recheck" "output" .onFailure with id := "given up" }]

theorem compile_doubleChecked : doubleChecked.compile = .ok (compiled doubleChecked) :=
  compile_eq_compiled (by decide) (by decide)

theorem graph_analysis_exact_doubleChecked :
    (compiled doubleChecked).retrySpans.get? "recheck" = some ["work", "check", "recheck"] ∧
      ∃ span, (compiled doubleChecked).retrySpans.get? "recheck" = some span ∧
        SpanOf doubleChecked (compiled doubleChecked).topologicalRank "work" "recheck" span := by
  have hnode : (compiled doubleChecked).node "recheck" = some (verifyNode "recheck" "work") := by rfl
  obtain ⟨-, -, -, -, -, hspans⟩ := graph_analysis_exact doubleChecked
  exact ⟨by decide, hspans _ compile_doubleChecked "recheck" _ ⟨"work", "retry_target", true⟩ hnode rfl⟩

end Sample

end RustyCore
