import RustyCore.Workflow.Compiler

/-! What a compiled workflow is: its edges join its nodes, its ranks rise along every edge, every node but an
    output has a success route, and every send-back has a span that holds exactly what lies between its ends. -/

namespace RustyCore

open WorkflowCompiler List

namespace CompiledOrchestration

/-- There is an edge from `a` to `b`. -/
abbrev Edge (c : CompiledOrchestration) : OrchestrationNodeId → OrchestrationNodeId → Prop :=
  Graph.Edge (successors c.outgoing)

/-- `b` is a proper descendant of `a`. -/
abbrev Below (c : CompiledOrchestration) : OrchestrationNodeId → OrchestrationNodeId → Prop :=
  Graph.Below (successors c.outgoing)

def rank (c : CompiledOrchestration) (id : OrchestrationNodeId) : Nat := (c.topologicalRank.get? id).getD 0

/-- The node `source` may send work back to `target`, and `span` is what that resets. -/
structure Link (c : CompiledOrchestration) (source target : OrchestrationNodeId) (span : List OrchestrationNodeId) :
    Prop where
  span_eq : c.retrySpans.get? source = some span
  target_node : target ∈ c.nodes.keys
  upstream : c.Below target source
  mem_span : ∀ k, k ∈ span ↔ (c.Below target k ∧ c.Below k source) ∨ k = target ∨ k = source

/-- What `compile` promises of its result. -/
structure Valid (c : CompiledOrchestration) : Prop where
  entry : c.entryNode ∈ c.nodes.keys
  named : ∀ id node, c.node id = some node → node.id = id
  edge : ∀ a b, c.Edge a b → a ∈ c.nodes.keys ∧ b ∈ c.nodes.keys
  rank_lt : ∀ id ∈ c.nodes.keys, c.rank id < c.nodes.size
  rank_edge : ∀ a b, c.Edge a b → c.rank a < c.rank b
  route : ∀ id node, c.node id = some node → node.kind.isOutput = false →
    ∃ edge, c.outgoingFor id .onSuccess = some edge
  last : ∀ id node, c.node id = some node → node.kind.isOutput = true → ∀ b, ¬ c.Edge id b
  linked : ∀ id node, c.node id = some node → ∀ link, retryLink node c.nodes = some link →
    ∃ span, c.Link id link.targetId span
  link_of_span : ∀ id span, c.retrySpans.get? id = some span →
    ∃ node link, c.node id = some node ∧ retryLink node c.nodes = some link

variable {c : CompiledOrchestration} {a b : OrchestrationNodeId}

theorem Valid.rank_below (hv : c.Valid) (h : c.Below a b) :
    c.rank a < c.rank b := by
  induction h with
  | single hedge => exact hv.rank_edge _ _ hedge
  | tail _ hedge ih => exact lt_trans ih (hv.rank_edge _ _ hedge)

theorem Valid.ne_of_below (hv : c.Valid) (h : c.Below a b) :
    a ≠ b := by
  rintro rfl
  exact lt_irrefl _ (hv.rank_below h)

theorem Valid.below_mem (hv : c.Valid) (h : c.Below a b) :
    b ∈ c.nodes.keys := by
  cases h with
  | single hedge => exact (hv.edge _ _ hedge).2
  | tail _ hedge => exact (hv.edge _ _ hedge).2

theorem Link.span_mem (hv : c.Valid) {source target k : OrchestrationNodeId}
    {span : List OrchestrationNodeId} (h : c.Link source target span) (hk : k ∈ span) : k ∈ c.nodes.keys := by
  rcases (h.mem_span k).mp hk with ⟨hk, -⟩ | rfl | rfl
  · exact hv.below_mem hk
  · exact h.target_node
  · exact hv.below_mem h.upstream

end CompiledOrchestration

namespace WorkflowCompiler

variable {d : OrchestrationDefinition} {nodes : Nodes} {outgoing : Edges}

theorem reject_eq_nil {bad : Bool} {path code message : String} :
    reject bad path code message = [] ↔ bad = false := by
  cases bad <;> simp [reject]

structure Filed (nodes : Nodes) (outgoing : Edges) : Prop where
  keys : outgoing.keys = nodes.keys
  ends : ∀ id edges, outgoing.get? id = some edges → ∀ edge ∈ edges, edge.source = id ∧ edge.target ∈ nodes.keys

variable {id : OrchestrationNodeId}

theorem mem_keys_of_contains (h : ¬ (!nodes.contains id) = true) : id ∈ nodes.keys := by
  rw [Bool.not_eq_true, Bool.not_eq_false'] at h
  exact OrdMap.isSome_get?.mp h

theorem Filed.addEdge {b : EdgeBuild} (h : Filed nodes b.outgoing) (edge : OrchestrationEdge) (index : Nat) :
    Filed nodes (WorkflowCompiler.addEdge nodes b edge index).outgoing := by
  unfold WorkflowCompiler.addEdge
  split
  · exact h
  · rename_i hsource
    split
    · exact h
    · rename_i htarget
      have hknown : edge.source ∈ b.outgoing.keys := by
        rw [h.keys]
        exact mem_keys_of_contains hsource
      obtain ⟨known, hget⟩ := OrdMap.exists_get? hknown
      refine ⟨(OrdMap.keys_upsert hknown).trans h.keys, fun id edges hedges e he => ?_⟩
      simp only [pushEdge, OrdMap.get?_upsert] at hedges
      split at hedges
      · rename_i hid
        cases hedges
        rw [hget, Option.getD_some, mem_append, mem_singleton] at he
        rcases he with he | rfl
        · exact hid ▸ h.ends edge.source known hget e he
        · exact ⟨hid.symm, mem_keys_of_contains htarget⟩
      · exact h.ends id edges hedges e he

theorem filed_buildEdges : Filed nodes (buildEdges d nodes).outgoing := by
  have hloop : ∀ (edges : List (OrchestrationEdge × Nat)) (b : EdgeBuild), Filed nodes b.outgoing →
      Filed nodes (edges.foldl (fun b e => addEdge nodes b e.1 e.2) b).outgoing := by
    intro edges
    induction edges with
    | nil => exact fun b h => h
    | cons e rest ih => exact fun b h => ih _ (h.addEdge e.1 e.2)
  refine hloop _ _ ⟨by simp, fun id edges hedges edge hedge => ?_⟩
  rw [OrdMap.get?_mapEntries] at hedges
  obtain ⟨node, -, rfl⟩ := Option.map_eq_some_iff.mp hedges
  cases hedge

theorem mem_allEdges {edge : OrchestrationEdge} :
    edge ∈ allEdges outgoing ↔ ∃ id edges, outgoing.get? id = some edges ∧ edge ∈ edges := by
  simp only [allEdges, mem_flatten, OrdMap.mem_values]
  constructor
  · rintro ⟨edges, ⟨id, hget⟩, hedge⟩
    exact ⟨id, edges, hget, hedge⟩
  · rintro ⟨id, edges, hget, hedge⟩
    exact ⟨edges, ⟨id, hget⟩, hedge⟩

variable {a b : OrchestrationNodeId}

theorem mem_successors :
    b ∈ successors outgoing a ↔ ∃ edges, outgoing.get? a = some edges ∧ ∃ edge ∈ edges, edge.target = b := by
  unfold successors
  cases hget : outgoing.get? a with
  | none | some => simp

theorem Filed.mem_predecessors (h : Filed nodes outgoing) :
    a ∈ predecessors outgoing b ↔ b ∈ successors outgoing a := by
  rw [mem_successors]
  simp only [predecessors, mem_map, mem_filter, mem_allEdges, beq_iff_eq]
  constructor
  · rintro ⟨edge, ⟨⟨id, edges, hget, hedge⟩, htarget⟩, hsource⟩
    have hid : id = a := (h.ends id edges hget edge hedge).1.symm.trans hsource
    exact ⟨edges, hid ▸ hget, edge, hedge, htarget⟩
  · rintro ⟨edges, hget, edge, hedge, htarget⟩
    exact ⟨edge, ⟨⟨a, edges, hget, hedge⟩, htarget⟩, (h.ends a edges hget edge hedge).1⟩

theorem mem_descendants :
    b ∈ descendants outgoing a ↔ Graph.Below (successors outgoing) a b := by
  refine Graph.mem_reach ((allEdges outgoing).map (·.target)) (fun x t ht => ?_) (by simp)
  obtain ⟨edges, hget, edge, hedge, htarget⟩ := mem_successors.mp ht
  exact mem_map.mpr ⟨edge, mem_allEdges.mpr ⟨x, edges, hget, hedge⟩, htarget⟩

theorem Filed.mem_ancestors (h : Filed nodes outgoing) :
    a ∈ ancestors outgoing b ↔ Graph.Below (successors outgoing) a b := by
  have hreach : a ∈ ancestors outgoing b ↔ Graph.Below (predecessors outgoing) b a := by
    refine Graph.mem_reach ((allEdges outgoing).map (·.source)) (fun x t ht => ?_) (by simp)
    simp only [predecessors, mem_map, mem_filter] at ht
    obtain ⟨edge, ⟨hedge, -⟩, hsource⟩ := ht
    exact mem_map.mpr ⟨edge, hedge, hsource⟩
  have hswap : Graph.Edge (predecessors outgoing) = Function.swap (Graph.Edge (successors outgoing)) := by
    funext x y
    exact propext h.mem_predecessors
  rw [hreach, Graph.Below, hswap, Relation.transGen_swap]
  rfl

theorem Filed.targets (h : Filed nodes outgoing) :
    (allEdges outgoing).map (·.target) = nodes.keys.flatMap (successors outgoing) := by
  have hentry : ∀ e ∈ outgoing.entries, e.2.map (·.target) = successors outgoing e.1 := by
    intro e he
    rw [successors, OrdMap.mem_entries.mp he, Option.getD_some]
  rw [← h.keys, allEdges, OrdMap.values, OrdMap.keys, map_flatten, map_map, ← flatMap_def,
    flatMap_map]
  exact flatMap_congr hentry

theorem Filed.rank_spec (h : Filed nodes outgoing) (hfull : (topologicalRanks nodes outgoing).size = nodes.size) :
    (∀ u ∈ nodes.keys, ∃ i, (topologicalRanks nodes outgoing).get? u = some i ∧ i < nodes.size) ∧
      ∀ u ∈ nodes.keys, ∀ v ∈ successors outgoing u, ∀ i j, (topologicalRanks nodes outgoing).get? u = some i →
        (topologicalRanks nodes outgoing).get? v = some j → i < j := by
  have hinside : ∀ u ∈ nodes.keys, ∀ t ∈ successors outgoing u, t ∈ nodes.keys := by
    intro u _ t ht
    obtain ⟨edges, hget, edge, hedge, rfl⟩ := mem_successors.mp ht
    exact (h.ends u edges hget edge hedge).2
  have hspec := Graph.ranks_spec nodes.nodup_keys hinside (List.Perm.of_eq h.targets)
    (hfull.trans OrdMap.size_keys.symm)
  rw [OrdMap.size_keys] at hspec
  exact hspec

variable {node : OrchestrationNode}

theorem get?_nodesById
    (h : (nodesById d).get? id = some node) : node.id = id ∧ node ∈ d.nodes := by
  obtain ⟨n, hn, heq⟩ := mem_map.mp (OrdMap.get?_ofList h)
  cases heq
  exact ⟨rfl, hn⟩

theorem Filed.mem_span (h : Filed nodes outgoing) {link : RetryLink} {ranks : Ranks}
    {span : List OrchestrationNodeId} (hspan : spanFor node link nodes outgoing ranks = .ok span) :
    link.targetId ∈ nodes.keys ∧ Graph.Below (successors outgoing) link.targetId node.id ∧
      ∀ k, k ∈ span ↔ (Graph.Below (successors outgoing) link.targetId k ∧
        Graph.Below (successors outgoing) k node.id) ∨ k = link.targetId ∨ k = node.id := by
  unfold spanFor at hspan
  cases htarget : nodes.get? link.targetId with
  | none => simp [htarget] at hspan
  | some target =>
    simp only [htarget] at hspan
    split at hspan
    · cases hspan
    · split at hspan
      · cases hspan
      · rename_i hup
        split at hspan
        · cases hspan
        · cases hspan
          have hup' : link.targetId ∈ ancestors outgoing node.id := by simpa using hup
          refine ⟨OrdMap.mem_keys_of_get? htarget, h.mem_ancestors.mp hup', fun k => ?_⟩
          rw [mem_insertionSort, mem_append, mem_filter, mem_descendants, contains_iff_mem,
            h.mem_ancestors]
          simp

theorem mem_compileRetrySpans {ranks : Ranks} {span : List OrchestrationNodeId}
    (h : (compileRetrySpans nodes outgoing ranks).get? id = some span) :
    ∃ key node link, nodes.get? key = some node ∧ node.id = id ∧ retryLink node nodes = some link ∧
      spanFor node link nodes outgoing ranks = .ok span := by
  obtain ⟨node, hnode, hsome⟩ := mem_filterMap.mp (OrdMap.get?_ofList h)
  obtain ⟨key, hkey⟩ := OrdMap.mem_values.mp hnode
  cases hlink : retryLink node nodes with
  | none => simp [hlink] at hsome
  | some link =>
    cases hspan : spanFor node link nodes outgoing ranks with
    | error e => simp [hlink, hspan] at hsome
    | ok span' =>
      simp only [hlink, hspan, Option.some.injEq, Prod.mk.injEq] at hsome
      exact ⟨key, node, link, hkey, hsome.1, hlink, hsome.2 ▸ hspan⟩

theorem span_of_link {ranks : Ranks} (hissues : checkRetrySpans nodes outgoing ranks = []) {link : RetryLink} (hnode : nodes.get? id = some node)
    (hlink : retryLink node nodes = some link) :
    node.id ∈ (compileRetrySpans nodes outgoing ranks).keys := by
  have hmem : node ∈ nodes.values := OrdMap.mem_values.mpr ⟨id, hnode⟩
  have hnil := flatMap_eq_nil_iff.mp hissues node hmem
  simp only [hlink] at hnil
  cases hspan : spanFor node link nodes outgoing ranks with
  | error e => simp [hspan] at hnil
  | ok span =>
    refine OrdMap.mem_keys_ofList.mpr (mem_map.mpr ⟨(node.id, span), ?_, rfl⟩)
    exact mem_filterMap.mpr ⟨node, hmem, by simp [hlink, hspan]⟩

theorem routes_of_check (hroutes : checkRoutes nodes outgoing = []) (hnode : nodes.get? id = some node) :
    (node.kind.isOutput = false →
      ((outgoing.get? node.id).getD []).any (·.condition == .onSuccess) = true) ∧
      (node.kind.isOutput = true → (outgoing.get? node.id).getD [] = []) := by
  have hnil := flatMap_eq_nil_iff.mp hroutes node (OrdMap.mem_values.mpr ⟨id, hnode⟩)
  cases hkind : node.kind with
  | output config =>
    simp only [hkind, reject_eq_nil, Bool.not_eq_eq_eq_not, Bool.not_false, List.isEmpty_iff] at hnil
    exact ⟨fun h => absurd h (by simp [OrchestrationNodeKind.isOutput]), fun _ => hnil⟩
  | input config | agent config | verify config | approval config | subflow config =>
    simp only [hkind, reject_eq_nil, Bool.not_eq_eq_eq_not, Bool.not_false] at hnil
    exact ⟨fun _ => hnil, fun h => absurd h (by simp [OrchestrationNodeKind.isOutput])⟩

theorem issues_eq_nil {entry : OrchestrationNodeId} (hentry : entryNode d = some entry) (h : d.issues = []) :
    checkRoutes (nodesById d) (buildEdges d (nodesById d)).outgoing = [] ∧
      (topologicalRanks (nodesById d) (buildEdges d (nodesById d)).outgoing).size = (nodesById d).size ∧
      checkDataFlow d (nodesById d) (buildEdges d (nodesById d)).outgoing = [] ∧
      checkRetrySpans (nodesById d) (buildEdges d (nodesById d)).outgoing
        (topologicalRanks (nodesById d) (buildEdges d (nodesById d)).outgoing) = [] := by
  simp only [OrchestrationDefinition.issues, hentry, Option.isSome_some, ↓reduceIte, append_eq_nil_iff] at h
  obtain ⟨⟨⟨-, hroutes⟩, hreach⟩, hdata⟩ := h
  have hfull : (topologicalRanks (nodesById d) (buildEdges d (nodesById d)).outgoing).size = (nodesById d).size := by
    have hcycle := (append_eq_nil_iff.mp hreach).1
    simpa [reject_eq_nil] using hcycle
  rw [if_pos hfull, append_eq_nil_iff] at hdata
  exact ⟨hroutes, hfull, hdata.1, hdata.2⟩

variable {c : CompiledOrchestration}

theorem outgoingFor_mem {condition : EdgeCondition}
    {edge : OrchestrationEdge} (h : c.outgoingFor id condition = some edge) :
    c.Edge id edge.target ∧ edge.condition = condition := by
  obtain ⟨edges, hget, hfind⟩ := Option.bind_eq_some_iff.mp h
  exact ⟨mem_successors.mpr ⟨edges, hget, edge, mem_of_find?_eq_some hfind, rfl⟩,
    by simpa using List.find?_some hfind⟩

theorem entry_mem {entry : OrchestrationNodeId} (h : entryNode d = some entry) : entry ∈ (nodesById d).keys := by
  obtain ⟨node, hfind, rfl⟩ := Option.map_eq_some_iff.mp h
  refine OrdMap.mem_keys_ofList.mpr ?_
  rw [map_map]
  exact mem_map.mpr ⟨node, mem_of_find?_eq_some hfind, rfl⟩

variable [WorkflowExternals]

theorem compile_eq_ok (h : d.compile = .ok c) :
    ∃ entry, entryNode d = some entry ∧ d.issues = [] ∧ c = d.lookups entry := by
  unfold OrchestrationDefinition.compile at h
  split at h
  · rename_i entry hentry
    split at h
    · rename_i hissues
      cases h
      exact ⟨entry, hentry, hissues, rfl⟩
    · cases h
  · cases h

theorem valid_of_compile (h : d.compile = .ok c) : c.Valid := by
  obtain ⟨entry, hentry, hissues, rfl⟩ := compile_eq_ok h
  obtain ⟨hroutes, hfull, -, hspans⟩ := issues_eq_nil hentry hissues
  have hfiled : Filed (nodesById d) (buildEdges d (nodesById d)).outgoing := filed_buildEdges
  obtain ⟨hrank, hrise⟩ := hfiled.rank_spec hfull
  have hends : ∀ a b, (d.lookups entry).Edge a b → a ∈ (nodesById d).keys ∧ b ∈ (nodesById d).keys := by
    intro a b hedge
    obtain ⟨edges, hget, edge, hmem, rfl⟩ := mem_successors.mp hedge
    exact ⟨hfiled.keys ▸ OrdMap.mem_keys_of_get? hget, (hfiled.ends a edges hget edge hmem).2⟩
  have hlinked : ∀ id span, (d.lookups entry).retrySpans.get? id = some span →
      ∃ node link, (nodesById d).get? id = some node ∧ retryLink node (nodesById d) = some link ∧
        (d.lookups entry).Link id link.targetId span := by
    intro id span hspan
    obtain ⟨key, node, link, hkey, hid, hlink, hok⟩ := mem_compileRetrySpans hspan
    obtain ⟨hname, -⟩ := get?_nodesById hkey
    subst hid hname
    obtain ⟨htarget, hup, hmem⟩ := hfiled.mem_span hok
    exact ⟨node, link, hkey, hlink, hspan, htarget, hup, hmem⟩
  refine ⟨entry_mem hentry, fun id node hnode => (get?_nodesById hnode).1, hends, fun id hid => ?_, fun a b hedge => ?_,
    fun id node hnode hkind => ?_, fun id node hnode hkind b hedge => ?_, fun id node hnode link hlink => ?_,
    fun id span hspan => ?_⟩
  · obtain ⟨i, hi, hlt⟩ := hrank id hid
    exact lt_of_eq_of_lt (congrArg (Option.getD · 0) hi) hlt
  · obtain ⟨ha, hb⟩ := hends a b hedge
    obtain ⟨i, hi, -⟩ := hrank a ha
    obtain ⟨j, hj, -⟩ := hrank b hb
    have hlt := hrise a ha b hedge i j hi hj
    show ((topologicalRanks _ _).get? a).getD 0 < ((topologicalRanks _ _).get? b).getD 0
    rw [hi, hj]
    exact hlt
  · have hany := (routes_of_check hroutes hnode).1 hkind
    rw [(get?_nodesById hnode).1] at hany
    show ∃ edge, ((buildEdges d (nodesById d)).outgoing.get? id).bind _ = some edge
    cases hget : (buildEdges d (nodesById d)).outgoing.get? id with
    | none => simp [hget] at hany
    | some edges =>
      rw [hget, Option.getD_some] at hany
      exact Option.isSome_iff_exists.mp (by simpa [List.find?_isSome] using hany)
  · have hnone := (routes_of_check hroutes hnode).2 hkind
    rw [(get?_nodesById hnode).1] at hnone
    obtain ⟨edges, hget, edge, hmem, -⟩ := mem_successors.mp hedge
    have hget' : (buildEdges d (nodesById d)).outgoing.get? id = some edges := hget
    rw [hget', Option.getD_some] at hnone
    rw [hnone] at hmem
    cases hmem
  · have hkey := span_of_link hspans hnode hlink
    rw [(get?_nodesById hnode).1] at hkey
    obtain ⟨span, hspan⟩ := OrdMap.exists_get? hkey
    obtain ⟨node', link', hnode', hlink', hgood⟩ := hlinked id span hspan
    have hsame : some node' = some node := hnode'.symm.trans hnode
    cases hsame
    have hsame : some link' = some link := hlink'.symm.trans hlink
    cases hsame
    exact ⟨span, hgood⟩
  · obtain ⟨node, link, hnode, hlink, -⟩ := hlinked id span hspan
    exact ⟨node, link, hnode, hlink⟩

end WorkflowCompiler

end RustyCore
