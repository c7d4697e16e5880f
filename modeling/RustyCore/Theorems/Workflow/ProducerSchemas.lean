import RustyCore.Workflow.Schema
import RustyCore.Workflow.Verify

/-! Which values the schema check of a `verify` step judges, and when these are the outputs of the producers. -/

namespace RustyCore.Steps

open Schema List Option

def lastFor (bindings : List InputBinding) (target : String) : Option InputBinding :=
  bindings.reverse.find? (·.target == target)

def BoundWhole (node : OrchestrationNode) (hasSchema : OrchestrationNodeId → Bool) : Prop :=
  ∀ binding ∈ node.inputBindings, ∀ id pointer, binding.source = .nodeOutput id pointer → hasSchema id = true →
    (lastFor node.inputBindings binding.target).map (·.source) = some (.nodeOutput id "")

def PointersAccepted (node : OrchestrationNode) : Prop :=
  ∀ binding ∈ node.inputBindings, ∀ path, WorkflowCompiler.checkPointer (WorkflowCompiler.bindingPointer binding.source) path = []

def OutputsConform [F64Display] (s : OrchestrationRunState) (node : OrchestrationNode)
    (producers : OrchestrationNodeId → Option Value) : Prop :=
  ∀ binding ∈ node.inputBindings, ∀ id pointer schema output, binding.source = .nodeOutput id pointer →
    producers id = some schema → (s.steps.get? id).bind (·.output) = some output → basicValidate schema output = .ok ()

/-- In every run that binds the step's inputs, and for all schemas of the producers that have one, the check passes
    exactly if the outputs conform. -/
def JudgesOutputs [F64Display] (node : OrchestrationNode) (hasSchema : OrchestrationNodeId → Bool) : Prop :=
  ∀ (s : OrchestrationRunState) (producers : OrchestrationNodeId → Option Value) (input : Value)
    (resolveArtifact : String → String → Except String Unit),
    (∀ id, (producers id).isSome = hasSchema id) → resolveInputs s node.inputBindings = .ok input →
      ((checkProducerSchemas ⟨node, input, producers, basicValidate, resolveArtifact⟩).1 = true ↔
        OutputsConform s node producers)

variable {s : OrchestrationRunState} {bindings : List InputBinding} {target key : String} {value : Value}
  {fields before : List (String × Value)}

def bindField (s : OrchestrationRunState) (fields : List (String × Value)) (binding : InputBinding) :
    Except OrchestrationError (List (String × Value)) :=
  (resolveBinding s binding.source).map fun value => Value.insertField binding.target value fields

theorem resolveInputs_eq (s : OrchestrationRunState) (bindings : List InputBinding) :
    resolveInputs s bindings = (bindings.foldlM (bindField s) []).map .object := by
  have hstep : (fun (fields : List (String × Value)) (binding : InputBinding) => (do
      return Value.insertField binding.target (← resolveBinding s binding.source) fields :
        Except OrchestrationError (List (String × Value)))) = bindField s := by
    funext fields binding
    unfold bindField
    cases resolveBinding s binding.source <;> rfl
  rw [resolveInputs, hstep]
  cases bindings.foldlM (bindField s) [] <;> rfl

theorem foldlM_cons_ok {binding : InputBinding} {rest : List InputBinding}
    (h : (binding :: rest).foldlM (bindField s) before = .ok fields) : ∃ value, resolveBinding s binding.source = .ok value ∧
      rest.foldlM (bindField s) (Value.insertField binding.target value before) = .ok fields := by
  rw [foldlM_cons] at h
  cases hvalue : resolveBinding s binding.source with
  | error e =>
    have hstep : bindField s before binding = .error e := by rw [bindField, hvalue]; rfl
    rw [hstep] at h
    cases h
  | ok value =>
    have hstep : bindField s before binding = .ok (Value.insertField binding.target value before) := by
      rw [bindField, hvalue]
      rfl
    rw [hstep] at h
    exact ⟨value, rfl, h⟩

theorem lastFor_cons (binding : InputBinding) (rest : List InputBinding) : lastFor (binding :: rest) target =
    (lastFor rest target).or (if binding.target = target then some binding else none) := by
  simp only [lastFor, reverse_cons, List.find?_append, List.find?_singleton, beq_iff_eq]

theorem lookup_resolved (h : bindings.foldlM (bindField s) before = .ok fields) (target : String) :
    match lastFor bindings target with
    | some binding => ∃ value, resolveBinding s binding.source = .ok value ∧ fields.lookup target = some value
    | none => fields.lookup target = before.lookup target := by
  induction bindings generalizing before with
  | nil =>
    cases h
    rfl
  | cons binding rest ih =>
    obtain ⟨value, hvalue, hfold⟩ := foldlM_cons_ok h
    have hrest := ih hfold
    rw [lastFor_cons]
    cases hlast : lastFor rest target with
    | some later => simpa only [hlast, some_or] using hrest
    | none =>
      simp only [hlast, Value.lookup_insertField] at hrest
      rw [none_or]
      split_ifs with htarget
      · exact ⟨value, hvalue, by rw [hrest, if_pos htarget.symm]⟩
      · rw [hrest, if_neg (Ne.symm htarget)]

theorem exists_resolved (before : List (String × Value))
    (h : ∀ binding ∈ bindings, ∃ value, resolveBinding s binding.source = .ok value) :
    ∃ fields, bindings.foldlM (bindField s) before = .ok fields := by
  induction bindings generalizing before with
  | nil => exact ⟨before, rfl⟩
  | cons binding rest ih =>
    obtain ⟨value, hvalue⟩ := h binding mem_cons_self
    obtain ⟨fields, hfields⟩ := ih (Value.insertField binding.target value before) fun b hb => h b (mem_cons_of_mem _ hb)
    refine ⟨fields, ?_⟩
    rw [foldlM_cons, bindField, hvalue]
    exact hfields

theorem resolved_all (h : bindings.foldlM (bindField s) before = .ok fields) :
    ∀ binding ∈ bindings, ∃ value, resolveBinding s binding.source = .ok value := by
  induction bindings generalizing before with
  | nil => exact nofun
  | cons binding rest ih =>
    obtain ⟨value, hvalue, hfold⟩ := foldlM_cons_ok h
    exact forall_mem_cons.mpr ⟨⟨value, hvalue⟩, ih hfold⟩

theorem lastFor_of_mem {binding : InputBinding} (h : binding ∈ bindings) :
    ∃ last ∈ bindings, lastFor bindings binding.target = some last := by
  cases hlast : lastFor bindings binding.target with
  | none => exact absurd (beq_self_eq_true _) (List.find?_eq_none.mp hlast binding (mem_reverse.mpr h))
  | some last => exact ⟨last, mem_reverse.mp (mem_of_find?_eq_some hlast), rfl⟩

theorem checkProducerSchemas_iff [F64Display] {inputs : CheckInputs} : (checkProducerSchemas inputs).1 = true ↔
    ∀ binding ∈ inputs.node.inputBindings, ∀ id pointer schema, binding.source = .nodeOutput id pointer →
      inputs.producers id = some schema →
        inputs.validate schema ((inputs.input.get binding.target).getD .null) = .ok () := by
  unfold checkProducerSchemas
  extract_lets issues
  have hissues : (if issues.isEmpty then (true, "bound outputs match their producers' schemas") else
      (false, Text.join "; " issues)).1 = true ↔ issues = [] := by
    split
    · rename_i h
      exact iff_of_true rfl (isEmpty_iff.mp h)
    · rename_i h
      exact iff_of_false Bool.false_ne_true fun hnil => h (isEmpty_iff.mpr hnil)
  rw [hissues]
  simp only [issues, flatMap_eq_nil_iff]
  refine forall₂_congr fun binding _ => ?_
  cases binding.source with
  | runInput pointer => simp
  | nodeOutput id pointer =>
    cases hschema : inputs.producers id with
    | none =>
      refine iff_of_true (by simp only [hschema]) ?_
      rintro _ _ schema ⟨⟩ hsome
      rw [hschema] at hsome
      cases hsome
    | some schema =>
      cases hvalid : inputs.validate schema ((inputs.input.get binding.target).getD .null) with
      | ok =>
        refine iff_of_true (by simp only [hschema, hvalid]) ?_
        rintro _ _ schema' ⟨⟩ hsome
        rw [hschema] at hsome
        cases hsome
        exact hvalid
      | error message =>
        refine iff_of_false (by simp [hschema, hvalid]) fun h => ?_
        have hok := h id pointer schema rfl hschema
        rw [hvalid] at hok
        cases hok

theorem resolveBinding_whole {id : OrchestrationNodeId} (h : resolveBinding s (.nodeOutput id "") = .ok value) :
    (s.steps.get? id).bind (·.output) = some value := by
  rw [resolveBinding] at h
  split at h
  · rename_i output houtput
    cases h
    exact houtput
  · cases h

theorem judges_of_boundWhole [F64Display] {node : OrchestrationNode} {hasSchema : OrchestrationNodeId → Bool}
    (h : BoundWhole node hasSchema) : JudgesOutputs node hasSchema := by
  intro s producers input resolveArtifact hproducers hresolved
  rw [resolveInputs_eq] at hresolved
  cases hfields : node.inputBindings.foldlM (bindField s) [] with
  | error e =>
    rw [hfields] at hresolved
    cases hresolved
  | ok fields =>
    rw [hfields] at hresolved
    cases hresolved
    have hjudged : ∀ binding ∈ node.inputBindings, ∀ id pointer schema, binding.source = .nodeOutput id pointer →
        producers id = some schema → ∃ output, (s.steps.get? id).bind (·.output) = some output ∧
          (Value.object fields).get binding.target = some output := by
      intro binding hbinding id pointer schema hsource hschema
      have hlast := h binding hbinding id pointer hsource (by rw [← hproducers, hschema]; rfl)
      obtain ⟨last, hfound, hlastSource⟩ := map_eq_some_iff.mp hlast
      have hlookup := lookup_resolved hfields binding.target
      rw [hfound] at hlookup
      obtain ⟨value, hvalue, hget⟩ := hlookup
      rw [hlastSource] at hvalue
      exact ⟨value, resolveBinding_whole hvalue, hget⟩
    rw [checkProducerSchemas_iff]
    constructor
    · intro hpass binding hbinding id pointer schema output hsource hschema houtput
      obtain ⟨output', houtput', hget⟩ := hjudged binding hbinding id pointer schema hsource hschema
      have hvalid := hpass binding hbinding id pointer schema hsource hschema
      rw [houtput] at houtput'
      cases houtput'
      simpa only [hget, getD_some] using hvalid
    · intro hconform binding hbinding id pointer schema hsource hschema
      obtain ⟨output, houtput, hget⟩ := hjudged binding hbinding id pointer schema hsource hschema
      simpa only [hget, getD_some] using hconform binding hbinding id pointer schema output hsource hschema houtput

def pathTokens (pointer : String) : List (List Char) :=
  match pointer.toList with
  | '/' :: rest => (Text.splitOn (· == '/') rest).map Value.unescapeToken
  | _ => []

def tree (keys : List String) : Nat → Value
  | 0 => .object []
  | n + 1 => .object (keys.foldr (fun key fields => Value.insertField key (tree keys n) fields) [])

variable {keys : List String} {n m : Nat}

theorem tree_get (hkey : key ∈ keys) : (tree keys (n + 1)).get key = some (tree keys n) := by
  have hlookup : ∀ keys' : List String, key ∈ keys' →
      (keys'.foldr (fun key fields => Value.insertField key (tree keys n) fields) []).lookup key = some (tree keys n) := by
    intro keys' hmem
    induction keys' with
    | nil => cases hmem
    | cons first rest ih =>
      rw [foldr_cons, Value.lookup_insertField]
      split_ifs with heq
      · rfl
      · exact ih ((mem_cons.mp hmem).resolve_left heq)
  exact hlookup keys hkey

theorem tree_descend {tokens : List (List Char)} (htokens : ∀ token ∈ tokens, String.ofList token ∈ keys)
    (hlength : tokens.length ≤ n) : tokens.foldlM Value.child (tree keys n) = some (tree keys (n - tokens.length)) := by
  induction tokens generalizing n with
  | nil => rfl
  | cons token rest ih =>
    obtain ⟨n, rfl⟩ : ∃ k, n = k + 1 := ⟨n - 1, by simp only [length_cons] at hlength; omega⟩
    have hchild : (tree keys (n + 1)).child token = some (tree keys n) := tree_get (htokens token mem_cons_self)
    rw [foldlM_cons, hchild]
    simp only [length_cons, Nat.add_le_add_iff_right, Nat.add_sub_add_right] at hlength ⊢
    exact ih (fun t ht => htokens t (mem_cons_of_mem _ ht)) hlength

theorem tree_pointer {pointer : String} (hpointer : pointer = "" ∨ Text.startsWith pointer "/" = true)
    (hkeys : ∀ token ∈ pathTokens pointer, String.ofList token ∈ keys) (hlength : (pathTokens pointer).length ≤ n) :
    (tree keys n).pointer pointer = some (tree keys (n - (pathTokens pointer).length)) := by
  have hpath : (tree keys n).pointer pointer = (pathTokens pointer).foldlM Value.child (tree keys n) := by
    rcases hpointer with rfl | hslash
    · rfl
    · obtain ⟨rest, hrest⟩ : ∃ rest, pointer.toList = '/' :: rest := by
        obtain ⟨rest, hrest⟩ := isPrefixOf_iff_prefix.mp hslash
        exact ⟨rest, hrest.symm⟩
      simp only [Value.pointer, pathTokens, hrest]
  rw [hpath, tree_descend hkeys hlength]

theorem pathTokens_ne_nil {pointer : String} (hslash : Text.startsWith pointer "/" = true) : pathTokens pointer ≠ [] := by
  obtain ⟨rest, hrest⟩ := isPrefixOf_iff_prefix.mp hslash
  have hcons : pointer.toList = '/' :: rest := hrest.symm
  simp only [pathTokens, hcons, ne_eq, map_eq_nil_iff]
  exact Text.splitOn_ne_nil

theorem alikeFields_lookup {test : Number → Number → Bool} {as bs : List (String × Value)}
    (h : Value.alikeFields test as bs = true) (key : String) : as.lookup key = none ∧ bs.lookup key = none ∨
      ∃ a b, as.lookup key = some a ∧ bs.lookup key = some b ∧ Value.alike test a b = true := by
  induction as generalizing bs with
  | nil =>
    cases bs with
    | nil => exact .inl ⟨rfl, rfl⟩
    | cons => cases h
  | cons field rest ih =>
    obtain ⟨k, a⟩ := field
    cases bs with
    | nil => cases h
    | cons field' rest' =>
      obtain ⟨l, b⟩ := field'
      simp only [Value.alikeFields, Bool.and_eq_true, beq_iff_eq] at h
      obtain ⟨⟨rfl, hab⟩, hrest⟩ := h
      rw [Value.lookup_cons_if, Value.lookup_cons_if]
      split_ifs
      · exact .inr ⟨a, b, rfl, rfl, hab⟩
      · exact ih hrest

theorem tree_inj (hkey : key ∈ keys) (h : (tree keys n).same (tree keys m) = true) : n = m := by
  have hget : ∀ {a b : Nat}, (tree keys a).same (tree keys b) = true →
      (tree keys a).get key = none ∧ (tree keys b).get key = none ∨
        ∃ v w, (tree keys a).get key = some v ∧ (tree keys b).get key = some w ∧ v.same w = true := by
    intro a b hsame
    cases a <;> cases b <;> exact alikeFields_lookup hsame key
  induction n generalizing m with
  | zero =>
    cases m with
    | zero => rfl
    | succ m =>
      rcases hget h with ⟨-, hnone⟩ | ⟨v, w, hv, -⟩
      · rw [tree_get hkey] at hnone
        cases hnone
      · cases hv
  | succ n ih =>
    rcases hget h with ⟨hnone, -⟩ | ⟨v, w, hv, hw, hsame⟩
    · rw [tree_get hkey] at hnone
      cases hnone
    · cases m with
      | zero => cases hw
      | succ m =>
        rw [tree_get hkey] at hv hw
        cases hv
        cases hw
        rw [ih hsame]

theorem validate_const {rules : Rules} (path : String) (fields : List (String × Value))
    (hrules : rules = [] ∨ ∃ expected, rules = [("const", expected)]) :
    validate (.object rules) path (.object fields) = (constFaults rules (.object fields)).map (Issue.mk path) := by
  have hlookup : ∀ keyword, keyword ≠ "const" → rules.lookup keyword = none := by
    intro keyword hkeyword
    rcases hrules with rfl | ⟨expected, rfl⟩
    · rfl
    · rw [Value.lookup_cons_if, if_neg hkeyword]
      rfl
  have hsupported : unsupportedKeyword rules = none := by
    rcases hrules with rfl | ⟨expected, rfl⟩ <;> rfl
  have hfields : ∀ fields, validateFields rules path fields = [] := by
    intro fields
    induction fields with
    | nil => rfl
    | cons field rest ih =>
      rw [validateFields, ih, propertySchema, hlookup _ (by decide), hlookup _ (by decide)]
      rfl
  rw [validate.eq_def]
  simp only [hsupported, typeFaults, enumFaults, requiredFaults, hfields, hlookup _ (by decide : "type" ≠ "const"),
    hlookup _ (by decide : "enum" ≠ "const"), hlookup _ (by decide : "required" ≠ "const"), textFaults, numberFaults,
    arrayFaults]
  simp

theorem tree_object (keys : List String) (n : Nat) : ∃ fields, tree keys n = .object fields := by
  cases n with
  | zero | succ => exact ⟨_, rfl⟩

theorem validate_tree [F64Display] (hkey : key ∈ keys) :
    basicValidate (.object [("const", tree keys n)]) (tree keys m) = .ok () ↔ n = m := by
  obtain ⟨fields, hfields⟩ := tree_object keys m
  have hvalidate := validate_const "$" fields (.inr ⟨tree keys n, rfl⟩)
  rw [← hfields] at hvalidate
  have hfaults : constFaults [("const", tree keys n)] (tree keys m) = [] ↔ n = m := by
    simp only [constFaults, Value.lookup_cons_if, if_true]
    constructor
    · intro h
      split at h
      · rename_i hsame
        exact tree_inj hkey hsame
      · cases h
    · rintro rfl
      rw [if_pos (Value.same_self _)]
  rw [← hfaults, basicValidate, hvalidate]
  cases constFaults [("const", tree keys n)] (tree keys m) with
  | nil => exact iff_of_true rfl rfl
  | cons => exact iff_of_false nofun nofun

theorem validate_any [F64Display] : basicValidate (.object []) (tree keys n) = .ok () := by
  obtain ⟨fields, hfields⟩ := tree_object keys n
  rw [basicValidate, hfields, validate_const _ _ (.inl rfl)]
  rfl

def keysOf (bindings : List InputBinding) : List String :=
  "x" :: bindings.flatMap fun binding =>
    (pathTokens (WorkflowCompiler.bindingPointer binding.source)).map String.ofList

def depthOf (bindings : List InputBinding) : Nat :=
  (bindings.map fun binding => (pathTokens (WorkflowCompiler.bindingPointer binding.source)).length).sum

def sourceNode : OutputBinding → Option OrchestrationNodeId
  | .nodeOutput id _ => some id
  | .runInput _ => none

def heightOf (bindings : List InputBinding) (highest id : OrchestrationNodeId) : Nat :=
  if id = highest then depthOf bindings + 1 else depthOf bindings

def treeRun (bindings : List InputBinding) (highest : OrchestrationNodeId) : OrchestrationRunState where
  runId := "run"
  definitionId := "definition"
  definitionRevision := 1
  definitionHash := ""
  input := some (tree (keysOf bindings) (depthOf bindings))
  steps := OrdMap.ofList ((bindings.filterMap fun binding => sourceNode binding.source).map fun id =>
    (id, { output := some (tree (keysOf bindings) (heightOf bindings highest id)) }))

variable {highest id : OrchestrationNodeId} {binding : InputBinding} {pointer : String}

theorem treeRun_output (hbinding : binding ∈ bindings) (hsource : binding.source = .nodeOutput id pointer) :
    ((treeRun bindings highest).steps.get? id).bind (·.output) =
      some (tree (keysOf bindings) (heightOf bindings highest id)) := by
  have hmem : id ∈ bindings.filterMap fun binding => sourceNode binding.source :=
    mem_filterMap.mpr ⟨binding, hbinding, by rw [hsource]; rfl⟩
  obtain ⟨step, hstep⟩ := OrdMap.exists_get? (m := (treeRun bindings highest).steps)
    (OrdMap.mem_keys_ofList.mpr (by simpa using mem_map_of_mem (f := fun id => id) hmem) : id ∈ _)
  obtain ⟨id', -, heq⟩ := mem_map.mp (OrdMap.get?_ofList hstep)
  cases heq
  rw [hstep]
  rfl

theorem treeRun_pointer (hbinding : binding ∈ bindings)
    (hpointer : WorkflowCompiler.bindingPointer binding.source = "" ∨
      Text.startsWith (WorkflowCompiler.bindingPointer binding.source) "/" = true) (hn : depthOf bindings ≤ n) :
    (tree (keysOf bindings) n).pointer (WorkflowCompiler.bindingPointer binding.source) =
      some (tree (keysOf bindings) (n - (pathTokens (WorkflowCompiler.bindingPointer binding.source)).length)) := by
  refine tree_pointer hpointer (fun token htoken => ?_) (le_trans ?_ hn)
  · exact mem_cons_of_mem _ (mem_flatMap.mpr ⟨binding, hbinding, mem_map_of_mem htoken⟩)
  · exact le_sum_of_mem (mem_map_of_mem hbinding)

theorem treeRun_resolve (highest : OrchestrationNodeId) (hbinding : binding ∈ bindings)
    (hpointer : WorkflowCompiler.bindingPointer binding.source = "" ∨
      Text.startsWith (WorkflowCompiler.bindingPointer binding.source) "/" = true) :
    ∃ m, resolveBinding (treeRun bindings highest) binding.source = .ok (tree (keysOf bindings) m) ∧
      (binding.source = .nodeOutput highest "" ∨ m ≤ depthOf bindings) := by
  cases hsource : binding.source with
  | runInput pointer =>
    have hfound := treeRun_pointer hbinding hpointer le_rfl
    rw [hsource] at hfound
    refine ⟨depthOf bindings - (pathTokens pointer).length, ?_, .inr (Nat.sub_le _ _)⟩
    rw [resolveBinding]
    simp only [treeRun, pointerValue, WorkflowCompiler.bindingPointer] at hfound ⊢
    rw [hfound]
  | nodeOutput id pointer =>
    have hheight : depthOf bindings ≤ heightOf bindings highest id := by
      unfold heightOf
      split_ifs <;> omega
    have hfound := treeRun_pointer hbinding hpointer hheight
    rw [hsource] at hfound hpointer
    simp only [WorkflowCompiler.bindingPointer] at hfound hpointer
    refine ⟨heightOf bindings highest id - (pathTokens pointer).length, ?_, ?_⟩
    · rw [resolveBinding, treeRun_output hbinding hsource]
      simp only [pointerValue]
      rw [hfound]
    · rcases hpointer with rfl | hslash
      · by_cases hid : id = highest
        · exact .inl (by rw [hid])
        · exact .inr (by simp [heightOf, hid])
      · have hlength := length_pos_iff.mpr (pathTokens_ne_nil hslash)
        refine .inr ?_
        unfold heightOf
        split_ifs <;> omega

theorem boundWhole_of_judges [F64Display] {node : OrchestrationNode} {hasSchema : OrchestrationNodeId → Bool}
    (hpointers : ∀ binding ∈ node.inputBindings, WorkflowCompiler.bindingPointer binding.source = "" ∨
      Text.startsWith (WorkflowCompiler.bindingPointer binding.source) "/" = true)
    (h : JudgesOutputs node hasSchema) : BoundWhole node hasSchema := by
  intro binding hbinding id pointer hsource hschema
  by_contra hnot
  have hkey : "x" ∈ keysOf node.inputBindings := mem_cons_self
  obtain ⟨fields, hfields⟩ := exists_resolved (s := treeRun node.inputBindings id) [] fun binding hbinding => by
    obtain ⟨m, hm, -⟩ := treeRun_resolve id hbinding (hpointers binding hbinding)
    exact ⟨_, hm⟩
  -- only the highest output satisfies the schema of its producer
  let producers (k : OrchestrationNodeId) : Option Value :=
    if hasSchema k then
      some (if k = id then .object [("const", tree (keysOf node.inputBindings) (depthOf node.inputBindings + 1))] else .object [])
    else none
  have hproducers : ∀ k, (producers k).isSome = hasSchema k := by
    intro k
    cases hk : hasSchema k <;> simp [producers, hk]
  have hjudges := h (treeRun node.inputBindings id) producers (.object fields) (fun _ _ => .ok ()) hproducers
    (by rw [resolveInputs_eq, hfields]; rfl)
  have hconform : OutputsConform (treeRun node.inputBindings id) node producers := by
    intro binding' hbinding' id' pointer' schema output hsource' hschema' houtput
    rw [treeRun_output hbinding' hsource'] at houtput
    cases houtput
    by_cases hid : id' = id
    · subst hid
      simp only [producers, hschema, if_true, Option.some.injEq] at hschema'
      subst hschema'
      exact (validate_tree hkey).mpr (by simp [heightOf])
    · simp only [producers, hid, if_false] at hschema'
      split at hschema' <;> cases hschema'
      exact validate_any
  have hproducer : producers id =
      some (.object [("const", tree (keysOf node.inputBindings) (depthOf node.inputBindings + 1))]) := by
    simp only [producers, hschema, if_true]
  have hpass := checkProducerSchemas_iff.mp (hjudges.mpr hconform) binding hbinding id pointer _ hsource hproducer
  obtain ⟨last, hlast, hfound⟩ := lastFor_of_mem hbinding
  have hlookup := lookup_resolved hfields binding.target
  rw [hfound] at hlookup
  obtain ⟨value, hvalue, hget⟩ := hlookup
  obtain ⟨m, hm, hlow⟩ := treeRun_resolve id hlast (hpointers last hlast)
  rw [hm] at hvalue
  cases hvalue
  have hdelivered : ((Value.object fields).get binding.target).getD .null = tree (keysOf node.inputBindings) m := by
    rw [show (Value.object fields).get binding.target = some (tree (keysOf node.inputBindings) m) from hget]
    rfl
  rw [hdelivered] at hpass
  have hheight := (validate_tree hkey).mp hpass
  rcases hlow with hwhole | hlow
  · exact hnot (by rw [hfound, map_some, hwhole])
  · omega

theorem checkPointer_eq_nil {path : String} : WorkflowCompiler.checkPointer pointer path = [] ↔
    pointer = "" ∨ Text.startsWith pointer "/" = true := by
  rw [WorkflowCompiler.checkPointer, WorkflowCompiler.reject]
  by_cases hempty : pointer = ""
  · simp [hempty]
  · cases hslash : Text.startsWith pointer "/" <;> simp [hempty]

theorem pointer_eq_none (hempty : pointer ≠ "") (hslash : Text.startsWith pointer "/" = false) : value.pointer pointer = none := by
  unfold Value.pointer
  split
  · rename_i hnil
    exact absurd (String.toList_eq_nil_iff.mp hnil) hempty
  · rename_i rest hcons
    simp [Text.startsWith, hcons] at hslash
  · rfl

theorem resolveBinding_refused {source : OutputBinding} (hempty : WorkflowCompiler.bindingPointer source ≠ "")
    (hslash : Text.startsWith (WorkflowCompiler.bindingPointer source) "/" = false) : resolveBinding s source ≠ .ok value := by
  have hvalue : ∀ whole, pointerValue whole (WorkflowCompiler.bindingPointer source) ≠ .ok value := by
    intro whole h
    rw [pointerValue, pointer_eq_none hempty hslash] at h
    cases h
  intro h
  cases source with
  | runInput pointer =>
    rw [resolveBinding] at h
    split at h
    · exact hvalue _ h
    · cases h
  | nodeOutput id pointer =>
    rw [resolveBinding] at h
    split at h
    · exact hvalue _ h
    · cases h

/-- The schema check of a step judges the producers' outputs exactly if each one that has a schema is bound whole, under
    a name that no later binding takes; a step with a pointer that the compiler refuses is never run. -/
theorem producer_schemas_iff [F64Display] (node : OrchestrationNode) (hasSchema : OrchestrationNodeId → Bool) :
    JudgesOutputs node hasSchema ↔ BoundWhole node hasSchema ∨ ¬ PointersAccepted node := by
  constructor
  · intro h
    by_cases hpointers : PointersAccepted node
    · exact .inl (boundWhole_of_judges (fun binding hbinding => checkPointer_eq_nil.mp (hpointers binding hbinding "")) h)
    · exact .inr hpointers
  · rintro (h | h)
    · exact judges_of_boundWhole h
    · intro s producers input resolveArtifact _ hresolved
      simp only [PointersAccepted, not_forall, checkPointer_eq_nil, not_or, Bool.not_eq_true] at h
      obtain ⟨binding, hbinding, -, hempty, hslash⟩ := h
      rw [resolveInputs_eq] at hresolved
      cases hfields : node.inputBindings.foldlM (bindField s) [] with
      | error e =>
        rw [hfields] at hresolved
        cases hresolved
      | ok fields =>
        obtain ⟨value, hvalue⟩ := resolved_all hfields binding hbinding
        exact absurd hvalue (resolveBinding_refused hempty hslash)

namespace Part

scoped instance display : F64Display := ⟨fun value => toString value⟩

def review : OrchestrationNode where
  id := "review"
  name := "Review"
  kind := .verify { checks := [.schema] }
  inputBindings := [⟨"items", .nodeOutput "plan" "/items"⟩]

/-- The schema of the plan is an object's; its items are an array. -/
theorem part_not_judged : ¬ JudgesOutputs review (· == "plan") := by
  intro h
  let s : OrchestrationRunState :=
    { runId := "run", definitionId := "definition", definitionRevision := 1, definitionHash := "",
      steps := OrdMap.ofList [("plan", { output := some (.object [("items", .array [])]) })] }
  let producers (id : OrchestrationNodeId) : Option Value :=
    if id = "plan" then some (.object [("type", .string "object")]) else none
  have hjudges := h s producers (.object [("items", .array [])]) (fun _ _ => .ok ())
    (fun id => by by_cases hid : id = "plan" <;> simp [producers, hid]) rfl
  have hfails : (checkProducerSchemas ⟨review, .object [("items", .array [])], producers, basicValidate,
    fun _ _ => .ok ()⟩).1 = false := by decide
  have hpasses := hjudges.mpr fun binding hbinding id pointer schema output hsource hschema houtput => by
    cases mem_singleton.mp hbinding
    cases hsource
    cases hschema
    cases houtput
    rfl
  rw [hfails] at hpasses
  cases hpasses

end Part

end RustyCore.Steps
