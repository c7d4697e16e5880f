import RustyCore.Theorems.Workflow.Runs
import RustyCore.Workflow.Registry

/-! What a reference resolves to after any sequence of registrations: the revisions held are the first ones that
    compiled, and a choice among them is the highest of its status. -/

namespace RustyCore

namespace DefinitionRegistry

variable [WorkflowExternals] {registry : DefinitionRegistry} {definitions : List RevisionedDefinition}
  {definition : RevisionedDefinition} {id : OrchestrationDefinitionId} {revision : Nat} {c : CompiledOrchestration}
  {allow : Bool} {wanted : DefinitionStatus → Bool}

theorem compile_definition {d : OrchestrationDefinition} (h : d.compile = .ok c) :
    c.definition = d ∧ c.definitionId = d.id ∧ c.revision = d.revision := by
  unfold OrchestrationDefinition.compile at h
  split at h
  · split at h
    · cases h
      exact ⟨rfl, rfl, rfl⟩
    · cases h
  · cases h

def accepted (id : OrchestrationDefinitionId) (revision : Nat) (definition : RevisionedDefinition) :
    Option CompiledOrchestration :=
  if definition.1.id = id ∧ definition.1.revision = revision then definition.1.compile.toOption else none

def held (definitions : List RevisionedDefinition) (id : OrchestrationDefinitionId) (revision : Nat) :
    Option CompiledOrchestration :=
  definitions.findSome? (accepted id revision)

def Highest (definitions : List RevisionedDefinition) (id : OrchestrationDefinitionId)
    (wanted : DefinitionStatus → Prop) (c : CompiledOrchestration) : Prop :=
  ∃ revision, held definitions id revision = some c ∧ wanted c.definition.status ∧
    ∀ revision' c', held definitions id revision' = some c' → wanted c'.definition.status → revision' ≤ revision

theorem accepted_eq_some : accepted id revision definition = some c ↔
    definition.1.id = id ∧ definition.1.revision = revision ∧ definition.1.compile = .ok c := by
  unfold accepted
  rcases hcompile : definition.1.compile with e | c'
  · simp [Except.toOption]
  · simp [Except.toOption, and_assoc]

theorem held_spec (h : held definitions id revision = some c) :
    c.definitionId = id ∧ c.revision = revision ∧ revision < 2 ^ 64 := by
  obtain ⟨definition, -, haccepted⟩ := List.exists_of_findSome?_eq_some h
  obtain ⟨rfl, rfl, hcompile⟩ := accepted_eq_some.mp haccepted
  obtain ⟨-, hid, hrevision⟩ := compile_definition hcompile
  exact ⟨hid, hrevision, definition.2⟩

omit [WorkflowExternals] in
theorem key_inj {id' : OrchestrationDefinitionId} {revision' : Nat} :
    key id revision = key id' revision' ↔ id = id' ∧ revision = revision' := by
  simp [key]

theorem register_error {e : RegistryError} (h : (registry.register definition).2 = .error e) :
    (registry.register definition).1 = registry := by
  unfold register at h ⊢
  split
  · split <;> rfl
  · split
    · rfl
    · rename_i hnone _ compiled hcompile
      simp [hnone, hcompile] at h

theorem get?_register : (registry.register definition).1.revisions.get? (key id revision) =
    (registry.revisions.get? (key id revision)).or (accepted id revision definition) := by
  by_cases hkey : definition.1.id = id ∧ definition.1.revision = revision
  · obtain ⟨rfl, rfl⟩ := hkey
    rw [accepted, if_pos ⟨rfl, rfl⟩]
    unfold register
    rcases hheld : registry.revisions.get? (key definition.1.id definition.1.revision) with _ | existing
    · rcases hcompile : definition.1.compile with e | compiled
      · simpa [Except.toOption] using hheld
      · simp [Except.toOption, OrdMap.get?_insert]
    · simp only [Option.some_or]
      split <;> exact hheld
  · rw [accepted, if_neg hkey, Option.or_none]
    unfold register
    split
    · split <;> rfl
    · split
      · rfl
      · rw [OrdMap.get?_insert, if_neg]
        rw [key_inj]
        rintro ⟨rfl, rfl⟩
        exact hkey ⟨rfl, rfl⟩

theorem get?_registerAll : (registry.registerAll definitions).revisions.get? (key id revision) =
    (registry.revisions.get? (key id revision)).or (held definitions id revision) := by
  induction definitions generalizing registry with
  | nil => simp [registerAll, held]
  | cons definition rest ih =>
    have hstep : registry.registerAll (definition :: rest) = (registry.register definition).1.registerAll rest := rfl
    rw [hstep, ih, get?_register, Option.or_assoc, held, held, List.findSome?_cons]
    cases accepted id revision definition <;> simp

theorem allowDrafts_register : (registry.register definition).1.allowDrafts = registry.allowDrafts := by
  unfold register
  split
  · split <;> rfl
  · split <;> rfl

theorem allowDrafts_registerAll : (registry.registerAll definitions).allowDrafts = registry.allowDrafts := by
  induction definitions generalizing registry with
  | nil => rfl
  | cons definition rest ih =>
    have hstep : registry.registerAll (definition :: rest) = (registry.register definition).1.registerAll rest := rfl
    rw [hstep, ih, allowDrafts_register]

def after (allow : Bool) (definitions : List RevisionedDefinition) : DefinitionRegistry :=
  registerAll { allowDrafts := allow } definitions

theorem get?_after : (after allow definitions).revisions.get? (key id revision) = held definitions id revision := by
  rw [after, get?_registerAll]
  rfl

theorem allowDrafts_after : (after allow definitions).allowDrafts = allow := allowDrafts_registerAll

omit [WorkflowExternals] in
theorem mem_range {k : RevisionKey} (h : (ofLex k).2 < 2 ^ 64) :
    (key id 0 ≤ k ∧ k ≤ key id maxU64) ↔ (ofLex k).1 = id := by
  simp only [key, Prod.Lex.le_iff, ofLex_toLex, maxU64]
  constructor
  · rintro ⟨hlo | ⟨hlo, -⟩, hhi | ⟨hhi, -⟩⟩
    · exact absurd (lt_trans hlo hhi) (lt_irrefl _)
    · exact hhi
    · exact hlo.symm
    · exact hhi
  · rintro rfl
    exact ⟨Or.inr ⟨rfl, Nat.zero_le _⟩, Or.inr ⟨rfl, by omega⟩⟩

theorem highest_eq_ok : (after allow definitions).highest id wanted = .ok c ↔
    Highest definitions id (wanted · = true) c := by
  have hget : ∀ k : RevisionKey, ∀ c, (after allow definitions).revisions.get? k = some c ↔
      held definitions (ofLex k).1 (ofLex k).2 = some c := by
    intro k c
    have hafter : (after allow definitions).revisions.get? k = held definitions (ofLex k).1 (ofLex k).2 := get?_after
    rw [hafter]
  have hfind : ∀ e : RevisionKey × CompiledOrchestration,
      (after allow definitions).revisions.findLast (key id 0) (key id maxU64)
        (fun compiled => wanted compiled.definition.status) = some e ↔
      (ofLex e.1).1 = id ∧ held definitions id (ofLex e.1).2 = some e.2 ∧ wanted e.2.definition.status = true ∧
        ∀ revision' c', held definitions id revision' = some c' → wanted c'.definition.status = true →
          revision' ≤ (ofLex e.1).2 := by
    intro e
    rw [OrdMap.findLast_eq_some, hget]
    constructor
    · rintro ⟨hheld, hlo, hhi, hwanted, hmax⟩
      have hid := (mem_range (held_spec hheld).2.2).mp ⟨hlo, hhi⟩
      refine ⟨hid, hid ▸ hheld, hwanted, fun revision' c' hheld' hwanted' => ?_⟩
      obtain ⟨hlo', hhi'⟩ := (mem_range (k := key id revision') (held_spec hheld').2.2).mpr rfl
      have hle := hmax (key id revision') c' (get?_after.trans hheld') hlo' hhi' hwanted'
      simp only [key, Prod.Lex.le_iff, ofLex_toLex, hid, lt_irrefl, false_or, true_and] at hle
      exact hle
    · rintro ⟨rfl, hheld, hwanted, hmax⟩
      obtain ⟨hlo, hhi⟩ := (mem_range (held_spec hheld).2.2).mpr rfl
      refine ⟨hheld, hlo, hhi, hwanted, fun k' c' hget' hlo' hhi' hwanted' => ?_⟩
      have hheld' := (hget k' c').mp hget'
      have hid' := (mem_range (held_spec hheld').2.2).mp ⟨hlo', hhi'⟩
      exact Prod.Lex.le_iff.mpr (Or.inr ⟨hid', hmax _ c' (hid' ▸ hheld') hwanted'⟩)
  unfold highest
  constructor
  · intro h
    split at h
    · cases h
    · rename_i found hfound
      cases h
      obtain ⟨-, hhighest⟩ := (hfind _).mp hfound
      exact ⟨_, hhighest⟩
  · rintro ⟨revision, hheld, hwanted, hmax⟩
    rw [(hfind (key id revision, c)).mpr ⟨rfl, hheld, hwanted, hmax⟩]

theorem resolve_eq_ok {reference : DefinitionRef} : (after allow definitions).resolve reference = .ok c ↔
    (after allow definitions).find reference = .ok c ∧ (c.definition.status = .draft → allow = true) := by
  unfold resolve
  rw [allowDrafts_after]
  rcases (after allow definitions).find reference with e | found
  · simp
  · by_cases hdraft : found.definition.status = .draft ∧ allow = false
    · obtain ⟨hstatus, rfl⟩ := hdraft
      simp only [hstatus, and_self, if_true]
      constructor
      · nofun
      · rintro ⟨hfound, hallowed⟩
        cases hfound
        cases hallowed hstatus
    · simp only [if_neg hdraft]
      constructor
      · intro h
        cases h
        exact ⟨rfl, fun hstatus => by simpa [hstatus] using hdraft⟩
      · exact fun h => h.1

theorem resolve_exact : (after allow definitions).resolve (.exact id revision) =
    match held definitions id revision with
    | none => .error (.notFound (id ++ "@" ++ toString revision))
    | some c =>
      if c.definition.status = .draft ∧ allow = false then .error (.draftNotExecutable id revision) else .ok c := by
  unfold resolve
  rw [find, get?_after, allowDrafts_after]
  rcases hheld : held definitions id revision with _ | c
  · rfl
  · obtain ⟨rfl, rfl, -⟩ := held_spec hheld
    rfl

structure Resolves (allow : Bool) (definitions : List RevisionedDefinition) (registry : DefinitionRegistry) : Prop where
  /-- A revision resolves to the first content accepted for it; a draft is refused unless drafts are allowed. -/
  exact : ∀ id revision, registry.resolve (.exact id revision) =
    match held definitions id revision with
    | none => .error (.notFound (id ++ "@" ++ toString revision))
    | some c =>
      if c.definition.status = .draft ∧ allow = false then .error (.draftNotExecutable id revision) else .ok c
  unchanged : ∀ definition e, (registry.register definition).2 = .error e → (registry.register definition).1 = registry
  published : ∀ id c, registry.resolve (.latestPublished id) = .ok c ↔ Highest definitions id (· = .published) c
  /-- Where the highest revision that is not deprecated may be executed, it is the latest. -/
  latest : ∀ id c, Highest definitions id (· ≠ .deprecated) c → (c.definition.status = .draft → allow = true) →
    registry.resolve (.latest id) = .ok c
  latest_only : ∀ id c, registry.resolve (.latest id) = .ok c →
    Highest definitions id (fun status => status ≠ .deprecated ∧ (status = .draft → allow = true)) c

theorem registry_resolves (allow : Bool) (definitions : List RevisionedDefinition) :
    Resolves allow definitions (after allow definitions) where
  exact _ _ := resolve_exact
  unchanged _ _ h := register_error h
  published id c := by
    rw [resolve_eq_ok, find, highest_eq_ok]
    simp only [beq_iff_eq]
    constructor
    · exact fun h => h.1
    · rintro ⟨revision, hheld, hstatus, hmax⟩
      exact ⟨⟨revision, hheld, hstatus, hmax⟩, by simp [hstatus]⟩
  latest id c h hallowed := by
    rw [resolve_eq_ok, find, highest_eq_ok]
    exact ⟨by simpa using h, hallowed⟩
  latest_only id c h := by
    rw [resolve_eq_ok, find, highest_eq_ok] at h
    obtain ⟨⟨revision, hheld, hstatus, hmax⟩, hallowed⟩ := h
    refine ⟨revision, hheld, ⟨by simpa using hstatus, hallowed⟩, fun revision' c' hheld' hstatus' => ?_⟩
    exact hmax revision' c' hheld' (by simpa using hstatus'.1)

end DefinitionRegistry

open Sample DefinitionRegistry

namespace Sample

def lineDraft : OrchestrationDefinition := { line with revision := 2, status := .draft }

theorem compile_lineDraft : lineDraft.compile = .ok (compiled lineDraft) :=
  compile_eq_compiled (by decide) (by decide)

def revisions : List RevisionedDefinition := [⟨line, by decide⟩, ⟨lineDraft, by decide⟩]

theorem held_revisions : held revisions "flow" 1 = some (compiled line) ∧
    held revisions "flow" 2 = some (compiled lineDraft) := by
  have hline : accepted "flow" 1 ⟨line, by decide⟩ = some (compiled line) :=
    accepted_eq_some.mpr ⟨rfl, rfl, compile_line⟩
  have hdraft : accepted "flow" 2 ⟨lineDraft, by decide⟩ = some (compiled lineDraft) :=
    accepted_eq_some.mpr ⟨rfl, rfl, compile_lineDraft⟩
  have hother : accepted "flow" 2 ⟨line, by decide⟩ = none := if_neg (by decide)
  constructor
  · rw [held, revisions, List.findSome?_cons, hline]
  · rw [held, revisions, List.findSome?_cons, hother, List.findSome?_cons, hdraft]

end Sample

/-- The draft is registered, and its revision does not resolve to it. -/
theorem draft_unresolved : held revisions "flow" 2 = some (compiled lineDraft) ∧
    (after false revisions).resolve (.exact "flow" 2) = .error (.draftNotExecutable "flow" 2) := by
  refine ⟨held_revisions.2, ?_⟩
  rw [resolve_exact, held_revisions.2]
  exact if_pos ⟨rfl, rfl⟩

end RustyCore
