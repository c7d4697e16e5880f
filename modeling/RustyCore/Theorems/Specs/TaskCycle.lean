import RustyCore.Specs.Validate

/-! # A task that comes after itself

The search of `find_cycle` shares its marks over all starting points. What the library says of it, read for the
tasks of a change: it always ends, and an error is reported exactly when the `after` references to known ids have
a cycle, for a task on one. -/

namespace RustyCore.Specs.Validate

open Relation List

variable {doc : TasksDoc} {task : Task} {id a b : String} {path specPath : String} {spec : Option SpecDoc}
  {out : List Warning} {warning : Warning}

/-- Task `a` comes after task `b`: both are in the list. -/
def After (doc : TasksDoc) (a b : String) : Prop := ∃ task ∈ doc.tasks, task.id = a ∧ b ∈ task.after ∧ b ∈ doc.ids

theorem byId_isSome : (doc.byId id).isSome ↔ id ∈ doc.ids := by
  rw [TasksDoc.byId, List.find?_isSome, TasksDoc.ids, mem_map]
  simp

theorem mem_of_byId (h : doc.byId id = some task) : task ∈ doc.tasks ∧ task.id = id :=
  ⟨mem_reverse.mp (mem_of_find?_eq_some h), by simpa using List.find?_some h⟩

theorem mem_next (h : b ∈ doc.next a) : After doc a b := by
  unfold TasksDoc.next at h
  split at h
  · rename_i task htask
    obtain ⟨hmem, hid⟩ := mem_of_byId htask
    obtain ⟨hafter, hknown⟩ := mem_filter.mp h
    exact ⟨task, hmem, hid, hafter, byId_isSome.mp hknown⟩
  · cases h

theorem next_of_after (hdistinct : doc.ids.Nodup) (h : After doc a b) : b ∈ doc.next a := by
  obtain ⟨task, htask, rfl, hafter, hknown⟩ := h
  obtain ⟨found, hfound⟩ := Option.isSome_iff_exists.mp (byId_isSome.mpr (mem_map_of_mem (f := Task.id) htask))
  obtain ⟨hmem, hid⟩ := mem_of_byId hfound
  obtain rfl : found = task := inj_on_of_nodup_map hdistinct hmem htask hid
  rw [TasksDoc.next, hfound]
  exact mem_filter.mpr ⟨hafter, byId_isSome.mpr hknown⟩

theorem edge_iff (hdistinct : doc.ids.Nodup) : Graph.Edge doc.next a b ↔ After doc a b :=
  ⟨mem_next, next_of_after hdistinct⟩

theorem mem_ids_of_after (h : TransGen (After doc) a b) : a ∈ doc.ids := by
  obtain ⟨c, ⟨task, htask, rfl, -, -⟩, -⟩ := TransGen.head'_iff.mp h
  exact mem_map_of_mem htask

theorem findCycle_spec (doc : TasksDoc) : ∃ cycle, doc.findCycle = some cycle ∧
    (∀ found, cycle = some found → ∃ task ∈ doc.tasks, found = (task.id, task.line) ∧
      Graph.Below doc.next task.id task.id) ∧
    (cycle = none → ∀ id ∈ doc.ids, ¬Graph.Below doc.next id id) := by
  have hclosed : ∀ x ∈ doc.ids, ∀ t ∈ doc.next x, t ∈ doc.ids := by
    intro x _ t ht
    obtain ⟨-, -, -, -, hknown⟩ := mem_next ht
    exact hknown
  have hfuel : doc.ids.length < doc.tasks.length + 1 := by
    rw [TasksDoc.ids, length_map]
    exact Nat.lt_succ_self _
  obtain ⟨found, marks, hsearch, hsound, hcomplete⟩ := Graph.exploreAll_spec hclosed hfuel
  refine ⟨_, by rw [TasksDoc.findCycle, hsearch]; rfl, fun result hresult => ?_, fun hnone => ?_⟩
  · obtain ⟨id, rfl, htask⟩ := Option.bind_eq_some_iff.mp hresult
    obtain ⟨task, hfound, rfl⟩ := Option.map_eq_some_iff.mp htask
    obtain ⟨hmem, rfl⟩ := mem_of_byId hfound
    exact ⟨task, hmem, rfl, hsound _ rfl⟩
  · cases found with
    | none => exact hcomplete rfl
    | some id =>
      -- what is found is known, so its line is
      have hbelow := hsound id rfl
      obtain ⟨c, hedge, -⟩ := TransGen.head'_iff.mp hbelow
      obtain ⟨task, htask, hid, -, -⟩ := mem_next hedge
      have hknown : (doc.byId id).isSome := byId_isSome.mpr (hid ▸ mem_map_of_mem htask)
      obtain ⟨found, hfound⟩ := Option.isSome_iff_exists.mp hknown
      have hresult : (some id).bind (fun id => (doc.byId id).map fun task => (id, task.line)) = none := hnone
      rw [Option.bind_some, hfound] at hresult
      cases hresult

theorem error_of_mem {cycle : Option (String × Nat)} (h : warning ∈ taskWarnings path specPath doc spec cycle)
    (herror : warning.severity = .error) :
    ∃ found, cycle = some found ∧ warning = dependsOnItself path found := by
  rcases mem_append.mp h with h | h
  · rcases mem_append.mp h with h | h
    · rcases mem_append.mp h with h | h
      · obtain ⟨task, -, rfl⟩ := mem_map.mp h
        cases herror
      · obtain ⟨task, -, h⟩ := mem_flatMap.mp h
        obtain ⟨after, -, rfl⟩ := mem_map.mp h
        cases herror
    · obtain ⟨found, hfound, rfl⟩ := Option.map_eq_some_iff.mp (Option.mem_toList.mp h)
      exact ⟨found, hfound, rfl⟩
  · cases spec with
    | none => cases h
    | some spec =>
      rcases mem_append.mp h with h | h
      · obtain ⟨task, -, h⟩ := mem_flatMap.mp h
        rcases mem_append.mp h with h | h
        · obtain ⟨id, -, rfl⟩ := mem_map.mp h
          cases herror
        · obtain ⟨id, -, rfl⟩ := mem_map.mp h
          cases herror
      · obtain ⟨criterion, -, rfl⟩ := mem_map.mp h
        cases herror

/-- The check ends on every list. Where the ids are distinct it adds an error exactly when the `after` references to
    known ids have a cycle, and each error names a task on one, with its line. -/
theorem check_tasks_finds_cycles (path specPath : String) (doc : TasksDoc) (spec : Option SpecDoc) (out : List Warning) :
    ∃ added, checkTasks path specPath doc spec out = some (out ++ added) ∧
      (doc.ids.Nodup →
        ((∃ warning ∈ added, warning.severity = .error) ↔ ∃ id, TransGen (After doc) id id) ∧
        ∀ warning ∈ added, warning.severity = .error → ∃ task ∈ doc.tasks, TransGen (After doc) task.id task.id ∧
          warning = ⟨path, some task.line, .error, task.id ++ " depends on itself through its 'after' list"⟩) := by
  obtain ⟨cycle, hcycle, hsound, hcomplete⟩ := findCycle_spec doc
  refine ⟨taskWarnings path specPath doc spec cycle, by rw [checkTasks, hcycle, Option.map_some], ?_⟩
  intro hdistinct
  have hbelow : ∀ id, Graph.Below doc.next id id ↔ TransGen (After doc) id id := by
    intro id
    have hedges : Graph.Edge doc.next = After doc := funext₂ fun a b => propext (edge_iff hdistinct)
    rw [Graph.Below, hedges]
  constructor
  · constructor
    · rintro ⟨warning, hmem, herror⟩
      obtain ⟨found, rfl, -⟩ := error_of_mem hmem herror
      obtain ⟨task, -, -, hself⟩ := hsound found rfl
      exact ⟨task.id, (hbelow _).mp hself⟩
    · rintro ⟨id, hid⟩
      cases cycle with
      | none => exact absurd ((hbelow id).mpr hid) (hcomplete rfl id (mem_ids_of_after hid))
      | some found =>
        exact ⟨dependsOnItself path found, by simp [taskWarnings], rfl⟩
  · intro warning hmem herror
    obtain ⟨found, rfl, rfl⟩ := error_of_mem hmem herror
    obtain ⟨task, htask, rfl, hself⟩ := hsound found rfl
    exact ⟨task, htask, (hbelow _).mp hself, rfl⟩

namespace Sample

def tangled : TasksDoc := ⟨[⟨"T1", 1, [], [], ["T3"]⟩, ⟨"T2", 2, [], [], ["T1", "T9"]⟩, ⟨"T3", 3, [], [], ["T1"]⟩]⟩

theorem tangled_reports_cycle :
    (checkTasks "tasks.md" "spec.md" tangled none []).map (·.map (·.message)) =
      some ["T2 comes after T9, which does not exist", "T1 depends on itself through its 'after' list"] ∧
    ∃ id, TransGen (After tangled) id id := by
  have hcheck : (checkTasks "tasks.md" "spec.md" tangled none []).map (·.map (·.message)) =
      some ["T2 comes after T9, which does not exist", "T1 depends on itself through its 'after' list"] := by rfl
  obtain ⟨added, hadded, hspec⟩ := check_tasks_finds_cycles "tasks.md" "spec.md" tangled none []
  have herror : ∃ warning ∈ added, warning.severity = .error := by
    have hlast : checkTasks "tasks.md" "spec.md" tangled none [] =
        some [afterMissing "tasks.md" ⟨"T2", 2, [], [], ["T1", "T9"]⟩ "T9", dependsOnItself "tasks.md" ("T1", 1)] := by rfl
    rw [hlast, nil_append] at hadded
    cases hadded
    exact ⟨_, mem_cons_of_mem _ (mem_singleton.mpr rfl), rfl⟩
  exact ⟨hcheck, (hspec (by decide)).1.mp herror⟩

end Sample

end RustyCore.Specs.Validate
