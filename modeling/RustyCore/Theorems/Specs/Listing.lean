import RustyCore.Specs.Scaffold
import RustyCore.Theorems.Specs.AllOrNothing

/-! The paths that can be written, and what the listings of a folder hold: the names below which something can be
    read. -/

namespace RustyCore.Specs

open Text

section

variable {α : Type} [DecidableEq α] {x : α} {l : List α}

theorem mem_destutter' {a : α} : x ∈ l.destutter' (· ≠ ·) a ↔ x = a ∨ x ∈ l := by
  induction l generalizing a with
  | nil => simp
  | cons b l ih =>
    rw [List.destutter'_cons]
    split_ifs with hne
    · rw [List.mem_cons, ih, List.mem_cons]
    · rw [not_not] at hne
      subst hne
      rw [ih, List.mem_cons, or_self_left]

theorem mem_destutter : x ∈ l.destutter (· ≠ ·) ↔ x ∈ l := by
  cases l with
  | nil => rfl
  | cons a l => rw [List.destutter_cons', mem_destutter', List.mem_cons]

end

section

variable {store : Store} {path : Path} {name : Line}

theorem read_isSome : (store.read path).isSome ↔ path ∈ store.files.map Prod.fst := by
  rw [Store.read]
  induction store.files with
  | nil => simp
  | cons file files ih =>
    obtain ⟨q, text⟩ := file
    rw [lookup_cons, List.map_cons, List.mem_cons, ← ih]
    split_ifs with h <;> simp [h]

/-- A folder is listed when a file lies below it. -/
theorem mem_dirs : name ∈ store.dirs path ↔
    '/' ∉ name ∧ ∃ rest, (store.read (trimSlashes path ++ '/' :: name ++ '/' :: rest)).isSome := by
  simp only [Store.dirs, List.mem_filterMap, Option.map_eq_some_iff, stripPrefix_eq_some, read_isSome, List.mem_map]
  constructor
  · rintro ⟨tail, ⟨file, hfile, hpath⟩, ⟨first, rest⟩, hsplit, rfl⟩
    obtain ⟨rfl, hnot⟩ := splitOnce_char.mp hsplit
    exact ⟨hnot, rest, file, hfile, by rw [hpath]; simp⟩
  · rintro ⟨hnot, rest, file, hfile, hpath⟩
    exact ⟨name ++ '/' :: rest, ⟨file, hfile, by rw [hpath]; simp⟩, (name, rest), splitOnce_char.mpr ⟨rfl, hnot⟩, rfl⟩

theorem mem_folders : name ∈ store.folders path ↔ name ∈ store.dirs path := by
  rw [Store.folders, mem_destutter, (List.perm_insertionSort ..).mem_iff]

end

def Safe (path : Path) : Prop := safe path = .ok ()

section

variable {path a b name : Path}

theorem safe_iff : Safe path ↔ '\\' ∉ path ∧ ∀ part ∈ splitOn (· == '/') path, part ≠ "..".toList ∧ part ≠ [] := by
  have hshort : (∀ part ∈ splitOn (· == '/') path, part ≠ []) → path.isEmpty = false ∧ startsWith path "/".toList = false := by
    intro h
    cases path with
    | nil => exact absurd rfl (h [] (by simp [splitOn]))
    | cons c path =>
      refine ⟨rfl, Bool.eq_false_iff.mpr fun hstart => ?_⟩
      have hc : '/' = c := by simpa [startsWith] using hstart
      subst hc
      refine h [] ?_ rfl
      rw [← List.nil_append ('/' :: path), splitOn_append_sep _ _ (by rfl)]
      exact List.mem_append_left _ (by simp [splitOn])
  unfold Safe safe
  constructor
  · intro h
    split at h
    · cases h
    · rename_i hgood
      simp only [Bool.or_eq_true, not_or, List.contains_eq_mem, decide_eq_true_eq, List.any_eq_true, not_exists, not_and,
        beq_iff_eq, List.isEmpty_iff] at hgood
      exact ⟨hgood.1.2, hgood.2⟩
  · rintro ⟨hback, hparts⟩
    obtain ⟨hempty, hstart⟩ := hshort fun part hpart => (hparts part hpart).2
    refine if_neg ?_
    rw [hempty, hstart]
    simp only [Bool.false_or, Bool.or_eq_true, not_or, List.contains_eq_mem, decide_eq_true_eq, List.any_eq_true, not_exists,
      not_and, beq_iff_eq, List.isEmpty_iff]
    exact ⟨hback, hparts⟩

/-- A path is safe when its parts are. -/
theorem safe_append : Safe (a ++ '/' :: b) ↔ Safe a ∧ Safe b := by
  have hsplit : splitOn (· == '/') (a ++ '/' :: b) = splitOn (· == '/') a ++ splitOn (· == '/') b :=
    splitOn_append_sep a b (beq_self_eq_true '/')
  have hback : '\\' ∉ a ++ '/' :: b ↔ '\\' ∉ a ∧ '\\' ∉ b := by simp
  rw [safe_iff, safe_iff, safe_iff, hsplit, hback, List.forall_mem_append]
  exact and_and_and_comm

theorem safe_name (hslash : '/' ∉ name) : Safe name ↔ '\\' ∉ name ∧ name ≠ "..".toList ∧ name ≠ [] := by
  rw [safe_iff, splitOn_eq_singleton fun c hc => by simpa using fun h : c = '/' => hslash (h ▸ hc), List.forall_mem_singleton]

end

end RustyCore.Specs
