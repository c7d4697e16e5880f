import RustyCore.Workspace.Edit

/-! A find-and-replace edit writes where the search counts one match, which is not always one place: it counts one when
    every other occurrence overlaps the first. -/

namespace RustyCore.Edit

open Text List

variable {workspace : Workspace} {path current oldText newText : String}

def edited (workspace : Workspace) (path oldText newText : String) : Done :=
  execute workspace (some { path, oldText := some oldText, newText := some newText }) false

/-- The file is written when the text occurs at one place, with the new text at that place; else an error is reported
    and the file is left as it was. -/
structure Unambiguous (current oldText newText path : String) (edit : Done) : Prop where
  once : ∀ i, positions oldText.toList current.toList = [i] → edit.written =
    some (path, String.ofList
      (current.toList.take i ++ newText.toList ++ current.toList.drop (i + oldText.toList.length)))
  otherwise : (∀ i, positions oldText.toList current.toList ≠ [i]) →
    edit.written = none ∧ ∃ message, edit.result = .ok (failure message)

def Apart (current oldText : String) : Prop :=
  ∀ i ∈ positions oldText.toList current.toList, ∀ j ∈ positions oldText.toList current.toList, i < j →
    ∃ i' ∈ positions oldText.toList current.toList, ∃ j' ∈ positions oldText.toList current.toList,
      i' < j' ∧ i' + oldText.toList.length ≤ j'

theorem edited_of_read (h : workspace.read path = .ok current) : edited workspace path oldText newText =
    match replaceOnce current oldText newText with
    | .error message => { result := .ok (failure message) }
    | .ok content => writeFile workspace path content := by
  cases hreplace : replaceOnce current oldText newText with
  | error | ok => simp only [edited, execute, resolveMode, h, hreplace, Bool.false_eq_true, if_false]

theorem positions_sorted (needle cs : List Char) : (positions needle cs).Pairwise (· < ·) :=
  pairwise_lt_range.filter _

theorem count_of_once {needle cs : List Char} {i : Nat} (h : positions needle cs = [i]) : matchCount needle cs = 1 :=
  matchCount_eq_one.mpr ⟨i, by simp [h], by simp [h]⟩

theorem not_apart_of_count (hcount : matchCount oldText.toList current.toList = 1)
    (hplaces : ∀ i, positions oldText.toList current.toList ≠ [i]) : ¬Apart current oldText := by
  obtain ⟨i, hi, hnear⟩ := matchCount_eq_one.mp hcount
  have hother : ∃ j ∈ positions oldText.toList current.toList, i < j := by
    by_contra hnone
    simp only [not_exists, not_and] at hnone
    have hall : ∀ j ∈ positions oldText.toList current.toList, j = i := by
      intro j hj
      rcases hnear j hj with hsame | ⟨hlt, -⟩
      · exact hsame
      · exact absurd hlt (hnone j hj)
    have hnodup : (positions oldText.toList current.toList).Nodup :=
      (positions_sorted _ _).imp fun hlt => ne_of_lt hlt
    refine hplaces i ?_
    generalize positions oldText.toList current.toList = places at hi hall hnodup
    match places, hi, hall, hnodup with
    | [j], _, hall, _ => rw [hall j mem_cons_self]
    | j :: k :: rest, _, hall, hnodup =>
      have hj := hall j (by simp)
      have hk := hall k (by simp)
      simp [hj, hk] at hnodup
  obtain ⟨j, hj, hlt⟩ := hother
  intro hapart
  obtain ⟨i', hi', j', hj', hlt', hle⟩ := hapart i hi j hj hlt
  have hnear' := hnear j' hj'
  have hfirst : i ≤ i' := by
    have := hnear i' hi'
    omega
  omega

theorem count_ne_one (hapart : Apart current oldText) (hplaces : ∀ i, positions oldText.toList current.toList ≠ [i]) :
    matchCount oldText.toList current.toList ≠ 1 :=
  fun hcount => not_apart_of_count hcount hplaces hapart

theorem count_of_not_apart (h : ¬Apart current oldText) :
    matchCount oldText.toList current.toList = 1 ∧ ∀ i, positions oldText.toList current.toList ≠ [i] := by
  simp only [Apart, not_forall, not_exists, not_and, not_le] at h
  obtain ⟨i, hi, j, hj, hlt, hnear⟩ := h
  have hsorted := positions_sorted oldText.toList current.toList
  constructor
  · -- the first place is the head of the sorted list of them
    rcases hplaces : positions oldText.toList current.toList with _ | ⟨first, rest⟩
    · simp [hplaces] at hi
    · rw [hplaces] at hnear hsorted
      refine matchCount_eq_one.mpr ⟨first, by simp [hplaces], fun k hk => ?_⟩
      rw [hplaces] at hk
      rcases mem_cons.mp hk with rfl | hrest
      · exact Or.inl rfl
      · have hfirst := (pairwise_cons.mp hsorted).1 k hrest
        exact Or.inr ⟨hfirst, hnear first mem_cons_self k hk hfirst⟩
  · intro k hk
    rw [hk, mem_singleton] at hi hj
    omega

theorem written_of_count (h : workspace.read path = .ok current)
    (hcount : matchCount oldText.toList current.toList = 1) :
    (edited workspace path oldText newText).written =
      some (path, String.ofList (replaceFirst oldText.toList newText.toList current.toList)) := by
  rw [edited_of_read h]
  simp only [replaceOnce, hcount]
  rfl

theorem refused_of_count (h : workspace.read path = .ok current)
    (hcount : matchCount oldText.toList current.toList ≠ 1) :
    (edited workspace path oldText newText).written = none ∧
      ∃ message, (edited workspace path oldText newText).result = .ok (failure message) := by
  rw [edited_of_read h]
  unfold replaceOnce
  split
  · exact ⟨rfl, _, rfl⟩
  · rename_i content hcontent
    split at hcontent
    · cases hcontent
    · rename_i hone
      exact absurd hone hcount
    · cases hcontent

/-- The edit of a file that can be read is unambiguous exactly when a text found at two places is also found at two that
    do not overlap. -/
theorem edit_unambiguous_iff (workspace : Workspace) (path current oldText newText : String)
    (h : workspace.read path = .ok current) :
    Unambiguous current oldText newText path (edited workspace path oldText newText) ↔ Apart current oldText := by
  constructor
  · intro hedit
    by_contra hapart
    obtain ⟨hcount, hplaces⟩ := count_of_not_apart hapart
    have hwritten : (edited workspace path oldText newText).written = _ := written_of_count h hcount
    rw [(hedit.otherwise hplaces).1] at hwritten
    cases hwritten
  · intro hapart
    refine ⟨fun i hplaces => ?_, fun hplaces => refused_of_count h (count_ne_one hapart hplaces)⟩
    rw [written_of_count h (count_of_once hplaces), replaceFirst_eq (i := i) (by simp [hplaces]) (by simp [hplaces])]

namespace Sample

def holding (content : String) : Workspace := ⟨fun _ => .ok content, fun _ _ => .ok ()⟩

theorem edit_of_apart : (holding "a-a").read "notes" = .ok "a-a" ∧ Apart "a-a" "a" ∧
    Unambiguous "a-a" "a" "b" "notes" (edited (holding "a-a") "notes" "a" "b") := by
  have hapart : Apart "a-a" "a" := by
    rw [Apart, show positions "a".toList "a-a".toList = [0, 2] by decide]
    decide
  exact ⟨rfl, hapart, (edit_unambiguous_iff (holding "a-a") "notes" "a-a" "a" "b" rfl).mpr hapart⟩

/-- The text is at two places of the file, and the file is written. -/
theorem overlap_written : (edited (holding "aaa") "notes" "aa" "b").written = some ("notes", "ba") ∧
    positions "aa".toList "aaa".toList = [0, 1] ∧
    ¬Unambiguous "aaa" "aa" "b" "notes" (edited (holding "aaa") "notes" "aa" "b") := by
  have hplaces : positions "aa".toList "aaa".toList = [0, 1] := by decide
  have hwritten : (edited (holding "aaa") "notes" "aa" "b").written = some ("notes", "ba") := by rfl
  refine ⟨hwritten, hplaces, fun hedit => ?_⟩
  have hnone := (hedit.otherwise fun i h => by rw [hplaces] at h; cases h).1
  rw [hwritten] at hnone
  cases hnone

end Sample

end RustyCore.Edit
