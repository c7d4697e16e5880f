import RustyCore.Workspace.Write

/-! The path arithmetic of the guard beside that of the text: dropping each `.` and letting each `..` cancel the name
    before it. The two agree on a path that never goes up but from just below the root, and on one that leaves the
    root and is not led back. -/

namespace RustyCore.Workspace

open FileTree List

variable {root p stack : Location} {components : List PathComponent} {relative : List Char} {parts : List (List Char)}
  {part : List Char}

/-- The names left of the parts, innermost first; none where a `..` has no name to cancel. -/
def cancel : Location → List (List Char) → Option Location
  | stack, [] => some stack
  | stack, part :: rest =>
    if part = [] ∨ part = ".".toList then cancel stack rest
    else if part = "..".toList then
      if stack = [] then none else cancel stack.tail rest
    else cancel (String.ofList part :: stack) rest

def named (root : Location) (relative : List Char) : Option Location :=
  if relative.head? = some '/' then none
  else (cancel [] (Text.splitOn (· == '/') relative)).map (· ++ root)

def destination : Location → List PathComponent → Location
  | place, [] => place
  | place, .normal name :: rest => destination (name :: place) rest
  | place, .parentDir :: rest => destination place.tail rest
  | place, .curDir :: rest | place, .rootDir :: rest => destination place rest

def climbs : Location → List PathComponent → List Location
  | _, [] => []
  | place, .normal name :: rest => climbs (name :: place) rest
  | place, .parentDir :: rest => place :: climbs place.tail rest
  | place, .curDir :: rest | place, .rootDir :: rest => climbs place rest

def Below (root p : Location) : Prop := root <:+ p ∧ p ≠ root

def Shallow (root : Location) (components : List PathComponent) : Prop :=
  ∀ p ∈ climbs root components, ∃ name, p = name :: root

def Leaves (root : Location) (components : List PathComponent) : Prop := ∃ p ∈ climbs root components, ¬Below root p

def LedBack (root : Location) (components : List PathComponent) : Prop :=
  root <:+ destination root components ∧ ∀ p ∈ climbs root components, p ≠ [] ∧ p.tail <:+ root

theorem stepUp_eq (root p : Location) :
    (p ≠ [] ∧ p.tail <:+ root ∧ stepUp root p = some p.tail) ∨ (¬(p ≠ [] ∧ p.tail <:+ root) ∧ stepUp root p = none) := by
  cases p with
  | nil => exact Or.inr ⟨by simp, rfl⟩
  | cons name up =>
    by_cases hsuffix : up <:+ root
    · exact Or.inl ⟨by simp, hsuffix, if_pos (isSuffixOf_iff_suffix.mpr hsuffix)⟩
    · exact Or.inr ⟨fun h => hsuffix h.2, if_neg (mt isSuffixOf_iff_suffix.mp hsuffix)⟩

theorem follow_eq_some {q : Location} (h : .rootDir ∉ components) : follow root p components = some q ↔
    (∀ f ∈ climbs p components, f ≠ [] ∧ f.tail <:+ root) ∧ q = destination p components := by
  induction components generalizing p with
  | nil => simp [follow, climbs, destination, eq_comm]
  | cons component rest ih =>
    rw [mem_cons, not_or] at h
    cases component with
    | normal | curDir => exact ih h.2
    | rootDir => exact absurd rfl h.1
    | parentDir =>
      simp only [follow, climbs, destination, forall_mem_cons]
      rcases stepUp_eq root p with ⟨hne, hsuffix, hstep⟩ | ⟨hrefused, hstep⟩
      · rw [hstep, Option.bind_some, ih h.2]
        simp [hne, hsuffix]
      · rw [hstep, Option.bind_none]
        simp [hrefused]

theorem resolveLexically_eq_some {q : Location} (h : .rootDir ∉ components) :
    (resolveLexically root components).toOption = some q ↔
      LedBack root components ∧ q = destination root components := by
  unfold resolveLexically LedBack
  rcases hfollow : follow root root components with _ | resolved
  · have hnone : ∀ q, follow root root components ≠ some q := by simp [hfollow]
    simp only [ne_eq, follow_eq_some h, not_and] at hnone
    constructor
    · nofun
    · rintro ⟨⟨-, hclimbs⟩, rfl⟩
      exact absurd rfl (hnone _ hclimbs)
  · obtain ⟨hclimbs, rfl⟩ := (follow_eq_some h).mp hfollow
    by_cases hroot : root <:+ destination root components
    · simp only [isSuffixOf_iff_suffix.mpr hroot, if_true]
      simp [Except.toOption, hroot, eq_comm]
      exact fun _ => hclimbs
    · have hrefused : root.isSuffixOf (destination root components) = false := by
        rwa [← Bool.not_eq_true, isSuffixOf_iff_suffix]
      simp [hrefused, Except.toOption, hroot]

def kept (parts : List (List Char)) : List PathComponent :=
  ((parts.filter (· ≠ [])).filter (· ≠ ".".toList)).map component

theorem kept_skip (h : part = [] ∨ part = ".".toList) : kept (part :: parts) = kept parts := by
  rcases h with rfl | rfl
  · rfl
  · rfl

theorem kept_cons (h : ¬(part = [] ∨ part = ".".toList)) : kept (part :: parts) = component part :: kept parts := by
  rw [not_or] at h
  rw [kept, filter_cons_of_pos (by simpa using h.1), filter_cons_of_pos (by simpa using h.2)]
  rfl

theorem rootDir_not_mem_kept : .rootDir ∉ kept parts := by
  rw [kept, mem_map]
  rintro ⟨part, -, hpart⟩
  unfold component at hpart
  split at hpart <;> cases hpart

theorem pathComponents_eq (h : relative.head? ≠ some '/') :
    pathComponents relative = kept (Text.splitOn (· == '/') relative) ∨
      pathComponents relative = .curDir :: kept (Text.splitOn (· == '/') relative) := by
  unfold pathComponents kept
  rw [if_neg h]
  rcases (Text.splitOn (· == '/') relative).filter (· ≠ []) with _ | ⟨part, rest⟩
  · exact Or.inl rfl
  · by_cases hdot : part = ".".toList
    · refine Or.inr ?_
      subst hdot
      rfl
    · exact Or.inl (if_neg (by simpa using hdot))

theorem cancel_eq_some {q : Location} : (cancel stack parts).map (· ++ root) = some q ↔
    (∀ f ∈ climbs (stack ++ root) (kept parts), Below root f) ∧ q = destination (stack ++ root) (kept parts) := by
  induction parts generalizing stack with
  | nil => simp [cancel, kept, climbs, destination, eq_comm]
  | cons part rest ih =>
    by_cases hskip : part = [] ∨ part = ".".toList
    · rw [cancel, if_pos hskip, kept_skip hskip, ih]
    · rw [cancel, if_neg hskip, kept_cons hskip]
      by_cases hup : part = "..".toList
      · rw [if_pos hup, component, if_pos hup]
        cases stack with
        | nil => simp [climbs, Below]
        | cons name up =>
          have hbelow : Below root (name :: up ++ root) := by
            refine ⟨suffix_append (name :: up) root, fun heq => ?_⟩
            have hlength := congrArg List.length heq
            rw [length_append, length_cons] at hlength
            omega
          simp only [climbs, destination, forall_mem_cons, hbelow, true_and]
          exact ih
      · rw [if_neg hup, component, if_neg hup]
        exact ih

theorem climbs_components (h : relative.head? ≠ some '/') :
    climbs p (pathComponents relative) = climbs p (kept (Text.splitOn (· == '/') relative)) := by
  rcases pathComponents_eq h with hpath | hpath
  · rw [hpath]
  · rw [hpath]
    rfl

theorem destination_components (h : relative.head? ≠ some '/') :
    destination p (pathComponents relative) = destination p (kept (Text.splitOn (· == '/') relative)) := by
  rcases pathComponents_eq h with hpath | hpath
  · rw [hpath]
  · rw [hpath]
    rfl

theorem rootDir_not_mem (h : relative.head? ≠ some '/') : .rootDir ∉ pathComponents relative := by
  rcases pathComponents_eq h with hpath | hpath <;> rw [hpath]
  · exact rootDir_not_mem_kept
  · simpa using rootDir_not_mem_kept

theorem named_eq_some {q : Location} (h : relative.head? ≠ some '/') : named root relative = some q ↔
    ¬Leaves root (pathComponents relative) ∧ q = destination root (pathComponents relative) := by
  rw [named, if_neg h, cancel_eq_some, Leaves, climbs_components h, destination_components h]
  simp

theorem shallow_of_below (hbelow : Below root p) (hup : p.tail <:+ root) : ∃ name, p = name :: root := by
  obtain ⟨hsuffix, hne⟩ := hbelow
  cases p with
  | nil => exact absurd (suffix_nil.mp hsuffix).symm hne
  | cons name up =>
    rcases suffix_cons_iff.mp hsuffix with hself | hroot
    · exact absurd hself.symm hne
    · rw [tail_cons] at hup
      exact ⟨name, by rw [hup.eq_of_length_le hroot.length_le]⟩

theorem destination_below (hp : root <:+ p) (h : ∀ f ∈ climbs p components, Below root f) :
    root <:+ destination p components := by
  induction components generalizing p with
  | nil => exact hp
  | cons component rest ih =>
    cases component with
    | normal name => exact ih (hp.trans (suffix_cons name p)) h
    | curDir | rootDir => exact ih hp h
    | parentDir =>
      rw [climbs, forall_mem_cons] at h
      obtain ⟨hbelow, hrest⟩ := h
      refine ih ?_ hrest
      cases p with
      | nil => exact hp
      | cons name up =>
        rcases suffix_cons_iff.mp hp with hself | hroot
        · exact absurd hself.symm hbelow.2
        · exact hroot

theorem shallow_iff : Shallow root components ↔ LedBack root components ∧ ¬Leaves root components := by
  simp only [Shallow, LedBack, Leaves, not_exists, not_and, not_not]
  constructor
  · intro h
    have hbelow : ∀ p ∈ climbs root components, Below root p := by
      intro p hp
      obtain ⟨name, rfl⟩ := h p hp
      exact ⟨suffix_cons name root, by simp⟩
    refine ⟨⟨destination_below (suffix_refl root) hbelow, fun p hp => ?_⟩, hbelow⟩
    obtain ⟨name, rfl⟩ := h p hp
    exact ⟨by simp, suffix_refl root⟩
  · rintro ⟨⟨-, hup⟩, hbelow⟩ p hp
    exact shallow_of_below (hbelow p hp) (hup p hp).2

theorem absolute_refused (h : relative.head? = some '/') :
    (resolveLexically root (pathComponents relative)).toOption = none := by
  unfold resolveLexically pathComponents
  rw [if_pos h]
  rfl

/-- The guard resolves a path to what it names, or refuses it as leaving the root, exactly when the path is absolute,
    or goes up from just below the root alone, or leaves the root and is not led back. -/
theorem resolves_named_iff (root : Location) (relative : List Char) :
    (resolveLexically root (pathComponents relative)).toOption = named root relative ↔
      relative.head? = some '/' ∨ Shallow root (pathComponents relative) ∨
        (Leaves root (pathComponents relative) ∧ ¬LedBack root (pathComponents relative)) := by
  by_cases h : relative.head? = some '/'
  · rw [absolute_refused h, named, if_pos h]
    simp [h]
  · have hguard : ∀ q, (resolveLexically root (pathComponents relative)).toOption = some q ↔
        LedBack root (pathComponents relative) ∧ q = destination root (pathComponents relative) :=
      fun _ => resolveLexically_eq_some (rootDir_not_mem h)
    have hnamed : ∀ q, named root relative = some q ↔
        ¬Leaves root (pathComponents relative) ∧ q = destination root (pathComponents relative) :=
      fun _ => named_eq_some h
    have hsame : (resolveLexically root (pathComponents relative)).toOption = named root relative ↔
        (LedBack root (pathComponents relative) ↔ ¬Leaves root (pathComponents relative)) := by
      rw [Option.ext_iff]
      simp only [hguard, hnamed]
      constructor
      · intro hall
        simpa using hall (destination root (pathComponents relative))
      · intro hiff q
        rw [hiff]
    rw [hsame, shallow_iff]
    simp only [h, false_or]
    tauto

namespace Sample

/-- Up within a directory of the workspace is refused, and out of the workspace and back in is not. -/
theorem lexical_unlike_named :
    (resolveLexically ["ws"] (pathComponents "a/b/../c".toList)).toOption = none ∧
      named ["ws"] "a/b/../c".toList = some ["c", "a", "ws"] ∧
      (resolveLexically ["ws"] (pathComponents "../ws/x".toList)).toOption = some ["x", "ws"] ∧
      named ["ws"] "../ws/x".toList = none := by
  decide

end Sample

end RustyCore.Workspace
