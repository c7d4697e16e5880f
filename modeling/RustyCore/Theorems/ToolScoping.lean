import RustyCore.Theorems.Transition

/-! The two ways of scoping tools: a list that is widened by what its tools grant, and a profile that looks a tool up in
    its list. Both admit the same tools. A profile's permission is never looser than the session's, nor than the
    overrides on the tool and on what grants it. -/

namespace RustyCore

open List

variable {all list tools tools' : List String} {tool granting x : String}

theorem mem_pushNew : x ∈ pushNew all tool ↔ x ∈ all ∨ x = tool := by
  rw [pushNew]
  split
  · rename_i h
    have hlisted : tool ∈ all := by simpa using h
    constructor
    · exact Or.inl
    · rintro (hx | rfl)
      · exact hx
      · exact hlisted
  · simp

theorem mem_foldl_pushNew : x ∈ list.foldl pushNew all ↔ x ∈ all ∨ x ∈ list := by
  induction list generalizing all with
  | nil => simp
  | cons tool rest ih => rw [foldl_cons, ih, mem_pushNew, mem_cons, or_assoc]

theorem foldl_pushNew_eq_self (h : list ⊆ all) : list.foldl pushNew all = all := by
  induction list with
  | nil => rfl
  | cons tool rest ih =>
    obtain ⟨htool, hrest⟩ := cons_subset.mp h
    rw [foldl_cons, pushNew, if_pos (by simpa using htool)]
    exact ih hrest

/-- `all` is `tools` with new tools at the end, each listed once. -/
def Extends (tools all : List String) : Prop := ∃ added, all = tools ++ added ∧ added.Nodup ∧ ∀ x ∈ added, x ∉ tools

theorem Extends.refl (tools : List String) : Extends tools tools :=
  ⟨[], (append_nil tools).symm, nodup_nil, fun _ hx => absurd hx not_mem_nil⟩

theorem Extends.pushNew (h : Extends tools all) (tool : String) : Extends tools (pushNew all tool) := by
  obtain ⟨added, rfl, hnodup, hnew⟩ := h
  rw [RustyCore.pushNew]
  split
  · exact ⟨added, rfl, hnodup, hnew⟩
  · rename_i hlisted
    have hout : tool ∉ tools ∧ tool ∉ added := by simpa [not_or] using hlisted
    refine ⟨added ++ [tool], append_assoc .., ?_, ?_⟩
    · rw [nodup_append]
      refine ⟨hnodup, nodup_singleton tool, ?_⟩
      rintro x hx y hy rfl
      exact hout.2 (mem_singleton.mp hy ▸ hx)
    · intro x hx
      rcases mem_append.mp hx with hx | hx
      · exact hnew x hx
      · rw [mem_singleton.mp hx]
        exact hout.1

theorem Extends.foldl_pushNew (h : Extends tools all) (list : List String) : Extends tools (list.foldl RustyCore.pushNew all) := by
  induction list generalizing all with
  | nil => exact h
  | cons tool rest ih => exact ih (h.pushNew tool)

def grants : List (String × String) := aliases ++ grantedWith

theorem grantedBy_of_mem : ∀ grant ∈ grants, grantedBy grant.1 = some grant.2 := by decide

theorem granting_not_admitted : ∀ grant ∈ grants, grantedBy grant.2 = none ∧ grant.2 ∉ alwaysAdmitted := by decide

theorem grantedBy_iff : grantedBy tool = some granting ↔ (tool, granting) ∈ grants := by
  constructor
  · intro h
    rw [grantedBy, followedTool, Option.or_eq_some_iff] at h
    rcases h with h | ⟨-, h⟩
    · obtain ⟨before, after, heq, -⟩ := lookup_eq_some_iff.mp h
      exact mem_append_left _ (heq ▸ mem_append_right _ mem_cons_self)
    · obtain ⟨before, after, heq, -⟩ := lookup_eq_some_iff.mp h
      exact mem_append_right _ (heq ▸ mem_append_right _ mem_cons_self)
  · exact fun h => grantedBy_of_mem (tool, granting) h

def admissions (tools : List String) : List String :=
  ((grants.filter fun grant => tools.contains grant.2).map Prod.fst) ++ if tools.isEmpty then [] else alwaysAdmitted

theorem withAliases_eq (tools : List String) : withAliases tools = (admissions tools).foldl pushNew tools := by
  rw [admissions, foldl_append, foldl_map, foldl_filter]
  cases tools with
  | nil | cons => rfl

theorem mem_admissions : x ∈ admissions tools ↔
    (∃ granting ∈ tools, grantedBy x = some granting) ∨ tools ≠ [] ∧ x ∈ alwaysAdmitted := by
  have hgranted : x ∈ (grants.filter fun grant => tools.contains grant.2).map Prod.fst ↔
      ∃ granting ∈ tools, grantedBy x = some granting := by
    simp only [mem_map, mem_filter, contains_iff_mem, grantedBy_iff]
    constructor
    · rintro ⟨⟨_, granting⟩, ⟨hgrant, htool⟩, rfl⟩
      exact ⟨granting, htool, hgrant⟩
    · rintro ⟨granting, htool, hgrant⟩
      exact ⟨(x, granting), ⟨hgrant, htool⟩, rfl⟩
  have halways : x ∈ (if tools.isEmpty then [] else alwaysAdmitted) ↔ tools ≠ [] ∧ x ∈ alwaysAdmitted := by
    cases tools with
    | nil | cons => simp
  rw [admissions, mem_append, hgranted, halways]

theorem mem_withAliases : x ∈ withAliases tools ↔
    x ∈ tools ∨ (∃ granting ∈ tools, grantedBy x = some granting) ∨ tools ≠ [] ∧ x ∈ alwaysAdmitted := by
  rw [withAliases_eq, mem_foldl_pushNew, mem_admissions]

theorem extends_withAliases (tools : List String) : Extends tools (withAliases tools) := by
  rw [withAliases_eq]
  exact (Extends.refl tools).foldl_pushNew (admissions tools)

theorem withAliases_mono (h : tools ⊆ tools') : withAliases tools ⊆ withAliases tools' := by
  intro x hx
  rw [mem_withAliases] at hx ⊢
  rcases hx with hx | ⟨granting, htool, hgrant⟩ | ⟨hsome, hx⟩
  · exact Or.inl (h hx)
  · exact Or.inr (Or.inl ⟨granting, h htool, hgrant⟩)
  · exact Or.inr (Or.inr ⟨fun hnil => hsome (subset_nil.mp (hnil ▸ h)), hx⟩)

theorem mem_of_granting (hgrant : grantedBy tool = some granting) (h : granting ∈ withAliases tools) :
    granting ∈ tools := by
  obtain ⟨hnone, hnot⟩ := granting_not_admitted (tool, granting) (grantedBy_iff.mp hgrant)
  rcases mem_withAliases.mp h with h | ⟨_, -, h⟩ | ⟨-, h⟩
  · exact h
  · rw [hnone] at h
    cases h
  · exact absurd h hnot

theorem withAliases_idem (tools : List String) : withAliases (withAliases tools) = withAliases tools := by
  rw [withAliases_eq (withAliases tools)]
  refine foldl_pushNew_eq_self fun x hx => ?_
  rw [mem_withAliases]
  rcases mem_admissions.mp hx with ⟨granting, htool, hgrant⟩ | ⟨hsome, hx⟩
  · exact Or.inr (Or.inl ⟨granting, mem_of_granting hgrant htool, hgrant⟩)
  · refine Or.inr (Or.inr ⟨?_, hx⟩)
    rintro rfl
    exact hsome rfl

section

variable [Externals]

theorem allowsTool_iff {p : CompiledProfile} (h : p.profile.tools = .allowList tools) :
    p.allowsTool x = true ↔ x ∈ withAliases tools := by
  simp only [CompiledProfile.allowsTool, h, mem_withAliases, Bool.or_eq_true, Bool.and_eq_true, Bool.not_eq_true',
    isEmpty_eq_false_iff, contains_iff_mem, any_eq_true, beq_iff_eq]
  constructor
  · rintro (hx | ⟨allowed, hlisted, rfl | hgrant⟩)
    · exact Or.inr (Or.inr hx)
    · exact Or.inl hlisted
    · exact Or.inr (Or.inl ⟨allowed, hlisted, hgrant⟩)
  · rintro (hx | ⟨allowed, hlisted, hgrant⟩ | hx)
    · exact Or.inr ⟨x, hx, Or.inl rfl⟩
    · exact Or.inr ⟨allowed, hlisted, Or.inr hgrant⟩
    · exact Or.inl hx

end

namespace CompiledProfile

variable [Externals]

def strictness (mode : PermissionMode) : Nat := (sessionLevel mode).rank

omit [Externals] in
theorem strictness_modeOf (level : ToolPermission) : strictness (modeOf level) = level.rank := by
  cases level <;> rfl

omit [Externals] in
theorem rank_le_max (a b : ToolPermission) : a.rank ≤ (a.max b).rank ∧ b.rank ≤ (a.max b).rank := by
  rw [ToolPermission.max]
  split <;> omega

def overrideOf (p : CompiledProfile) (tool : String) : Option ToolPermission :=
  (p.profile.toolOverrides.lookup tool).bind (·.permission)

theorem session_le_permission (p : CompiledProfile) (tool : String) (session : PermissionMode) :
    strictness session ≤ strictness (p.permission tool session) := by
  rw [permission, strictness_modeOf]
  exact (rank_le_max _ _).1

theorem override_le_permission {p : CompiledProfile} {level : ToolPermission} (session : PermissionMode)
    (h : p.overrideOf tool = some level ∨ ∃ granting, grantedBy tool = some granting ∧ p.overrideOf granting = some level) :
    level.rank ≤ strictness (p.permission tool session) := by
  have hset : p.overrideOf tool = some level ∨ (grantedBy tool).bind p.overrideOf = some level := by
    rcases h with h | ⟨granting, hgrant, h⟩
    · exact Or.inl h
    · exact Or.inr (by rw [hgrant]; exact h)
  rw [permission, strictness_modeOf]
  refine Nat.le_trans ?_ (rank_le_max _ _).2
  unfold overrideOf at hset
  beta_reduce
  generalize (p.profile.toolOverrides.lookup tool).bind (·.permission) = own at hset ⊢
  generalize (grantedBy tool).bind (fun name => (p.profile.toolOverrides.lookup name).bind (·.permission)) = granted
    at hset ⊢
  rcases own with _ | own
  all_goals
    rcases granted with _ | granted
    all_goals
      rcases hset with hset | hset
      all_goals cases hset
  · exact Nat.le_refl _
  · exact Nat.le_refl _
  · exact (rank_le_max _ _).1
  · exact (rank_le_max _ _).2

end CompiledProfile

section

variable [Externals]

open CompiledProfile in
/-- Widening a list admits what a profile with that list admits, once and for all; and a profile's permission is at least
    as strict as the session's, as the override on the tool, and as that on the tool it follows or is granted with. -/
theorem scoping_agrees (tools : List String) (p : CompiledProfile) :
    (p.profile.tools = .allowList tools → ∀ tool, tool ∈ withAliases tools ↔ p.allowsTool tool = true) ∧
    withAliases (withAliases tools) = withAliases tools ∧
    (∀ tools', tools ⊆ tools' → withAliases tools ⊆ withAliases tools') ∧
    (∃ added, withAliases tools = tools ++ added ∧ added.Nodup ∧ ∀ tool ∈ added, tool ∉ tools) ∧
    ∀ tool session, strictness session ≤ strictness (p.permission tool session) ∧
      (∀ level, p.overrideOf tool = some level → level.rank ≤ strictness (p.permission tool session)) ∧
      ∀ granting, (tool, granting) ∈ aliases ∨ (tool, granting) ∈ grantedWith →
        ∀ level, p.overrideOf granting = some level → level.rank ≤ strictness (p.permission tool session) := by
  refine ⟨fun h tool => (allowsTool_iff h).symm, withAliases_idem tools, fun tools' h => withAliases_mono h,
    extends_withAliases tools, fun tool session => ⟨session_le_permission p tool session, ?_, ?_⟩⟩
  · exact fun level h => override_le_permission session (Or.inl h)
  · intro granting hgrant level h
    exact override_le_permission session (Or.inr ⟨granting, grantedBy_iff.mpr (mem_append.mpr hgrant), h⟩)

end

namespace Sample

def scopedDefinition : BehaviorProfile :=
  { defaultProfileDefinition with
    id := "reader"
    tools := .allowList ["read_file"]
    toolOverrides := [("read_file", { permission := some .ask })] }

def scopedReader : CompiledProfile := ⟨scopedDefinition, contentHash scopedDefinition, by decide, rfl⟩

end Sample

open Sample CompiledProfile in
theorem scoping_agrees_reader : ("repo_wiki" ∈ withAliases ["read_file"] ↔ scopedReader.allowsTool "repo_wiki" = true) ∧
    ToolPermission.ask.rank ≤ strictness (scopedReader.permission "repo_wiki" .allow) := by
  obtain ⟨hagrees, -, -, -, hstrict⟩ := scoping_agrees ["read_file"] scopedReader
  refine ⟨hagrees rfl "repo_wiki", (hstrict "repo_wiki" .allow).2.2 "read_file" (Or.inr ?_) .ask rfl⟩
  decide

end RustyCore
