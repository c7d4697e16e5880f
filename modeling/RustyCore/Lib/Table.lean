import Mathlib.Data.List.AList

/-! Finite maps as association lists without duplicate keys: the operations Mathlib's `AList` lacks, and
    what a lookup sees after each. -/

namespace Table

open List

variable {κ ν : Type}

abbrev Map (κ ν : Type) := AList (fun _ : κ => ν)

def values (m : Map κ ν) : List ν := m.entries.map (·.2)

def isEmpty (m : Map κ ν) : Bool := m.entries.isEmpty

def retain (p : κ → ν → Bool) (m : Map κ ν) : Map κ ν :=
  ⟨m.entries.filter fun e => p e.1 e.2, m.nodupKeys.sublist filter_sublist⟩

def mapValues {ν' : Type} (f : ν → ν') (m : Map κ ν) : Map κ ν' :=
  ⟨m.entries.map fun e => ⟨e.1, f e.2⟩, by
    have hkeys : (m.entries.map fun e => (⟨e.1, f e.2⟩ : Sigma fun _ : κ => ν')).keys = m.entries.keys := by
      simp [List.keys]
    rw [List.NodupKeys, hkeys]
    exact m.nodupKeys⟩

def mapEntries {ν' : Type} (f : κ → ν → ν') (m : Map κ ν) : Map κ ν' :=
  ⟨m.entries.map fun e => ⟨e.1, f e.1 e.2⟩, by
    have hkeys : (m.entries.map fun e => (⟨e.1, f e.1 e.2⟩ : Sigma fun _ : κ => ν')).keys = m.entries.keys := by
      simp [List.keys]
    rw [List.NodupKeys, hkeys]
    exact m.nodupKeys⟩

variable [DecidableEq κ] {m : Map κ ν} {k k' : κ} {v : ν}

@[simp] theorem lookup_insert_self : (m.insert k v).lookup k = some v := AList.lookup_insert m

theorem lookup_insert_ne (h : k' ≠ k) : (m.insert k v).lookup k' = m.lookup k' := AList.lookup_insert_ne h

@[simp] theorem lookup_erase_self : (m.erase k).lookup k = none := AList.lookup_erase k m

theorem lookup_erase_ne (h : k' ≠ k) : (m.erase k).lookup k' = m.lookup k' := AList.lookup_erase_ne h

theorem lookup_of_erase (h : (m.erase k).lookup k' = some v) : k' ≠ k ∧ m.lookup k' = some v := by
  by_cases hk : k' = k
  · subst hk
    rw [lookup_erase_self] at h
    cases h
  · exact ⟨hk, by rwa [lookup_erase_ne hk] at h⟩

theorem lookup_retain {p : κ → ν → Bool} (h : (retain p m).lookup k = some v) :
    p k v = true ∧ m.lookup k = some v := by
  have hmem : ⟨k, v⟩ ∈ (retain p m).entries := AList.mem_lookup_iff.mp h
  obtain ⟨hin, hp⟩ := mem_filter.mp hmem
  exact ⟨hp, AList.mem_lookup_iff.mpr hin⟩

theorem lookup_mapEntries {ν' : Type} {f : κ → ν → ν'} {w : ν'} (h : (mapEntries f m).lookup k = some w) :
    ∃ v, m.lookup k = some v ∧ f k v = w := by
  have hmem : ⟨k, w⟩ ∈ (mapEntries f m).entries := AList.mem_lookup_iff.mp h
  obtain ⟨e, he, heq⟩ := mem_map.mp hmem
  cases heq
  exact ⟨e.2, AList.mem_lookup_iff.mpr he, rfl⟩

theorem retain_eq_self {p : κ → ν → Bool} (h : ∀ k v, m.lookup k = some v → p k v = true) : retain p m = m := by
  apply AList.ext
  refine filter_eq_self.mpr fun e he => ?_
  exact h e.1 e.2 (AList.mem_lookup_iff.mpr he)

theorem retain_erase {p : κ → ν → Bool} (h : m.lookup k = some v) (hp : p k v = false) :
    retain p (m.erase k) = retain p m := by
  apply AList.ext
  have hmem : ⟨k, v⟩ ∈ m.entries := AList.mem_lookup_iff.mp h
  show (List.kerase k m.entries).filter (fun e => p e.1 e.2) = m.entries.filter fun e => p e.1 e.2
  obtain ⟨before, after, hentries⟩ := append_of_mem hmem
  have hfresh : k ∉ before.keys := by
    have hnodup := m.nodupKeys
    rw [hentries, List.NodupKeys, List.keys, map_append, nodup_append] at hnodup
    intro hk
    exact hnodup.2.2 k hk k (by simp) rfl
  rw [hentries, kerase_append_right hfresh, show List.kerase k (⟨k, v⟩ :: after) = after from
    kerase_cons_eq rfl, filter_append, filter_append, filter_cons_of_neg (by simp [hp])]

theorem erase_insert : (m.insert k v).erase k = m.erase k := by
  apply AList.ext
  show List.kerase k (⟨k, v⟩ :: List.kerase k m.entries) = List.kerase k m.entries
  exact kerase_cons_eq rfl

end Table
