import Mathlib.Algebra.BigOperators.Group.List.Basic
import Mathlib.Algebra.Group.Prod
import Mathlib.Algebra.Order.BigOperators.Group.List
import Mathlib.Algebra.Order.Group.Nat
import Mathlib.Data.List.Nodup
import Mathlib.Data.String.Basic
import RustyCore.Lib.Text

/-! Maps ordered by key (`BTreeMap`), as lists of entries with strictly increasing keys: the operations,
    what a lookup sees after each, and that a map is determined by its lookups. -/

/-- A map from `κ` to `ν`, its entries in the order of the keys. -/
structure OrdMap (κ ν : Type) [LinearOrder κ] where
  entries : List (κ × ν)
  sorted : (entries.map Prod.fst).Pairwise (· < ·)

namespace OrdMap

open List

variable {κ ν μ η ε : Type} [LinearOrder κ]

def empty : OrdMap κ ν := ⟨[], List.Pairwise.nil⟩

def keys (m : OrdMap κ ν) : List κ := m.entries.map Prod.fst

def values (m : OrdMap κ ν) : List ν := m.entries.map Prod.snd

def size (m : OrdMap κ ν) : Nat := m.entries.length

def get? (m : OrdMap κ ν) (k : κ) : Option ν := m.entries.lookup k

def contains (m : OrdMap κ ν) (k : κ) : Bool := (m.get? k).isSome

def insertEntry (k : κ) (v : ν) : List (κ × ν) → List (κ × ν)
  | [] => [(k, v)]
  | (k', v') :: rest =>
    if k < k' then (k, v) :: (k', v') :: rest
    else if k = k' then (k, v) :: rest
    else (k', v') :: insertEntry k v rest

theorem mem_keys_insertEntry {k x : κ} {v : ν} {l : List (κ × ν)} :
    x ∈ (insertEntry k v l).map Prod.fst ↔ x = k ∨ x ∈ l.map Prod.fst := by
  induction l with
  | nil => simp [insertEntry]
  | cons e rest ih =>
    obtain ⟨k', v'⟩ := e
    rw [insertEntry]
    split
    · simp
    · split
      · rename_i h
        subst h
        simp
      · rw [map_cons, mem_cons, ih, map_cons, mem_cons]
        exact or_left_comm

theorem sorted_insertEntry {k : κ} {v : ν} {l : List (κ × ν)} (h : (l.map Prod.fst).Pairwise (· < ·)) :
    ((insertEntry k v l).map Prod.fst).Pairwise (· < ·) := by
  induction l with
  | nil => simp [insertEntry]
  | cons e rest ih =>
    obtain ⟨k', v'⟩ := e
    have hhead : ∀ x ∈ rest.map Prod.fst, k' < x := (pairwise_cons.mp h).1
    have htail := (pairwise_cons.mp h).2
    rw [insertEntry]
    split
    · rename_i hlt
      refine pairwise_cons.mpr ⟨fun x hx => ?_, h⟩
      rcases mem_cons.mp hx with rfl | hx
      · exact hlt
      · exact lt_trans hlt (hhead x hx)
    · rename_i hnlt
      split
      · rename_i heq
        subst heq
        exact h
      · rename_i hne
        refine pairwise_cons.mpr ⟨fun x hx => ?_, ih htail⟩
        rcases mem_keys_insertEntry.mp hx with rfl | hx
        · exact lt_of_le_of_ne (not_lt.mp hnlt) (Ne.symm hne)
        · exact hhead x hx

def insert (m : OrdMap κ ν) (k : κ) (v : ν) : OrdMap κ ν := ⟨insertEntry k v m.entries, sorted_insertEntry m.sorted⟩

def upsert (m : OrdMap κ ν) (k : κ) (f : Option ν → ν) : OrdMap κ ν := m.insert k (f (m.get? k))

def mapEntries (m : OrdMap κ ν) (f : κ → ν → μ) : OrdMap κ μ :=
  ⟨m.entries.map fun e => (e.1, f e.1 e.2), by simpa [Function.comp_def] using m.sorted⟩

def modify (m : OrdMap κ ν) (k : κ) (f : ν → ν) : OrdMap κ ν :=
  m.mapEntries fun k' v => if k' = k then f v else v

/-- Updates the entries in order and collects what each update puts out. The first failure ends the loop; the
    entries updated before it stay updated. -/
def updateEntries (f : κ → ν → Except ε (ν × List η)) : List (κ × ν) → List (κ × ν) × Except ε (List η)
  | [] => ([], .ok [])
  | (k, v) :: rest =>
    match f k v with
    | .error e => ((k, v) :: rest, .error e)
    | .ok (v', out) => ((k, v') :: (updateEntries f rest).1, (updateEntries f rest).2.map (out ++ ·))

omit [LinearOrder κ] in
theorem keys_updateEntries {f : κ → ν → Except ε (ν × List η)} {l : List (κ × ν)} :
    (updateEntries f l).1.map Prod.fst = l.map Prod.fst := by
  induction l with
  | nil => rfl
  | cons e rest ih =>
    obtain ⟨k, v⟩ := e
    rw [updateEntries]
    split
    · rfl
    · rw [map_cons, map_cons, ih]

def updateEach (m : OrdMap κ ν) (f : κ → ν → Except ε (ν × List η)) : OrdMap κ ν × Except ε (List η) :=
  (⟨(updateEntries f m.entries).1, by rw [keys_updateEntries]; exact m.sorted⟩, (updateEntries f m.entries).2)

def ofList (l : List (κ × ν)) : OrdMap κ ν := l.foldl (fun m e => m.insert e.1 e.2) empty

variable {m m' : OrdMap κ ν} {k k' : κ} {v : ν}

theorem nodup_keys (m : OrdMap κ ν) : m.keys.Nodup := m.sorted.imp fun h => ne_of_lt h

@[simp] theorem keys_mapEntries {f : κ → ν → μ} : (m.mapEntries f).keys = m.keys := by
  simp [keys, mapEntries, Function.comp_def]

@[simp] theorem keys_modify {f : ν → ν} : (m.modify k f).keys = m.keys := keys_mapEntries

theorem size_keys : m.keys.length = m.size := length_map ..

theorem mem_keys_insert : k' ∈ (m.insert k v).keys ↔ k' = k ∨ k' ∈ m.keys := mem_keys_insertEntry

theorem size_insert (h : k ∉ m.keys) : (m.insert k v).size = m.size + 1 := by
  have haux : ∀ l : List (κ × ν), k ∉ l.map Prod.fst → (insertEntry k v l).length = l.length + 1 := by
    intro l hl
    induction l with
    | nil => rfl
    | cons e rest ih =>
      obtain ⟨k', v'⟩ := e
      rw [map_cons, mem_cons, not_or] at hl
      rw [insertEntry]
      split
      · rfl
      · rw [if_neg hl.1, length_cons, ih hl.2, length_cons]
  exact haux m.entries h

theorem keys_insert (h : k ∈ m.keys) : (m.insert k v).keys = m.keys := by
  have haux : ∀ l : List (κ × ν), (l.map Prod.fst).Pairwise (· < ·) → k ∈ l.map Prod.fst →
      (insertEntry k v l).map Prod.fst = l.map Prod.fst := by
    intro l hl hk
    induction l with
    | nil => cases hk
    | cons e rest ih =>
      obtain ⟨k', v'⟩ := e
      obtain ⟨hhead, htail⟩ := pairwise_cons.mp hl
      rw [insertEntry]
      by_cases heq : k = k'
      · subst heq
        rw [if_neg (lt_irrefl k), if_pos rfl]
        rfl
      · have hrest : k ∈ rest.map Prod.fst := (mem_cons.mp hk).resolve_left heq
        rw [if_neg (not_lt.mpr (le_of_lt (hhead k hrest))), if_neg heq, map_cons, ih htail hrest, map_cons]
  exact haux m.entries m.sorted h

theorem keys_upsert {f : Option ν → ν} (h : k ∈ m.keys) : (m.upsert k f).keys = m.keys := keys_insert h

theorem lookup_cons_ne {l : List (κ × ν)} (h : k ≠ k') : ((k', v) :: l).lookup k = l.lookup k := by
  rw [lookup_cons, beq_false_of_ne h]

theorem lookup_isSome_iff {l : List (κ × ν)} : (l.lookup k).isSome ↔ k ∈ l.map Prod.fst := by
  induction l with
  | nil => simp
  | cons e rest ih =>
    obtain ⟨k', v'⟩ := e
    by_cases h : k = k'
    · simp [h]
    · rw [lookup_cons_ne h, ih, map_cons, mem_cons]
      exact (or_iff_right h).symm

theorem isSome_get? : (m.get? k).isSome ↔ k ∈ m.keys := lookup_isSome_iff

theorem mem_keys_of_get? (h : m.get? k = some v) : k ∈ m.keys := isSome_get?.mp (by rw [h]; rfl)

theorem exists_get? (h : k ∈ m.keys) : ∃ v, m.get? k = some v := Option.isSome_iff_exists.mp (isSome_get?.mpr h)

theorem lookup_of_mem {l : List (κ × ν)} (hs : (l.map Prod.fst).Pairwise (· < ·)) (h : (k, v) ∈ l) :
    l.lookup k = some v := by
  induction l with
  | nil => cases h
  | cons e rest ih =>
    obtain ⟨k', v'⟩ := e
    rcases mem_cons.mp h with heq | hmem
    · cases heq
      simp
    · have hlt : k' < k := (pairwise_cons.mp hs).1 k (mem_map_of_mem (f := Prod.fst) hmem)
      rw [lookup_cons_ne (ne_of_gt hlt)]
      exact ih (pairwise_cons.mp hs).2 hmem

theorem mem_of_lookup {l : List (κ × ν)} (h : l.lookup k = some v) : (k, v) ∈ l := by
  induction l with
  | nil => cases h
  | cons e rest ih =>
    obtain ⟨k', v'⟩ := e
    by_cases hk : k = k'
    · subst hk
      simp only [lookup_cons_self, Option.some.injEq] at h
      subst h
      exact mem_cons_self
    · rw [lookup_cons_ne hk] at h
      exact mem_cons_of_mem _ (ih h)

theorem mem_entries : (k, v) ∈ m.entries ↔ m.get? k = some v := ⟨lookup_of_mem m.sorted, mem_of_lookup⟩

theorem mem_values : v ∈ m.values ↔ ∃ k, m.get? k = some v := by
  simp [values, ← mem_entries]

@[simp] theorem get?_empty : (empty : OrdMap κ ν).get? k = none := rfl

theorem lookup_insertEntry_self {l : List (κ × ν)} : (insertEntry k v l).lookup k = some v := by
  induction l with
  | nil => simp [insertEntry]
  | cons e rest ih =>
    obtain ⟨k₁, v₁⟩ := e
    rw [insertEntry]
    split
    · simp
    · split
      · simp
      · rename_i hne
        rw [lookup_cons_ne hne, ih]

theorem lookup_insertEntry_ne {l : List (κ × ν)} (h : k' ≠ k) : (insertEntry k v l).lookup k' = l.lookup k' := by
  induction l with
  | nil => simp [insertEntry, lookup_cons_ne h]
  | cons e rest ih =>
    obtain ⟨k₁, v₁⟩ := e
    rw [insertEntry]
    split
    · rw [lookup_cons_ne h]
    · split
      · rename_i heq
        subst heq
        rw [lookup_cons_ne h, lookup_cons_ne h]
      · by_cases hk : k' = k₁
        · subst hk
          simp
        · rw [lookup_cons_ne hk, lookup_cons_ne hk, ih]

theorem lookup_insertEntry {l : List (κ × ν)} :
    (insertEntry k v l).lookup k' = if k' = k then some v else l.lookup k' := by
  by_cases h : k' = k
  · subst h
    rw [if_pos rfl]
    exact lookup_insertEntry_self
  · rw [if_neg h]
    exact lookup_insertEntry_ne h

theorem get?_insert : (m.insert k v).get? k' = if k' = k then some v else m.get? k' := lookup_insertEntry

theorem get?_insert_eq_some {w : ν} :
    (m.insert k v).get? k' = some w ↔ (k' = k ∧ w = v) ∨ (k' ≠ k ∧ m.get? k' = some w) := by
  rw [get?_insert]
  by_cases hk : k' = k
  · simp [hk, eq_comm]
  · simp [hk]

theorem get?_mapEntries {f : κ → ν → μ} : (m.mapEntries f).get? k = (m.get? k).map (f k) := by
  have haux : ∀ l : List (κ × ν), (l.map fun e => (e.1, f e.1 e.2)).lookup k = (l.lookup k).map (f k) := by
    intro l
    induction l with
    | nil => rfl
    | cons e rest ih =>
      obtain ⟨k', v'⟩ := e
      by_cases h : k = k'
      · simp [h]
      · rw [map_cons, lookup_cons_ne h, lookup_cons_ne h, ih]
  exact haux m.entries

theorem forall_mapEntries {f : κ → ν → μ} {Q : κ → μ → Prop} (h : ∀ k v, m.get? k = some v → Q k (f k v)) :
    ∀ k v, (m.mapEntries f).get? k = some v → Q k v := by
  intro k v hv
  rw [get?_mapEntries] at hv
  obtain ⟨w, hw, rfl⟩ := Option.map_eq_some_iff.mp hv
  exact h k w hw

theorem get?_modify {f : ν → ν} : (m.modify k f).get? k' = if k' = k then (m.get? k').map f else m.get? k' := by
  rw [modify, get?_mapEntries]
  by_cases h : k' = k <;> simp [h]

theorem get?_upsert {f : Option ν → ν} :
    (m.upsert k f).get? k' = if k' = k then some (f (m.get? k)) else m.get? k' := get?_insert

theorem get?_ofList {l : List (κ × ν)} (h : (ofList l).get? k = some v) : (k, v) ∈ l := by
  have haux : ∀ (l : List (κ × ν)) (m : OrdMap κ ν), (l.foldl (fun m e => m.insert e.1 e.2) m).get? k = some v →
      (k, v) ∈ l ∨ m.get? k = some v := by
    intro l
    induction l with
    | nil => exact fun m h => Or.inr h
    | cons e rest ih =>
      intro m h
      rcases ih _ h with hrest | hhead
      · exact Or.inl (mem_cons_of_mem _ hrest)
      · rw [get?_insert] at hhead
        split at hhead
        · rename_i hk
          cases hhead
          subst hk
          exact Or.inl mem_cons_self
        · exact Or.inr hhead
  exact (haux l empty h).resolve_right (by simp)

theorem mem_keys_ofList {l : List (κ × ν)} : k ∈ (ofList l).keys ↔ k ∈ l.map Prod.fst := by
  have haux : ∀ (l : List (κ × ν)) (m : OrdMap κ ν),
      k ∈ (l.foldl (fun m e => m.insert e.1 e.2) m).keys ↔ k ∈ l.map Prod.fst ∨ k ∈ m.keys := by
    intro l
    induction l with
    | nil => simp
    | cons e rest ih =>
      intro m
      rw [foldl_cons, ih, mem_keys_insert, map_cons, mem_cons, or_left_comm, or_assoc]
  rw [ofList, haux]
  exact or_iff_left (by simp [keys, empty])

theorem ext_get? (h : ∀ k, m.get? k = m'.get? k) : m = m' := by
  have hperm : m.entries.Perm m'.entries := by
    have hnd : ∀ n : OrdMap κ ν, n.entries.Nodup := fun n => List.Nodup.of_map Prod.fst n.nodup_keys
    refine (perm_ext_iff_of_nodup (hnd m) (hnd m')).mpr ?_
    rintro ⟨k, v⟩
    rw [mem_entries, mem_entries, h k]
  have hsorted : ∀ n : OrdMap κ ν, n.entries.Pairwise (fun a b => a.1 < b.1) := fun n => pairwise_map.mp n.sorted
  have hentries : m.entries = m'.entries := by
    refine hperm.eq_of_pairwise (fun a b _ _ hab hba => absurd hab (lt_asymm hba)) (hsorted m) (hsorted m')
  obtain ⟨l, hl⟩ := m
  obtain ⟨l', hl'⟩ := m'
  cases hentries
  rfl

theorem updateEach_eq {f : κ → ν → Except ε (ν × List η)} {g : κ → ν → ν} {o : κ → ν → List η}
    (h : ∀ k v, m.get? k = some v → f k v = .ok (g k v, o k v)) :
    m.updateEach f = (m.mapEntries g, .ok (m.entries.flatMap fun e => o e.1 e.2)) := by
  have haux : ∀ l : List (κ × ν), (∀ e ∈ l, f e.1 e.2 = .ok (g e.1 e.2, o e.1 e.2)) →
      updateEntries f l = (l.map fun e => (e.1, g e.1 e.2), .ok (l.flatMap fun e => o e.1 e.2)) := by
    intro l hl
    induction l with
    | nil => rfl
    | cons e rest ih =>
      obtain ⟨k, v⟩ := e
      rw [updateEntries, hl (k, v) mem_cons_self, ih fun e he => hl e (mem_cons_of_mem _ he)]
      rfl
  have hall := haux m.entries fun e he => h e.1 e.2 (mem_entries.mp he)
  simp only [updateEach, mapEntries, hall]

theorem updateEach_ok {f : κ → ν → Except ε (ν × List η)} {out : List η} (h : (m.updateEach f).2 = .ok out) :
    (∀ k v', (m.updateEach f).1.get? k = some v' → ∃ v o, m.get? k = some v ∧ f k v = .ok (v', o)) ∧
      ∀ x ∈ out, ∃ k v v' o, m.get? k = some v ∧ f k v = .ok (v', o) ∧ x ∈ o := by
  have haux : ∀ (l : List (κ × ν)) (out : List η), (updateEntries f l).2 = .ok out →
      (∀ e ∈ (updateEntries f l).1, ∃ v o, (e.1, v) ∈ l ∧ f e.1 v = .ok (e.2, o)) ∧
        ∀ x ∈ out, ∃ k v v' o, (k, v) ∈ l ∧ f k v = .ok (v', o) ∧ x ∈ o := by
    intro l
    induction l with
    | nil =>
      rintro out hout
      cases hout
      exact ⟨by simp [updateEntries], by simp⟩
    | cons entry rest ih =>
      obtain ⟨k, v⟩ := entry
      intro out hout
      rw [updateEntries] at hout ⊢
      cases hf : f k v with
      | error e =>
        rw [hf] at hout
        cases hout
      | ok updated =>
        obtain ⟨v', o⟩ := updated
        rw [hf] at hout
        dsimp only at hout ⊢
        cases hrest : (updateEntries f rest).2 with
        | error e =>
          rw [hrest] at hout
          cases hout
        | ok more =>
          rw [hrest] at hout
          cases hout
          obtain ⟨hentries, hout⟩ := ih more hrest
          constructor
          · intro e he
            rcases mem_cons.mp he with rfl | he
            · exact ⟨v, o, mem_cons_self, hf⟩
            · obtain ⟨v, o, hmem, hv⟩ := hentries e he
              exact ⟨v, o, mem_cons_of_mem _ hmem, hv⟩
          · intro x hx
            rcases mem_append.mp hx with hx | hx
            · exact ⟨k, v, v', o, mem_cons_self, hf, hx⟩
            · obtain ⟨k', w, w', o', hmem, hw, hx⟩ := hout x hx
              exact ⟨k', w, w', o', mem_cons_of_mem _ hmem, hw, hx⟩
  obtain ⟨hentries, hout⟩ := haux m.entries out h
  constructor
  · intro k v' hv'
    obtain ⟨v, o, hmem, hv⟩ := hentries (k, v') (mem_entries.mpr hv')
    exact ⟨v, o, mem_entries.mp hmem, hv⟩
  · intro x hx
    obtain ⟨k, v, v', o, hmem, hv, hx⟩ := hout x hx
    exact ⟨k, v, v', o, mem_entries.mp hmem, hv, hx⟩

section

variable {A : Type} [AddCommMonoid A]

def sum (m : OrdMap κ ν) (g : κ → ν → A) : A := (m.entries.map fun e => g e.1 e.2).sum

variable {g h : κ → ν → A}

theorem sum_mapEntries {f : κ → ν → μ} {g : κ → μ → A} : (m.mapEntries f).sum g = m.sum fun k v => g k (f k v) := by
  rw [sum, mapEntries, map_map]
  rfl

theorem sum_congr (heq : ∀ k v, m.get? k = some v → g k v = h k v) : m.sum g = m.sum h := by
  rw [sum, sum]
  exact congrArg List.sum (map_congr_left fun e he => heq e.1 e.2 (mem_entries.mp he))

theorem sum_values {g : ν → A} : (m.sum fun _ => g) = (m.values.map g).sum := by
  rw [sum, values, map_map]
  rfl

theorem sum_pair {B : Type} [AddCommMonoid B] {g : κ → ν → A} {h : κ → ν → B} :
    (m.sum fun k v => (g k v, h k v)) = (m.sum g, m.sum h) := by
  rw [sum, sum, sum]
  induction m.entries with
  | nil => rfl
  | cons e rest ih =>
    rw [map_cons, map_cons, map_cons, sum_cons, sum_cons, sum_cons, ih, Prod.mk_add_mk]

theorem sum_single {d : A} (hv : m.get? k = some v) (hone : h k v = g k v + d)
    (hrest : ∀ k' w, m.get? k' = some w → k' ≠ k → h k' w = g k' w) : m.sum h = m.sum g + d := by
  have haux : ∀ l : List (κ × ν), (l.map Prod.fst).Nodup → (∀ e ∈ l, e.1 ≠ k → h e.1 e.2 = g e.1 e.2) → (k, v) ∈ l →
      (l.map fun e => h e.1 e.2).sum = (l.map fun e => g e.1 e.2).sum + d := by
    intro l hnodup hrest hmem
    induction l with
    | nil => cases hmem
    | cons e rest ih =>
      obtain ⟨hnot, hnodup⟩ := nodup_cons.mp hnodup
      rw [map_cons, map_cons, sum_cons, sum_cons]
      rcases mem_cons.mp hmem with rfl | hmem
      · have hsame : rest.map (fun e => h e.1 e.2) = rest.map fun e => g e.1 e.2 := by
          refine map_congr_left fun e he => hrest e (mem_cons_of_mem _ he) ?_
          rintro rfl
          exact hnot (mem_map.mpr ⟨e, he, rfl⟩)
        rw [hsame, hone, add_right_comm]
      · have hne : e.1 ≠ k := by
          rintro rfl
          exact hnot (mem_map.mpr ⟨_, hmem, rfl⟩)
        rw [hrest e mem_cons_self hne, ih hnodup (fun e he => hrest e (mem_cons_of_mem _ he)) hmem, add_assoc]
  exact haux m.entries m.nodup_keys (fun e he => hrest e.1 e.2 (mem_entries.mp he)) (mem_entries.mpr hv)

theorem sum_modify {f : ν → ν} {d : A} (hv : m.get? k = some v) (hone : g k (f v) = g k v + d) :
    (m.modify k f).sum g = m.sum g + d := by
  rw [modify, sum_mapEntries]
  refine sum_single hv ?_ fun k' w _ hne => ?_
  · rw [if_pos rfl, hone]
  · rw [if_neg hne]

end

theorem sum_eq_keys {g : κ → ν → Nat} : m.sum g = (m.keys.map fun k => ((m.get? k).map (g k)).getD 0).sum := by
  rw [sum, keys, map_map]
  refine congrArg List.sum (map_congr_left fun e he => ?_)
  rw [Function.comp_apply, mem_entries.mp he]
  rfl

theorem sum_le_of_keys {m' : OrdMap κ μ} {g : κ → ν → Nat} {g' : κ → μ → Nat} {d e : Nat} (hkeys : m'.keys = m.keys)
    (hk : k ∈ m.keys) (hone : ∀ v v', m.get? k = some v → m'.get? k = some v' → g' k v' + d ≤ g k v + e)
    (hrest : ∀ k' v v', k' ≠ k → m.get? k' = some v → m'.get? k' = some v' → g' k' v' ≤ g k' v) :
    m'.sum g' + d ≤ m.sum g + e := by
  have haux : ∀ (l : List κ) (F G : κ → Nat), l.Nodup → k ∈ l → F k + d ≤ G k + e → (∀ k' ∈ l, k' ≠ k → F k' ≤ G k') →
      (l.map F).sum + d ≤ (l.map G).sum + e := by
    intro l F G hnodup hmem hone hrest
    induction l with
    | nil => cases hmem
    | cons x rest ih =>
      obtain ⟨hnot, hnodup⟩ := nodup_cons.mp hnodup
      rw [map_cons, map_cons, sum_cons, sum_cons]
      by_cases hx : x = k
      · subst hx
        have hle : (rest.map F).sum ≤ (rest.map G).sum := by
          refine sum_le_sum fun k' hk' => hrest k' (mem_cons_of_mem _ hk') ?_
          rintro rfl
          exact hnot hk'
        omega
      · have hhead := hrest x mem_cons_self hx
        have htail := ih hnodup (mem_of_ne_of_mem (Ne.symm hx) hmem)
          fun k' hk' => hrest k' (mem_cons_of_mem _ hk')
        omega
  rw [sum_eq_keys, sum_eq_keys, hkeys]
  refine haux m.keys _ _ m.nodup_keys hk ?_ fun k' hk' hne => ?_
  · obtain ⟨v, hv⟩ := exists_get? hk
    obtain ⟨v', hv'⟩ := exists_get? (hkeys ▸ hk : k ∈ m'.keys)
    rw [hv, hv']
    exact hone v v' hv hv'
  · obtain ⟨v, hv⟩ := exists_get? hk'
    obtain ⟨v', hv'⟩ := exists_get? (hkeys ▸ hk' : k' ∈ m'.keys)
    rw [hv, hv']
    exact hrest k' v v' hne hv hv'

end OrdMap

namespace OrdMap

open List

variable {κ ν η : Type} [LinearOrder κ] {m : OrdMap κ ν} {k : κ} {v w : ν}

theorem perm_insertEntry {l : List (κ × ν)} (h : k ∉ l.map Prod.fst) : (insertEntry k v l).Perm ((k, v) :: l) := by
  induction l with
  | nil => exact List.Perm.refl _
  | cons e rest ih =>
    obtain ⟨k', v'⟩ := e
    rw [map_cons, mem_cons, not_or] at h
    rw [insertEntry]
    split
    · exact List.Perm.refl _
    · rw [if_neg h.1]
      exact ((ih h.2).cons _).trans (List.Perm.swap _ _ _)

theorem perm_insert (h : k ∉ m.keys) : (m.insert k v).entries.Perm ((k, v) :: m.entries) := perm_insertEntry h

theorem map_insertEntry (f : κ × ν → η) {l : List (κ × ν)} (hs : (l.map Prod.fst).Pairwise (· < ·))
    (h : l.lookup k = some v) (hf : f (k, w) = f (k, v)) : (insertEntry k w l).map f = l.map f := by
  induction l with
  | nil => cases h
  | cons e rest ih =>
    obtain ⟨k', v'⟩ := e
    rw [map_cons, pairwise_cons] at hs
    by_cases hk : k = k'
    · subst hk
      rw [lookup_cons_self] at h
      cases h
      rw [insertEntry, if_neg (lt_irrefl k), if_pos rfl, map_cons, map_cons, hf]
    · rw [lookup_cons_ne hk] at h
      have hmem := lookup_isSome_iff.mp (by rw [h]; rfl : (rest.lookup k).isSome = true)
      rw [insertEntry, if_neg (lt_asymm (hs.1 k hmem)), if_neg hk, map_cons, map_cons, ih hs.2 h]

theorem map_insert (f : κ × ν → η) (h : m.get? k = some v) (hf : f (k, w) = f (k, v)) :
    (m.insert k w).entries.map f = m.entries.map f := map_insertEntry f m.sorted h hf

/-- The last entry between two keys whose value has a property (`range(..).rev().find(..)`). -/
def findLast (m : OrdMap κ ν) (lo hi : κ) (p : ν → Bool) : Option (κ × ν) :=
  (m.entries.filter fun e => lo ≤ e.1 ∧ e.1 ≤ hi).reverse.find? fun e => p e.2

theorem find?_descending {l : List (κ × ν)} {p : ν → Bool} {e : κ × ν} (h : l.Pairwise fun a b => b.1 < a.1) :
    l.find? (fun e => p e.2) = some e ↔ e ∈ l ∧ p e.2 = true ∧ ∀ e' ∈ l, p e'.2 = true → e'.1 ≤ e.1 := by
  induction l with
  | nil => simp
  | cons a rest ih =>
    obtain ⟨hhead, htail⟩ := pairwise_cons.mp h
    by_cases ha : p a.2 = true
    · rw [List.find?_cons_of_pos (p := fun e : κ × ν => p e.2) ha, Option.some_inj]
      constructor
      · rintro rfl
        refine ⟨mem_cons_self, ha, fun e' he' _ => ?_⟩
        rcases mem_cons.mp he' with rfl | he'
        · exact le_rfl
        · exact (hhead e' he').le
      · rintro ⟨he, -, hmax⟩
        rcases mem_cons.mp he with rfl | he
        · rfl
        · exact absurd (hmax a mem_cons_self ha) (not_le.mpr (hhead e he))
    · rw [List.find?_cons_of_neg (p := fun e : κ × ν => p e.2) ha, ih htail]
      constructor
      · rintro ⟨he, hp, hmax⟩
        refine ⟨mem_cons_of_mem a he, hp, fun e' he' hp' => ?_⟩
        rcases mem_cons.mp he' with rfl | he'
        · exact absurd hp' ha
        · exact hmax e' he' hp'
      · rintro ⟨he, hp, hmax⟩
        rcases mem_cons.mp he with rfl | he
        · exact absurd hp ha
        · exact ⟨he, hp, fun e' he' => hmax e' (mem_cons_of_mem a he')⟩

theorem findLast_eq_some {lo hi : κ} {p : ν → Bool} {e : κ × ν} : m.findLast lo hi p = some e ↔
    m.get? e.1 = some e.2 ∧ lo ≤ e.1 ∧ e.1 ≤ hi ∧ p e.2 = true ∧
      ∀ k' v', m.get? k' = some v' → lo ≤ k' → k' ≤ hi → p v' = true → k' ≤ e.1 := by
  have hsorted : (m.entries.filter fun e => lo ≤ e.1 ∧ e.1 ≤ hi).reverse.Pairwise fun a b => b.1 < a.1 :=
    pairwise_reverse.mpr ((pairwise_map.mp m.sorted).filter _)
  have hmem : ∀ e : κ × ν, e ∈ (m.entries.filter fun e => lo ≤ e.1 ∧ e.1 ≤ hi).reverse ↔
      m.get? e.1 = some e.2 ∧ lo ≤ e.1 ∧ e.1 ≤ hi := by
    intro e
    rw [mem_reverse, mem_filter, ← mem_entries]
    simp
  rw [findLast, find?_descending hsorted, hmem]
  simp only [hmem, and_assoc, Prod.forall, and_imp]

end OrdMap
