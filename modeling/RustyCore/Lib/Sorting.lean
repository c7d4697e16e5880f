import Mathlib.Data.List.Sort

/-! A sort by a key that keeps what has the same key in order: it depends on the list only through what each key has. And
    each item of a list with the others. -/

namespace Sorting

open List

section

variable {α κ : Type} [LinearOrder κ] {key : α → κ} {l l' : List α} {a : α} {k : κ}

/-- `slice::sort_by` on a key. -/
def sortOn (key : α → κ) (l : List α) : List α := l.insertionSort fun a b => key a ≤ key b

theorem perm_sortOn : (sortOn key l).Perm l := perm_insertionSort _ l

theorem mem_sortOn : a ∈ sortOn key l ↔ a ∈ l := perm_sortOn.mem_iff

theorem pairwise_sortOn : (sortOn key l).Pairwise fun a b => key a ≤ key b :=
  @pairwise_insertionSort α (fun a b => key a ≤ key b) _ ⟨fun a b => le_total (key a) (key b)⟩
    ⟨fun _ _ _ => le_trans⟩ l

theorem filter_sortOn (key : α → κ) (l : List α) (k : κ) :
    (sortOn key l).filter (key · = k) = l.filter (key · = k) := by
  induction l with
  | nil => rfl
  | cons a l ih =>
    have hsort : sortOn key (a :: l) = (sortOn key l).takeWhile (fun b => ¬key a ≤ key b) ++
        a :: (sortOn key l).dropWhile (fun b => ¬key a ≤ key b) := orderedInsert_eq_take_drop ..
    have hboth := congrArg (List.filter (key · = k))
      (takeWhile_append_dropWhile (p := fun b => ¬key a ≤ key b) (l := sortOn key l))
    rw [filter_append] at hboth
    rw [hsort, filter_append, filter_cons, filter_cons, ← ih, ← hboth]
    split
    · rename_i hk
      -- what stands before the new item has smaller keys
      have hbefore : ((sortOn key l).takeWhile fun b => ¬key a ≤ key b).filter (key · = k) = [] := by
        refine filter_eq_nil_iff.mpr fun b hb hkey => ?_
        have hlt := all_eq_true.mp (all_takeWhile ..) b hb
        rw [decide_eq_true_eq] at hk hkey hlt
        exact hlt (hk.trans hkey.symm).le
      rw [hbefore, nil_append, nil_append]
    · rfl

theorem mem_iff_of_filter (h : ∀ k, l.filter (key · = k) = l'.filter (key · = k)) : a ∈ l ↔ a ∈ l' := by
  have hfound : ∀ l : List α, a ∈ l ↔ a ∈ l.filter (key · = key a) := fun l => by simp
  rw [hfound l, hfound l', h]

theorem eq_of_filter (h : l.Pairwise fun a b => key a ≤ key b) (h' : l'.Pairwise fun a b => key a ≤ key b)
    (hsame : ∀ k, l.filter (key · = k) = l'.filter (key · = k)) : l = l' := by
  induction l generalizing l' with
  | nil => exact (eq_nil_iff_forall_not_mem.mpr fun a ha => not_mem_nil ((mem_iff_of_filter hsame).mpr ha)).symm
  | cons a l ih =>
    cases l' with
    | nil => exact absurd ((mem_iff_of_filter hsame).mp mem_cons_self) not_mem_nil
    | cons b l' =>
      have hle : key a ≤ key b := by
        rcases mem_cons.mp ((mem_iff_of_filter hsame).mpr mem_cons_self) with rfl | hb
        · exact le_refl _
        · exact (pairwise_cons.mp h).1 b hb
      have hge : key b ≤ key a := by
        rcases mem_cons.mp ((mem_iff_of_filter hsame).mp mem_cons_self) with rfl | ha
        · exact le_refl _
        · exact (pairwise_cons.mp h').1 a ha
      have hkey : key b = key a := le_antisymm hge hle
      have hfirst := hsame (key a)
      rw [filter_cons_of_pos (by simp), filter_cons_of_pos (by simpa using hkey)] at hfirst
      obtain ⟨rfl, htail⟩ := List.cons.inj hfirst
      have hrest : ∀ k, l.filter (key · = k) = l'.filter (key · = k) := by
        intro k
        by_cases hk : key a = k
        · rw [← hk]
          exact htail
        · have hboth := hsame k
          rw [filter_cons_of_neg (by simpa using hk), filter_cons_of_neg (by simpa using hk)] at hboth
          exact hboth
      rw [ih (pairwise_cons.mp h).2 (pairwise_cons.mp h').2 hrest]

theorem sortOn_congr (h : ∀ k, l.filter (key · = k) = l'.filter (key · = k)) : sortOn key l = sortOn key l' :=
  eq_of_filter pairwise_sortOn pairwise_sortOn fun k => by rw [filter_sortOn, filter_sortOn, h]

theorem map_key_of_perm (hsorted : l.Pairwise fun a b => key a ≤ key b) (hsorted' : l'.Pairwise fun a b => key a ≤ key b)
    (h : l.Perm l') : l.map key = l'.map key := by
  refine List.Perm.eq_of_pairwise (fun a b _ _ => le_antisymm) ?_ ?_ (h.map key)
  · exact pairwise_map.mpr hsorted
  · exact pairwise_map.mpr hsorted'

end

section

variable {α κ : Type} [DecidableEq κ] {key : α → κ} {l : List α} {keys : List κ}

theorem perm_flatMap_filter (hkeys : keys.Nodup) (h : ∀ a ∈ l, key a ∈ keys) :
    l.Perm (keys.flatMap fun k => l.filter (key · = k)) := by
  induction keys generalizing l with
  | nil => rw [eq_nil_iff_forall_not_mem.mpr fun a ha => not_mem_nil (h a ha)]; rfl
  | cons k keys ih =>
    obtain ⟨hk, hkeys⟩ := nodup_cons.mp hkeys
    have hrest : ∀ a ∈ l.filter (fun a => !decide (key a = k)), key a ∈ keys := by
      intro a ha
      obtain ⟨hin, hne⟩ := mem_filter.mp ha
      exact (mem_cons.mp (h a hin)).resolve_left (by simpa using hne)
    have hlater : keys.flatMap (fun k' => (l.filter fun a => !decide (key a = k)).filter (key · = k')) =
        keys.flatMap fun k' => l.filter (key · = k') := by
      refine flatMap_congr fun k' hk' => ?_
      rw [filter_filter]
      refine filter_congr fun a _ => ?_
      by_cases ha : key a = k'
      · have hne : key a ≠ k := fun heq => hk (heq ▸ ha ▸ hk')
        simp [ha, ha ▸ hne]
      · simp [ha]
    rw [flatMap_cons, ← hlater]
    exact (filter_append_perm (fun a => decide (key a = k)) l).symm.trans ((ih hkeys hrest).append_left _)

theorem flatMap_filter_if {β : Type} (p : α → Bool) (g : α → List β) (l : List α) :
    (l.filter p).flatMap g = l.flatMap fun a => if p a then g a else [] := by
  induction l with
  | nil => rfl
  | cons a l ih =>
    rw [filter_cons, flatMap_cons]
    split
    · rw [flatMap_cons, ih]
    · rw [ih, nil_append]

end

section

variable {α β : Type} {l : List α} {a b : α} {others : List α}

def withOthers : List α → List (α × List α)
  | [] => []
  | a :: l => (a, l) :: (withOthers l).map fun found => (found.1, a :: found.2)

theorem withOthers_map (f : α → β) (l : List α) :
    withOthers (l.map f) = (withOthers l).map fun found => (f found.1, found.2.map f) := by
  induction l with
  | nil => rfl
  | cons a l ih =>
    rw [map_cons, withOthers, withOthers, ih, map_cons, map_map, map_map]
    rfl

theorem withOthers_append (l l' : List α) : withOthers (l ++ l') =
    ((withOthers l).map fun found => (found.1, found.2 ++ l')) ++ (withOthers l').map fun found => (found.1, l ++ found.2) := by
  induction l with
  | nil => simp [withOthers]
  | cons a l ih =>
    rw [cons_append, withOthers, withOthers, ih, map_append, map_cons, cons_append, map_map,
      map_map, map_map]
    rfl

theorem withOthers_filter (p : α → Bool) (l : List α) : withOthers (l.filter p) =
    ((withOthers l).filter fun found => p found.1).map fun found => (found.1, found.2.filter p) := by
  induction l with
  | nil => rfl
  | cons a l ih =>
    rw [withOthers, filter_cons, filter_cons, filter_map]
    by_cases ha : p a = true
    · rw [if_pos ha, if_pos ha, withOthers, ih, map_cons, map_map, map_map]
      refine congrArg _ (map_congr_left fun found _ => ?_)
      simp [ha]
    · rw [if_neg ha, if_neg ha, ih, map_map]
      refine map_congr_left fun found _ => ?_
      simp [ha]

theorem fst_withOthers (l : List α) : (withOthers l).map Prod.fst = l := by
  induction l with
  | nil => rfl
  | cons a l ih =>
    rw [withOthers, map_cons, map_map]
    exact congrArg (a :: ·) ih

theorem length_withOthers (h : (a, others) ∈ withOthers l) : others.length + 1 = l.length := by
  induction l generalizing others with
  | nil => cases h
  | cons b l ih =>
    rcases mem_cons.mp h with heq | h
    · cases heq
      rfl
    · obtain ⟨⟨c, rest⟩, hrest, heq⟩ := mem_map.mp h
      cases heq
      rw [length_cons, length_cons, ih hrest]

theorem mem_withOthers (h : (a, others) ∈ withOthers l) : a ∈ l ∧ ∀ b ∈ others, b ∈ l := by
  induction l generalizing others with
  | nil => cases h
  | cons b l ih =>
    rcases mem_cons.mp h with heq | h
    · cases heq
      exact ⟨mem_cons_self, fun c hc => mem_cons_of_mem _ hc⟩
    · obtain ⟨⟨c, rest⟩, hrest, heq⟩ := mem_map.mp h
      cases heq
      obtain ⟨hc, hall⟩ := ih hrest
      exact ⟨mem_cons_of_mem _ hc, forall_mem_cons.mpr
        ⟨mem_cons_self, fun d hd => mem_cons_of_mem _ (hall d hd)⟩⟩

theorem withOthers_symm (h : (a, others) ∈ withOthers l) (hb : b ∈ others) :
    ∃ more, (b, more) ∈ withOthers l ∧ a ∈ more := by
  induction l generalizing others with
  | nil => cases h
  | cons c l ih =>
    rcases mem_cons.mp h with heq | h
    · cases heq
      rw [← fst_withOthers l] at hb
      obtain ⟨⟨d, more⟩, hmore, rfl⟩ := mem_map.mp hb
      exact ⟨a :: more, mem_cons_of_mem _ (mem_map.mpr ⟨(d, more), hmore, rfl⟩), mem_cons_self⟩
    · obtain ⟨⟨d, rest⟩, hrest, heq⟩ := mem_map.mp h
      cases heq
      rcases mem_cons.mp hb with rfl | hb
      · exact ⟨l, mem_cons_self, (mem_withOthers hrest).1⟩
      · obtain ⟨more, hmore, ha⟩ := ih hrest hb
        exact ⟨c :: more, mem_cons_of_mem _ (mem_map.mpr ⟨(b, more), hmore, rfl⟩), mem_cons_of_mem _ ha⟩

theorem withOthers_zipIdx (l : List α) (n : Nat) : withOthers l =
    (l.zipIdx n).map fun found => (found.1, ((l.zipIdx n).filter (·.2 != found.2)).map Prod.fst) := by
  induction l generalizing n with
  | nil => rfl
  | cons a l ih =>
    have hlater : ∀ found ∈ l.zipIdx (n + 1), found.2 ≠ n := by
      rintro ⟨b, i⟩ hfound
      have hle := (mem_zipIdx hfound).1
      omega
    have hrest : (l.zipIdx (n + 1)).filter (·.2 != n) = l.zipIdx (n + 1) :=
      filter_eq_self.mpr fun found hfound => by simpa using hlater found hfound
    rw [withOthers, ih (n + 1), zipIdx_cons, map_cons, map_map, filter_cons_of_neg (by simp), hrest,
      zipIdx_map_fst]
    congr 1
    refine map_congr_left fun found hfound => ?_
    rw [Function.comp_apply, filter_cons_of_pos (by simpa using (hlater found hfound).symm), map_cons]

end

end Sorting
