import Mathlib.Data.Fintype.Card
import Mathlib.Data.List.Perm.Subperm
import Mathlib.Data.Set.Finite.Basic
import Mathlib.Order.WellFounded
import Mathlib.Logic.Relation
import RustyCore.Lib.OrdMap

/-! Finite directed graphs given by their successor lists: breadth-first search finds exactly what can be
    reached, a ranking by Kahn's algorithm that covers every node puts both ends of every edge in order, and
    depth-first search finds a node on a cycle where there is one. -/

namespace Graph

open Relation List

variable {α : Type}

def Edge (succ : α → List α) (a b : α) : Prop := b ∈ succ a

def Below (succ : α → List α) : α → α → Prop := TransGen (Edge succ)

/-! ### Breadth-first search -/

section Search

variable [DecidableEq α]

def visit : List α → List α → List α → List α × List α
  | [], seen, queue => (seen, queue)
  | t :: ts, seen, queue => if t ∈ seen then visit ts seen queue else visit ts (t :: seen) (queue ++ [t])

/-- The search from a queue; the fuel bounds the nodes taken off the queue. -/
def search (succ : α → List α) : Nat → List α → List α → List α
  | 0, _, seen => seen
  | _ + 1, [], seen => seen
  | fuel + 1, x :: queue, seen => search succ fuel (visit (succ x) seen queue).2 (visit (succ x) seen queue).1

/-- What a search from `x` sees; `x` itself only when it lies on a cycle. -/
def reach (succ : α → List α) (fuel : Nat) (x : α) : List α := search succ fuel [x] []

variable {succ : α → List α} {ts seen queue : List α} {x y : α}

theorem mem_visit_fst : y ∈ (visit ts seen queue).1 ↔ y ∈ seen ∨ y ∈ ts := by
  induction ts generalizing seen queue with
  | nil => simp [visit]
  | cons t ts ih =>
    rw [visit]
    split
    · rename_i ht
      rw [ih, mem_cons]
      constructor
      · rintro (h | h)
        · exact Or.inl h
        · exact Or.inr (Or.inr h)
      · rintro (h | rfl | h)
        · exact Or.inl h
        · exact Or.inl ht
        · exact Or.inr h
    · rw [ih, mem_cons, mem_cons, or_assoc, or_left_comm]

theorem mem_visit_snd : y ∈ (visit ts seen queue).2 ↔ y ∈ queue ∨ (y ∈ ts ∧ y ∉ seen) := by
  induction ts generalizing seen queue with
  | nil => simp [visit]
  | cons t ts ih =>
    rw [visit]
    split
    · rename_i ht
      rw [ih, mem_cons]
      refine or_congr_right ⟨fun h => ⟨Or.inr h.1, h.2⟩, fun h => ⟨h.1.resolve_left ?_, h.2⟩⟩
      rintro rfl
      exact h.2 ht
    · rename_i ht
      rw [ih, mem_append, mem_singleton, mem_cons, mem_cons, or_assoc]
      refine or_congr_right ?_
      by_cases hy : y = t
      · subst hy
        simp [ht]
      · simp [hy]

def unseen (all seen : List α) : Nat := (all.filter (· ∉ seen)).length

theorem unseen_cons {all : List α} {t : α} (hall : t ∈ all) (ht : t ∉ seen) :
    unseen all (t :: seen) + 1 ≤ unseen all seen := by
  have hsplit : (all.filter (· ∉ t :: seen)) = (all.filter (· ∉ seen)).filter (· ≠ t) := by
    rw [filter_filter]
    refine filter_congr fun a _ => ?_
    simp
  have hmem : t ∈ all.filter (· ∉ seen) := mem_filter.mpr ⟨hall, by simpa using ht⟩
  rw [unseen, unseen, hsplit]
  exact length_filter_lt_length_iff_exists.mpr ⟨t, hmem, by simp⟩

theorem visit_measure {all : List α} (h : ∀ t ∈ ts, t ∈ all) :
    (visit ts seen queue).2.length + unseen all (visit ts seen queue).1 ≤ queue.length + unseen all seen := by
  induction ts generalizing seen queue with
  | nil => exact le_refl _
  | cons t ts ih =>
    have htail : ∀ t ∈ ts, t ∈ all := fun t ht => h t (mem_cons_of_mem _ ht)
    rw [visit]
    split
    · exact ih htail
    · rename_i ht
      have hdrop := unseen_cons (h t mem_cons_self) ht
      have hrest := @ih (t :: seen) (queue ++ [t]) htail
      rw [length_append, length_singleton] at hrest
      omega

theorem search_sound {fuel : Nat} (h : y ∈ search succ fuel queue seen) :
    y ∈ seen ∨ ∃ x ∈ queue, Below succ x y := by
  induction fuel generalizing queue seen with
  | zero => exact Or.inl h
  | succ fuel ih =>
    cases queue with
    | nil => exact Or.inl h
    | cons x queue =>
      rcases ih h with hseen | ⟨z, hz, hbelow⟩
      · rcases mem_visit_fst.mp hseen with hold | hnew
        · exact Or.inl hold
        · exact Or.inr ⟨x, mem_cons_self, TransGen.single hnew⟩
      · rcases mem_visit_snd.mp hz with hold | hnew
        · exact Or.inr ⟨z, mem_cons_of_mem _ hold, hbelow⟩
        · exact Or.inr ⟨x, mem_cons_self, TransGen.head hnew.1 hbelow⟩

/-- With enough fuel the search ends on an empty queue, so what is seen is closed under edges: each node of
    interest has its successors seen, or waits in the queue. -/
theorem search_closed {all : List α} (hall : ∀ x, ∀ t ∈ succ x, t ∈ all) {roots : List α} {fuel : Nat}
    (hfuel : queue.length + unseen all seen ≤ fuel)
    (hinv : ∀ x, x ∈ roots ∨ x ∈ seen → x ∈ queue ∨ ∀ t ∈ succ x, t ∈ seen) :
    ∀ x, x ∈ roots ∨ x ∈ search succ fuel queue seen → ∀ t ∈ succ x, t ∈ search succ fuel queue seen := by
  induction fuel generalizing queue seen with
  | zero =>
    have hempty : queue = [] := eq_nil_of_length_eq_zero (by omega)
    subst hempty
    exact fun x hx => (hinv x hx).resolve_left (by simp)
  | succ fuel ih =>
    cases queue with
    | nil => exact fun x hx => (hinv x hx).resolve_left (by simp)
    | cons x queue =>
      have hmeasure := @visit_measure α _ (succ x) seen queue all (hall x)
      rw [length_cons] at hfuel
      refine ih (by omega) fun z hz => ?_
      have hz' : z ∈ roots ∨ z ∈ seen ∨ z ∈ succ x := hz.imp_right mem_visit_fst.mp
      have hcases : (z ∈ roots ∨ z ∈ seen) ∨ (z ∈ succ x ∧ z ∉ seen) := by
        by_cases hseen : z ∈ seen
        · exact Or.inl (Or.inr hseen)
        · rcases hz' with h | h | h
          · exact Or.inl (Or.inl h)
          · exact absurd h hseen
          · exact Or.inr ⟨h, hseen⟩
      rcases hcases with hold | hnew
      · rcases hinv z hold with hqueue | hdone
        · rcases mem_cons.mp hqueue with rfl | hqueue
          · exact Or.inr fun t ht => mem_visit_fst.mpr (Or.inr ht)
          · exact Or.inl (mem_visit_snd.mpr (Or.inl hqueue))
        · exact Or.inr fun t ht => mem_visit_fst.mpr (Or.inl (hdone t ht))
      · exact Or.inl (mem_visit_snd.mpr (Or.inr hnew))

theorem mem_reach (all : List α) (hall : ∀ x, ∀ t ∈ succ x, t ∈ all) {fuel : Nat} (hfuel : all.length < fuel) :
    y ∈ reach succ fuel x ↔ Below succ x y := by
  constructor
  · intro h
    rcases search_sound h with hseen | ⟨z, hz, hbelow⟩
    · cases hseen
    · rw [mem_singleton] at hz
      exact hz ▸ hbelow
  · intro h
    have hunseen : unseen all [] ≤ all.length := length_filter_le _ _
    have hclosed := @search_closed α _ succ [] [x] all hall [x] fuel (by rw [length_singleton]; omega)
      (fun z hz => Or.inl (hz.resolve_right (by simp)))
    induction h with
    | single hedge => exact hclosed x (Or.inl mem_cons_self) _ hedge
    | tail _ hedge ih => exact hclosed _ (Or.inr ih) _ hedge

theorem nodup_visit (h : seen.Nodup) : (visit ts seen queue).1.Nodup := by
  induction ts generalizing seen queue with
  | nil => exact h
  | cons t ts ih =>
    rw [visit]
    split
    · exact ih h
    · rename_i ht
      exact ih (nodup_cons.mpr ⟨ht, h⟩)

theorem nodup_search {fuel : Nat} (h : seen.Nodup) : (search succ fuel queue seen).Nodup := by
  induction fuel generalizing queue seen with
  | zero => exact h
  | succ fuel ih =>
    cases queue with
    | nil => exact h
    | cons x queue => exact ih (nodup_visit h)

theorem nodup_reach {fuel : Nat} : (reach succ fuel x).Nodup := nodup_search .nil

end Search

/-! ### Ranking -/

section Ranking

variable [LinearOrder α]

def release : List α → OrdMap α Nat → List α → OrdMap α Nat × List α
  | [], degree, queue => (degree, queue)
  | t :: ts, degree, queue =>
    match degree.get? t with
    | none => release ts degree queue
    | some d => release ts (degree.insert t (d - 1)) (if d - 1 = 0 then queue ++ [t] else queue)

/-- Nodes come off the queue in the order of their ranks; the fuel bounds their number. -/
def rankLoop (succ : α → List α) : Nat → List α → OrdMap α Nat → OrdMap α Nat → OrdMap α Nat
  | 0, _, _, ranks => ranks
  | _ + 1, [], _, ranks => ranks
  | fuel + 1, x :: queue, degree, ranks =>
    rankLoop succ fuel (release (succ x) degree queue).2 (release (succ x) degree queue).1 (ranks.insert x ranks.size)

def indegrees (nodes targets : List α) : OrdMap α Nat :=
  targets.foldl (fun degree t => degree.upsert t fun d => d.getD 0 + 1) (OrdMap.ofList (nodes.map fun x => (x, 0)))

/-- Kahn's algorithm: nodes come out in an order where every edge points forward. -/
def ranks (succ : α → List α) (nodes targets : List α) (fuel : Nat) : OrdMap α Nat :=
  let degree := indegrees nodes targets
  rankLoop succ fuel (degree.entries.filterMap fun e => if e.2 = 0 then some e.1 else none) degree OrdMap.empty

variable {succ : α → List α} {nodes rest queue : List α} {degree ranked : OrdMap α Nat} {x v : α}

def waits (succ : α → List α) (nodes : List α) (ranked : OrdMap α Nat) (v : α) : Nat :=
  (nodes.map fun u => if ranked.contains u then 0 else (succ u).count v).sum

/-- The invariant of the ranking: `rest` are the targets of the last node ranked that are still to be
    released. -/
structure Ranking (succ : α → List α) (nodes rest queue : List α) (degree ranked : OrdMap α Nat) : Prop where
  known : ∀ v ∈ nodes, v ∈ degree.keys
  counted : ∀ v d, degree.get? v = some d → d = waits succ nodes ranked v + rest.count v
  inside : ∀ t ∈ rest, t ∈ nodes
  nodup : queue.Nodup
  queued : ∀ v ∈ queue, v ∈ nodes ∧ v ∉ ranked.keys ∧ degree.get? v = some 0
  settled : ∀ v ∈ ranked.keys, v ∈ nodes ∧ degree.get? v = some 0
  ordered : ∀ v i, ranked.get? v = some i →
    i < ranked.size ∧ ∀ u ∈ nodes, v ∈ succ u → ∃ j, ranked.get? u = some j ∧ j < i

theorem waits_insert (hnd : nodes.Nodup) (hx : x ∈ nodes) (hr : x ∉ ranked.keys) {i : Nat} :
    waits succ nodes ranked v = waits succ nodes (ranked.insert x i) v + (succ x).count v := by
  have hother : ∀ u, u ≠ x → (ranked.insert x i).contains u = ranked.contains u := by
    intro u hu
    simp only [OrdMap.contains, OrdMap.get?_insert, if_neg hu]
  have hself : (ranked.insert x i).contains x = true := by
    simp [OrdMap.contains, OrdMap.get?_insert]
  have hbefore : ranked.contains x = false := by
    rw [OrdMap.contains, Bool.eq_false_iff]
    exact fun h => hr (OrdMap.isSome_get?.mp h)
  unfold waits
  induction nodes with
  | nil => cases hx
  | cons u us ih =>
    rw [nodup_cons] at hnd
    simp only [map_cons, sum_cons]
    rcases mem_cons.mp hx with rfl | hus
    · have hrest : (us.map fun u => if (ranked.insert x i).contains u then 0 else (succ u).count v) =
          us.map fun u => if ranked.contains u then 0 else (succ u).count v := by
        refine map_congr_left fun u hu => ?_
        rw [hother u (ne_of_mem_of_not_mem hu hnd.1)]
      rw [hrest, hself, hbefore]
      simp only [Bool.false_eq_true, ↓reduceIte]
      omega
    · have hne : u ≠ x := fun h => hnd.1 (h ▸ hus)
      rw [hother u hne, ih hnd.2 hus]
      omega

theorem ranked_of_waits (h : waits succ nodes ranked v = 0) {u : α} (hu : u ∈ nodes) (hedge : v ∈ succ u) :
    ∃ j, ranked.get? u = some j := by
  have hzero := List.sum_eq_zero_iff_forall_eq_nat.mp h _ (List.mem_map_of_mem (f := fun u =>
    if ranked.contains u then 0 else (succ u).count v) hu)
  by_cases hr : ranked.contains u = true
  · exact Option.isSome_iff_exists.mp hr
  · rw [if_neg hr] at hzero
    exact absurd (List.count_pos_iff.mpr hedge) (by omega)

theorem Ranking.release_one {t : α} {ts : List α} {d : Nat} (h : Ranking succ nodes (t :: ts) queue degree ranked)
    (hd : degree.get? t = some d) : 0 < d ∧
      Ranking succ nodes ts (if d - 1 = 0 then queue ++ [t] else queue) (degree.insert t (d - 1)) ranked := by
  have hcount := h.counted t d hd
  rw [count_cons_self] at hcount
  -- The edge being released still counts, so `t` is neither queued nor ranked yet.
  have hopen : ∀ v, degree.get? v = some 0 → v ≠ t := by
    rintro v hv rfl
    rw [hd] at hv
    cases hv
    omega
  have hkeep : ∀ v, degree.get? v = some 0 → (degree.insert t (d - 1)).get? v = some 0 := by
    intro v hv
    rw [OrdMap.get?_insert, if_neg (hopen v hv), hv]
  refine ⟨by omega, ⟨fun v hv => OrdMap.mem_keys_insert.mpr (Or.inr (h.known v hv)), fun v e he => ?_,
    fun u hu => h.inside u (mem_cons_of_mem _ hu), ?_, fun v hv => ?_,
    fun v hv => ⟨(h.settled v hv).1, hkeep v (h.settled v hv).2⟩, h.ordered⟩⟩
  · rw [OrdMap.get?_insert] at he
    split at he
    · rename_i hv
      cases he
      subst hv
      omega
    · rename_i hv
      rw [h.counted v e he, count_cons_of_ne (Ne.symm hv)]
  · split
    · refine nodup_append.mpr ⟨h.nodup, nodup_singleton t, fun a ha b hb => ?_⟩
      rw [mem_singleton] at hb
      subst hb
      exact hopen a (h.queued a ha).2.2
    · exact h.nodup
  · by_cases hzero : d - 1 = 0
    · rw [if_pos hzero, mem_append, mem_singleton] at hv
      rcases hv with hv | rfl
      · exact ⟨(h.queued v hv).1, (h.queued v hv).2.1, hkeep v (h.queued v hv).2.2⟩
      · refine ⟨h.inside v mem_cons_self, fun hr => hopen v (h.settled v hr).2 rfl, ?_⟩
        rw [OrdMap.get?_insert, if_pos rfl, hzero]
    · rw [if_neg hzero] at hv
      exact ⟨(h.queued v hv).1, (h.queued v hv).2.1, hkeep v (h.queued v hv).2.2⟩

theorem Ranking.degree_of_head {t : α} {ts : List α} (h : Ranking succ nodes (t :: ts) queue degree ranked) :
    ∃ d, degree.get? t = some d := OrdMap.exists_get? (h.known t (h.inside t mem_cons_self))

theorem Ranking.release (h : Ranking succ nodes rest queue degree ranked) :
    Ranking succ nodes [] (Graph.release rest degree queue).2 (Graph.release rest degree queue).1 ranked := by
  induction rest generalizing degree queue with
  | nil => exact h
  | cons t ts ih =>
    obtain ⟨d, hd⟩ := h.degree_of_head
    rw [Graph.release, hd]
    exact ih (h.release_one hd).2

theorem Ranking.rank (hnd : nodes.Nodup) (hsucc : ∀ u ∈ nodes, ∀ t ∈ succ u, t ∈ nodes)
    (h : Ranking succ nodes [] (x :: queue) degree ranked) :
    Ranking succ nodes (succ x) queue degree (ranked.insert x ranked.size) := by
  obtain ⟨hx, hfresh, hzero⟩ := h.queued x mem_cons_self
  have hwaits : waits succ nodes ranked x = 0 := by simpa using (h.counted x 0 hzero).symm
  have hsize : (ranked.insert x ranked.size).size = ranked.size + 1 := OrdMap.size_insert hfresh
  refine ⟨h.known, fun v d hd => ?_, hsucc x hx, (nodup_cons.mp h.nodup).2, fun v hv => ?_, fun v hv => ?_,
    fun v i hi => ?_⟩
  · rw [h.counted v d hd, waits_insert hnd hx hfresh, count_nil, Nat.add_zero]
  · obtain ⟨hmem, hr, hdeg⟩ := h.queued v (mem_cons_of_mem _ hv)
    refine ⟨hmem, fun hin => ?_, hdeg⟩
    rcases OrdMap.mem_keys_insert.mp hin with rfl | hin
    · exact (nodup_cons.mp h.nodup).1 hv
    · exact hr hin
  · rcases OrdMap.mem_keys_insert.mp hv with rfl | hv
    · exact ⟨hx, hzero⟩
    · exact h.settled v hv
  · -- Ranks given before stay, and every predecessor of `x` has one already.
    have hkept : ∀ u j, ranked.get? u = some j → (ranked.insert x ranked.size).get? u = some j := by
      intro u j hj
      have hne : u ≠ x := ne_of_mem_of_not_mem (OrdMap.mem_keys_of_get? hj) hfresh
      rw [OrdMap.get?_insert, if_neg hne, hj]
    rw [hsize]
    rw [OrdMap.get?_insert] at hi
    split at hi
    · rename_i hv
      subst hv
      cases hi
      refine ⟨Nat.lt_succ_self _, fun u hu hedge => ?_⟩
      obtain ⟨j, hj⟩ := ranked_of_waits hwaits hu hedge
      exact ⟨j, hkept u j hj, (h.ordered u j hj).1⟩
    · obtain ⟨hlt, hpred⟩ := h.ordered v i hi
      refine ⟨Nat.lt_succ_of_lt hlt, fun u hu hedge => ?_⟩
      obtain ⟨j, hj, hji⟩ := hpred u hu hedge
      exact ⟨j, hkept u j hj, hji⟩

theorem Ranking.loop (hnd : nodes.Nodup) (hsucc : ∀ u ∈ nodes, ∀ t ∈ succ u, t ∈ nodes) {fuel : Nat}
    (h : Ranking succ nodes [] queue degree ranked) :
    ∃ queue' degree', Ranking succ nodes [] queue' degree' (rankLoop succ fuel queue degree ranked) := by
  induction fuel generalizing queue degree ranked with
  | zero => exact ⟨queue, degree, h⟩
  | succ fuel ih =>
    cases queue with
    | nil => exact ⟨[], degree, h⟩
    | cons x queue => exact ih (h.rank hnd hsucc).release

theorem getD_indegrees {targets : List α} : ((indegrees nodes targets).get? v).getD 0 = targets.count v := by
  have hstart : ((OrdMap.ofList (nodes.map fun x => (x, 0))).get? v).getD 0 = 0 := by
    cases hget : (OrdMap.ofList (nodes.map fun x => (x, 0))).get? v with
    | none => rfl
    | some d =>
      obtain ⟨x, -, heq⟩ := mem_map.mp (OrdMap.get?_ofList hget)
      cases heq
      rfl
  have hloop : ∀ (ts : List α) (m : OrdMap α Nat),
      ((ts.foldl (fun degree t => degree.upsert t fun d => d.getD 0 + 1) m).get? v).getD 0 =
        (m.get? v).getD 0 + ts.count v := by
    intro ts
    induction ts with
    | nil => exact fun m => rfl
    | cons t ts ih =>
      intro m
      rw [foldl_cons, ih, OrdMap.get?_upsert]
      by_cases hv : v = t
      · subst hv
        rw [if_pos rfl, count_cons_self, Option.getD_some]
        omega
      · rw [if_neg hv, count_cons_of_ne (Ne.symm hv)]
  rw [indegrees, hloop, hstart, Nat.zero_add]

theorem mem_keys_indegrees {targets : List α} : v ∈ (indegrees nodes targets).keys ↔ v ∈ targets ∨ v ∈ nodes := by
  have hloop : ∀ (ts : List α) (m : OrdMap α Nat),
      v ∈ (ts.foldl (fun degree t => degree.upsert t fun d => d.getD 0 + 1) m).keys ↔ v ∈ ts ∨ v ∈ m.keys := by
    intro ts
    induction ts with
    | nil => simp
    | cons t ts ih =>
      intro m
      rw [foldl_cons, ih, OrdMap.upsert, OrdMap.mem_keys_insert, mem_cons, or_left_comm, or_assoc]
  rw [indegrees, hloop, OrdMap.mem_keys_ofList]
  simp

theorem ranking_start (hsucc : ∀ u ∈ nodes, ∀ t ∈ succ u, t ∈ nodes) {targets : List α}
    (htargets : targets.Perm (nodes.flatMap succ)) :
    Ranking succ nodes [] ((indegrees nodes targets).entries.filterMap fun e => if e.2 = 0 then some e.1 else none)
      (indegrees nodes targets) OrdMap.empty := by
  have hqueue : ((indegrees nodes targets).entries.filterMap fun e => if e.2 = 0 then some e.1 else none) =
      ((indegrees nodes targets).entries.filter fun e => e.2 = 0).map Prod.fst := by
    rw [← filterMap_eq_map, filterMap_filter]
    refine filterMap_congr fun e _ => ?_
    by_cases h : e.2 = 0 <;> simp [h]
  have hinside : ∀ t ∈ targets, t ∈ nodes := by
    intro t ht
    obtain ⟨u, hu, hedge⟩ := mem_flatMap.mp (htargets.subset ht)
    exact hsucc u hu t hedge
  refine ⟨fun v hv => mem_keys_indegrees.mpr (Or.inr hv), fun v d hd => ?_, by simp, ?_, fun v hv => ?_,
    fun v hv => ?_, fun v i hi => ?_⟩
  · have hcount := @getD_indegrees α _ nodes v targets
    rw [hd, Option.getD_some, htargets.count_eq, count_flatMap] at hcount
    simpa [waits, OrdMap.contains, Function.comp_def] using hcount
  · rw [hqueue]
    exact (OrdMap.nodup_keys _).sublist (filter_sublist.map Prod.fst)
  · rw [hqueue] at hv
    obtain ⟨⟨w, d⟩, he, rfl⟩ := mem_map.mp hv
    obtain ⟨hmem, hzero⟩ := mem_filter.mp he
    have hget := OrdMap.mem_entries.mp hmem
    refine ⟨?_, by simp [OrdMap.keys, OrdMap.empty], by simpa using of_decide_eq_true hzero ▸ hget⟩
    rcases mem_keys_indegrees.mp (OrdMap.mem_keys_of_get? hget) with h | h
    · exact hinside _ h
    · exact h
  · cases hv
  · cases hi

/-! What the loop comes to: no degree is lowered below zero, the queue runs empty within the fuel, the ranks are
the numbers from zero on, and only nodes on or behind a cycle stay without one. -/

def releaseChecked : List α → OrdMap α Nat → List α → Option (OrdMap α Nat × List α)
  | [], degree, queue => some (degree, queue)
  | t :: ts, degree, queue =>
    match degree.get? t with
    | none => releaseChecked ts degree queue
    | some 0 => none
    | some (d + 1) => releaseChecked ts (degree.insert t d) (if d = 0 then queue ++ [t] else queue)

def rankLoopChecked (succ : α → List α) : Nat → List α → OrdMap α Nat → OrdMap α Nat → Option (OrdMap α Nat)
  | _, [], _, ranks => some ranks
  | 0, _ :: _, _, _ => none
  | fuel + 1, x :: queue, degree, ranks =>
    (releaseChecked (succ x) degree queue).bind fun released =>
      rankLoopChecked succ fuel released.2 released.1 (ranks.insert x ranks.size)

def ranksChecked (succ : α → List α) (nodes targets : List α) (fuel : Nat) : Option (OrdMap α Nat) :=
  let degree := indegrees nodes targets
  rankLoopChecked succ fuel (degree.entries.filterMap fun e => if e.2 = 0 then some e.1 else none) degree OrdMap.empty

theorem Ranking.releaseChecked_eq (h : Ranking succ nodes rest queue degree ranked) :
    releaseChecked rest degree queue = some (Graph.release rest degree queue) := by
  induction rest generalizing degree queue with
  | nil => rfl
  | cons t ts ih =>
    obtain ⟨d, hd⟩ := h.degree_of_head
    obtain ⟨hpos, hnext⟩ := h.release_one hd
    obtain ⟨d, rfl⟩ := Nat.exists_eq_succ_of_ne_zero hpos.ne'
    rw [releaseChecked, Graph.release, hd]
    exact ih hnext

def Awake (nodes queue : List α) (degree ranked : OrdMap α Nat) : Prop :=
  ∀ v ∈ nodes, degree.get? v = some 0 → v ∈ ranked.keys ∨ v ∈ queue

theorem Awake.release (h : Awake nodes queue degree ranked) :
    Awake nodes (Graph.release rest degree queue).2 (Graph.release rest degree queue).1 ranked := by
  induction rest generalizing degree queue with
  | nil => exact h
  | cons t ts ih =>
    rw [Graph.release]
    split
    · exact ih h
    · rename_i d hd
      refine ih fun v hv hzero => ?_
      rw [OrdMap.get?_insert] at hzero
      split at hzero
      · rename_i hvt
        rw [if_pos (Option.some.inj hzero), hvt]
        exact .inr (mem_append_right _ (mem_singleton.mpr rfl))
      · refine (h v hv hzero).imp_right fun hqueue => ?_
        split
        · exact mem_append_left _ hqueue
        · exact hqueue

theorem Awake.rank (h : Awake nodes (x :: queue) degree ranked) {i : Nat} :
    Awake nodes queue degree (ranked.insert x i) := by
  intro v hv hzero
  rcases h v hv hzero with hranked | hqueue
  · exact .inl (OrdMap.mem_keys_insert.mpr (.inr hranked))
  · rcases mem_cons.mp hqueue with rfl | hqueue
    · exact .inl (OrdMap.mem_keys_insert.mpr (.inl rfl))
    · exact .inr hqueue

/-- The ranks given so far are the numbers below their count, each given once. -/
structure Numbered (ranked : OrdMap α Nat) : Prop where
  inj : ∀ u v i, ranked.get? u = some i → ranked.get? v = some i → u = v
  onto : ∀ i < ranked.size, ∃ v, ranked.get? v = some i
  lt : ∀ v i, ranked.get? v = some i → i < ranked.size

theorem numbered_empty : Numbered (OrdMap.empty : OrdMap α Nat) := by
  refine ⟨fun u v i hu => ?_, fun i hi => ?_, fun v i hv => ?_⟩
  · cases hu
  · cases hi
  · cases hv

theorem Numbered.rank (h : Numbered ranked) (hfresh : x ∉ ranked.keys) : Numbered (ranked.insert x ranked.size) := by
  have hother : ∀ v i, ranked.get? v = some i → v ≠ x := fun v i hv =>
    ne_of_mem_of_not_mem (OrdMap.mem_keys_of_get? hv) hfresh
  have hcases : ∀ v i, (ranked.insert x ranked.size).get? v = some i →
      (v = x ∧ i = ranked.size) ∨ ranked.get? v = some i := by
    intro v i hv
    rw [OrdMap.get?_insert] at hv
    split at hv
    · rename_i hvx
      cases hv
      exact .inl ⟨hvx, rfl⟩
    · exact .inr hv
  have hsize : (ranked.insert x ranked.size).size = ranked.size + 1 := OrdMap.size_insert hfresh
  refine ⟨fun u v i hu hv => ?_, fun i hi => ?_, fun v i hv => ?_⟩
  · rcases hcases u i hu with ⟨rfl, rfl⟩ | hu
    · rcases hcases v _ hv with ⟨rfl, -⟩ | hv
      · rfl
      · exact absurd (h.lt v _ hv) (Nat.lt_irrefl _)
    · rcases hcases v i hv with ⟨-, rfl⟩ | hv
      · exact absurd (h.lt u _ hu) (Nat.lt_irrefl _)
      · exact h.inj u v i hu hv
  · rw [hsize] at hi
    rcases Nat.lt_succ_iff_lt_or_eq.mp hi with hi | rfl
    · obtain ⟨v, hv⟩ := h.onto i hi
      exact ⟨v, by rw [OrdMap.get?_insert, if_neg (hother v i hv), hv]⟩
    · exact ⟨x, by rw [OrdMap.get?_insert, if_pos rfl]⟩
  · rw [hsize]
    rcases hcases v i hv with ⟨-, rfl⟩ | hv
    · exact Nat.lt_succ_self _
    · exact Nat.lt_succ_of_lt (h.lt v i hv)

theorem Ranking.subperm (h : Ranking succ nodes rest queue degree ranked) : ranked.keys.Subperm nodes :=
  List.Nodup.subperm (OrdMap.nodup_keys _) fun v hv => (h.settled v hv).1

theorem Ranking.size_lt (h : Ranking succ nodes rest (x :: queue) degree ranked) : ranked.size < nodes.length := by
  obtain ⟨hx, hfresh, -⟩ := h.queued x mem_cons_self
  have hsub : (x :: ranked.keys).Subperm nodes := by
    refine List.Nodup.subperm (nodup_cons.mpr ⟨hfresh, OrdMap.nodup_keys _⟩) fun v hv => ?_
    rcases mem_cons.mp hv with rfl | hv
    · exact hx
    · exact (h.settled v hv).1
  have hle := hsub.length_le
  rw [length_cons, OrdMap.size_keys] at hle
  omega

structure Finished (succ : α → List α) (nodes : List α) (ranked : OrdMap α Nat) : Prop where
  numbered : Numbered ranked
  ended : ∃ degree, Ranking succ nodes [] [] degree ranked ∧ Awake nodes [] degree ranked

theorem Ranking.finish (hnd : nodes.Nodup) (hsucc : ∀ u ∈ nodes, ∀ t ∈ succ u, t ∈ nodes) {fuel : Nat}
    (h : Ranking succ nodes [] queue degree ranked) (hawake : Awake nodes queue degree ranked)
    (hnumbered : Numbered ranked) (hfuel : nodes.length ≤ fuel + ranked.size) :
    rankLoopChecked succ fuel queue degree ranked = some (rankLoop succ fuel queue degree ranked) ∧
      Finished succ nodes (rankLoop succ fuel queue degree ranked) := by
  induction fuel generalizing queue degree ranked with
  | zero =>
    cases queue with
    | nil => exact ⟨by rw [rankLoopChecked, rankLoop], hnumbered, degree, h, hawake⟩
    | cons x queue => exact absurd h.size_lt (by omega)
  | succ fuel ih =>
    cases queue with
    | nil => exact ⟨by rw [rankLoopChecked, rankLoop], hnumbered, degree, h, hawake⟩
    | cons x queue =>
      have hfresh := (h.queued x mem_cons_self).2.1
      have hranked := h.rank hnd hsucc
      rw [rankLoopChecked, hranked.releaseChecked_eq, Option.bind_some, rankLoop]
      refine ih hranked.release hawake.rank.release (hnumbered.rank hfresh) ?_
      rw [OrdMap.size_insert hfresh]
      omega

theorem Finished.held (h : Finished succ nodes ranked) (hv : v ∈ nodes) (hr : v ∉ ranked.keys) :
    ∃ u ∈ nodes, u ∉ ranked.keys ∧ v ∈ succ u := by
  obtain ⟨degree, hranking, hawake⟩ := h.ended
  obtain ⟨d, hd⟩ := OrdMap.exists_get? (hranking.known v hv)
  have hcount := hranking.counted v d hd
  rw [count_nil, Nat.add_zero] at hcount
  by_contra hnone
  have hzero : waits succ nodes ranked v = 0 := by
    refine List.sum_eq_zero_iff_forall_eq_nat.mpr fun n hn => ?_
    obtain ⟨u, hu, rfl⟩ := List.mem_map.mp hn
    split
    · rfl
    · rename_i hopen
      refine count_eq_zero.mpr fun hedge => hnone ⟨u, hu, fun hkey => hopen ?_, hedge⟩
      exact OrdMap.isSome_get?.mpr hkey
  rw [hzero] at hcount
  rcases hawake v hv (hcount ▸ hd) with hkey | hqueue
  · exact hr hkey
  · cases hqueue

theorem Ranking.rank_above (hsucc : ∀ u ∈ nodes, ∀ t ∈ succ u, t ∈ nodes) (h : Ranking succ nodes rest queue degree ranked)
    {u : α} {j : Nat} (hu : u ∈ nodes) (hbelow : Below succ u v) (hv : ranked.get? v = some j) :
    ∃ i, ranked.get? u = some i ∧ i < j := by
  induction hbelow using TransGen.head_induction_on with
  | single hedge => exact (h.ordered v j hv).2 _ hu hedge
  | head hedge _ ih =>
    obtain ⟨i, hi, hij⟩ := ih (hsucc _ hu _ hedge)
    obtain ⟨k, hk, hki⟩ := (h.ordered _ i hi).2 _ hu hedge
    exact ⟨k, hk, hki.trans hij⟩

omit [LinearOrder α] in
theorem exists_top {P : α → Prop} (hacyclic : ∀ v ∈ nodes, ¬Below succ v v) (hv : v ∈ nodes) (hP : P v) :
    ∃ top ∈ nodes, P top ∧ ∀ u ∈ nodes, P u → ¬Below succ u top := by
  let above (a b : {x // x ∈ nodes}) : Prop := Below succ a.1 b.1
  have : Finite {x // x ∈ nodes} := (finite_toSet nodes).to_subtype
  have : IsTrans {x // x ∈ nodes} above := ⟨fun _ _ _ => TransGen.trans⟩
  have : Std.Irrefl above := ⟨fun a => hacyclic a.1 a.2⟩
  obtain ⟨top, htop, hleast⟩ := (Finite.wellFounded_of_trans_of_irrefl above).has_min {x | P x.1} ⟨⟨v, hv⟩, hP⟩
  exact ⟨top.1, top.2, htop, fun u hu hPu => hleast ⟨u, hu⟩ hPu⟩

theorem Finished.full_iff (h : Finished succ nodes ranked) (hnd : nodes.Nodup)
    (hsucc : ∀ u ∈ nodes, ∀ t ∈ succ u, t ∈ nodes) :
    ranked.size = nodes.length ↔ ∀ v ∈ nodes, ¬Below succ v v := by
  obtain ⟨degree, hranking, -⟩ := h.ended
  constructor
  · intro hfull v hv hcycle
    have hkeys : ranked.keys.Perm nodes := hranking.subperm.perm_of_length_le (by rw [OrdMap.size_keys, hfull])
    obtain ⟨i, hi⟩ := OrdMap.exists_get? (hkeys.symm.subset hv)
    obtain ⟨j, hj, hji⟩ := hranking.rank_above hsucc hv hcycle hi
    cases hi.symm.trans hj
    exact Nat.lt_irrefl _ hji
  · intro hacyclic
    have hall : nodes ⊆ ranked.keys := by
      intro v hv
      by_contra hr
      obtain ⟨top, htop, hopen, hleast⟩ := exists_top (P := (· ∉ ranked.keys)) hacyclic hv hr
      obtain ⟨u, hu, hrank, hedge⟩ := h.held htop hopen
      exact hleast u hu hrank (TransGen.single hedge)
    rw [← OrdMap.size_keys]
    exact (hranking.subperm.length_le).antisymm (hnd.subperm hall).length_le

theorem finished_ranks (hnd : nodes.Nodup) (hsucc : ∀ u ∈ nodes, ∀ t ∈ succ u, t ∈ nodes) {targets : List α}
    (htargets : targets.Perm (nodes.flatMap succ)) {fuel : Nat} (hfuel : nodes.length ≤ fuel) :
    ranksChecked succ nodes targets fuel = some (ranks succ nodes targets fuel) ∧
      Finished succ nodes (ranks succ nodes targets fuel) := by
  refine (ranking_start hsucc htargets).finish hnd hsucc (fun v _ hzero => .inr ?_) numbered_empty ?_
  · exact mem_filterMap.mpr ⟨(v, 0), OrdMap.mem_entries.mpr hzero, rfl⟩
  · exact hfuel.trans (Nat.le_add_right _ _)

theorem ranks_spec (hnd : nodes.Nodup) (hsucc : ∀ u ∈ nodes, ∀ t ∈ succ u, t ∈ nodes) {targets : List α}
    (htargets : targets.Perm (nodes.flatMap succ)) {fuel : Nat}
    (hfull : (ranks succ nodes targets fuel).size = nodes.length) :
    (∀ u ∈ nodes, ∃ i, (ranks succ nodes targets fuel).get? u = some i ∧ i < nodes.length) ∧
      ∀ u ∈ nodes, ∀ v ∈ succ u, ∀ i j, (ranks succ nodes targets fuel).get? u = some i →
        (ranks succ nodes targets fuel).get? v = some j → i < j := by
  obtain ⟨queue, degree, hinv⟩ : ∃ queue degree, Ranking succ nodes [] queue degree (ranks succ nodes targets fuel) :=
    (ranking_start hsucc htargets).loop hnd hsucc
  have hkeys : (ranks succ nodes targets fuel).keys.Perm nodes := by
    refine (List.Nodup.subperm (OrdMap.nodup_keys _) fun v hv => (hinv.settled v hv).1).perm_of_length_le ?_
    rw [OrdMap.size_keys, hfull]
  refine ⟨fun u hu => ?_, fun u hu v hedge i j hi hj => ?_⟩
  · obtain ⟨i, hi⟩ := OrdMap.exists_get? (hkeys.symm.subset hu)
    exact ⟨i, hi, hfull ▸ (hinv.ordered u i hi).1⟩
  · obtain ⟨i', hi', hlt⟩ := (hinv.ordered v j hj).2 u hu hedge
    have hsame : some i' = some i := hi'.symm.trans hi
    cases hsame
    exact hlt

end Ranking

/-! ### Depth-first search for a cycle -/

inductive Mark where
  | visiting
  | done
deriving DecidableEq

section Cycles

variable [DecidableEq α]

def exploreAll (explore : α → List (α × Mark) → Option (Option α × List (α × Mark))) :
    List α → List (α × Mark) → Option (Option α × List (α × Mark))
  | [], marks => some (none, marks)
  | x :: xs, marks =>
    match explore x marks with
    | some (none, marks) => exploreAll explore xs marks
    | result => result

/-- The search below a node, which finds a node it is already on the way down from; the fuel bounds the depth. -/
def explore (succ : α → List α) : Nat → α → List (α × Mark) → Option (Option α × List (α × Mark))
  | 0, _, _ => none
  | fuel + 1, x, marks =>
    match marks.lookup x with
    | some .visiting => some (some x, marks)
    | some .done => some (none, marks)
    | none =>
      match exploreAll (explore succ fuel) (succ x) ((x, .visiting) :: marks) with
      | some (none, marks) => some (none, (x, .done) :: marks)
      | result => result

variable {succ : α → List α} {xs all : List α} {x y : α} {mark : Mark} {marks marks' : List (α × Mark)}
  {visit : α → List (α × Mark) → Option (Option α × List (α × Mark))}

theorem lookup_mark : ((x, mark) :: marks).lookup y = if y = x then some mark else marks.lookup y := by
  rw [lookup_cons]
  by_cases h : y = x
  · simp [h]
  · rw [beq_false_of_ne h, if_neg h]

def Settled (succ : α → List α) (marks : List (α × Mark)) : Prop :=
  ∀ x, marks.lookup x = some .done → ¬Below succ x x ∧ ∀ y ∈ succ x, marks.lookup y = some .done

theorem Settled.below (h : Settled succ marks) (hx : marks.lookup x = some .done) (hbelow : Below succ x y) :
    marks.lookup y = some .done := by
  induction hbelow with
  | single hedge => exact (h x hx).2 _ hedge
  | tail _ hedge ih => exact (h _ ih).2 _ hedge

/-- After a visit that finds nothing: the same nodes are on the way down, and more are finished. -/
structure Quiet (succ : α → List α) (marks marks' : List (α × Mark)) : Prop where
  visiting : ∀ x, marks'.lookup x = some .visiting ↔ marks.lookup x = some .visiting
  done : ∀ x, marks.lookup x = some .done → marks'.lookup x = some .done
  settled : Settled succ marks'

theorem Quiet.trans {marks'' : List (α × Mark)} (h : Quiet succ marks marks') (h' : Quiet succ marks' marks'') :
    Quiet succ marks marks'' where
  visiting x := (h'.visiting x).trans (h.visiting x)
  done x hx := h'.done x (h.done x hx)
  settled := h'.settled

/-- What a visit of some nodes may come to: a node on a cycle, or all of them finished. -/
def Outcome (succ : α → List α) (xs : List α) (marks : List (α × Mark)) : Option α × List (α × Mark) → Prop
  | (some x, _) => Below succ x x
  | (none, marks') => Quiet succ marks marks' ∧ ∀ x ∈ xs, marks'.lookup x = some .done

/-- A visit of `x` is right where `x` lies below everything on the way down. -/
def Right (succ : α → List α) (visit : α → List (α × Mark) → Option (Option α × List (α × Mark))) : Prop :=
  ∀ x marks result, Settled succ marks → (∀ y, marks.lookup y = some .visiting → Below succ y x) →
    visit x marks = some result → Outcome succ [x] marks result

theorem Right.list (h : Right succ visit) {result : Option α × List (α × Mark)} (hsettled : Settled succ marks)
    (hdown : ∀ x ∈ xs, ∀ y, marks.lookup y = some .visiting → Below succ y x)
    (hall : exploreAll visit xs marks = some result) : Outcome succ xs marks result := by
  induction xs generalizing marks with
  | nil =>
    cases hall
    exact ⟨⟨fun _ => Iff.rfl, fun _ hx => hx, hsettled⟩, nofun⟩
  | cons x xs ih =>
    rw [exploreAll] at hall
    cases hvisit : visit x marks with
    | none =>
      rw [hvisit] at hall
      cases hall
    | some first =>
      have hfirst := h x marks first hsettled (hdown x mem_cons_self) hvisit
      rw [hvisit] at hall
      obtain ⟨found, marks'⟩ := first
      cases found with
      | some y =>
        cases hall
        exact hfirst
      | none =>
        obtain ⟨hquiet, hdone⟩ := hfirst
        have hrest := ih hquiet.settled
          (fun z hz y hy => hdown z (mem_cons_of_mem _ hz) y ((hquiet.visiting y).mp hy)) hall
        obtain ⟨found, marks''⟩ := result
        cases found with
        | some y => exact hrest
        | none =>
          obtain ⟨hquiet', hdone'⟩ := hrest
          refine ⟨hquiet.trans hquiet', fun z hz => ?_⟩
          rcases mem_cons.mp hz with rfl | hz
          · exact hquiet'.done z (hdone z mem_cons_self)
          · exact hdone' z hz

theorem right_explore (succ : α → List α) (fuel : Nat) : Right succ (explore succ fuel) := by
  induction fuel with
  | zero => nofun
  | succ fuel ih =>
    intro x marks result hsettled hdown h
    rw [explore] at h
    split at h
    · -- back at a node on the way down
      rename_i hvisiting
      cases h
      exact hdown x hvisiting
    · rename_i hdone
      cases h
      refine ⟨⟨fun _ => Iff.rfl, fun _ hy => hy, hsettled⟩, fun y hy => ?_⟩
      rwa [mem_singleton.mp hy]
    · rename_i hfresh
      have hentered : Settled succ ((x, .visiting) :: marks) := by
        intro y hy
        rw [lookup_mark] at hy
        split_ifs at hy with hyx
        · cases hy
        obtain ⟨hcycle, hnext⟩ := hsettled y hy
        refine ⟨hcycle, fun z hz => ?_⟩
        have hz := hnext z hz
        rw [lookup_mark, if_neg fun hzx => ?_]
        · exact hz
        · rw [hzx, hfresh] at hz
          cases hz
      have hnext : ∀ z ∈ succ x, ∀ y, ((x, Mark.visiting) :: marks).lookup y = some .visiting → Below succ y z := by
        intro z hz y hy
        rw [lookup_mark] at hy
        split_ifs at hy with hyx
        · exact hyx ▸ TransGen.single hz
        · exact (hdown y hy).tail hz
      split at h
      · rename_i marks' hsearch
        cases h
        obtain ⟨hquiet, hdone⟩ := ih.list hentered hnext hsearch
        have hstill : marks'.lookup x = some .visiting := (hquiet.visiting x).mpr (by rw [lookup_mark, if_pos rfl])
        refine ⟨⟨fun y => ?_, fun y hy => ?_, fun y hy => ?_⟩, fun y hy => ?_⟩
        · rw [lookup_mark]
          split_ifs with hyx
          · rw [hyx, hfresh]
            simp
          · rw [hquiet.visiting y, lookup_mark, if_neg hyx]
        · rw [lookup_mark]
          split_ifs with hyx
          · rfl
          · exact hquiet.done y (by rw [lookup_mark, if_neg hyx, hy])
        · -- what is finished below `x` does not lead back to `x`, which is not
          have hclosed : ∀ z, marks'.lookup z = some .done → ((x, Mark.done) :: marks').lookup z = some .done := by
            intro z hz
            rw [lookup_mark]
            split_ifs
            · rfl
            · exact hz
          rw [lookup_mark] at hy
          split_ifs at hy with hyx
          · subst hyx
            refine ⟨fun hcycle => ?_, fun z hz => hclosed z (hdone z hz)⟩
            obtain ⟨z, hedge, hback⟩ := TransGen.head'_iff.mp hcycle
            have hz : marks'.lookup z = some .done := hdone z hedge
            rcases Relation.reflTransGen_iff_eq_or_transGen.mp hback with rfl | hback
            · cases hz.symm.trans hstill
            · cases (hquiet.settled.below hz hback).symm.trans hstill
          · obtain ⟨hcycle, hrest⟩ := hquiet.settled y hy
            exact ⟨hcycle, fun z hz => hclosed z (hrest z hz)⟩
        · rw [mem_singleton.mp hy, lookup_mark, if_pos rfl]
      · rename_i hresult
        have hsearch := ih.list hentered hnext h
        obtain ⟨found, marks'⟩ := result
        cases found with
        | some y => exact hsearch
        | none => exact absurd h (hresult marks')

/-! The search ends: on the way down every step marks a node. -/

def Marking (visit : α → List (α × Mark) → Option (Option α × List (α × Mark))) : Prop :=
  ∀ x marks result, visit x marks = some result → marks.map Prod.fst ⊆ result.2.map Prod.fst

omit [DecidableEq α] in
theorem Marking.list (h : Marking visit) {result : Option α × List (α × Mark)}
    (hall : exploreAll visit xs marks = some result) : marks.map Prod.fst ⊆ result.2.map Prod.fst := by
  induction xs generalizing marks with
  | nil =>
    cases hall
    exact List.Subset.refl _
  | cons x xs ih =>
    rw [exploreAll] at hall
    cases hvisit : visit x marks with
    | none =>
      rw [hvisit] at hall
      cases hall
    | some first =>
      have hfirst := h x marks first hvisit
      rw [hvisit] at hall
      obtain ⟨found, marks'⟩ := first
      cases found with
      | some y =>
        cases hall
        exact hfirst
      | none => exact List.Subset.trans hfirst (ih hall)

theorem marking_explore (succ : α → List α) (fuel : Nat) : Marking (explore succ fuel) := by
  induction fuel with
  | zero => nofun
  | succ fuel ih =>
    intro x marks result h
    rw [explore] at h
    split at h
    · cases h
      exact List.Subset.refl _
    · cases h
      exact List.Subset.refl _
    · split at h
      · rename_i marks' hsearch
        cases h
        exact List.Subset.trans (subset_cons_self _ _) (List.Subset.trans (ih.list hsearch) (subset_cons_self _ _))
      · exact List.Subset.trans (subset_cons_self _ _) (ih.list h)

theorem unseen_le {seen seen' : List α} (h : seen ⊆ seen') : unseen all seen' ≤ unseen all seen := by
  refine List.Sublist.length_le (monotone_filter_right _ fun a ha => ?_)
  simp only [decide_eq_true_eq] at ha ⊢
  exact fun hseen => ha (h hseen)

theorem exploreAll_defined (hmarking : Marking visit) {bound : Nat}
    (hvisit : ∀ x ∈ xs, ∀ marks, unseen all (marks.map Prod.fst) ≤ bound → ∃ result, visit x marks = some result)
    (hbound : unseen all (marks.map Prod.fst) ≤ bound) : ∃ result, exploreAll visit xs marks = some result := by
  induction xs generalizing marks with
  | nil => exact ⟨_, rfl⟩
  | cons x xs ih =>
    obtain ⟨⟨found, marks'⟩, hfirst⟩ := hvisit x mem_cons_self marks hbound
    rw [exploreAll, hfirst]
    cases found with
    | some y => exact ⟨_, rfl⟩
    | none =>
      exact ih (fun z hz => hvisit z (mem_cons_of_mem _ hz)) ((unseen_le (hmarking x marks _ hfirst)).trans hbound)

theorem explore_defined (hclosed : ∀ x ∈ all, ∀ t ∈ succ x, t ∈ all) {fuel : Nat} (hx : x ∈ all)
    (hfuel : unseen all (marks.map Prod.fst) < fuel) : ∃ result, explore succ fuel x marks = some result := by
  induction fuel generalizing x marks with
  | zero => cases hfuel
  | succ fuel ih =>
    rw [explore]
    split
    · exact ⟨_, rfl⟩
    · exact ⟨_, rfl⟩
    · rename_i hfresh
      have hnew : x ∉ marks.map Prod.fst := by
        intro hmem
        obtain ⟨entry, hentry, rfl⟩ := mem_map.mp hmem
        have hne := lookup_eq_none_iff.mp hfresh entry hentry
        simp at hne
      have hless := unseen_cons hx hnew
      obtain ⟨result, hresult⟩ := @exploreAll_defined α _ (succ x) all ((x, .visiting) :: marks) _
        (marking_explore succ fuel) (unseen all (x :: marks.map Prod.fst))
        (fun t ht marks' hmarks => ih (hclosed x hx t ht) (by omega)) le_rfl
      rw [hresult]
      split
      · exact ⟨_, rfl⟩
      · exact ⟨_, rfl⟩

/-- From the nodes of a finite graph, none marked yet, the search ends: with a node on a cycle, or with nothing where
    the graph has no cycle. -/
theorem exploreAll_spec (hclosed : ∀ x ∈ all, ∀ t ∈ succ x, t ∈ all) {fuel : Nat} (hfuel : all.length < fuel) :
    ∃ found marks, exploreAll (explore succ fuel) all [] = some (found, marks) ∧
      (∀ x, found = some x → Below succ x x) ∧ (found = none → ∀ x ∈ all, ¬Below succ x x) := by
  have hstart : unseen all [] ≤ all.length := length_filter_le _ _
  obtain ⟨⟨found, marks⟩, hresult⟩ := @exploreAll_defined α _ all all [] _ (marking_explore succ fuel) (unseen all [])
    (fun x hx marks hmarks => explore_defined hclosed hx (by omega)) le_rfl
  refine ⟨found, marks, hresult, ?_⟩
  have houtcome := (right_explore succ fuel).list (nofun : Settled succ []) (fun x _ y hy => by cases hy) hresult
  cases found with
  | some y =>
    refine ⟨fun x hx => ?_, nofun⟩
    cases hx
    exact houtcome
  | none =>
    obtain ⟨hquiet, hdone⟩ := houtcome
    exact ⟨nofun, fun _ x hx => (hquiet.settled x (hdone x hx)).1⟩

end Cycles

end Graph

/-! Chains of edges. An edge is a pair of its ends; a list of edges leads from one point to another when each
    edge starts where the one before it ends. A walk follows a chain that never leaves a final point. -/

namespace Path

open List

variable {α : Type}

/-- The edges lead from `s` to `t`, one after the other. -/
def Chain (s : α) : List (α × α) → α → Prop
  | [], t => s = t
  | (x, y) :: rest, t => s = x ∧ Chain y rest t

instance [DecidableEq α] : ∀ (es : List (α × α)) (s t : α), Decidable (Chain s es t)
  | [], s, t => inferInstanceAs (Decidable (s = t))
  | (x, y) :: rest, s, t =>
    have : Decidable (Chain y rest t) := instDecidableChainOfDecidableEq rest y t
    inferInstanceAs (Decidable (s = x ∧ Chain y rest t))

variable {s t m : α} {es fs : List (α × α)}

@[simp] theorem chain_nil : Chain s [] t ↔ s = t := Iff.rfl

@[simp] theorem chain_cons {x y : α} : Chain s ((x, y) :: es) t ↔ s = x ∧ Chain y es t := Iff.rfl

theorem chain_append : Chain s (es ++ fs) t ↔ ∃ m, Chain s es m ∧ Chain m fs t := by
  induction es generalizing s with
  | nil => simp
  | cons e rest ih =>
    obtain ⟨x, y⟩ := e
    simp only [cons_append, chain_cons, ih]
    constructor
    · rintro ⟨hx, m, hm, ht⟩
      exact ⟨m, ⟨hx, hm⟩, ht⟩
    · rintro ⟨m, ⟨hx, hm⟩, ht⟩
      exact ⟨hx, m, hm, ht⟩

theorem Chain.trans (h : Chain s es m) (h' : Chain m fs t) : Chain s (es ++ fs) t := chain_append.mpr ⟨m, h, h'⟩

theorem Chain.unique (h : Chain s es t) (h' : Chain s es m) : t = m := by
  induction es generalizing s with
  | nil => exact h.symm.trans h'
  | cons e rest ih => exact ih h.2 h'.2

theorem Chain.append_iff (h : Chain s es m) : Chain s (es ++ fs) t ↔ Chain m fs t := by
  constructor
  · intro hall
    obtain ⟨m', hm', ht⟩ := chain_append.mp hall
    rw [h.unique hm']
    exact ht
  · exact h.trans

/-! ### Walks -/

section

variable [DecidableEq α] {final : α → Bool}

/-- Follows edges as long as each starts at the present point and that point is not final. -/
def walk (final : α → Bool) (s : α) : List (α × α) → Option α
  | [] => some s
  | (x, y) :: rest => if s = x ∧ final s = false then walk final y rest else none

theorem walk_append : walk final s (es ++ fs) = (walk final s es).bind fun m => walk final m fs := by
  induction es generalizing s with
  | nil => rfl
  | cons e rest ih =>
    obtain ⟨x, y⟩ := e
    simp only [cons_append, walk]
    split
    · exact ih
    · rfl

theorem walk_eq_some_iff : walk final s es = some t ↔ Chain s es t ∧ ∀ e ∈ es, final e.1 = false := by
  induction es generalizing s with
  | nil => simp [walk]
  | cons e rest ih =>
    obtain ⟨x, y⟩ := e
    simp only [walk, chain_cons, forall_mem_cons]
    constructor
    · intro h
      split at h
      · rename_i hstart
        obtain ⟨rfl, hlive⟩ := hstart
        obtain ⟨hchain, hrest⟩ := ih.mp h
        exact ⟨⟨rfl, hchain⟩, hlive, hrest⟩
      · cases h
    · rintro ⟨⟨rfl, hchain⟩, hlive, hrest⟩
      rw [if_pos ⟨rfl, hlive⟩]
      exact ih.mpr ⟨hchain, hrest⟩

theorem walk_of_loops (h : ∀ e ∈ es, e = (s, s) ∧ final s = false) : walk final s es = some s := by
  induction es with
  | nil => rfl
  | cons e rest ih =>
    rw [forall_mem_cons] at h
    obtain ⟨⟨rfl, hlive⟩, hrest⟩ := h
    simp only [walk, hlive, and_self, if_true]
    exact ih hrest

end

end Path
