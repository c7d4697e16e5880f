import Mathlib.Data.List.Basic

/-! Closing a set of positions over links between them: the set is a list of flags, and passes over the list
    set the flags that a set one links to until a pass changes nothing. -/

namespace Closure

open List

inductive Reached (links : Nat → List Nat) (start : Nat → Prop) : Nat → Prop where
  | start {i : Nat} (h : start i) : Reached links start i
  | link {i j : Nat} (h : Reached links start i) (hj : j ∈ links i) : Reached links start j

def On (flags : List Bool) (i : Nat) : Prop := flags.getD i false = true

instance (flags : List Bool) (i : Nat) : Decidable (On flags i) := inferInstanceAs (Decidable (_ = true))

def mark (state : List Bool × Bool) (partner : Nat) : List Bool × Bool :=
  if state.1.getD partner true then state else (state.1.set partner true, true)

def visit (links : Nat → List Nat) (state : List Bool × Bool) (index : Nat) : List Bool × Bool :=
  if On state.1 index then (links index).foldl mark state else state

def pass (links : Nat → List Nat) (flags : List Bool) : List Bool × Bool :=
  (List.range flags.length).foldl (visit links) (flags, false)

/-- Passes until one changes nothing; each pass but the last sets a flag. -/
def close (links : Nat → List Nat) : Nat → List Bool → List Bool
  | 0, flags => flags
  | fuel + 1, flags =>
    let after := pass links flags
    if after.2 then close links fuel after.1 else after.1

variable {links : Nat → List Nat} {flags : List Bool} {state next : List Bool × Bool} {i p : Nat}

/-! ### What one step of a pass does -/

theorem On.lt (h : On flags i) : i < flags.length := by
  by_contra hlen
  simp [On, getD_eq_getElem?_getD, List.getElem?_eq_none (Nat.le_of_not_lt hlen)] at h

theorem on_set (hp : p < flags.length) : On (flags.set p true) i ↔ i = p ∨ On flags i := by
  unfold On
  by_cases hi : i = p
  · subst hi
    simp [getD_eq_getElem?_getD, hp]
  · simp [getD_eq_getElem?_getD, List.getElem?_set_ne (Ne.symm hi), hi]

/-- `next` has the flags of `state` and more of them, all reached; the report says whether there are more. -/
structure Grown (links : Nat → List Nat) (start : Nat → Prop) (state next : List Bool × Bool) : Prop where
  length : next.1.length = state.1.length
  kept : ∀ i, On state.1 i → On next.1 i
  reached : (∀ i, On state.1 i → Reached links start i) → ∀ i, On next.1 i → Reached links start i
  quiet : next.2 = false → next = state
  spent : next = state ∨ next.1.count true > state.1.count true

theorem Grown.refl {start : Nat → Prop} : Grown links start state state :=
  ⟨rfl, fun _ h => h, fun h => h, fun _ => rfl, Or.inl rfl⟩

theorem Grown.trans {start : Nat → Prop} {last : List Bool × Bool} (h : Grown links start state next)
    (h' : Grown links start next last) : Grown links start state last := by
  refine ⟨h'.length.trans h.length, fun i hi => h'.kept i (h.kept i hi), fun hs => h'.reached (h.reached hs), ?_, ?_⟩
  · intro hquiet
    have hnext := h'.quiet hquiet
    rw [hnext]
    exact h.quiet (hnext ▸ hquiet)
  · rcases h'.spent with rfl | hmore
    · exact h.spent
    · rcases h.spent with rfl | hmore'
      · exact Or.inr hmore
      · exact Or.inr (by omega)

theorem count_set (hp : p < flags.length) (hoff : flags.getD p true = false) :
    (flags.set p true).count true = flags.count true + 1 := by
  have hget : flags[p] = false := by simpa [List.getD_eq_getElem?_getD, hp] using hoff
  rw [List.count_set hp]
  simp [hget]

theorem grown_mark {start : Nat → Prop} (hp : (∀ i, On state.1 i → Reached links start i) → Reached links start p) :
    Grown links start state (mark state p) := by
  unfold mark
  split
  · exact Grown.refl
  · rename_i hoff
    have hlt : p < state.1.length := by
      by_contra hlen
      simp [getD_eq_getElem?_getD, List.getElem?_eq_none (Nat.le_of_not_lt hlen)] at hoff
    have hoff' : state.1.getD p true = false := by simpa using hoff
    refine ⟨by simp, fun i hi => (on_set hlt).mpr (Or.inr hi), ?_, nofun, Or.inr ?_⟩
    · intro hs i hi
      rcases (on_set hlt).mp hi with rfl | hi
      · exact hp hs
      · exact hs i hi
    · have := count_set hlt hoff'
      dsimp only
      omega

theorem grown_marks {start : Nat → Prop} {partners : List Nat}
    (hp : ∀ p ∈ partners, (∀ i, On state.1 i → Reached links start i) → Reached links start p) :
    Grown links start state (partners.foldl mark state) := by
  induction partners generalizing state with
  | nil => exact Grown.refl
  | cons p partners ih =>
    obtain ⟨hfirst, hrest⟩ := forall_mem_cons.mp hp
    have hmark := grown_mark hfirst
    refine hmark.trans (ih fun q hq hs => hrest q hq fun i hi => hs i (hmark.kept i hi))

theorem grown_visit {start : Nat → Prop} : Grown links start state (visit links state i) := by
  unfold visit
  split
  · rename_i hon
    exact grown_marks fun p hp hs => .link (hs i hon) hp
  · exact Grown.refl

theorem grown_visits {start : Nat → Prop} (indexes : List Nat) :
    Grown links start state (indexes.foldl (visit links) state) := by
  induction indexes generalizing state with
  | nil => exact Grown.refl
  | cons i indexes ih => exact grown_visit.trans ih

/-! ### A pass that changes nothing has found the links closed -/

theorem marks_quiet (links : Nat → List Nat) {partners : List Nat} (h : (partners.foldl mark state).2 = false) (hp : p ∈ partners) :
    state.1.getD p true = true := by
  induction partners generalizing state with
  | nil => cases hp
  | cons q partners ih =>
    have hrest : Grown links (fun _ => True) (mark state q) (partners.foldl mark (mark state q)) :=
      grown_marks fun _ _ _ => .start trivial
    have hmark : (mark state q).2 = false := by rw [← hrest.quiet h]; exact h
    by_cases hq : state.1.getD q true = true
    · rw [foldl_cons, mark, if_pos hq] at h
      rcases mem_cons.mp hp with rfl | hp
      · exact hq
      · exact ih h hp
    · simp only [mark, hq, Bool.false_eq_true, if_false, Bool.true_eq_false] at hmark

theorem visits_quiet {indexes : List Nat} (h : (indexes.foldl (visit links) state).2 = false) (hi : i ∈ indexes)
    (hon : On state.1 i) (hp : p ∈ links i) : state.1.getD p true = true := by
  induction indexes generalizing state with
  | nil => cases hi
  | cons j indexes ih =>
    have hvisit : visit links state j = state := by
      have hrest : Grown links (fun _ => True) (visit links state j) (indexes.foldl (visit links) (visit links state j)) :=
        grown_visits indexes
      have hfirst : Grown links (fun _ => True) state (visit links state j) := grown_visit
      rw [foldl_cons] at h
      exact hfirst.quiet (by rw [← hrest.quiet h]; exact h)
    rcases mem_cons.mp hi with rfl | hi
    · rw [visit, if_pos hon] at hvisit
      have hquiet : ((links i).foldl mark state).2 = false := by
        rw [foldl_cons, visit, if_pos hon, hvisit] at h
        rw [hvisit]
        have hrest : Grown links (fun _ => True) state (indexes.foldl (visit links) state) := grown_visits indexes
        rw [← hrest.quiet h]
        exact h
      exact marks_quiet links hquiet hp
    · rw [foldl_cons, hvisit] at h
      exact ih h hi hon

/-! ### The closure -/

theorem count_le_length (flags : List Bool) : flags.count true ≤ flags.length := List.count_le_length

theorem on_close_iff {start : Nat → Prop} {fuel : Nat} (hlinks : ∀ i < flags.length, ∀ p ∈ links i, p < flags.length)
    (hstart : ∀ i, start i → On flags i) (hflags : ∀ i, On flags i → Reached links start i)
    (hfuel : flags.length < fuel + flags.count true) :
    On (close links fuel flags) i ↔ Reached links start i := by
  induction fuel generalizing flags with
  | zero => exact absurd hfuel (by have := count_le_length flags; omega)
  | succ fuel ih =>
    have hpass : Grown links start (flags, false) (pass links flags) := grown_visits _
    simp only [close]
    split
    · rename_i hchanged
      apply ih
      · simpa only [hpass.length] using hlinks
      · exact fun i hi => hpass.kept i (hstart i hi)
      · exact hpass.reached hflags
      · rcases hpass.spent with hsame | hmore
        · rw [hsame] at hchanged
          cases hchanged
        · rw [hpass.length]
          dsimp only at hmore ⊢
          omega
    · rename_i hchanged
      have hquiet : (pass links flags).2 = false := by simpa using hchanged
      rw [hpass.quiet hquiet]
      refine ⟨hflags i, fun hreached => ?_⟩
      clear ih
      induction hreached with
      | start h => exact hstart _ h
      | link _ hj hon =>
        have hget := visits_quiet hquiet (mem_range.mpr (On.lt hon)) hon hj
        have hlt := hlinks _ (On.lt hon) _ hj
        simpa [On, getD_eq_getElem?_getD, hlt] using hget

theorem close_length (fuel : Nat) : (close links fuel flags).length = flags.length := by
  induction fuel generalizing flags with
  | zero => rfl
  | succ fuel ih =>
    have hpass : Grown links (fun _ => True) (flags, false) (pass links flags) := grown_visits _
    simp only [close]
    split
    · rw [ih, hpass.length]
    · exact hpass.length

end Closure
