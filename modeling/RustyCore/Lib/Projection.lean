import RustyCore.Lib.Machine

/-! Projections: a record folded from what a machine puts out, beside a view of the machine's own states. From
    every point of a run the record can be carried on to every later point exactly when each step of the run
    puts out what leads from the view before it to the view after it. -/

/-- What one output does to a record; an output may not fit a record. -/
structure Projection (ν ε : Type) where
  note : ν → ε → Option ν

namespace Projection

open List

variable {ν ε : Type} {p : Projection ν ε} {v w : ν} {es fs : List ε}

def follow (p : Projection ν ε) (v : ν) : List ε → Option ν
  | [] => some v
  | e :: es => (p.note v e).bind fun w => p.follow w es

@[simp] theorem follow_nil : p.follow v [] = some v := rfl

theorem follow_append : p.follow v (es ++ fs) = (p.follow v es).bind fun w => p.follow w fs := by
  induction es generalizing v with
  | nil => rfl
  | cons e es ih =>
    simp only [cons_append, follow, Option.bind_assoc]
    congr 1
    funext w
    exact ih

theorem follow_trans (h : p.follow v es = some w) : p.follow v (es ++ fs) = p.follow w fs := by
  rw [follow_append, h]
  rfl

/-- Outputs that no record takes notice of. -/
def Ignores (p : Projection ν ε) (e : ε) : Prop := ∀ v, p.note v e = some v

theorem follow_of_ignores (h : ∀ e ∈ es, p.Ignores e) : p.follow v es = some v := by
  induction es with
  | nil => rfl
  | cons e es ih =>
    rw [forall_mem_cons] at h
    rw [follow, h.1 v]
    exact ih h.2

theorem follow_filter {q : ε → Bool} (h : ∀ e, q e = false → p.Ignores e) :
    p.follow v (es.filter q) = p.follow v es := by
  induction es generalizing v with
  | nil => rfl
  | cons e es ih =>
    cases hq : q e with
    | true =>
      rw [filter_cons_of_pos hq, follow, follow]
      congr 1
      funext w
      exact ih
    | false =>
      rw [filter_cons_of_neg (by simp [hq]), follow, h e hq v]
      exact ih

/-- The projection of what `f` reads off the outputs. -/
def comap {δ : Type} (p : Projection ν ε) (f : δ → ε) : Projection ν δ := ⟨fun v d => p.note v (f d)⟩

theorem follow_comap {δ : Type} {f : δ → ε} {ds : List δ} : (p.comap f).follow v ds = p.follow v (ds.map f) := by
  induction ds generalizing v with
  | nil => rfl
  | cons d ds ih =>
    rw [map_cons, follow, follow]
    congr 1
    funext w
    exact ih

section

variable {σ ι : Type} {m : Machine σ ι ε} {view : σ → ν} {s : σ} {is : List ι}

/-- The outputs of one step lead from the view before it to the view after it. -/
def Tracks (p : Projection ν ε) (view : σ → ν) (st : Machine.Step σ ι ε) : Prop :=
  p.follow (view st.pre) st.out = some (view st.post)

theorem follow_output (h : ∀ st ∈ m.trace s is, p.Tracks view st) :
    p.follow (view s) (m.output s is) = some (view (m.run s is)) := by
  induction is generalizing s with
  | nil => rfl
  | cons i is ih =>
    rw [Machine.trace_cons, forall_mem_cons] at h
    rw [Machine.output, Machine.trace_cons, flatMap_cons]
    exact (follow_trans h.1).trans (ih h.2)

/-- From every point of a run the record is carried on to the view at every later point exactly when each
    step is tracked. -/
theorem follow_output_iff :
    (∀ early middle late, is = early ++ (middle ++ late) →
      p.follow (view (m.run s early)) (m.output (m.run s early) middle) = some (view (m.run (m.run s early) middle))) ↔
      ∀ st ∈ m.trace s is, p.Tracks view st := by
  induction is generalizing s with
  | nil =>
    refine iff_of_true ?_ (fun st hst => absurd hst not_mem_nil)
    intro early middle late heq
    obtain ⟨rfl, htail⟩ := append_eq_nil_iff.mp heq.symm
    obtain ⟨rfl, -⟩ := append_eq_nil_iff.mp htail
    rfl
  | cons i is ih =>
    rw [Machine.trace_cons, forall_mem_cons]
    constructor
    · intro h
      refine ⟨?_, ih.mp fun early middle late heq => h (i :: early) middle late (by rw [heq]; rfl)⟩
      have hfirst := h [] [i] is rfl
      simpa [Machine.output, Tracks, Machine.stepAt] using hfirst
    · rintro ⟨hfirst, hrest⟩ early middle late heq
      cases early with
      | nil =>
        refine follow_output fun st hst => ?_
        cases middle with
        | nil => exact absurd hst not_mem_nil
        | cons j middle =>
          obtain ⟨rfl, htail⟩ := List.cons.inj heq
          rw [Machine.trace_cons] at hst
          rcases mem_cons.mp hst with rfl | hst
          · exact hfirst
          · refine hrest st ?_
            rw [show is = middle ++ late from htail, Machine.trace_append]
            exact mem_append_left _ hst
      | cons j early =>
        obtain ⟨rfl, htail⟩ := List.cons.inj heq
        exact ih.mpr hrest early middle late htail

end

end Projection
