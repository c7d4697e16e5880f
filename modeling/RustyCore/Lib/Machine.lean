/-! A deterministic machine that answers each input with a list of outputs: its runs, the steps of a run,
    its reachable states, monitors that watch it, and the rules that lift a fact about one step to a whole
    run. -/

structure Machine (σ ι ε : Type) where
  step : σ → ι → σ × List ε

namespace Machine

open List

variable {σ ι ε : Type} (m : Machine σ ι ε)

structure Step (σ ι ε : Type) where
  pre : σ
  input : ι
  out : List ε
  post : σ

def stepAt (s : σ) (i : ι) : Step σ ι ε := ⟨s, i, (m.step s i).2, (m.step s i).1⟩

def run (s : σ) : List ι → σ
  | [] => s
  | i :: is => run (m.step s i).1 is

def trace (s : σ) : List ι → List (Step σ ι ε)
  | [] => []
  | i :: is => m.stepAt s i :: trace (m.step s i).1 is

def output (s : σ) (is : List ι) : List ε := (m.trace s is).flatMap (·.out)

def Always (P : σ → Prop) (s : σ) (is : List ι) : Prop := ∀ before after, is = before ++ after → P (m.run s before)

inductive Reachable (init : σ → Prop) : σ → Prop
  | start {s : σ} (h : init s) : Reachable init s
  | step {s : σ} (hr : Reachable init s) (i : ι) : Reachable init (m.step s i).1

/-- The machine with a monitor beside it, which sees every step and keeps a record of its own. -/
def monitor {μ : Type} (watch : Step σ ι ε → μ → μ) : Machine (σ × μ) ι ε where
  step s i := (((m.step s.1 i).1, watch (m.stepAt s.1 i) s.2), (m.step s.1 i).2)

variable {m}

@[simp] theorem run_nil {s : σ} : m.run s [] = s := rfl

@[simp] theorem run_cons {s : σ} {i : ι} {is : List ι} : m.run s (i :: is) = m.run (m.step s i).1 is := rfl

@[simp] theorem trace_nil {s : σ} : m.trace s [] = [] := rfl

@[simp] theorem trace_cons {s : σ} {i : ι} {is : List ι} :
    m.trace s (i :: is) = m.stepAt s i :: m.trace (m.step s i).1 is := rfl

theorem run_append {s : σ} {is js : List ι} : m.run s (is ++ js) = m.run (m.run s is) js := by
  induction is generalizing s with
  | nil => rfl
  | cons i is ih => exact ih

theorem trace_append {s : σ} {is js : List ι} : m.trace s (is ++ js) = m.trace s is ++ m.trace (m.run s is) js := by
  induction is generalizing s with
  | nil => rfl
  | cons i is ih => exact congrArg (m.stepAt s i :: ·) ih

theorem Reachable.run {init : σ → Prop} {s : σ} (hr : m.Reachable init s) (is : List ι) :
    m.Reachable init (m.run s is) := by
  induction is generalizing s with
  | nil => exact hr
  | cons i is ih => exact ih (hr.step i)

theorem outs_map {g : σ → σ} (hg : ∀ s i, m.step (g s) i = (g (m.step s i).1, (m.step s i).2)) (s : σ) (is : List ι) :
    (m.trace (g s) is).map (·.out) = (m.trace s is).map (·.out) := by
  induction is generalizing s with
  | nil => rfl
  | cons i is ih =>
    have hout : (m.stepAt (g s) i).out = (m.stepAt s i).out := congrArg (·.2) (hg s i)
    rw [trace_cons, trace_cons, map_cons, map_cons, hout, hg, ih]

theorem Reachable.mem_trace {init : σ → Prop} {s : σ} (hr : m.Reachable init s) {is : List ι} {st : Step σ ι ε}
    (h : st ∈ m.trace s is) : m.Reachable init st.pre ∧ st = m.stepAt st.pre st.input := by
  induction is generalizing s with
  | nil => cases h
  | cons i is ih =>
    rcases mem_cons.mp h with rfl | h
    · exact ⟨hr, rfl⟩
    · exact ih (hr.step i) h

theorem Reachable.invariant {init P : σ → Prop} (h0 : ∀ s, init s → P s)
    (hstep : ∀ s i, P s → P (m.step s i).1) {s : σ} (hr : m.Reachable init s) : P s := by
  induction hr with
  | start h => exact h0 _ h
  | step _ i ih => exact hstep _ i ih

theorem input_mem {s : σ} {is : List ι} {st : Step σ ι ε} (h : st ∈ m.trace s is) : st.input ∈ is := by
  induction is generalizing s with
  | nil => cases h
  | cons i is ih =>
    rcases mem_cons.mp h with rfl | h
    · exact mem_cons_self
    · exact mem_cons_of_mem _ (ih h)

/-- In a run all of whose steps satisfy `cond`, an invariant of such steps holds before each step, and so
    does whatever follows from it for the step. -/
theorem trace_rule {P : σ → Prop} {cond good : Step σ ι ε → Prop}
    (hstep : ∀ s i, P s → cond (m.stepAt s i) → P (m.step s i).1 ∧ good (m.stepAt s i)) {s : σ} (hs : P s)
    {is : List ι} (hcond : ∀ st ∈ m.trace s is, cond st) : ∀ st ∈ m.trace s is, good st := by
  induction is generalizing s with
  | nil =>
    intro st hst
    cases hst
  | cons i is ih =>
    rw [trace_cons, forall_mem_cons] at hcond ⊢
    obtain ⟨hnext, hgood⟩ := hstep s i hs hcond.1
    exact ⟨hgood, ih hnext hcond.2⟩

theorem trace_invariant {P : σ → Prop} {good : Step σ ι ε → Prop}
    (hstep : ∀ s i, P s → P (m.step s i).1 ∧ good (m.stepAt s i)) {s : σ} (hs : P s) {is : List ι} :
    ∀ st ∈ m.trace s is, good st :=
  @trace_rule σ ι ε m P (fun _ => True) good (fun s i h _ => hstep s i h) s hs is fun _ _ => trivial

/-- An invariant of the steps that satisfy `cond` holds after a run of such steps. -/
theorem run_rule {P : σ → Prop} {cond : Step σ ι ε → Prop}
    (hstep : ∀ s i, P s → cond (m.stepAt s i) → P (m.step s i).1) {s : σ} (hs : P s) {is : List ι}
    (hcond : ∀ st ∈ m.trace s is, cond st) : P (m.run s is) := by
  induction is generalizing s with
  | nil => exact hs
  | cons i is ih =>
    rw [trace_cons, forall_mem_cons] at hcond
    exact ih (hstep s i hs hcond.1) hcond.2

/-- What a watcher has made of the steps of a run, and the state after it, stay related where each step keeps
    them so. -/
theorem fold_rule {μ : Type} {I : μ → σ → Prop} {watch : μ → Step σ ι ε → μ} {cond : Step σ ι ε → Prop}
    (hstep : ∀ n s i, I n s → cond (m.stepAt s i) → I (watch n (m.stepAt s i)) (m.step s i).1) {n : μ} {s : σ}
    (hs : I n s) {is : List ι} (hcond : ∀ st ∈ m.trace s is, cond st) :
    I ((m.trace s is).foldl watch n) (m.run s is) := by
  induction is generalizing n s with
  | nil => exact hs
  | cons i is ih =>
    rw [trace_cons, forall_mem_cons] at hcond
    exact ih (hstep n s i hs hcond.1) hcond.2

/-- Where each counted step uses up one of `n`, and no step adds to it, at most `n` steps of a run are counted. -/
theorem count_rule {I : Nat → σ → Prop} {cond : ι → Prop} {p : Step σ ι ε → Bool}
    (hstep : ∀ n s i, I n s → cond i → ∃ k, I k (m.step s i).1 ∧ k + (p (m.stepAt s i)).toNat ≤ n)
    {n : Nat} {s : σ} (hs : I n s) {is : List ι} (hcond : ∀ i ∈ is, cond i) : (m.trace s is).countP p ≤ n := by
  induction is generalizing n s with
  | nil => exact Nat.zero_le n
  | cons i is ih =>
    obtain ⟨hfirst, hrest⟩ := forall_mem_cons.mp hcond
    obtain ⟨k, hk, hle⟩ := hstep n s i hs hfirst
    have htail := ih hk hrest
    rw [trace_cons, countP_cons]
    cases hp : p (m.stepAt s i) <;> simp [hp] at hle ⊢ <;> omega

theorem always_nil {P : σ → Prop} {s : σ} : m.Always P s [] ↔ P s := by
  refine ⟨fun h => h [] [] rfl, fun h before after heq => ?_⟩
  obtain ⟨rfl, -⟩ := append_eq_nil_iff.mp heq.symm
  exact h

theorem always_cons {P : σ → Prop} {s : σ} {i : ι} {is : List ι} :
    m.Always P s (i :: is) ↔ P s ∧ m.Always P (m.step s i).1 is := by
  constructor
  · exact fun h => ⟨h [] _ rfl, fun before after heq => h (i :: before) after (by rw [heq]; rfl)⟩
  · rintro ⟨hs, hrest⟩ before after heq
    cases before with
    | nil => exact hs
    | cons j before =>
      obtain ⟨rfl, htail⟩ := List.cons.inj heq
      exact hrest before after htail

/-- What follows from an invariant of the steps that satisfy `cond` holds in every state of a run of such steps. -/
theorem always_rule {I P : σ → Prop} {cond : Step σ ι ε → Prop}
    (hstep : ∀ s i, I s → cond (m.stepAt s i) → I (m.step s i).1) (hgood : ∀ s, I s → P s) {s : σ} (hs : I s)
    {is : List ι} (hcond : ∀ st ∈ m.trace s is, cond st) : m.Always P s is := by
  induction is generalizing s with
  | nil => exact always_nil.mpr (hgood s hs)
  | cons i is ih =>
    rw [trace_cons, forall_mem_cons] at hcond
    exact always_cons.mpr ⟨hgood s hs, ih (hstep s i hs hcond.1) hcond.2⟩

/-- Where an invariant is kept by every step that is not bad, and a bad step leads out of `P`, the states of a
    run all satisfy `P` exactly if no step of it is bad. -/
theorem always_iff {I P : σ → Prop} {bad : Step σ ι ε → Prop}
    (hstep : ∀ s i, I s → ¬ bad (m.stepAt s i) → I (m.step s i).1) (hgood : ∀ s, I s → P s)
    (hbad : ∀ s i, I s → bad (m.stepAt s i) → ¬ P (m.step s i).1) {s : σ} (hs : I s) {is : List ι} :
    m.Always P s is ↔ ∀ st ∈ m.trace s is, ¬ bad st := by
  induction is generalizing s with
  | nil =>
    rw [always_nil]
    exact iff_of_true (hgood s hs) (fun st hst => by cases hst)
  | cons i is ih =>
    rw [always_cons, trace_cons, forall_mem_cons]
    constructor
    · rintro ⟨-, hrest⟩
      have hfirst : ¬ bad (m.stepAt s i) := fun h => hbad s i hs h (hrest [] is rfl)
      exact ⟨hfirst, (ih (hstep s i hs hfirst)).mp hrest⟩
    · rintro ⟨hfirst, hrest⟩
      exact ⟨hgood s hs, (ih (hstep s i hs hfirst)).mpr hrest⟩

/-- Where an invariant makes two properties of the outputs agree, and is kept by every step whose outputs have
    them, the outputs of a run have both or neither. -/
theorem output_iff {I : σ → Prop} {good cond : ε → Prop}
    (hstep : ∀ s i, I s → (∀ e ∈ (m.step s i).2, good e ↔ cond e) ∧
      ((∀ e ∈ (m.step s i).2, good e) → I (m.step s i).1)) {s : σ} (hs : I s) {is : List ι} :
    (∀ e ∈ m.output s is, good e) ↔ ∀ e ∈ m.output s is, cond e := by
  induction is generalizing s with
  | nil => exact iff_of_true (fun e he => absurd he not_mem_nil) (fun e he => absurd he not_mem_nil)
  | cons i is ih =>
    obtain ⟨hagree, hkeep⟩ := hstep s i hs
    have hfirst : (∀ e ∈ (m.step s i).2, good e) ↔ ∀ e ∈ (m.step s i).2, cond e :=
      forall₂_congr hagree
    rw [output, trace_cons, flatMap_cons, forall_mem_append, forall_mem_append]
    constructor
    · rintro ⟨hgood, hrest⟩
      exact ⟨hfirst.mp hgood, (ih (hkeep hgood)).mp hrest⟩
    · rintro ⟨hcond, hrest⟩
      exact ⟨hfirst.mpr hcond, (ih (hkeep (hfirst.mpr hcond))).mpr hrest⟩

theorem trace_split {s : σ} {is : List ι} {before after : List (Step σ ι ε)} {st : Step σ ι ε}
    (h : m.trace s is = before ++ st :: after) :
    ∃ is₁ i is₂, is = is₁ ++ i :: is₂ ∧ before = m.trace s is₁ ∧ st = m.stepAt (m.run s is₁) i ∧
      after = m.trace (m.step (m.run s is₁) i).1 is₂ := by
  induction is generalizing s before with
  | nil => simp at h
  | cons i is ih =>
    cases before with
    | nil =>
      obtain ⟨rfl, rfl⟩ := List.cons.inj h
      exact ⟨[], i, is, rfl, rfl, rfl, rfl⟩
    | cons first before =>
      obtain ⟨rfl, htail⟩ := List.cons.inj h
      obtain ⟨is₁, j, is₂, rfl, rfl, rfl, rfl⟩ := ih htail
      exact ⟨i :: is₁, j, is₂, rfl, rfl, rfl, rfl⟩

theorem map_input_trace {s : σ} {is : List ι} : (m.trace s is).map (·.input) = is := by
  induction is generalizing s with
  | nil => rfl
  | cons i is ih =>
    rw [trace_cons, map_cons, ih]
    rfl

/-- In a run each of whose steps satisfies `cond` after the steps before it, an invariant of the history and
    the state holds before each step. -/
theorem history_rule {I : List (Step σ ι ε) → σ → Prop} {cond : List (Step σ ι ε) → Step σ ι ε → Prop}
    (hstep : ∀ past s i, I past s → cond past (m.stepAt s i) → I (past ++ [m.stepAt s i]) (m.step s i).1)
    {past : List (Step σ ι ε)} {s : σ} (hs : I past s) {is : List ι}
    (hcond : ∀ before st after, m.trace s is = before ++ st :: after → cond (past ++ before) st) :
    ∀ before st after, m.trace s is = before ++ st :: after →
      I (past ++ before) st.pre ∧ st = m.stepAt st.pre st.input := by
  induction is generalizing past s with
  | nil =>
    intro before st after h
    simp at h
  | cons i is ih =>
    intro before st after h
    cases before with
    | nil =>
      obtain ⟨rfl, -⟩ := List.cons.inj h
      rw [append_nil]
      exact ⟨hs, rfl⟩
    | cons first before =>
      obtain ⟨rfl, htail⟩ := List.cons.inj h
      have hfirst : cond past (m.stepAt s i) := by
        simpa using hcond [] (m.stepAt s i) (m.trace (m.step s i).1 is) rfl
      have hrest := ih (hstep past s i hs hfirst)
        (fun before st after h => by simpa using hcond (m.stepAt s i :: before) st after (by rw [trace_cons, h]; rfl))
        before st after htail
      rwa [append_assoc] at hrest

theorem history_invariant {I : List (Step σ ι ε) → σ → Prop}
    (hstep : ∀ past s i, I past s → I (past ++ [m.stepAt s i]) (m.step s i).1)
    {past : List (Step σ ι ε)} {s : σ} (hs : I past s) {is : List ι} :
    ∀ before st after, m.trace s is = before ++ st :: after →
      I (past ++ before) st.pre ∧ st = m.stepAt st.pre st.input :=
  @history_rule σ ι ε m I (fun _ _ => True) (fun past s i h _ => hstep past s i h) past s hs is
    (fun _ _ _ _ => trivial)

end Machine
