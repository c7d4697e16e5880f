import Mathlib.Tactic.Common

/-! Procedures over a state that may fail, with the events they log, and their pre- and postconditions. An event
    condition is kept by a procedure whether it ends well or not. -/

def Procedure (σ ι ε α : Type) : Type := σ → Except ε α × σ × List ι

namespace Procedure

variable {σ ι ε α β : Type}

instance : Monad (Procedure σ ι ε) where
  pure a s := (.ok a, s, [])
  bind m f s :=
    match m s with
    | (.error e, s', log) => (.error e, s', log)
    | (.ok a, s', log) =>
      let (result, s'', log') := f a s'
      (result, s'', log ++ log')

def get : Procedure σ ι ε σ := fun s => (.ok s, s, [])

def modify (f : σ → σ) : Procedure σ ι ε Unit := fun s => (.ok (), f s, [])

def log (event : σ → ι) : Procedure σ ι ε Unit := fun s => (.ok (), s, [event s])

def throw (e : ε) : Procedure σ ι ε α := fun s => (.error e, s, [])

def ofExcept (result : Except ε α) : Procedure σ ι ε α := fun s => (result, s, [])

/-- From a state with `P`, the procedure logs only events with `E`, and a result leaves a state with `Q`. -/
def Ensures (E : ι → Prop) (P : σ → Prop) (m : Procedure σ ι ε α) (Q : α → σ → Prop) : Prop :=
  ∀ s, P s → (∀ event ∈ (m s).2.2, E event) ∧ ∀ a, (m s).1 = .ok a → Q a (m s).2.1

section

variable {E : ι → Prop} {P P' : σ → Prop} {Q Q' : α → σ → Prop} {R : β → σ → Prop} {m : Procedure σ ι ε α}
  {f : α → Procedure σ ι ε β}

theorem Ensures.pure {a : α} (h : ∀ s, P s → Q a s) : Ensures E P (pure a : Procedure σ ι ε α) Q := by
  intro s hs
  refine ⟨fun _ hevent => absurd hevent List.not_mem_nil, ?_⟩
  rintro _ ⟨⟩
  exact h s hs

theorem bind_apply (m : Procedure σ ι ε α) (f : α → Procedure σ ι ε β) (s : σ) :
    (m >>= f) s = match m s with
      | (.error e, s', log) => (.error e, s', log)
      | (.ok a, s', log) => ((f a s').1, (f a s').2.1, log ++ (f a s').2.2) := rfl

theorem log_grows (m : Procedure σ ι ε α) (f : α → Procedure σ ι ε β) (s : σ) : (m s).2.2 <+: ((m >>= f) s).2.2 := by
  rw [bind_apply]
  rcases m s with ⟨result, s', log⟩
  cases result with
  | error e => exact List.prefix_rfl
  | ok a => exact List.prefix_append _ _

theorem Ensures.bind (h : Ensures E P m Q) (h' : ∀ a, Ensures E (Q a) (f a) R) : Ensures E P (m >>= f) R := by
  intro s hs
  obtain ⟨hlog, hresult⟩ := h s hs
  rw [bind_apply]
  rcases hm : m s with ⟨result, s', log⟩
  rw [hm] at hlog hresult
  cases result with
  | error e => exact ⟨hlog, by simp⟩
  | ok a =>
    obtain ⟨hlog', hresult'⟩ := h' a s' (hresult a rfl)
    exact ⟨List.forall_mem_append.mpr ⟨hlog, hlog'⟩, hresult'⟩

theorem Ensures.weaken (h : Ensures E P m Q) (hpre : ∀ s, P' s → P s) (hpost : ∀ a s, Q a s → Q' a s) :
    Ensures E P' m Q' := by
  intro s hs
  obtain ⟨hlog, hresult⟩ := h s (hpre s hs)
  exact ⟨hlog, fun a ha => hpost a _ (hresult a ha)⟩

theorem Ensures.post (h : Ensures E P m Q) (hpost : ∀ a s, Q a s → Q' a s) : Ensures E P m Q' :=
  h.weaken (fun _ hs => hs) hpost

theorem Ensures.get : Ensures E P (get : Procedure σ ι ε σ) fun a s => a = s ∧ P s := by
  intro s hs
  refine ⟨fun _ hevent => absurd hevent List.not_mem_nil, ?_⟩
  rintro _ ⟨⟩
  exact ⟨rfl, hs⟩

theorem Ensures.modify {g : σ → σ} {Q : Unit → σ → Prop} (h : ∀ s, P s → Q () (g s)) :
    Ensures E P (modify g : Procedure σ ι ε Unit) Q := by
  intro s hs
  exact ⟨fun _ hevent => absurd hevent List.not_mem_nil, fun _ _ => h s hs⟩

theorem Ensures.log {event : σ → ι} {Q : Unit → σ → Prop} (h : ∀ s, P s → E (event s)) (hpost : ∀ s, P s → Q () s) :
    Ensures E P (log event : Procedure σ ι ε Unit) Q := by
  intro s hs
  refine ⟨fun e he => ?_, fun _ _ => hpost s hs⟩
  rw [List.mem_singleton.mp he]
  exact h s hs

theorem Ensures.throw {e : ε} : Ensures E P (throw e : Procedure σ ι ε α) Q := by
  intro s _
  exact ⟨fun _ hevent => absurd hevent List.not_mem_nil, by simp [Procedure.throw]⟩

theorem Ensures.ofExcept {result : Except ε α} (h : ∀ a, result = .ok a → ∀ s, P s → Q a s) :
    Ensures E P (ofExcept result : Procedure σ ι ε α) Q := by
  intro s hs
  exact ⟨fun _ hevent => absurd hevent List.not_mem_nil, fun a ha => h a ha s hs⟩

end

end Procedure
