import RustyCore.Agent.Transcript

/-! What the transcript check accepts: transcripts in which every tool result answers an earlier call, and
    every call is answered before the user speaks again. -/

namespace RustyCore

open List

namespace AgentMessage

def uses (message : AgentMessage) (id : ToolCallId) : Nat :=
  if message.role = .assistant then message.toolUses.count id else 0

def answers (message : AgentMessage) (id : ToolCallId) : Nat :=
  if message.role = .tool then message.toolResults.count id else 0

end AgentMessage

namespace Transcript

def used (ms : List AgentMessage) (id : ToolCallId) : Nat := (ms.map (·.uses id)).sum

def answered (ms : List AgentMessage) (id : ToolCallId) : Nat := (ms.map (·.answers id)).sum

/-- With `n id` calls open before it, the transcript never answers more calls than are open, closes all of
    them before every user or system message, and ends with none open. -/
structure PairedFrom (n : ToolCallId → Nat) (ms : List AgentMessage) : Prop where
  answers : ∀ before, before <+: ms → ∀ id, answered before id ≤ n id + used before id
  closed : ∀ before message, before ++ [message] <+: ms → message.role = .user ∨ message.role = .system →
    ∀ id, answered before id = n id + used before id
  complete : ∀ id, answered ms id = n id + used ms id

/-- Every result answers an earlier call that is still open, and every call has been answered when the user
    or the system speaks next, and at the end. -/
def Paired (ms : List AgentMessage) : Prop := PairedFrom (fun _ => 0) ms

@[simp] theorem used_nil (id : ToolCallId) : used [] id = 0 := rfl

@[simp] theorem answered_nil (id : ToolCallId) : answered [] id = 0 := rfl

@[simp] theorem used_cons (m : AgentMessage) (ms : List AgentMessage) (id : ToolCallId) :
    used (m :: ms) id = m.uses id + used ms id := by simp [used]

@[simp] theorem answered_cons (m : AgentMessage) (ms : List AgentMessage) (id : ToolCallId) :
    answered (m :: ms) id = m.answers id + answered ms id := by simp [answered]

theorem pairedFrom_nil {n : ToolCallId → Nat} : PairedFrom n [] ↔ ∀ id, n id = 0 := by
  constructor
  · intro h id
    have hid := h.complete id
    simp only [answered_nil, used_nil] at hid
    omega
  · intro h
    refine ⟨?_, ?_, ?_⟩
    · intro before hbefore id
      rw [prefix_nil.mp hbefore]
      simp
    · intro before message hbefore
      simp at hbefore
    · intro id
      simp [h id]

theorem pairedFrom_cons {n : ToolCallId → Nat} {m : AgentMessage} {ms : List AgentMessage} :
    PairedFrom n (m :: ms) ↔ (m.role = .user ∨ m.role = .system → ∀ id, n id = 0) ∧
      (∀ id, m.answers id ≤ n id + m.uses id) ∧ PairedFrom (fun id => n id + m.uses id - m.answers id) ms := by
  constructor
  · intro h
    have hfirst : ∀ id, m.answers id ≤ n id + m.uses id := by
      intro id
      simpa using h.answers [m] (by simp) id
    refine ⟨?_, hfirst, ?_, ?_, ?_⟩
    · intro hrole id
      have hid := h.closed [] m (by simp) hrole id
      simp only [answered_nil, used_nil] at hid
      omega
    · intro before hbefore id
      have hid := h.answers (m :: before) (by simpa using hbefore) id
      have := hfirst id
      simp only [answered_cons, used_cons] at hid
      omega
    · intro before message hbefore hrole id
      have hid := h.closed (m :: before) message (by simpa using hbefore) hrole id
      have := hfirst id
      simp only [answered_cons, used_cons] at hid
      omega
    · intro id
      have hid := h.complete id
      have := hfirst id
      simp only [answered_cons, used_cons] at hid
      omega
  · rintro ⟨hspeak, hfirst, hrest⟩
    refine ⟨?_, ?_, ?_⟩
    · intro before hbefore id
      cases before with
      | nil => simp
      | cons m' before =>
        obtain ⟨rfl, htail⟩ := cons_prefix_cons.mp hbefore
        have hid := hrest.answers before htail id
        have := hfirst id
        simp only [answered_cons, used_cons]
        omega
    · intro before message hbefore hrole id
      cases before with
      | nil =>
        obtain ⟨rfl, -⟩ := cons_prefix_cons.mp hbefore
        simp [hspeak hrole id]
      | cons m' before =>
        obtain ⟨rfl, htail⟩ := cons_prefix_cons.mp hbefore
        have hid := hrest.closed before message htail hrole id
        have := hfirst id
        simp only [answered_cons, used_cons]
        omega
    · intro id
      have hid := hrest.complete id
      have := hfirst id
      simp only [answered_cons, used_cons]
      omega

theorem count_of_answer {rest : List AgentMessage} {results pending left : List ToolCallId}
    (h : answer rest pending results = .ok left) (id : ToolCallId) :
    left.count id + results.count id = pending.count id := by
  induction results generalizing pending with
  | nil =>
    cases h
    simp
  | cons callId results ih =>
    simp only [answer, contains_eq_mem, decide_eq_true_eq] at h
    split at h
    · rename_i hmem
      have hpos : 0 < pending.count callId := count_pos_iff.mpr hmem
      have hid := ih h
      rw [count_erase] at hid
      rw [count_cons]
      by_cases hcall : callId = id
      · subst hcall
        simp only [beq_self_eq_true, if_true] at hid ⊢
        omega
      · simp only [beq_iff_eq, hcall, if_false] at hid ⊢
        omega
    · split at h <;> cases h

theorem answer_ok_of_count (rest : List AgentMessage) {results pending : List ToolCallId}
    (h : ∀ id, results.count id ≤ pending.count id) : ∃ left, answer rest pending results = .ok left := by
  induction results generalizing pending with
  | nil => exact ⟨pending, rfl⟩
  | cons callId results ih =>
    have hmem : callId ∈ pending := by
      have hid := h callId
      rw [count_cons_self] at hid
      exact count_pos_iff.mp (by omega)
    have hrest : ∀ id, results.count id ≤ (pending.erase callId).count id := by
      intro id
      have hid := h id
      rw [count_cons] at hid
      rw [count_erase]
      omega
    obtain ⟨left, hleft⟩ := ih hrest
    exact ⟨left, by simpa [answer, hmem] using hleft⟩

theorem count_eq_zero_iff {pending : List ToolCallId} : (∀ id, pending.count id = 0) ↔ pending = [] := by
  constructor
  · intro h
    rw [eq_nil_iff_forall_not_mem]
    exact fun id hid => absurd (h id) (count_pos_iff.mpr hid).ne'
  · rintro rfl
    simp

theorem validateFrom_ok_iff (ms : List AgentMessage) (pending : List ToolCallId) :
    validateFrom pending ms = .ok () ↔ PairedFrom (fun id => pending.count id) ms := by
  induction ms generalizing pending with
  | nil =>
    rw [pairedFrom_nil, count_eq_zero_iff]
    cases pending <;> simp [validateFrom]
  | cons m ms ih =>
    rw [pairedFrom_cons]
    unfold validateFrom
    cases hrole : m.role with
    | assistant =>
      simp only [ih, AgentMessage.uses, AgentMessage.answers, hrole, if_true, reduceCtorEq, if_false, count_append,
        or_self, false_implies, Nat.zero_le, implies_true, true_and, Nat.sub_zero]
    | tool =>
      simp only [AgentMessage.uses, AgentMessage.answers, hrole, if_true, reduceCtorEq, if_false, or_self, false_implies,
        true_and, Nat.add_zero]
      cases hanswer : answer ms pending m.toolResults with
      | ok left =>
        have hcount := count_of_answer hanswer
        have hle : ∀ id, m.toolResults.count id ≤ pending.count id := fun id => by rw [← hcount id]; omega
        have hleft : (fun id => pending.count id - m.toolResults.count id) = fun id => left.count id := by
          funext id
          rw [← hcount id]
          omega
        dsimp only
        rw [ih, hleft]
        exact ⟨fun hpaired => ⟨hle, hpaired⟩, fun hpaired => hpaired.2⟩
      | error e =>
        refine ⟨nofun, ?_⟩
        rintro ⟨hle, -⟩
        obtain ⟨left, hleft⟩ := answer_ok_of_count ms hle
        rw [hanswer] at hleft
        cases hleft
    | user | system =>
      simp only [AgentMessage.uses, AgentMessage.answers, hrole, reduceCtorEq, if_false, or_false, or_true, true_implies,
        Nat.zero_le, implies_true, true_and, Nat.sub_zero, Nat.add_zero, count_eq_zero_iff]
      cases pending with
      | nil => simp [ih]
      | cons id pending => simp

end Transcript

theorem validateTranscript_ok_iff (ms : List AgentMessage) : validateTranscript ms = .ok () ↔ Transcript.Paired ms :=
  Transcript.validateFrom_ok_iff ms []

end RustyCore
