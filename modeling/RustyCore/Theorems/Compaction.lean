import RustyCore.Context.Compaction
import RustyCore.Theorems.Pairing

/-! What dropping a prefix leaves of a paired transcript. The kept messages are those reached from the tail and
    the protected ones along the tool pairs; the note is a system message, so it may only stand where no call
    is open. -/

namespace RustyCore

open Closure List

namespace Transcript

/-- The calls of one id that are open after the messages, `n` being open before them; nothing when a result
    answers no open call or somebody speaks while one is open. -/
def openAfter (id : ToolCallId) : Nat → List AgentMessage → Option Nat
  | n, [] => some n
  | n, m :: rest =>
    if m.role = .user ∨ m.role = .system then if n = 0 then openAfter id 0 rest else none
    else if m.answers id ≤ n + m.uses id then openAfter id (n + m.uses id - m.answers id) rest
    else none

theorem quiet_of_speaker {m : AgentMessage} (h : m.role = .user ∨ m.role = .system) (id : ToolCallId) :
    m.uses id = 0 ∧ m.answers id = 0 := by
  rcases h with h | h <;> simp [AgentMessage.uses, AgentMessage.answers, h]

variable {ms : List AgentMessage}

theorem pairedFrom_iff_openAfter {n : ToolCallId → Nat} :
    PairedFrom n ms ↔ ∀ id, openAfter id (n id) ms = some 0 := by
  induction ms generalizing n with
  | nil => simp [pairedFrom_nil, openAfter]
  | cons m ms ih =>
    rw [pairedFrom_cons, ih]
    by_cases hspeak : m.role = .user ∨ m.role = .system
    · have hquiet := quiet_of_speaker hspeak
      simp only [hspeak, true_implies, openAfter, if_true, (hquiet _).1, (hquiet _).2, Nat.zero_le, implies_true,
        true_and, Nat.add_zero, Nat.sub_zero]
      constructor
      · rintro ⟨hzero, hrest⟩ id
        have hid := hrest id
        rw [hzero id] at hid
        rw [if_pos (hzero id)]
        exact hid
      · intro h
        have hzero : ∀ id, n id = 0 := by
          intro id
          by_contra hne
          simpa [hne] using h id
        refine ⟨hzero, fun id => ?_⟩
        have hid := h id
        rw [if_pos (hzero id)] at hid
        rw [hzero id]
        exact hid
    · simp only [hspeak, false_implies, openAfter, if_false, true_and]
      constructor
      · rintro ⟨hle, hrest⟩ id
        rw [if_pos (hle id)]
        exact hrest id
      · intro h
        have hle : ∀ id, m.answers id ≤ n id + m.uses id := by
          intro id
          by_contra hne
          simpa [hne] using h id
        refine ⟨hle, fun id => ?_⟩
        have hid := h id
        rw [if_pos (hle id)] at hid
        exact hid

theorem accepted_iff_openAfter :
    validateTranscript ms = .ok () ↔ ∀ id, openAfter id 0 ms = some 0 := by
  rw [validateTranscript_ok_iff, Paired, pairedFrom_iff_openAfter]

theorem openAfter_append (id : ToolCallId) (n : Nat) (before after : List AgentMessage) :
    openAfter id n (before ++ after) = (openAfter id n before).bind fun k => openAfter id k after := by
  induction before generalizing n with
  | nil => rfl
  | cons m before ih =>
    simp only [cons_append, openAfter]
    split
    · split
      · exact ih 0
      · rfl
    · split
      · exact ih _
      · rfl

variable {id : ToolCallId}

theorem openAfter_count {n k : Nat} (h : openAfter id n ms = some k) :
    answered ms id + k = n + used ms id := by
  induction ms generalizing n with
  | nil =>
    cases h
    simp
  | cons m ms ih =>
    simp only [openAfter] at h
    simp only [answered_cons, used_cons]
    split at h
    · rename_i hspeak
      have hquiet := quiet_of_speaker hspeak id
      split at h
      · have := ih h
        omega
      · cases h
    · split at h
      · have := ih h
        omega
      · cases h

def kept (flagged : List (AgentMessage × Bool)) : List AgentMessage := (flagged.filter (·.2)).map (·.1)

@[simp] theorem kept_nil : kept [] = [] := rfl

@[simp] theorem kept_cons_true (m : AgentMessage) (rest : List (AgentMessage × Bool)) :
    kept ((m, true) :: rest) = m :: kept rest := by simp [kept]

@[simp] theorem kept_cons_false (m : AgentMessage) (rest : List (AgentMessage × Bool)) :
    kept ((m, false) :: rest) = kept rest := by simp [kept]

theorem kept_append (before after : List (AgentMessage × Bool)) : kept (before ++ after) = kept before ++ kept after := by
  simp [kept]

theorem kept_sublist (flagged : List (AgentMessage × Bool)) : (kept flagged).Sublist (flagged.map (·.1)) :=
  filter_sublist.map _

def Carries (id : ToolCallId) (m : AgentMessage) : Prop := 0 < m.uses id ∨ 0 < m.answers id

theorem openAfter_kept {n k : Nat} {flagged : List (AgentMessage × Bool)}
    (hkept : ∀ e ∈ flagged, Carries id e.1 → e.2 = true) (h : openAfter id n (flagged.map (·.1)) = some k) :
    openAfter id n (kept flagged) = some k := by
  induction flagged generalizing n with
  | nil => exact h
  | cons e flagged ih =>
    obtain ⟨m, flag⟩ := e
    obtain ⟨hfirst, hrest⟩ := forall_mem_cons.mp hkept
    simp only [map_cons, openAfter] at h
    cases flag with
    | true =>
      simp only [kept_cons_true, openAfter]
      split at h
      · rename_i hspeak
        split at h
        · rename_i hn
          rw [if_pos hspeak, if_pos hn]
          exact ih hrest h
        · cases h
      · rename_i hspeak
        split at h
        · rename_i hle
          rw [if_neg hspeak, if_pos hle]
          exact ih hrest h
        · cases h
    | false =>
      have hnone : m.uses id = 0 ∧ m.answers id = 0 := by
        have hcarry : ¬Carries id m := fun hc => by cases hfirst hc
        unfold Carries at hcarry
        omega
      rw [kept_cons_false]
      split at h
      · split at h
        · rename_i hn
          rw [hn]
          exact ih hrest h
        · cases h
      · rw [hnone.1, hnone.2] at h
        simp only [Nat.add_zero, Nat.sub_zero, Nat.zero_le, if_true] at h
        exact ih hrest h

theorem openAfter_dropped {flagged : List (AgentMessage × Bool)}
    (hdropped : ∀ e ∈ flagged, e.2 = true → ¬Carries id e.1) : openAfter id 0 (kept flagged) = some 0 := by
  induction flagged with
  | nil => rfl
  | cons e flagged ih =>
    obtain ⟨m, flag⟩ := e
    obtain ⟨hfirst, hrest⟩ := forall_mem_cons.mp hdropped
    cases flag with
    | false =>
      rw [kept_cons_false]
      exact ih hrest
    | true =>
      have hnone : m.uses id = 0 ∧ m.answers id = 0 := by
        have hcarry : ¬Carries id m := hfirst rfl
        unfold Carries at hcarry
        omega
      rw [kept_cons_true, openAfter, hnone.1, hnone.2]
      simpa using ih hrest

theorem carries_of_used (h : 0 < used ms id) : ∃ m ∈ ms, 0 < m.uses id := by
  induction ms with
  | nil => cases h
  | cons m ms ih =>
    rw [used_cons] at h
    by_cases hm : 0 < m.uses id
    · exact ⟨m, by simp, hm⟩
    · obtain ⟨m', hm', huses⟩ := ih (by omega)
      exact ⟨m', by simp [hm'], huses⟩

theorem carries_of_answered (h : 0 < answered ms id) :
    ∃ m ∈ ms, 0 < m.answers id := by
  induction ms with
  | nil => cases h
  | cons m ms ih =>
    rw [answered_cons] at h
    by_cases hm : 0 < m.answers id
    · exact ⟨m, by simp, hm⟩
    · obtain ⟨m', hm', hanswers⟩ := ih (by omega)
      exact ⟨m', by simp [hm'], hanswers⟩

theorem used_pos {m : AgentMessage} (hm : m ∈ ms) (h : 0 < m.uses id) :
    0 < used ms id := by
  obtain ⟨before, after, rfl⟩ := append_of_mem hm
  simp only [used, map_append, map_cons, sum_append, sum_cons]
  omega

theorem answered_pos {m : AgentMessage} (hm : m ∈ ms)
    (h : 0 < m.answers id) : 0 < answered ms id := by
  obtain ⟨before, after, rfl⟩ := append_of_mem hm
  simp only [answered, map_append, map_cons, sum_append, sum_cons]
  omega

end Transcript

namespace Compaction

open Transcript

section

variable (messages : List AgentMessage) (keep : Nat) (retention : Retention)

/-- The last `keep` messages and the protected ones. -/
def Initially (index : Nat) : Prop :=
  index < messages.length ∧ (messages.length - keep ≤ index ∨ isProtected retention messages index = true)

/-- The last message that holds the id. -/
def LastOf (ids : AgentMessage → List ToolCallId) (id : ToolCallId) (index : Nat) : Prop :=
  (∃ m, messages[index]? = some m ∧ id ∈ ids m) ∧
    ∀ later m, messages[later]? = some m → id ∈ ids m → later ≤ index

/-- What must stay: the tail, the protected messages, and for a message that must stay the last one that makes a
    call it answers and the last one that answers a call it makes. -/
inductive Retained : Nat → Prop where
  | initially {i : Nat} (h : Initially messages keep retention i) : Retained i
  | made {i j : Nat} {m : AgentMessage} {id : ToolCallId} (h : Retained i) (hm : messages[i]? = some m)
      (hid : id ∈ m.toolResults) (hj : LastOf messages AgentMessage.toolUses id j) : Retained j
  | answered {i j : Nat} {m : AgentMessage} {id : ToolCallId} (h : Retained i) (hm : messages[i]? = some m)
      (hid : id ∈ m.toolUses) (hj : LastOf messages AgentMessage.toolResults id j) : Retained j

def keptFlags : List Bool := closeOverToolPairs messages (initiallyKept messages keep retention)

end

variable {messages : List AgentMessage} {keep index : Nat} {retention : Retention} {id : ToolCallId}

variable {ids : AgentMessage → List ToolCallId}

theorem mem_holders : index ∈ (List.range messages.length).filter (fun index =>
      messages[index]?.any fun m => (ids m).contains id) ↔ ∃ m, messages[index]? = some m ∧ id ∈ ids m := by
  simp only [mem_filter, mem_range, Option.any_eq_true, contains_eq_mem, decide_eq_true_eq,
    and_iff_right_iff_imp]
  rintro ⟨m, hm, -⟩
  exact (List.getElem?_eq_some_iff.mp hm).1

theorem le_of_getLast? {l : List Nat} (hsorted : l.Pairwise (· < ·)) (h : l.getLast? = some index) :
    ∀ i ∈ l, i ≤ index := by
  obtain ⟨before, rfl⟩ := List.getLast?_eq_some_iff.mp h
  intro i hi
  rcases mem_append.mp hi with hi | hi
  · exact Nat.le_of_lt ((pairwise_append.mp hsorted).2.2 i hi index (by simp))
  · rw [mem_singleton.mp hi]

/-- The owner the source's map gives is the last message that holds the id. -/
theorem ownerOf_eq_some : ownerOf ids messages id = some index ↔ LastOf messages ids id index := by
  have hsorted := (pairwise_lt_range (n := messages.length)).filter fun index =>
    messages[index]?.any fun m => (ids m).contains id
  constructor
  · intro h
    refine ⟨mem_holders.mp (mem_of_getLast? h), fun later m hm hid => ?_⟩
    exact le_of_getLast? hsorted h later (mem_holders.mpr ⟨m, hm, hid⟩)
  · rintro ⟨hholds, hlast⟩
    cases howner : ownerOf ids messages id with
    | none =>
      have hnil := List.getLast?_eq_none_iff.mp howner
      have hmem := mem_holders.mpr hholds
      rw [hnil] at hmem
      cases hmem
    | some j =>
      obtain ⟨m, hm, hid⟩ := mem_holders.mp (mem_of_getLast? howner)
      have hle := hlast j m hm hid
      have hge := le_of_getLast? hsorted howner index (mem_holders.mpr hholds)
      rw [Nat.le_antisymm hle hge]

theorem mem_partners {j : Nat} : j ∈ partners messages index ↔ ∃ m, messages[index]? = some m ∧
    ((∃ id ∈ m.toolResults, LastOf messages AgentMessage.toolUses id j) ∨
      ∃ id ∈ m.toolUses, LastOf messages AgentMessage.toolResults id j) := by
  unfold partners
  cases hm : messages[index]? with
  | none => simp
  | some m => simp [mem_filterMap, ownerOf_eq_some]

theorem retained_iff : Retained messages keep retention index ↔
    Reached (partners messages) (Initially messages keep retention) index := by
  constructor
  · intro h
    induction h with
    | initially h => exact .start h
    | made _ hm hid hj ih => exact .link ih (mem_partners.mpr ⟨_, hm, Or.inl ⟨_, hid, hj⟩⟩)
    | answered _ hm hid hj ih => exact .link ih (mem_partners.mpr ⟨_, hm, Or.inr ⟨_, hid, hj⟩⟩)
  · intro h
    induction h with
    | start h => exact .initially h
    | link _ hj ih =>
      obtain ⟨m, hm, ⟨id, hid, hlast⟩ | ⟨id, hid, hlast⟩⟩ := mem_partners.mp hj
      · exact .made ih hm hid hlast
      · exact .answered ih hm hid hlast

theorem partners_lt (p : Nat) (hp : p ∈ partners messages index) : p < messages.length := by
  obtain ⟨m, -, ⟨id, -, hlast⟩ | ⟨id, -, hlast⟩⟩ := mem_partners.mp hp <;>
  · obtain ⟨⟨m', hm', -⟩, -⟩ := hlast
    exact (List.getElem?_eq_some_iff.mp hm').1

theorem on_initiallyKept : On (initiallyKept messages keep retention) index ↔ Initially messages keep retention index := by
  unfold On initiallyKept Initially
  by_cases hlt : index < messages.length
  · simp [getD_eq_getElem?_getD, hlt]
  · simp [getD_eq_getElem?_getD, hlt]

@[simp] theorem length_keptFlags : (keptFlags messages keep retention).length = messages.length := by
  simp [keptFlags, closeOverToolPairs, close_length, initiallyKept]

theorem on_keptFlags : On (keptFlags messages keep retention) index ↔ Retained messages keep retention index := by
  have hlength : (initiallyKept messages keep retention).length = messages.length := by simp [initiallyKept]
  rw [retained_iff]
  apply on_close_iff
  · exact fun i _ p hp => by rw [hlength]; exact partners_lt p hp
  · exact fun i hi => on_initiallyKept.mpr hi
  · exact fun i hi => .start (on_initiallyKept.mp hi)
  · rw [hlength]
    omega

def flagged (messages : List AgentMessage) (keep : Nat) (retention : Retention) : List (AgentMessage × Bool) :=
  messages.zip (keptFlags messages keep retention)

@[simp] theorem map_fst_flagged : (flagged messages keep retention).map (·.1) = messages := by
  unfold flagged
  rw [map_fst_zip]
  simp

theorem getElem?_flagged {e : AgentMessage × Bool} (h : (flagged messages keep retention)[index]? = some e) :
    messages[index]? = some e.1 ∧ (e.2 = true ↔ Retained messages keep retention index) := by
  obtain ⟨m, flag⟩ := e
  unfold flagged at h
  rw [List.getElem?_zip_eq_some] at h
  refine ⟨h.1, ?_⟩
  rw [← on_keptFlags, On, getD_eq_getElem?_getD, h.2, Option.getD_some]

def Repeated (messages : List AgentMessage) (id : ToolCallId) : Prop :=
  1 < (messages.flatMap AgentMessage.toolUses).count id ∨ 1 < (messages.flatMap AgentMessage.toolResults).count id

theorem index_unique {i j : Nat} {m m' : AgentMessage}
    (h : (messages.flatMap ids).count id ≤ 1) (hm : messages[i]? = some m) (hm' : messages[j]? = some m')
    (hid : id ∈ ids m) (hid' : id ∈ ids m') : i = j := by
  induction messages generalizing i j with
  | nil => simp at hm
  | cons first messages ih =>
    rw [flatMap_cons, count_append] at h
    have hrest : ∀ {k : Nat} {m : AgentMessage}, messages[k]? = some m → id ∈ ids m →
        0 < (messages.flatMap ids).count id := by
      intro k m hk hid
      exact count_pos_iff.mpr (mem_flatMap.mpr ⟨m, mem_of_getElem? hk, hid⟩)
    cases i with
    | zero =>
      cases j with
      | zero => rfl
      | succ j =>
        simp only [List.getElem?_cons_zero, Option.some.injEq, List.getElem?_cons_succ] at hm hm'
        subst hm
        have := hrest hm' hid'
        have := count_pos_iff.mpr hid
        omega
    | succ i =>
      cases j with
      | zero =>
        simp only [List.getElem?_cons_zero, Option.some.injEq, List.getElem?_cons_succ] at hm hm'
        subst hm'
        have := hrest hm hid
        have := count_pos_iff.mpr hid'
        omega
      | succ j =>
        simp only [List.getElem?_cons_succ] at hm hm'
        rw [ih (by omega) hm hm']

theorem lastOf_single {i : Nat} {m : AgentMessage}
    (h : (messages.flatMap ids).count id ≤ 1) (hm : messages[i]? = some m) (hid : id ∈ ids m) :
    LastOf messages ids id i :=
  ⟨⟨m, hm, hid⟩, fun _ _ hm' hid' => Nat.le_of_eq (index_unique h hm' hm hid' hid)⟩

theorem mem_toolUses_of_uses {m : AgentMessage} (h : 0 < m.uses id) : id ∈ m.toolUses := by
  unfold AgentMessage.uses at h
  split at h
  · exact count_pos_iff.mp h
  · cases h

theorem mem_toolResults_of_answers {m : AgentMessage} (h : 0 < m.answers id) : id ∈ m.toolResults := by
  unfold AgentMessage.answers at h
  split at h
  · exact count_pos_iff.mp h
  · cases h

theorem retained_of_carries {i j : Nat} {m m' : AgentMessage}
    (hrepeated : ¬Repeated messages id) (hm : messages[i]? = some m) (hm' : messages[j]? = some m')
    (hcarry : Carries id m) (hcarry' : Carries id m') (h : Retained messages keep retention i) :
    Retained messages keep retention j := by
  have huses : (messages.flatMap AgentMessage.toolUses).count id ≤ 1 := by unfold Repeated at hrepeated; omega
  have hresults : (messages.flatMap AgentMessage.toolResults).count id ≤ 1 := by unfold Repeated at hrepeated; omega
  have hpartner : ∀ {a b : Nat} {m m' : AgentMessage}, messages[a]? = some m → messages[b]? = some m' →
      id ∈ m.toolUses → id ∈ m'.toolResults → (Retained messages keep retention a ↔ Retained messages keep retention b) := by
    intro a b m m' hm hm' hid hid'
    constructor
    · intro ha
      exact .answered ha hm hid (lastOf_single hresults hm' hid')
    · intro hb
      exact .made hb hm' hid' (lastOf_single huses hm hid)
  rcases hcarry with hcarry | hcarry <;> rcases hcarry' with hcarry' | hcarry'
  · rwa [← index_unique huses hm hm' (mem_toolUses_of_uses hcarry) (mem_toolUses_of_uses hcarry')]
  · exact (hpartner hm hm' (mem_toolUses_of_uses hcarry) (mem_toolResults_of_answers hcarry')).mp h
  · exact (hpartner hm' hm (mem_toolUses_of_uses hcarry') (mem_toolResults_of_answers hcarry)).mpr h
  · rwa [← index_unique hresults hm hm' (mem_toolResults_of_answers hcarry) (mem_toolResults_of_answers hcarry')]

theorem openAfter_of_not_repeated (hpaired : validateTranscript messages = .ok ()) (hrepeated : ¬Repeated messages id) :
    openAfter id 0 (kept (flagged messages keep retention)) = some 0 := by
  by_cases hany : ∃ e ∈ flagged messages keep retention, e.2 = true ∧ Carries id e.1
  · obtain ⟨e, he, hflag, hcarry⟩ := hany
    obtain ⟨i, hi⟩ := List.getElem?_of_mem he
    obtain ⟨hm, hiff⟩ := getElem?_flagged hi
    refine openAfter_kept ?_ (by rw [map_fst_flagged]; exact accepted_iff_openAfter.mp hpaired id)
    intro e' he' hcarry'
    obtain ⟨j, hj⟩ := List.getElem?_of_mem he'
    obtain ⟨hm', hiff'⟩ := getElem?_flagged hj
    exact hiff'.mpr (retained_of_carries hrepeated hm hm' hcarry hcarry' (hiff.mp hflag))
  · exact openAfter_dropped fun e he hflag hcarry => hany ⟨e, he, hflag, hcarry⟩

theorem withoutDroppedFrom_none (gap : Bool) (l : List (AgentMessage × Bool)) :
    withoutDroppedFrom none gap l = kept l := by
  induction l generalizing gap with
  | nil => rfl
  | cons e l ih =>
    obtain ⟨m, flag⟩ := e
    cases flag <;> cases gap <;> simp [withoutDroppedFrom, ih]

theorem withoutDroppedFrom_gap (note : AgentMessage) (l : List (AgentMessage × Bool)) :
    withoutDroppedFrom (some note) true l = note :: kept l := by
  induction l with
  | nil => rfl
  | cons e l ih =>
    obtain ⟨m, flag⟩ := e
    cases flag <;> simp [withoutDroppedFrom, ih, withoutDroppedFrom_none]

theorem withoutDroppedFrom_first (note : AgentMessage) {before : List (AgentMessage × Bool)}
    (hbefore : ∀ e ∈ before, e.2 = true) (m : AgentMessage) (rest : List (AgentMessage × Bool)) :
    withoutDroppedFrom (some note) false (before ++ (m, false) :: rest) = before.map (·.1) ++ note :: kept rest := by
  induction before with
  | nil => simp [withoutDroppedFrom, withoutDroppedFrom_gap]
  | cons e before ih =>
    obtain ⟨m', flag⟩ := e
    obtain ⟨hfirst, hrest⟩ := forall_mem_cons.mp hbefore
    cases hfirst
    simp [withoutDroppedFrom, ih hrest]

structure Preserves (messages : List AgentMessage) (keep : Nat) (retention : Retention) (note : Note) : Prop where
  valid : validateTranscript (dropPrefix messages keep retention note).1 = .ok ()
  /-- No call and no result survives without its other half. -/
  halves : ∀ id, (∃ m ∈ (dropPrefix messages keep retention note).1, 0 < m.uses id) ↔
    ∃ m ∈ (dropPrefix messages keep retention note).1, 0 < m.answers id
  /-- The note stands among kept messages, and no call before it is answered after it. -/
  apart : (dropPrefix messages keep retention note).1 = messages ∨
    ∃ before after dropped, (dropPrefix messages keep retention note).1 = before ++ note.message dropped :: after ∧
      (before ++ after).Sublist messages ∧ ∀ id, answered before id = used before id
  /-- The protected messages and the last ones survive in their order. -/
  survivors : ((messages.zipIdx.filter fun e =>
    decide (messages.length - keep ≤ e.2) || isProtected retention messages e.2).map (·.1)).Sublist
      (dropPrefix messages keep retention note).1

def CutApart (messages : List AgentMessage) (keep : Nat) (retention : Retention) : Prop :=
  ∀ first < messages.length, (∀ index < first, Retained messages keep retention index) →
    ¬Retained messages keep retention first →
    ∀ id, answered (messages.take first) id = used (messages.take first) id

open Classical in
/-- The messages before `index` that must stay. -/
noncomputable def staying (messages : List AgentMessage) (keep : Nat) (retention : Retention) (index : Nat) :
    List AgentMessage :=
  ((messages.take index).zipIdx.filter fun e => decide (Retained messages keep retention e.2)).map (·.1)

/-- Of a call whose id is used again, the messages that must stay hold at every point at most as many answers as
    calls, and as many of each where one of them speaks and at the end. -/
structure RepeatsPaired (messages : List AgentMessage) (keep : Nat) (retention : Retention) : Prop where
  notAhead : ∀ id, Repeated messages id → ∀ index,
    answered (staying messages keep retention index) id ≤ used (staying messages keep retention index) id
  speakers : ∀ id, Repeated messages id → ∀ index m, messages[index]? = some m →
    Retained messages keep retention index → m.role = .user ∨ m.role = .system →
    answered (staying messages keep retention index) id = used (staying messages keep retention index) id
  allAnswered : ∀ id, Repeated messages id →
    answered (staying messages keep retention messages.length) id =
      used (staying messages keep retention messages.length) id

theorem filter_zip_eq {p : AgentMessage × Nat → Bool} {flags : List Bool} (hlength : flags.length = messages.length)
    (start : Nat) (h : ∀ i m, messages[i]? = some m → (flags[i]? = some true ↔ p (m, start + i) = true)) :
    (((messages.zipIdx start).filter p).map (·.1)) = kept (messages.zip flags) := by
  induction messages generalizing flags start with
  | nil => rfl
  | cons m messages ih =>
    cases flags with
    | nil => cases hlength
    | cons flag flags =>
      have hrest := ih (by simpa using hlength) (start + 1) fun i m' hm' => by
        have := h (i + 1) m' (by simpa using hm')
        simpa [Nat.add_assoc, Nat.add_comm 1] using this
      have hfirst := h 0 m rfl
      simp only [List.getElem?_cons_zero, Option.some.injEq, Nat.add_zero] at hfirst
      rw [zipIdx_cons, zip_cons_cons, filter_cons]
      cases flag with
      | true => rw [if_pos (hfirst.mp rfl), map_cons, hrest, kept_cons_true]
      | false => rw [if_neg (fun hp => by cases hfirst.mpr hp), hrest, kept_cons_false]

open Classical in
theorem staying_eq : staying messages keep retention index = kept ((flagged messages keep retention).take index) := by
  rw [flagged, List.zip, take_zipWith]
  refine filter_zip_eq (by simp) 0 ?_
  intro i m hm
  rw [List.getElem?_take] at hm ⊢
  split at hm
  · rw [if_pos ‹_›, Nat.zero_add, decide_eq_true_eq, ← on_keptFlags, On, getD_eq_getElem?_getD]
    cases hflag : (keptFlags messages keep retention)[i]? with
    | none | some => simp
  · cases hm

theorem staying_all : staying messages keep retention messages.length = kept (flagged messages keep retention) := by
  rw [staying_eq, take_of_length_le]
  simp [flagged]

theorem exists_first_dropped (l : List (AgentMessage × Bool)) (h : ∃ e ∈ l, e.2 = false) :
    ∃ before m rest, l = before ++ (m, false) :: rest ∧ ∀ e ∈ before, e.2 = true := by
  induction l with
  | nil => obtain ⟨e, he, -⟩ := h; cases he
  | cons e l ih =>
    obtain ⟨m, flag⟩ := e
    cases flag with
    | false => exact ⟨[], m, l, rfl, by simp⟩
    | true =>
      obtain ⟨e, he, hflag⟩ := h
      have hrest : ∃ e ∈ l, e.2 = false := by
        rcases mem_cons.mp he with rfl | he
        · cases hflag
        · exact ⟨e, he, hflag⟩
      obtain ⟨before, m', rest, rfl, hbefore⟩ := ih hrest
      exact ⟨(m, true) :: before, m', rest, rfl, forall_mem_cons.mpr ⟨rfl, hbefore⟩⟩

theorem kept_of_all {l : List (AgentMessage × Bool)} (h : ∀ e ∈ l, e.2 = true) : kept l = l.map (·.1) := by
  rw [kept, filter_eq_self.mpr h]

theorem dropPrefix_cases (messages : List AgentMessage) (keep : Nat) (retention : Retention) (note : Note) :
    ((dropPrefix messages keep retention note).1 = messages ∧ ∀ i < messages.length, Retained messages keep retention i) ∨
    ∃ before m rest dropped, flagged messages keep retention = before ++ (m, false) :: rest ∧
      (∀ e ∈ before, e.2 = true) ∧
      (dropPrefix messages keep retention note).1 = before.map (·.1) ++ note.message dropped :: kept rest := by
  unfold dropPrefix
  split
  · rename_i hshort
    refine Or.inl ⟨rfl, fun i hi => .initially ⟨hi, Or.inl (by omega)⟩⟩
  · simp only
    split
    · rename_i hnone
      refine Or.inl ⟨rfl, fun i hi => on_keptFlags.mp ?_⟩
      have hlt : i < (keptFlags messages keep retention).length := by rwa [length_keptFlags]
      have hget : (keptFlags messages keep retention)[i] = true := by
        by_contra hne
        have hmem : false ∈ keptFlags messages keep retention := by
          rw [← Bool.eq_false_of_not_eq_true hne]
          exact getElem_mem hlt
        exact count_eq_zero.mp hnone hmem
      rw [On, getD_eq_getElem?_getD, List.getElem?_eq_getElem hlt, Option.getD_some, hget]
    · rename_i hsome
      have hmem : false ∈ keptFlags messages keep retention := count_pos_iff.mp (Nat.pos_of_ne_zero hsome)
      obtain ⟨i, hi⟩ := List.getElem?_of_mem hmem
      have hlt : i < messages.length := by
        have := (List.getElem?_eq_some_iff.mp hi).1
        rwa [length_keptFlags] at this
      have he : (messages[i], false) ∈ flagged messages keep retention :=
        mem_of_getElem? (List.getElem?_zip_eq_some.mpr ⟨List.getElem?_eq_getElem hlt, hi⟩)
      obtain ⟨before, m, rest, hsplit, hbefore⟩ := exists_first_dropped _ ⟨_, he, rfl⟩
      refine Or.inr ⟨before, m, rest, (keptFlags messages keep retention).count false, hsplit, hbefore, ?_⟩
      show withoutDroppedFrom _ false (flagged messages keep retention) = _
      rw [hsplit, withoutDroppedFrom_first _ hbefore]
      rfl

open Classical in
theorem initially_sublist : ((messages.zipIdx.filter fun e =>
    decide (messages.length - keep ≤ e.2) || isProtected retention messages e.2).map (·.1)).Sublist
      (staying messages keep retention messages.length) := by
  rw [staying, take_length]
  apply List.Sublist.map
  have hall : (messages.zipIdx.filter fun e =>
      decide (messages.length - keep ≤ e.2) || isProtected retention messages e.2) =
      (messages.zipIdx.filter fun e => decide (Retained messages keep retention e.2)).filter fun e =>
        decide (messages.length - keep ≤ e.2) || isProtected retention messages e.2 := by
    rw [filter_filter]
    apply filter_congr
    rintro ⟨m, i⟩ he
    have hlt : i < messages.length := (List.getElem?_eq_some_iff.mp (mem_zipIdx_iff_getElem?.mp he)).1
    rw [Bool.eq_iff_iff, Bool.and_eq_true]
    refine ⟨fun h => ⟨h, ?_⟩, fun h => h.1⟩
    rw [Bool.or_eq_true, decide_eq_true_eq] at h
    rw [decide_eq_true_eq]
    exact .initially ⟨hlt, h⟩
  rw [hall]
  exact filter_sublist

theorem staying_sublist (messages : List AgentMessage) (keep : Nat) (retention : Retention) (note : Note) :
    (staying messages keep retention messages.length).Sublist (dropPrefix messages keep retention note).1 := by
  rw [staying_all]
  rcases dropPrefix_cases messages keep retention note with ⟨hsame, -⟩ | ⟨before, m, rest, dropped, hsplit, hbefore, hout⟩
  · rw [hsame]
    conv_rhs => rw [← @map_fst_flagged messages keep retention]
    exact kept_sublist _
  · rw [hout, hsplit, kept_append, kept_cons_false, kept_of_all hbefore]
    exact (List.Sublist.refl _).append (sublist_cons_self _ _)

section

variable {note : Note}

/-- A call is paired in what is kept of a flagged list when its answers never run ahead of its uses and every use
    is answered where somebody speaks and at the end. -/
theorem openAfter_kept_iff {n : Nat} {l : List (AgentMessage × Bool)} : openAfter id n (kept l) = some 0 ↔
    (∀ k, answered (kept (l.take k)) id ≤ n + used (kept (l.take k)) id) ∧
    (∀ k m, l[k]? = some (m, true) → m.role = .user ∨ m.role = .system →
      answered (kept (l.take k)) id = n + used (kept (l.take k)) id) ∧
    answered (kept l) id = n + used (kept l) id := by
  induction l generalizing n with
  | nil => simp [openAfter, eq_comm]
  | cons e l ih =>
    obtain ⟨m, flag⟩ := e
    cases flag with
    | false =>
      rw [kept_cons_false, ih]
      constructor
      · rintro ⟨hahead, hspeak, hall⟩
        refine ⟨fun k => ?_, fun k m' hm' hrole => ?_, hall⟩
        · cases k with
          | zero => simp
          | succ k => simpa using hahead k
        · cases k with
          | zero => simp at hm'
          | succ k => simpa using hspeak k m' (by simpa using hm') hrole
      · rintro ⟨hahead, hspeak, hall⟩
        refine ⟨fun k => ?_, fun k m' hm' hrole => ?_, hall⟩
        · simpa using hahead (k + 1)
        · simpa using hspeak (k + 1) m' (by simpa using hm') hrole
    | true =>
      have hquiet := quiet_of_speaker (m := m)
      simp only [kept_cons_true, openAfter, answered_cons, used_cons]
      constructor
      · intro h
        have hrest : ∃ n', m.answers id ≤ n + m.uses id ∧ n' = n + m.uses id - m.answers id ∧
            (m.role = .user ∨ m.role = .system → n = 0) ∧ openAfter id n' (kept l) = some 0 := by
          split at h
          · rename_i hrole
            have := hquiet hrole id
            split at h
            · exact ⟨0, by omega, by omega, fun _ => ‹_›, h⟩
            · cases h
          · split at h
            · exact ⟨_, ‹_›, rfl, fun hrole => absurd hrole ‹_›, h⟩
            · cases h
        obtain ⟨n', hle, hn', hzero, hopen⟩ := hrest
        obtain ⟨hahead, hspeak, hall⟩ := ih.mp hopen
        refine ⟨fun k => ?_, fun k m' hm' hrole => ?_, by omega⟩
        · cases k with
          | zero => simp
          | succ k =>
            have := hahead k
            simp only [take_succ_cons, kept_cons_true, answered_cons, used_cons]
            omega
        · cases k with
          | zero =>
            simp only [List.getElem?_cons_zero, Option.some.injEq, Prod.mk.injEq, and_true] at hm'
            subst hm'
            simp [hzero hrole]
          | succ k =>
            have := hspeak k m' (by simpa using hm') hrole
            simp only [take_succ_cons, kept_cons_true, answered_cons, used_cons]
            omega
      · rintro ⟨hahead, hspeak, hall⟩
        have hle := hahead 1
        simp only [take_succ_cons, take_zero, kept_cons_true, kept_nil, answered_cons, used_cons] at hle
        have hle : m.answers id ≤ n + m.uses id := by simpa using hle
        have hopen : openAfter id (n + m.uses id - m.answers id) (kept l) = some 0 := by
          refine ih.mpr ⟨fun k => ?_, fun k m' hm' hrole => ?_, by omega⟩
          · have := hahead (k + 1)
            simp only [take_succ_cons, kept_cons_true, answered_cons, used_cons] at this
            omega
          · have := hspeak (k + 1) m' (by simpa using hm') hrole
            simp only [take_succ_cons, kept_cons_true, answered_cons, used_cons] at this
            omega
        split
        · rename_i hrole
          have := hquiet hrole id
          have hzero : n = 0 := by simpa [eq_comm] using hspeak 0 m rfl hrole
          rw [if_pos hzero]
          rwa [hzero, this.1, this.2] at hopen
        · exact hopen

theorem repeatsPaired_iff : RepeatsPaired messages keep retention ↔
    ∀ id, Repeated messages id → openAfter id 0 (kept (flagged messages keep retention)) = some 0 := by
  have hget : ∀ index m, (flagged messages keep retention)[index]? = some (m, true) ↔
      messages[index]? = some m ∧ Retained messages keep retention index := by
    intro index m
    constructor
    · intro h
      exact ⟨(getElem?_flagged h).1, (getElem?_flagged h).2.mp rfl⟩
    · rintro ⟨hm, hretained⟩
      have hlt : index < (flagged messages keep retention).length := by
        have := (List.getElem?_eq_some_iff.mp hm).1
        simpa [flagged] using this
      obtain ⟨hm', hiff⟩ := getElem?_flagged (List.getElem?_eq_getElem hlt)
      have hfirst := Option.some.inj (hm.symm.trans hm')
      rw [List.getElem?_eq_getElem hlt, hfirst, ← hiff.mpr hretained]
  simp only [openAfter_kept_iff, Nat.zero_add]
  constructor
  · intro h id hid
    refine ⟨fun k => ?_, fun k m hm hrole => ?_, ?_⟩
    · simpa only [staying_eq] using h.notAhead id hid k
    · simpa only [staying_eq] using h.speakers id hid k m ((hget k m).mp hm).1 ((hget k m).mp hm).2 hrole
    · simpa only [staying_all] using h.allAnswered id hid
  · intro h
    refine ⟨fun id hid k => ?_, fun id hid k m hm hretained hrole => ?_, fun id hid => ?_⟩
    · simpa only [staying_eq] using (h id hid).1 k
    · simpa only [staying_eq] using (h id hid).2.1 k m ((hget k m).mpr ⟨hm, hretained⟩) hrole
    · simpa only [staying_all] using (h id hid).2.2

theorem halves_of_openAfter {ms : List AgentMessage} (h : openAfter id 0 ms = some 0) :
    (∃ m ∈ ms, 0 < m.uses id) ↔ ∃ m ∈ ms, 0 < m.answers id := by
  have hcount := openAfter_count h
  constructor
  · rintro ⟨m, hm, huses⟩
    have := used_pos hm huses
    exact carries_of_answered (by omega)
  · rintro ⟨m, hm, hanswers⟩
    have := answered_pos hm hanswers
    exact carries_of_used (by omega)

theorem openAfter_note {before after : List AgentMessage} {dropped : Nat} :
    openAfter id 0 (before ++ note.message dropped :: after) = some 0 ↔
      openAfter id 0 before = some 0 ∧ openAfter id 0 after = some 0 := by
  rw [openAfter_append]
  cases hbefore : openAfter id 0 before with
  | none => simp
  | some k =>
    simp only [Option.bind_some, openAfter, Note.message, or_true, if_true, Option.some.injEq]
    constructor
    · intro h
      split at h
      · rename_i hk
        exact ⟨hk, h⟩
      · cases h
    · rintro ⟨hk, h⟩
      rw [if_pos hk]
      exact h

theorem cutApart_iff {before rest : List (AgentMessage × Bool)} {m : AgentMessage}
    (hsplit : flagged messages keep retention = before ++ (m, false) :: rest) (hbefore : ∀ e ∈ before, e.2 = true)
    (hpaired : validateTranscript messages = .ok ()) :
    CutApart messages keep retention ↔ ∀ id, openAfter id 0 (before.map (·.1)) = some 0 := by
  have hmessages : messages = before.map (·.1) ++ m :: rest.map (·.1) := by
    conv_lhs => rw [← @map_fst_flagged messages keep retention, hsplit]
    simp
  have htake : messages.take before.length = before.map (·.1) := by
    conv_lhs => rw [hmessages]
    exact take_left' (by simp)
  have hopen : ∀ id, ∃ k, openAfter id 0 (before.map (·.1)) = some k := by
    intro id
    have hid := accepted_iff_openAfter.mp hpaired id
    rw [hmessages, openAfter_append] at hid
    cases hk : openAfter id 0 (before.map (·.1)) with
    | none => rw [hk] at hid; cases hid
    | some k => exact ⟨k, rfl⟩
  have hfirst : ∀ index < before.length, Retained messages keep retention index := by
    intro index hlt
    have he : (flagged messages keep retention)[index]? = some before[index] := by
      rw [hsplit, List.getElem?_append_left hlt, List.getElem?_eq_getElem hlt]
    exact (getElem?_flagged he).2.mp (hbefore _ (getElem_mem hlt))
  have hgone : ¬Retained messages keep retention before.length := by
    intro hretained
    have he : (flagged messages keep retention)[before.length]? = some (m, false) := by
      rw [hsplit, List.getElem?_append_right (Nat.le_refl _)]
      simp
    cases (getElem?_flagged he).2.mpr hretained
  constructor
  · intro h id
    obtain ⟨k, hk⟩ := hopen id
    have hlt : before.length < messages.length := by
      rw [hmessages]
      simp
    have hcount := h before.length hlt hfirst hgone id
    rw [htake] at hcount
    have := openAfter_count hk
    rw [hk, show k = 0 by omega]
  · intro h first _ hretained hnot id
    have heq : first = before.length := by
      rcases Nat.lt_trichotomy first before.length with hlt | heq | hgt
      · exact absurd (hfirst first hlt) hnot
      · exact heq
      · exact absurd (hretained before.length hgt) hgone
    have := openAfter_count (h id)
    rw [heq, htake]
    omega

theorem preserves_of_valid
    (hvalid : validateTranscript (dropPrefix messages keep retention note).1 = .ok ()) :
    Preserves messages keep retention note := by
  have hopen := accepted_iff_openAfter.mp hvalid
  refine ⟨hvalid, fun id => halves_of_openAfter (hopen id), ?_, ?_⟩
  · rcases dropPrefix_cases messages keep retention note with ⟨hsame, -⟩ | ⟨before, m, rest, dropped, hsplit, hbefore, hout⟩
    · exact Or.inl hsame
    · refine Or.inr ⟨before.map (·.1), kept rest, dropped, hout, ?_, ?_⟩
      · have hkept : before.map (·.1) ++ kept rest = kept (flagged messages keep retention) := by
          rw [hsplit, kept_append, kept_cons_false, kept_of_all hbefore]
        rw [hkept]
        conv_rhs => rw [← @map_fst_flagged messages keep retention]
        exact kept_sublist _
      · intro id
        rw [hout] at hopen
        have := openAfter_count (openAfter_note.mp (hopen id)).1
        omega
  · exact initially_sublist.trans (staying_sublist _ _ _ _)

end

end Compaction

open Compaction Transcript in
/-- Compaction of an accepted transcript preserves it exactly when the first message it drops does not stand
    between a call and its result, and the calls whose id is used again stay paired. -/
theorem compaction_preserves_transcript (messages : List AgentMessage) (keep : Nat) (retention : Retention)
    (note : Note) (haccepted : validateTranscript messages = .ok ()) :
    Preserves messages keep retention note ↔
      CutApart messages keep retention ∧ RepeatsPaired messages keep retention := by
  rcases dropPrefix_cases messages keep retention note with ⟨hsame, hall⟩ | ⟨before, m, rest, dropped, hsplit, hbefore, hout⟩
  · have hkept : kept (flagged messages keep retention) = messages := by
      rw [kept_of_all, map_fst_flagged]
      intro e he
      obtain ⟨i, hi⟩ := List.getElem?_of_mem he
      obtain ⟨hm, hiff⟩ := getElem?_flagged hi
      exact hiff.mpr (hall i (List.getElem?_eq_some_iff.mp hm).1)
    refine ⟨fun _ => ⟨fun first hlt _ hnot => absurd (hall first hlt) hnot, ?_⟩, fun _ => ?_⟩
    · rw [repeatsPaired_iff, hkept]
      exact fun id _ => accepted_iff_openAfter.mp haccepted id
    · exact preserves_of_valid (by rw [hsame]; exact haccepted)
  · have hkept : kept (flagged messages keep retention) = before.map (·.1) ++ kept rest := by
      rw [hsplit, kept_append, kept_cons_false, kept_of_all hbefore]
    rw [cutApart_iff hsplit hbefore haccepted, repeatsPaired_iff]
    constructor
    · intro h
      have hopen := accepted_iff_openAfter.mp h.valid
      rw [hout] at hopen
      refine ⟨fun id => (openAfter_note.mp (hopen id)).1, fun id _ => ?_⟩
      rw [hkept, openAfter_append, (openAfter_note.mp (hopen id)).1]
      exact (openAfter_note.mp (hopen id)).2
    · rintro ⟨hcut, hrepeats⟩
      refine preserves_of_valid (accepted_iff_openAfter.mpr fun id => ?_)
      have hretained : openAfter id 0 (kept (flagged messages keep retention)) = some 0 := by
        by_cases hrepeated : Repeated messages id
        · exact hrepeats id hrepeated
        · exact openAfter_of_not_repeated haccepted hrepeated
      rw [hkept, openAfter_append, hcut id] at hretained
      rw [hout, openAfter_note]
      exact ⟨hcut id, hretained⟩

namespace Sample

def uses (id : Uuid) : AgentMessage := ⟨⟨id⟩, .assistant, [.toolUse ⟨⟨id⟩, "bash", .null⟩], ⟨0, 0⟩⟩

def answers (id : Uuid) : AgentMessage := ⟨⟨id + 64⟩, .tool, [.toolResult ⟨id⟩ ⟨false, "done"⟩], ⟨0, 0⟩⟩

def task : AgentMessage := ⟨⟨32⟩, .user, [.text "Fix the build"], ⟨0, 0⟩⟩

def crossed : List AgentMessage := [task, uses 1, uses 2, answers 2, answers 1]

/-- The task is kept and so is the first call, whose result is the last message; the note stands for the second
    call and its result, between the first call and its result. -/
theorem compaction_parts_pair : validateTranscript crossed = .ok () ∧
    ¬Compaction.Preserves crossed 1 ⟨[], true⟩ (Compaction.truncationNote ⟨99⟩ ⟨0, 0⟩) := by
  refine ⟨rfl, fun h => ?_⟩
  have hrefused : validateTranscript
      (Compaction.dropPrefix crossed 1 ⟨[], true⟩ (Compaction.truncationNote ⟨99⟩ ⟨0, 0⟩)).1 =
      .error (.danglingToolCall ⟨1⟩) := rfl
  have hvalid := h.valid
  rw [hrefused] at hvalid
  cases hvalid

/-- Two calls that use one id, the second after the first is answered. -/
def again : List AgentMessage := [task, uses 1, answers 1, uses 1, answers 1]

theorem compaction_preserves_transcript_again :
    (Compaction.dropPrefix again 2 ⟨[], true⟩ (Compaction.truncationNote ⟨99⟩ ⟨0, 0⟩)).1 =
      [task, (Compaction.truncationNote ⟨99⟩ ⟨0, 0⟩).message 2, uses 1, answers 1] ∧
    Compaction.Repeated again ⟨1⟩ ∧
    Compaction.Preserves again 2 ⟨[], true⟩ (Compaction.truncationNote ⟨99⟩ ⟨0, 0⟩) ∧
    Compaction.CutApart again 2 ⟨[], true⟩ ∧ Compaction.RepeatsPaired again 2 ⟨[], true⟩ := by
  have hpreserves : Compaction.Preserves again 2 ⟨[], true⟩ (Compaction.truncationNote ⟨99⟩ ⟨0, 0⟩) :=
    Compaction.preserves_of_valid rfl
  exact ⟨rfl, Or.inl (by decide), hpreserves, (compaction_preserves_transcript again 2 ⟨[], true⟩
    (Compaction.truncationNote ⟨99⟩ ⟨0, 0⟩) rfl).mp hpreserves⟩

end Sample

end RustyCore
