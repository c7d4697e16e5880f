import Mathlib.Data.List.Induction
import RustyCore.Theorems.Pairing

/-! What the transcript check reports: the first place where something is wrong, with an id of which the uses and the
    results do not match there. A result that answers no open call is reported as out of order exactly when a later
    message holds a use of its id, whoever wrote it and whatever came before. -/

namespace RustyCore

open List
namespace Transcript

/-- No prefix answers a call more often than it is made, and every call is answered when the user or the system speaks. -/
structure InOrder (ms : List AgentMessage) : Prop where
  answers : ∀ before, before <+: ms → ∀ id, answered before id ≤ used before id
  closed : ∀ before message, before ++ [message] <+: ms → message.role = .user ∨ message.role = .system →
    ∀ id, answered before id = used before id

variable {ms before rest : List AgentMessage} {m : AgentMessage} {id : ToolCallId} {pending results : List ToolCallId}

theorem paired_iff_inOrder : Paired ms ↔ InOrder ms ∧ ∀ id, answered ms id = used ms id := by
  constructor
  · rintro ⟨hanswers, hclosed, hcomplete⟩
    simp only [Nat.zero_add] at hanswers hclosed hcomplete
    exact ⟨⟨hanswers, hclosed⟩, hcomplete⟩
  · rintro ⟨⟨hanswers, hclosed⟩, hcomplete⟩
    refine ⟨?_, ?_, ?_⟩
    · simpa only [Nat.zero_add] using hanswers
    · simpa only [Nat.zero_add] using hclosed
    · simpa only [Nat.zero_add] using hcomplete

theorem used_concat (ms : List AgentMessage) (m : AgentMessage) (id : ToolCallId) :
    used (ms ++ [m]) id = used ms id + m.uses id := by simp [used]

theorem answered_concat (ms : List AgentMessage) (m : AgentMessage) (id : ToolCallId) :
    answered (ms ++ [m]) id = answered ms id + m.answers id := by simp [answered]

theorem inOrder_nil : InOrder [] := by
  constructor
  · intro before hbefore id
    rw [prefix_nil.mp hbefore]
    exact Nat.le_refl _
  · intro before message hbefore
    simp at hbefore

theorem inOrder_concat : InOrder (ms ++ [m]) ↔ InOrder ms ∧
    (m.role = .user ∨ m.role = .system → ∀ id, answered ms id = used ms id) ∧
    ∀ id, answered ms id + m.answers id ≤ used ms id + m.uses id := by
  constructor
  · rintro ⟨hanswers, hclosed⟩
    have hshorter : ms <+: ms ++ [m] := prefix_append ms [m]
    refine ⟨⟨fun before hbefore => hanswers before (hbefore.trans hshorter),
      fun before message hbefore => hclosed before message (hbefore.trans hshorter)⟩,
      hclosed ms m (prefix_refl _), fun id => ?_⟩
    rw [← answered_concat, ← used_concat]
    exact hanswers _ (prefix_refl _) id
  · rintro ⟨⟨hanswers, hclosed⟩, hspeaks, hlast⟩
    constructor
    · intro before hbefore id
      rcases prefix_concat_iff.mp hbefore with rfl | hbefore
      · rw [answered_concat, used_concat]
        exact hlast id
      · exact hanswers before hbefore id
    · intro before message hbefore hrole
      rcases prefix_concat_iff.mp hbefore with heq | hbefore
      · obtain ⟨rfl, rfl⟩ := append_inj' heq rfl |>.imp id fun h => (List.cons.inj h).1
        exact hspeaks hrole
      · exact hclosed before message hbefore hrole

theorem inOrder_or_first (ms : List AgentMessage) :
    InOrder ms ∨ ∃ before m rest, ms = before ++ m :: rest ∧ InOrder before ∧ ¬InOrder (before ++ [m]) := by
  induction ms using List.reverseRecOn with
  | nil => exact Or.inl inOrder_nil
  | append_singleton ms m ih =>
    rcases ih with hms | ⟨before, m', rest, rfl, hbefore, hfirst⟩
    · by_cases hlast : InOrder (ms ++ [m])
      · exact Or.inl hlast
      · exact Or.inr ⟨ms, m, [], rfl, hms, hlast⟩
    · exact Or.inr ⟨before, m', rest ++ [m], by simp, hbefore, hfirst⟩

theorem answer_ok_congr {left : List ToolCallId} (rest' : List AgentMessage) (h : answer rest pending results = .ok left) :
    answer rest' pending results = .ok left := by
  induction results generalizing pending with
  | nil => exact h
  | cons callId results ih =>
    simp only [answer] at h ⊢
    split at h
    · rename_i hmem
      rw [if_pos hmem]
      exact ih h
    · split at h <;> cases h

theorem validateFrom_tool (hrole : m.role = .tool) : validateFrom pending (m :: rest) =
    match answer rest pending m.toolResults with
    | .ok left => validateFrom left rest
    | .error e => .error e := by
  cases pending <;> simp only [validateFrom, hrole] <;> rfl

theorem validateFrom_assistant (hrole : m.role = .assistant) :
    validateFrom pending (m :: rest) = validateFrom (pending ++ m.toolUses) rest := by
  cases pending <;> simp only [validateFrom, hrole]

theorem validateFrom_speaker (hrole : m.role = .user ∨ m.role = .system) : validateFrom pending (m :: rest) =
    match pending with
    | id :: _ => .error (.danglingToolCall id)
    | [] => validateFrom [] rest := by
  rcases hrole with hrole | hrole
  · cases pending <;> simp only [validateFrom, hrole]
  · cases pending <;> simp only [validateFrom, hrole]

theorem validateFrom_inOrder (h : InOrder before) : ∃ pending,
    (∀ rest, validateFrom [] (before ++ rest) = validateFrom pending rest) ∧
    ∀ id, pending.count id + answered before id = used before id := by
  induction before using List.reverseRecOn with
  | nil => exact ⟨[], fun _ => rfl, fun _ => rfl⟩
  | append_singleton before m ih =>
    obtain ⟨hbefore, hspeaks, hlast⟩ := inOrder_concat.mp h
    obtain ⟨pending, hread, hcount⟩ := ih hbefore
    have hfurther : ∀ rest, validateFrom [] (before ++ [m] ++ rest) = validateFrom pending (m :: rest) := fun rest => by
      rw [append_assoc, singleton_append, hread]
    cases hrole : m.role with
    | assistant =>
      refine ⟨pending ++ m.toolUses, fun rest => ?_, fun id => ?_⟩
      · rw [hfurther, validateFrom_assistant hrole]
      · have hid := hcount id
        rw [answered_concat, used_concat, count_append]
        simp only [AgentMessage.uses, AgentMessage.answers, hrole, if_true, reduceCtorEq, if_false]
        omega
    | tool =>
      have hle : ∀ id, m.toolResults.count id ≤ pending.count id := fun id => by
        have hid := hcount id
        have hlast := hlast id
        simp only [AgentMessage.uses, AgentMessage.answers, hrole, if_true, reduceCtorEq, if_false] at hlast
        omega
      obtain ⟨left, hleft⟩ := answer_ok_of_count [] hle
      refine ⟨left, fun rest => ?_, fun id => ?_⟩
      · rw [hfurther, validateFrom_tool hrole, answer_ok_congr rest hleft]
      · have hid := hcount id
        have htaken := count_of_answer hleft id
        rw [answered_concat, used_concat]
        simp only [AgentMessage.uses, AgentMessage.answers, hrole, if_true, reduceCtorEq, if_false]
        omega
    | user | system =>
      have hnone : pending = [] := count_eq_zero_iff.mp fun id => by
        have hid := hcount id
        have heq := hspeaks (by rw [hrole]; simp) id
        omega
      subst hnone
      refine ⟨[], fun rest => ?_, fun id => ?_⟩
      · rw [hfurther, validateFrom_speaker (by rw [hrole]; simp)]
      · have hid := hcount id
        rw [answered_concat, used_concat]
        simp only [AgentMessage.uses, AgentMessage.answers, hrole, reduceCtorEq, if_false]
        omega

/-- The first result that answers no open call: it stands in the tool message `m`, after results that all do. -/
structure Unmatched (ms before : List AgentMessage) (m : AgentMessage) (rest : List AgentMessage) (id : ToolCallId) : Prop where
  split : ms = before ++ m :: rest
  role : m.role = .tool
  inOrder : InOrder before
  first : ∃ done todo, m.toolResults = done ++ id :: todo ∧
    (∀ id', answered before id' + done.count id' ≤ used before id') ∧ answered before id + done.count id = used before id

theorem answer_error {done todo : List ToolCallId} (hle : ∀ id', done.count id' ≤ pending.count id')
    (hfull : done.count id = pending.count id) : answer rest pending (done ++ id :: todo) =
      .error (if declaredLater rest id then .outOfOrderToolResult id else .orphanToolResult id) := by
  induction done generalizing pending with
  | nil =>
    have hnone : id ∉ pending := count_eq_zero.mp hfull.symm
    rw [nil_append, answer, if_neg (by simpa using hnone)]
    split <;> rfl
  | cons callId done ih =>
    have hmem : callId ∈ pending := by
      have hpos := hle callId
      rw [count_cons_self] at hpos
      exact count_pos_iff.mp (by omega)
    rw [cons_append, answer, if_pos (by simpa using hmem)]
    apply ih
    · intro id'
      have hid := hle id'
      rw [count_cons] at hid
      rw [count_erase]
      omega
    · rw [count_cons] at hfull
      rw [count_erase]
      omega

theorem first_unanswered (h : pending.count id < results.count id) : ∃ done id' todo, results = done ++ id' :: todo ∧
    (∀ other, done.count other ≤ pending.count other) ∧ done.count id' = pending.count id' := by
  induction results generalizing pending with
  | nil => simp at h
  | cons callId results ih =>
    by_cases hmem : callId ∈ pending
    · have hrest : (pending.erase callId).count id < results.count id := by
        have hpos : 0 < pending.count callId := count_pos_iff.mpr hmem
        rw [count_cons] at h
        rw [count_erase]
        by_cases hid : callId = id
        · subst hid
          simp only [beq_self_eq_true, if_true] at h ⊢
          omega
        · simp only [beq_iff_eq, hid, if_false] at h ⊢
          omega
      obtain ⟨done, id', todo, rfl, hle, hfull⟩ := ih hrest
      have hpos : 0 < pending.count callId := count_pos_iff.mpr hmem
      have hadd (other : ToolCallId) : (pending.erase callId).count other + (if callId == other then 1 else 0) =
          pending.count other := by
        rw [count_erase]
        by_cases hid : callId = other
        · subst hid
          simp only [beq_self_eq_true, if_true]
          omega
        · simp [hid]
      refine ⟨callId :: done, id', todo, rfl, fun other => ?_, ?_⟩
      · have hother := hle other
        have hsum := hadd other
        rw [count_cons]
        omega
      · have hsum := hadd id'
        rw [count_cons]
        omega
    · exact ⟨[], callId, results, rfl, fun other => Nat.zero_le _, (count_eq_zero.mpr hmem).symm⟩

theorem Unmatched.reported (h : Unmatched ms before m rest id) : validateTranscript ms =
    .error (if declaredLater rest id then .outOfOrderToolResult id else .orphanToolResult id) := by
  obtain ⟨rfl, hrole, hbefore, done, todo, hresults, hle, hfull⟩ := h
  obtain ⟨pending, hread, hcount⟩ := validateFrom_inOrder hbefore
  rw [validateTranscript, hread, validateFrom_tool hrole, hresults, answer_error]
  · intro id'
    have hid := hle id'
    have hopen := hcount id'
    omega
  · have hopen := hcount id
    omega

end Transcript

def TranscriptError.id : TranscriptError → ToolCallId
  | .danglingToolCall id | .orphanToolResult id | .outOfOrderToolResult id | .unresolvedToolCall id => id

namespace Transcript

variable {ms before rest : List AgentMessage} {m : AgentMessage} {id : ToolCallId} {pending results : List ToolCallId}

/-- The uses and the results of an id that do not match: a prefix with more results, or a user or system message, or the
    end, where their numbers differ. -/
def Violates (ms : List AgentMessage) (id : ToolCallId) : Prop :=
  (∃ before, before <+: ms ∧ used before id < answered before id) ∨
  (∃ before message, before ++ [message] <+: ms ∧ (message.role = .user ∨ message.role = .system) ∧
    answered before id ≠ used before id) ∨
  answered ms id ≠ used ms id

inductive Report (ms : List AgentMessage) : TranscriptError → Prop
  | unmatched {before rest : List AgentMessage} {m : AgentMessage} {id : ToolCallId} (h : Unmatched ms before m rest id) :
    Report ms (if declaredLater rest id then .outOfOrderToolResult id else .orphanToolResult id)
  | dangling {before : List AgentMessage} {m : AgentMessage} {id : ToolCallId} (hms : before ++ [m] <+: ms)
    (hrole : m.role = .user ∨ m.role = .system) (hopen : answered before id < used before id) :
    Report ms (.danglingToolCall id)
  | unresolved {id : ToolCallId} (hopen : answered ms id < used ms id) : Report ms (.unresolvedToolCall id)

theorem report_of_error {e : TranscriptError} (h : validateTranscript ms = .error e) : Report ms e := by
  rcases inOrder_or_first ms with hms | ⟨before, m, rest, rfl, hbefore, hfirst⟩
  · obtain ⟨pending, hread, hcount⟩ := validateFrom_inOrder hms
    have hend := hread []
    rw [append_nil] at hend
    rw [validateTranscript, hend] at h
    cases pending with
    | nil => cases h
    | cons id pending =>
      cases h
      have hid := hcount id
      rw [count_cons_self] at hid
      exact .unresolved (by omega)
  · obtain ⟨pending, hread, hcount⟩ := validateFrom_inOrder hbefore
    rw [inOrder_concat, not_and, not_and_or] at hfirst
    have hwrong := hfirst hbefore
    rw [validateTranscript, hread] at h
    by_cases hspeaker : m.role = .user ∨ m.role = .system
    · rw [validateFrom_speaker hspeaker] at h
      cases pending with
      | nil =>
        refine absurd hwrong (not_or.mpr ⟨not_not.mpr fun _ id => ?_, not_not.mpr fun id => ?_⟩)
        · have hid := hcount id
          simpa using hid
        · have hid := hcount id
          have hquiet : m.answers id = 0 := by
            rcases hspeaker with hrole | hrole <;> simp [AgentMessage.answers, hrole]
          rw [count_nil] at hid
          omega
      | cons id pending =>
        cases h
        have hid := hcount id
        rw [count_cons_self] at hid
        have hprefix : before ++ [m] <+: before ++ m :: rest := ⟨rest, by simp⟩
        exact .dangling hprefix hspeaker (by omega)
    · have hmore : ∃ id, used before id + m.uses id < answered before id + m.answers id := by
        rcases hwrong with hwrong | hwrong
        · exact absurd (fun hrole => absurd hrole hspeaker) hwrong
        · simpa only [not_forall, not_le] using hwrong
      obtain ⟨id, hmore⟩ := hmore
      have hid := hcount id
      have hrole : m.role = .tool := by
        cases hrole : m.role with
        | tool => rfl
        | assistant =>
          simp only [AgentMessage.answers, hrole, reduceCtorEq, if_false] at hmore
          omega
        | user => exact absurd (Or.inl hrole) hspeaker
        | system => exact absurd (Or.inr hrole) hspeaker
      have hfew : pending.count id < m.toolResults.count id := by
        simp only [AgentMessage.answers, AgentMessage.uses, hrole, if_true, reduceCtorEq, if_false] at hmore
        omega
      obtain ⟨done, id', todo, hresults, hle, hfull⟩ := first_unanswered hfew
      have hunmatched : Unmatched (before ++ m :: rest) before m rest id' := by
        refine ⟨rfl, hrole, hbefore, done, todo, hresults, fun other => ?_, ?_⟩
        · have hother := hle other
          have hopen := hcount other
          omega
        · have hopen := hcount id'
          omega
      have hreported := hunmatched.reported
      rw [validateTranscript, hread, h] at hreported
      cases hreported
      exact .unmatched hunmatched

theorem Report.violates {e : TranscriptError} (h : Report ms e) : Violates ms e.id := by
  cases h with
  | @unmatched before rest m id h =>
    obtain ⟨rfl, hrole, -, done, todo, hresults, -, hfull⟩ := h
    have hid : (if declaredLater rest id then TranscriptError.outOfOrderToolResult id else .orphanToolResult id).id = id := by
      split <;> rfl
    rw [hid]
    refine Or.inl ⟨before ++ [m], ⟨rest, by simp⟩, ?_⟩
    rw [used_concat, answered_concat]
    simp only [AgentMessage.uses, AgentMessage.answers, hrole, if_true, reduceCtorEq, if_false, hresults, count_append,
      count_cons_self]
    omega
  | dangling hms hrole hopen => exact Or.inr (Or.inl ⟨_, _, hms, hrole, hopen.ne⟩)
  | unresolved hopen => exact Or.inr (Or.inr hopen.ne)

theorem InOrder.of_prefix (h : InOrder ms) (hbefore : before <+: ms) : InOrder before :=
  ⟨fun shorter hshorter => h.answers shorter (hshorter.trans hbefore),
    fun shorter message hshorter => h.closed shorter message (hshorter.trans hbefore)⟩

theorem Unmatched.not_inOrder (h : Unmatched ms before m rest id) : ¬InOrder (before ++ [m]) := by
  intro hinOrder
  obtain ⟨-, hrole, -, done, todo, hresults, -, hfull⟩ := h
  have hle := (inOrder_concat.mp hinOrder).2.2 id
  simp only [AgentMessage.uses, AgentMessage.answers, hrole, if_true, reduceCtorEq, if_false, hresults, count_append,
    count_cons_self] at hle
  omega

theorem Unmatched.length_le {before' rest' : List AgentMessage} {m' : AgentMessage} {id' : ToolCallId}
    (h : Unmatched ms before m rest id) (h' : Unmatched ms before' m' rest' id') : before'.length ≤ before.length := by
  by_contra hlt
  have hprefix : before ++ [m] <+: ms := ⟨rest, by rw [h.split]; simp⟩
  have hprefix' : before' <+: ms := ⟨m' :: rest', h'.split.symm⟩
  refine h.not_inOrder (h'.inOrder.of_prefix (prefix_of_prefix_length_le hprefix hprefix' ?_))
  · rw [length_append, length_singleton]
    omega

theorem Unmatched.unique {before' rest' : List AgentMessage} {m' : AgentMessage} {id' : ToolCallId}
    (h : Unmatched ms before m rest id) (h' : Unmatched ms before' m' rest' id') : before' = before ∧ rest' = rest := by
  have hlength : before'.length = before.length := Nat.le_antisymm (h.length_le h') (h'.length_le h)
  obtain ⟨hbefore, hrest⟩ := append_inj (h'.split.symm.trans h.split) hlength
  exact ⟨hbefore, (List.cons.inj hrest).2⟩

def UsedLaterOnly (before rest : List AgentMessage) (id : ToolCallId) : Prop := used before id = 0 ∧ 0 < used rest id

theorem declaredLater_of_used (h : 0 < used rest id) : declaredLater rest id = true := by
  induction rest with
  | nil => simp at h
  | cons m rest ih =>
    rw [declaredLater, any_cons, Bool.or_eq_true]
    by_cases hfirst : 0 < m.uses id
    · left
      rw [AgentMessage.uses] at hfirst
      split at hfirst
      · exact contains_iff_mem.mpr (count_pos_iff.mp hfirst)
      · omega
    · right
      rw [used_cons] at h
      exact ih (by omega)

/-- The check accepts the paired transcripts, reports an id that is not paired, and reports a result as out of order
    exactly when all uses of its id come later. -/
structure ChecksPairing (ms : List AgentMessage) : Prop where
  accepts : validateTranscript ms = .ok () ↔ InOrder ms ∧ ∀ id, answered ms id = used ms id
  names : ∀ e, validateTranscript ms = .error e → Violates ms e.id
  outOfOrder : ∀ id, validateTranscript ms = .error (.outOfOrderToolResult id) ↔
    ∃ before m rest, Unmatched ms before m rest id ∧ UsedLaterOnly before rest id

/-- All of this holds exactly when the first result without an open call, if a later message holds a use of its id, is
    not of an id used before and is of one that the assistant uses later. -/
theorem checksPairing_iff (ms : List AgentMessage) : ChecksPairing ms ↔
    ∀ before m rest id, Unmatched ms before m rest id → declaredLater rest id = true → UsedLaterOnly before rest id := by
  constructor
  · intro h before m rest id hunmatched hlater
    have hreported := hunmatched.reported
    rw [if_pos hlater] at hreported
    obtain ⟨before', m', rest', hunmatched', honly⟩ := (h.outOfOrder id).mp hreported
    obtain ⟨rfl, rfl⟩ := hunmatched.unique hunmatched'
    exact honly
  · intro h
    refine ⟨(validateTranscript_ok_iff ms).trans paired_iff_inOrder, fun e he => (report_of_error he).violates, fun id => ?_⟩
    constructor
    · intro hreported
      generalize he : TranscriptError.outOfOrderToolResult id = e at hreported
      cases report_of_error hreported with
      | @unmatched before rest m id' hunmatched =>
        split at he
        · rename_i hlater
          cases he
          exact ⟨before, m, rest, hunmatched, h before m rest id hunmatched hlater⟩
        · cases he
      | dangling | unresolved => cases he
    · rintro ⟨before, m, rest, hunmatched, honly⟩
      rw [hunmatched.reported, if_pos (declaredLater_of_used honly.2)]

namespace Sample

def use : AgentMessage := ⟨⟨1⟩, .assistant, [.toolUse ⟨⟨7⟩, "bash", .null⟩], .fromSequence 0⟩

def result : AgentMessage := ⟨⟨2⟩, .tool, [.toolResult ⟨7⟩ ⟨false, "done"⟩], .fromSequence 1⟩

def answeredTwice : List AgentMessage := [use, result, result, use]

theorem unmatched_answeredTwice : Unmatched answeredTwice [use, result] result [use] ⟨7⟩ := by
  have hcounts (id : ToolCallId) : answered [use, result] id = used [use, result] id ∧ use.answers id = 0 := by
    simp [AgentMessage.answers, AgentMessage.uses, use, result, AgentMessage.toolUses, AgentMessage.toolResults]
  refine ⟨rfl, rfl, ?_, [], [], rfl, fun id => (hcounts id).1.le, (hcounts ⟨7⟩).1⟩
  refine inOrder_concat.mpr ⟨inOrder_concat.mpr ⟨inOrder_nil, ?_, fun id => ?_⟩, ?_, fun id => ?_⟩
  · rintro (h | h) <;> cases h
  · rw [(hcounts id).2]
    exact Nat.zero_le _
  · rintro (h | h) <;> cases h
  · rw [← answered_concat, ← used_concat]
    exact (hcounts id).1.le

/-- The second result is reported as out of order, although its id was used before. -/
theorem second_result_out_of_order : validateTranscript answeredTwice = .error (.outOfOrderToolResult ⟨7⟩) ∧
    ¬ChecksPairing answeredTwice := by
  have hreported : validateTranscript answeredTwice = .error (.outOfOrderToolResult ⟨7⟩) := by decide
  refine ⟨hreported, fun h => ?_⟩
  obtain ⟨before, m, rest, hunmatched, hnone, -⟩ := (h.outOfOrder ⟨7⟩).mp hreported
  obtain ⟨rfl, rfl⟩ := unmatched_answeredTwice.unique hunmatched
  revert hnone
  decide

end Sample

end Transcript
end RustyCore
