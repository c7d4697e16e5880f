import RustyCore.Context.Summary
import RustyCore.Theorems.Compaction

/-! What background summaries may leave out. At every point of every interleaving, what a summary covers is
    accounted for: kept verbatim, judged disposable, or folded into the summary. -/

namespace RustyCore

open List Option

namespace Summarizing

open Compaction

variable {provider : SummarizingCompactionProvider} {w w' : World}

variable {retention : Retention}

theorem isProtected_of_history {history conversation : List AgentMessage} {i : Nat}
    (hhistory : history <+: conversation) (hi : i < history.length) :
    isProtected retention conversation i = isProtected retention history i := by
  obtain ⟨rest, rfl⟩ := hhistory
  simp [isProtected, List.getElem?_append_left hi, take_append_of_le_length (Nat.le_of_lt hi)]

theorem getElem?_of_history {history conversation : List AgentMessage} {i : Nat} {m : AgentMessage}
    (hhistory : history <+: conversation) (hm : history[i]? = some m) : conversation[i]? = some m := by
  obtain ⟨rest, rfl⟩ := hhistory
  rw [List.getElem?_append_left (List.getElem?_eq_some_iff.mp hm).1, hm]

variable {messages : List AgentMessage}

theorem isProtected_retentionWithVerdicts {state : SummaryState} {i : Nat} :
    isProtected (provider.retentionWithVerdicts state) messages i = true ↔
      isProtected provider.retention messages i = true ∨ ∃ m, messages[i]? = some m ∧ m.id ∈ state.essential := by
  unfold isProtected SummarizingCompactionProvider.retentionWithVerdicts
  cases hm : messages[i]? with
  | none => simp
  | some m =>
    simp only [contains_eq_mem, mem_append, Bool.or_eq_true, decide_eq_true_eq, Option.some.injEq,
      exists_eq_left']
    grind

/-- The message at `i` is kept verbatim, judged disposable, folded into the summary, or one of the candidates. -/
def Accounted (provider : SummarizingCompactionProvider) (conversation : List AgentMessage) (state : SummaryState)
    (summary : Option Summary) (candidates : List AgentMessage) (i : Nat) : Prop :=
  isProtected provider.retention conversation i = true ∨ ∃ m, conversation[i]? = some m ∧
    (m.id ∈ state.essential ∨ m.id ∈ state.disposable ∨ (∃ s, summary = some s ∧ s.Folds m) ∨ m ∈ candidates)

def Covers (provider : SummarizingCompactionProvider) (conversation : List AgentMessage) (state : SummaryState)
    (summary : Option Summary) (candidates : List AgentMessage) (boundary : MessageId) : Prop :=
  ∃ e m, conversation[e]? = some m ∧ m.id = boundary ∧
    ∀ i ≤ e, Accounted provider conversation state summary candidates i

structure Judged (state state' : SummaryState) : Prop where
  essential : state.essential ⊆ state'.essential
  disposable : state.disposable ⊆ state'.disposable

theorem Judged.refl {state : SummaryState} : Judged state state := ⟨fun _ h => h, fun _ h => h⟩

theorem Judged.trans {a b c : SummaryState} (h : Judged a b) (h' : Judged b c) : Judged a c :=
  ⟨fun _ hm => h'.essential (h.essential hm), fun _ hm => h'.disposable (h.disposable hm)⟩

theorem judged_withVerdict (state : SummaryState) (verdict : Verdict) : Judged state (state.withVerdict verdict) := by
  unfold SummaryState.withVerdict
  cases verdict.importance <;> constructor <;> simp

theorem judged_withVerdicts (state : SummaryState) (verdicts : List Verdict) :
    Judged state (verdicts.foldl SummaryState.withVerdict state) := by
  induction verdicts generalizing state with
  | nil => exact .refl
  | cons verdict verdicts ih => exact (judged_withVerdict state verdict).trans (ih _)

theorem withVerdicts_covered (state : SummaryState) (verdicts : List Verdict) :
    (verdicts.foldl SummaryState.withVerdict state).coveredThrough = state.coveredThrough ∧
      (verdicts.foldl SummaryState.withVerdict state).summary = state.summary := by
  induction verdicts generalizing state with
  | nil => exact ⟨rfl, rfl⟩
  | cons verdict verdicts ih =>
    have hone : (state.withVerdict verdict).coveredThrough = state.coveredThrough ∧
        (state.withVerdict verdict).summary = state.summary := by
      unfold SummaryState.withVerdict
      cases verdict.importance <;> exact ⟨rfl, rfl⟩
    rw [foldl_cons, (ih _).1, (ih _).2, hone.1, hone.2]
    exact ⟨rfl, rfl⟩

section

variable {conversation conversation' : List AgentMessage} {state state' : SummaryState} {summary : Option Summary}
  {candidates : List AgentMessage} {boundary : MessageId} {i : Nat}

theorem Accounted.mono (h : Accounted provider conversation state summary candidates i)
    (hconversation : conversation <+: conversation') (hjudged : Judged state state') (hi : i < conversation.length) :
    Accounted provider conversation' state' summary candidates i := by
  rcases h with hprotected | ⟨m, hm, hcase⟩
  · exact Or.inl ((isProtected_of_history hconversation hi).trans hprotected)
  · refine Or.inr ⟨m, getElem?_of_history hconversation hm, ?_⟩
    rcases hcase with h | h | h | h
    · exact Or.inl (hjudged.essential h)
    · exact Or.inr (Or.inl (hjudged.disposable h))
    · exact Or.inr (Or.inr (Or.inl h))
    · exact Or.inr (Or.inr (Or.inr h))

theorem Covers.mono (h : Covers provider conversation state summary candidates boundary)
    (hconversation : conversation <+: conversation') (hjudged : Judged state state') :
    Covers provider conversation' state' summary candidates boundary := by
  obtain ⟨e, m, hm, hid, hall⟩ := h
  refine ⟨e, m, getElem?_of_history hconversation hm, hid, fun i hi => (hall i hi).mono hconversation hjudged ?_⟩
  exact Nat.lt_of_le_of_lt hi (List.getElem?_eq_some_iff.mp hm).1

theorem Covers.summarized {toSummarize : List AgentMessage} {next : Option Summary}
    (h : Covers provider conversation state summary candidates boundary)
    (hnext : ∀ m, (∃ s, summary = some s ∧ s.Folds m) ∨ m ∈ toSummarize → ∃ s, next = some s ∧ s.Folds m)
    (hcandidates : ∀ m ∈ candidates, m.id ∈ state.essential ∨ m.id ∈ state.disposable ∨ m ∈ toSummarize) :
    Covers provider conversation state next [] boundary := by
  obtain ⟨e, m, hm, hid, hall⟩ := h
  refine ⟨e, m, hm, hid, fun i hi => ?_⟩
  rcases hall i hi with hprotected | ⟨m, hm, hcase⟩
  · exact Or.inl hprotected
  · refine Or.inr ⟨m, hm, ?_⟩
    rcases hcase with h | h | h | h
    · exact Or.inl h
    · exact Or.inr (Or.inl h)
    · exact Or.inr (Or.inr (Or.inl (hnext m (Or.inl h))))
    · rcases hcandidates m h with h | h | h
      · exact Or.inl h
      · exact Or.inr (Or.inl h)
      · exact Or.inr (Or.inr (Or.inl (hnext m (Or.inr h))))

end

theorem coveredPosition_eq {state : SummaryState} {p : Nat}
    (h : SummarizingCompactionProvider.coveredPosition state messages = some p) :
    ∃ covered m, state.coveredThrough = some covered ∧ messages[p]? = some m ∧ m.id = covered := by
  unfold SummarizingCompactionProvider.coveredPosition at h
  obtain ⟨covered, hcovered, hfind⟩ := bind_eq_some_iff.mp h
  rw [List.findIdx?_eq_some_iff_getElem] at hfind
  obtain ⟨hlt, hid, -⟩ := hfind
  exact ⟨covered, messages[p], hcovered, List.getElem?_eq_getElem hlt, by simpa using hid⟩

theorem index_of_id {conversation : List AgentMessage} (hnodup : (conversation.map (·.id)).Nodup) {i j : Nat}
    {m m' : AgentMessage} (hm : conversation[i]? = some m) (hm' : conversation[j]? = some m') (hid : m.id = m'.id) :
    i = j := by
  have hsame : (conversation.map (·.id))[i]? = (conversation.map (·.id))[j]? := by
    rw [List.getElem?_map, List.getElem?_map, hm, hm', map_some, map_some, hid]
  obtain ⟨hi, -⟩ := List.getElem?_eq_some_iff.mp hm
  exact (List.getElem?_inj (by simpa using hi) hnodup).mp hsame

theorem accounted_of_position {conversation messages : List AgentMessage} {state : SummaryState} {p : Nat}
    (hnodup : (conversation.map (·.id)).Nodup) (hhistory : messages <+: conversation)
    (hcovered : ∀ b, state.coveredThrough = some b → Covers provider conversation state state.summary [] b)
    (h : SummarizingCompactionProvider.coveredPosition state messages = some p) :
    ∀ i ≤ p, Accounted provider conversation state state.summary [] i := by
  obtain ⟨covered, m, hstate, hm, hid⟩ := coveredPosition_eq h
  obtain ⟨e, m', hm', hid', hall⟩ := hcovered covered hstate
  have hpe : p = e := index_of_id hnodup (getElem?_of_history hhistory hm) hm' (hid.trans hid'.symm)
  rw [hpe]
  exact hall

theorem covers_of_plan {conversation : List AgentMessage} {state : SummaryState} {request : ExecutionRequest}
    {plan : SummaryPlan} (hnodup : (conversation.map (·.id)).Nodup) (hhistory : request.messages <+: conversation)
    (hcovered : ∀ b, state.coveredThrough = some b → Covers provider conversation state state.summary [] b)
    (h : provider.plan state request = some plan) :
    Covers provider conversation state plan.previous plan.candidates plan.boundary := by
  simp only [SummarizingCompactionProvider.plan] at h
  split at h
  · cases h
  · split at h
    · cases h
    · rename_i hend
      split at h
      · cases h
      · obtain ⟨last, hlast, rfl⟩ := map_eq_some_iff.mp h
        refine ⟨_, last, getElem?_of_history hhistory hlast, rfl, fun i hi => ?_⟩
        generalize hstart : ((SummarizingCompactionProvider.coveredPosition state request.messages).map (· + 1)).getD 0 =
          start at hend
        have hlt : i < request.messages.length := Nat.lt_of_le_of_lt hi (List.getElem?_eq_some_iff.mp hlast).1
        by_cases hbefore : i < start
        · cases hposition : SummarizingCompactionProvider.coveredPosition state request.messages with
          | none =>
            rw [hposition] at hstart
            simp only [map_none, getD_none] at hstart
            omega
          | some p =>
            rw [hposition] at hstart
            simp only [map_some, getD_some] at hstart
            have haccounted := accounted_of_position hnodup hhistory hcovered hposition i (by omega)
            rcases haccounted with hprotected | ⟨m, hm, hcase⟩
            · exact Or.inl hprotected
            · refine Or.inr ⟨m, hm, ?_⟩
              rcases hcase with h | h | h | h
              · exact Or.inl h
              · exact Or.inr (Or.inl h)
              · exact Or.inr (Or.inr (Or.inl h))
              · cases h
        · by_cases hprotected : isProtected (provider.retentionWithVerdicts state) request.messages i = true
          · rcases isProtected_retentionWithVerdicts.mp hprotected with hprotected | ⟨m, hm, hessential⟩
            · exact Or.inl ((isProtected_of_history hhistory hlt).trans hprotected)
            · exact Or.inr ⟨m, getElem?_of_history hhistory hm, Or.inl hessential⟩
          · have hm : request.messages[i]? = some request.messages[i] := List.getElem?_eq_getElem hlt
            refine Or.inr ⟨request.messages[i], getElem?_of_history hhistory hm, Or.inr (Or.inr (Or.inr ?_))⟩
            refine mem_filterMap.mpr ⟨i, ?_, by rw [if_neg hprotected, hm]⟩
            rw [mem_drop_iff_getElem]
            refine ⟨i - start, by simp only [length_range]; omega, ?_⟩
            rw [getElem_range]
            omega

/-- Nothing is lost in a request made of the history: a message that is not in it was judged disposable, or was
    folded into the summary that is in it; pinned messages, essential ones and the anchor are in it. -/
structure Lossless (provider : SummarizingCompactionProvider) (history : List AgentMessage) (state : SummaryState)
    (messages : List AgentMessage) : Prop where
  absent : ∀ m ∈ history, m ∉ messages → m.id ∈ state.disposable ∨
    ∃ summary, state.summary = some summary ∧ summary.Folds m ∧
      ∃ id createdAt condensed, (summaryMessage id createdAt summary.text).message condensed ∈ messages
  pinned : ∀ m ∈ history, m.id ∈ provider.retention.pinned → m ∈ messages
  essential : ∀ m ∈ history, m.id ∈ state.essential → m ∈ messages
  anchor : provider.retention.anchorFirstUser = true → ∀ m, history.find? (·.role == .user) = some m → m ∈ messages

theorem Lossless.same {history : List AgentMessage} {state : SummaryState} : Lossless provider history state history where
  absent _ hm hnot := absurd hm hnot
  pinned _ hm _ := hm
  essential _ hm _ := hm
  anchor _ _ hm := mem_of_find?_eq_some hm

theorem mem_dropPrefix {keep i : Nat} {note : Note}
    {m : AgentMessage} (hm : messages[i]? = some m) (h : Retained messages keep retention i) :
    m ∈ (dropPrefix messages keep retention note).1 := by
  refine (staying_sublist messages keep retention note).mem ?_
  rw [staying, take_length]
  refine mem_map.mpr ⟨(m, i), mem_filter.mpr ⟨mem_zipIdx_iff_getElem?.mpr hm, ?_⟩, rfl⟩
  simpa using h

theorem isProtected_anchor {m : AgentMessage}
    (hanchor : retention.anchorFirstUser = true) (hfind : messages.find? (·.role == .user) = some m) :
    ∃ i, messages[i]? = some m ∧ isProtected retention messages i = true := by
  rw [List.find?_eq_some_iff_append] at hfind
  obtain ⟨hrole, before, after, rfl, hbefore⟩ := hfind
  refine ⟨before.length, by simp, ?_⟩
  simp only [isProtected, List.getElem?_append_right (Nat.le_refl _), Nat.sub_self, List.getElem?_cons_zero, hanchor,
    hrole, Bool.true_and, take_left, Bool.or_eq_true]
  right
  simpa using hbefore

theorem lossless_applyReadySummary {conversation : List AgentMessage} {state : SummaryState} {request : ExecutionRequest}
    {id : MessageId} {createdAt : Timestamp} (hnodup : (conversation.map (·.id)).Nodup)
    (hhistory : request.messages <+: conversation)
    (hcovered : ∀ b, state.coveredThrough = some b → Covers provider conversation state state.summary [] b) :
    Lossless provider request.messages state (provider.applyReadySummary state id createdAt request).messages := by
  unfold SummarizingCompactionProvider.applyReadySummary
  split
  · exact .same
  · rename_i position hposition
    have haccounted := accounted_of_position hnodup hhistory hcovered hposition
    generalize hretention : provider.retentionWithVerdicts state = retention
    generalize hkeep : request.messages.length - (position + 1) = keep
    generalize hnote : SummarizingCompactionProvider.readyNote state id createdAt = note
    show Lossless provider request.messages state (dropPrefix request.messages keep retention note).1
    have hstays : ∀ i m, request.messages[i]? = some m → isProtected retention request.messages i = true →
        m ∈ (dropPrefix request.messages keep retention note).1 := by
      intro i m hm hprotected
      exact mem_dropPrefix hm (.initially ⟨(List.getElem?_eq_some_iff.mp hm).1, Or.inr hprotected⟩)
    have hverdict : ∀ i m, request.messages[i]? = some m →
        (isProtected provider.retention request.messages i = true ∨ m.id ∈ state.essential) →
        m ∈ (dropPrefix request.messages keep retention note).1 := by
      intro i m hm h
      refine hstays i m hm ?_
      rw [← hretention]
      refine isProtected_retentionWithVerdicts.mpr ?_
      rcases h with h | h
      · exact Or.inl h
      · exact Or.inr ⟨m, hm, h⟩
    refine ⟨?_, ?_, ?_, ?_⟩
    · intro m hmem hnot
      obtain ⟨i, hm⟩ := List.getElem?_of_mem hmem
      have hlt := (List.getElem?_eq_some_iff.mp hm).1
      have hle : i ≤ position := by
        by_contra hgt
        exact hnot (mem_dropPrefix hm (.initially ⟨hlt, Or.inl (by omega)⟩))
      rcases haccounted i hle with hprotected | ⟨m', hm', hcase⟩
      · exact absurd (hverdict i m hm (Or.inl ((isProtected_of_history hhistory hlt).symm.trans hprotected))) hnot
      · have hsame : m' = m := Option.some.inj (hm'.symm.trans (getElem?_of_history hhistory hm))
        subst hsame
        rcases hcase with h | h | ⟨summary, hsummary, hfolds⟩ | h
        · exact absurd (hverdict i m' hm (Or.inr h)) hnot
        · exact Or.inl h
        · refine Or.inr ⟨summary, hsummary, hfolds, id, createdAt, ?_⟩
          rcases dropPrefix_cases request.messages keep retention note with
            ⟨hall, -⟩ | ⟨before, _, rest, dropped, -, -, hout⟩
          · rw [hall] at hnot
            exact absurd hmem hnot
          · refine ⟨dropped, ?_⟩
            rw [hout, ← hnote]
            simp [SummarizingCompactionProvider.readyNote, hsummary]
        · cases h
    · intro m hmem hpinned
      obtain ⟨i, hm⟩ := List.getElem?_of_mem hmem
      refine hverdict i m hm (Or.inl ?_)
      simp [isProtected, hm, hpinned]
    · intro m hmem hessential
      obtain ⟨i, hm⟩ := List.getElem?_of_mem hmem
      exact hverdict i m hm (Or.inr hessential)
    · intro hanchor m hfind
      obtain ⟨i, hm, hprotected⟩ := isProtected_anchor hanchor hfind
      exact hverdict i m hm (Or.inl hprotected)

structure Inv (provider : SummarizingCompactionProvider) (w : World) : Prop where
  distinct : ∀ key, ((w.conversations key).map (·.id)).Nodup
  covered : ∀ key b, (w.states key).coveredThrough = some b →
    Covers provider (w.conversations key) (w.states key) (w.states key).summary [] b
  history : ∀ call ∈ w.calls, call.request.messages <+: w.conversations call.key
  plans : ∀ call ∈ w.calls, ∀ plan, call.plan = some plan →
    Covers provider (w.conversations call.key) (w.states call.key) plan.previous plan.candidates plan.boundary
  jobs : ∀ job ∈ w.jobs,
    Covers provider (w.conversations job.key) (w.states job.key) job.plan.previous job.plan.candidates job.plan.boundary
  classified : ∀ job ∈ w.jobs, ∀ toSummarize, job.phase = .summarizing toSummarize → ∀ m ∈ job.plan.candidates,
    m.id ∈ (w.states job.key).essential ∨ m.id ∈ (w.states job.key).disposable ∨ m ∈ toSummarize
  assembled : ∀ a ∈ w.assembled, Lossless provider a.history a.state a.prepared.messages

structure Grows (w w' : World) : Prop where
  conversations : ∀ key, w.conversations key <+: w'.conversations key
  judged : ∀ key, Judged (w.states key) (w'.states key)

theorem Inv.grows (h : Inv provider w) (hgrows : Grows w w') (hdistinct : ∀ key, ((w'.conversations key).map (·.id)).Nodup)
    (hcovered : ∀ key b, (w'.states key).coveredThrough = some b →
      Covers provider (w'.conversations key) (w'.states key) (w'.states key).summary [] b)
    (hhistory : ∀ call ∈ w'.calls, call ∉ w.calls → call.request.messages <+: w'.conversations call.key)
    (hplans : ∀ call ∈ w'.calls, call ∉ w.calls → ∀ plan, call.plan = some plan →
      Covers provider (w'.conversations call.key) (w'.states call.key) plan.previous plan.candidates plan.boundary)
    (hjobs : ∀ job ∈ w'.jobs, job ∉ w.jobs →
      Covers provider (w'.conversations job.key) (w'.states job.key) job.plan.previous job.plan.candidates
        job.plan.boundary)
    (hclassified : ∀ job ∈ w'.jobs, job ∉ w.jobs → ∀ toSummarize, job.phase = .summarizing toSummarize →
      ∀ m ∈ job.plan.candidates,
        m.id ∈ (w'.states job.key).essential ∨ m.id ∈ (w'.states job.key).disposable ∨ m ∈ toSummarize)
    (hassembled : ∀ a ∈ w'.assembled, a ∉ w.assembled → Lossless provider a.history a.state a.prepared.messages) :
    Inv provider w' where
  distinct := hdistinct
  covered := hcovered
  history call hcall := by
    by_cases hold : call ∈ w.calls
    · exact (h.history call hold).trans (hgrows.conversations _)
    · exact hhistory call hcall hold
  plans call hcall plan hplan := by
    by_cases hold : call ∈ w.calls
    · exact (h.plans call hold plan hplan).mono (hgrows.conversations _) (hgrows.judged _)
    · exact hplans call hcall hold plan hplan
  jobs job hjob := by
    by_cases hold : job ∈ w.jobs
    · exact (h.jobs job hold).mono (hgrows.conversations _) (hgrows.judged _)
    · exact hjobs job hjob hold
  classified job hjob toSummarize hphase m hm := by
    by_cases hold : job ∈ w.jobs
    · rcases h.classified job hold toSummarize hphase m hm with hcase | hcase | hcase
      · exact Or.inl ((hgrows.judged _).essential hcase)
      · exact Or.inr (Or.inl ((hgrows.judged _).disposable hcase))
      · exact Or.inr (Or.inr hcase)
    · exact hclassified job hjob hold toSummarize hphase m hm
  assembled a ha := by
    by_cases hold : a ∈ w.assembled
    · exact h.assembled a hold
    · exact hassembled a ha hold

section

variable {key : MessageId} {state : SummaryState}

@[simp] theorem setState_states_self : (w.setState key state).states key = state := by simp [World.setState]

theorem setState_states (k : MessageId) :
    (w.setState key state).states k = if k = key then state else w.states k := rfl

theorem judged_setState (h : Judged (w.states key) state) (k : MessageId) :
    Judged (w.states k) ((w.setState key state).states k) := by
  rw [setState_states]
  split
  · rename_i heq
    rw [heq]
    exact h
  · exact .refl

theorem covered_setState (h : Inv provider w)
    (hcovered : ∀ b, state.coveredThrough = some b → Covers provider (w.conversations key) state state.summary [] b)
    (k : MessageId) (b : MessageId) (hb : ((w.setState key state).states k).coveredThrough = some b) :
    Covers provider (w.conversations k) ((w.setState key state).states k) ((w.setState key state).states k).summary [] b := by
  rw [setState_states] at hb ⊢
  split
  · rename_i heq
    rw [if_pos heq] at hb
    rw [heq]
    exact hcovered b hb
  · rename_i hne
    rw [if_neg hne] at hb
    exact h.covered k b hb

end

theorem mem_middle {α : Type} {before after : List α} {x y : α} (h : y ∈ before ++ x :: after)
    {l : List α} {z : α} (hl : l = before ++ z :: after) (hnew : y ∉ l) : y = x := by
  rw [hl] at hnew
  simp only [mem_append, mem_cons] at h hnew
  tauto

theorem no_new {α : Type} {l : List α} {P : α → Prop} : ∀ x ∈ l, x ∉ l → P x := fun _ h hnew => absurd h hnew

theorem setState_self (key : MessageId) : w.setState key (w.states key) = w := by
  have hstates : (fun k => if k = key then w.states key else w.states k) = w.states := by
    funext k
    split
    · rename_i heq
      rw [heq]
    · rfl
  rw [World.setState, hstates]

theorem mem_of_middle {α : Type} {before after l : List α} {x y : α} (hl : l = before ++ x :: after)
    (h : y ∈ before ++ after) : y ∈ l := by
  rw [hl]
  rcases mem_append.mp h with h | h <;> simp [h]

theorem mem_snoc_new {α : Type} {l : List α} {x y : α} (h : y ∈ l ++ [x]) (hnew : y ∉ l) : y = x := by
  simpa [hnew] using h

theorem Inv.append (h : Inv provider w) {key : MessageId} {m : AgentMessage}
    (hfresh : ∀ m' ∈ w.conversations key, m'.id ≠ m.id) :
    Inv provider { w with conversations := fun k => if k = key then w.conversations key ++ [m] else w.conversations k } := by
  have hgrows : ∀ k, w.conversations k <+: if k = key then w.conversations key ++ [m] else w.conversations k := by
    intro k
    split
    · rename_i heq
      rw [heq]
      exact prefix_append _ _
    · exact prefix_rfl
  refine h.grows ⟨hgrows, fun _ => .refl⟩ ?_ ?_ no_new no_new
    no_new no_new no_new
  · intro k
    dsimp only
    split
    · rw [map_append, nodup_append]
      refine ⟨h.distinct key, by simp, ?_⟩
      intro a ha b hb
      obtain ⟨m', hm', rfl⟩ := mem_map.mp ha
      rw [map_singleton, mem_singleton] at hb
      rw [hb]
      exact hfresh m' hm'
    · exact h.distinct k
  · intro k b hb
    exact (h.covered k b hb).mono (hgrows k) .refl

theorem Inv.plan (h : Inv provider w) {key : MessageId} {request : ExecutionRequest}
    (hhistory : request.messages <+: w.conversations key) :
    Inv provider { w with
      calls := w.calls ++ [⟨key, request,
        if provider.pressured request then provider.plan (w.states key) request else none, none⟩] } := by
  refine h.grows ⟨fun _ => prefix_rfl, fun _ => .refl⟩ h.distinct h.covered ?_ ?_
    no_new no_new no_new
  · intro call hcall hnew
    rw [mem_snoc_new hcall hnew]
    exact hhistory
  · intro call hcall hnew plan hplan
    rw [mem_snoc_new hcall hnew] at hplan ⊢
    dsimp only at hplan
    split at hplan
    · exact covers_of_plan (h.distinct key) hhistory (h.covered key) hplan
    · cases hplan

theorem Inv.apply (h : Inv provider w) {before after : List AssembleCall} {call : AssembleCall}
    (hcalls : w.calls = before ++ call :: after) {id : MessageId} {createdAt : Timestamp} {prepared : ExecutionRequest}
    (hprepared : prepared = provider.applyReadySummary (w.states call.key) id createdAt call.request) :
    Inv provider { w with
      calls := before ++ { call with applied := some prepared } :: after
      assembled := w.assembled ++ [⟨call.request.messages, w.states call.key, prepared, provider.fallback prepared⟩] } := by
  have hcall : call ∈ w.calls := by
    rw [hcalls]
    simp
  refine h.grows ⟨fun _ => prefix_rfl, fun _ => .refl⟩ h.distinct h.covered ?_ ?_
    no_new no_new ?_
  · intro call' hcall' hnew
    rw [mem_middle hcall' hcalls hnew]
    exact h.history call hcall
  · intro call' hcall' hnew plan hplan
    rw [mem_middle hcall' hcalls hnew] at hplan ⊢
    exact h.plans call hcall plan hplan
  · intro a ha hnew
    rw [mem_snoc_new ha hnew]
    dsimp only
    rw [hprepared]
    exact lossless_applyReadySummary (h.distinct call.key) (h.history call hcall) (h.covered call.key)

theorem Inv.spawn (h : Inv provider w) {before after : List AssembleCall} {call : AssembleCall}
    (hcalls : w.calls = before ++ call :: after) {plan : SummaryPlan} (hplan : call.plan = some plan) :
    Inv provider { w.setState call.key { w.states call.key with inFlight := true } with
      calls := before ++ after
      jobs := w.jobs ++ [⟨call.key, plan, .judging⟩] } := by
  have hcall : call ∈ w.calls := by
    rw [hcalls]
    simp
  have hjudged : Judged (w.states call.key) { w.states call.key with inFlight := true } := ⟨fun _ h => h, fun _ h => h⟩
  refine h.grows ⟨fun _ => prefix_rfl, judged_setState hjudged⟩ h.distinct
    (covered_setState h fun b hb => (h.covered call.key b hb).mono prefix_rfl hjudged)
    (fun _ hc hn => absurd (mem_of_middle hcalls hc) hn) (fun _ hc hn => absurd (mem_of_middle hcalls hc) hn) ?_ ?_
    no_new
  · intro job hjob hnew
    rw [mem_snoc_new hjob hnew]
    exact (h.plans call hcall plan hplan).mono prefix_rfl (judged_setState hjudged _)
  · intro job hjob hnew toSummarize hphase
    rw [mem_snoc_new hjob hnew] at hphase
    cases hphase

/-- A job goes on to its next phase, and leaves the conversation's state behind. -/
theorem Inv.advance (h : Inv provider w) {before after : List Job} {job : Job} (hjobs : w.jobs = before ++ job :: after)
    (phase : JobPhase) {state : SummaryState} (hjudged : Judged (w.states job.key) state)
    (hcovered : ∀ b, state.coveredThrough = some b →
      Covers provider (w.conversations job.key) state state.summary [] b)
    (hclassified : ∀ toSummarize, phase = .summarizing toSummarize → ∀ m ∈ job.plan.candidates,
      m.id ∈ state.essential ∨ m.id ∈ state.disposable ∨ m ∈ toSummarize) :
    Inv provider { w.setState job.key state with jobs := before ++ { job with phase := phase } :: after } := by
  have hjob : job ∈ w.jobs := by
    rw [hjobs]
    simp
  refine h.grows ⟨fun _ => prefix_rfl, judged_setState hjudged⟩ h.distinct (covered_setState h hcovered)
    no_new no_new ?_ ?_ no_new
  · intro job' hjob' hnew
    rw [mem_middle hjob' hjobs hnew]
    exact (h.jobs job hjob).mono prefix_rfl (judged_setState hjudged _)
  · intro job' hjob' hnew toSummarize hphase m hm
    rw [mem_middle hjob' hjobs hnew] at hphase hm ⊢
    dsimp only
    rw [setState_states_self]
    exact hclassified toSummarize hphase m hm

theorem Inv.judge (h : Inv provider w) {before after : List Job} {job : Job} (hjobs : w.jobs = before ++ job :: after)
    (verdicts : List Verdict) :
    Inv provider { w.setState job.key (verdicts.foldl SummaryState.withVerdict (w.states job.key)) with
      jobs := before ++ { job with phase := .classifying } :: after } := by
  have hjudged := judged_withVerdicts (w.states job.key) verdicts
  have hcovered := withVerdicts_covered (w.states job.key) verdicts
  refine h.advance hjobs _ hjudged (fun b hb => ?_) (by simp)
  rw [hcovered.1] at hb
  rw [hcovered.2]
  exact (h.covered job.key b hb).mono prefix_rfl hjudged

theorem Inv.classify (h : Inv provider w) {before after : List Job} {job : Job} (hjobs : w.jobs = before ++ job :: after) :
    Inv provider { w with
      jobs := before ++ { job with phase := .summarizing ((w.states job.key).classifiedCandidates job.plan) } :: after } := by
  have hsame := h.advance hjobs (.summarizing ((w.states job.key).classifiedCandidates job.plan)) .refl (h.covered job.key) ?_
  · rwa [setState_self] at hsame
  · rintro _ ⟨⟩ m hm
    by_cases hessential : m.id ∈ (w.states job.key).essential
    · exact Or.inl hessential
    · by_cases hdisposable : m.id ∈ (w.states job.key).disposable
      · exact Or.inr (Or.inl hdisposable)
      · refine Or.inr (Or.inr (mem_filter.mpr ⟨hm, ?_⟩))
        simp [hessential, hdisposable]

/-- The summary that a job writes folds in what the one before it did and all it was to summarize. -/
theorem Inv.write (h : Inv provider w) {before after : List Job} {job : Job} (hjobs : w.jobs = before ++ job :: after)
    {toSummarize : List AgentMessage} (hphase : job.phase = .summarizing toSummarize) {summary : Option Summary}
    (hfolds : ∀ m, (∃ s, job.plan.previous = some s ∧ s.Folds m) ∨ m ∈ toSummarize → ∃ s, summary = some s ∧ s.Folds m) :
    Inv provider { w.setState job.key ((w.states job.key).withSummary job.plan summary) with
      jobs := before ++ { job with phase := .ended } :: after } := by
  have hjob : job ∈ w.jobs := by
    rw [hjobs]
    simp
  have hjudged : Judged (w.states job.key) ((w.states job.key).withSummary job.plan summary) :=
    ⟨fun _ h => h, fun _ h => h⟩
  refine h.advance hjobs _ hjudged (fun b hb => ?_) (by simp)
  cases hb
  exact ((h.jobs job hjob).summarized hfolds (h.classified job hjob toSummarize hphase)).mono prefix_rfl hjudged

theorem Inv.land (h : Inv provider w) {before after : List Job} {job : Job} (hjobs : w.jobs = before ++ job :: after) :
    Inv provider { w.setState job.key { w.states job.key with inFlight := false } with jobs := before ++ after } := by
  have hjudged : Judged (w.states job.key) { w.states job.key with inFlight := false } := ⟨fun _ h => h, fun _ h => h⟩
  exact h.grows ⟨fun _ => prefix_rfl, judged_setState hjudged⟩ h.distinct
    (covered_setState h fun b hb => (h.covered job.key b hb).mono prefix_rfl hjudged)
    no_new no_new (fun _ hj hn => absurd (mem_of_middle hjobs hj) hn)
    (fun _ hj hn => absurd (mem_of_middle hjobs hj) hn) no_new

theorem inv_step (h : Inv provider w) (hstep : Step provider w w') : Inv provider w' := by
  cases hstep with
  | append key m hfirst hfresh => exact h.append hfresh
  | plan key request hnonempty hhistory => exact h.plan hhistory
  | apply before after call id createdAt prepared hcalls hnew hprepared => exact h.apply hcalls hprepared
  | spawn before after call prepared plan hcalls happlied hplan hpressured hidle => exact h.spawn hcalls hplan
  | finish before after call hcalls happlied =>
    exact h.grows ⟨fun _ => prefix_rfl, fun _ => .refl⟩ h.distinct h.covered
      (fun _ hc hn => absurd (mem_of_middle hcalls hc) hn) (fun _ hc hn => absurd (mem_of_middle hcalls hc) hn)
      no_new no_new no_new
  | judge before after job verdicts hjobs hphase => exact h.judge hjobs verdicts
  | classify before after job hjobs hphase => exact h.classify hjobs
  | cover before after job hjobs hphase =>
    refine h.write hjobs hphase fun m hm => ?_
    rcases hm with hm | hm
    · exact hm
    · cases hm
  | summarize before after job toSummarize text hjobs hphase hsome =>
    refine h.write hjobs hphase fun m hm => ⟨_, rfl, ?_⟩
    cases hprevious : job.plan.previous with
    | none =>
      rcases hm with ⟨s, hs, -⟩ | hm
      · rw [hprevious] at hs
        cases hs
      · exact hm
    | some previous =>
      rcases hm with ⟨s, hs, hfolds⟩ | hm
      · rw [hprevious] at hs
        cases hs
        exact Or.inr hfolds
      · exact Or.inl hm
  | land before after job hjobs => exact h.land hjobs

theorem inv_reachable (h : Reachable provider w) : Inv provider w := by
  induction h with
  | start =>
    exact ⟨fun _ => nodup_nil, fun _ _ hb => (nomatch hb), fun _ hc => (nomatch hc), fun _ hc => (nomatch hc),
      fun _ hj => (nomatch hj), fun _ hj => (nomatch hj), fun _ ha => (nomatch ha)⟩
  | step _ hstep ih => exact inv_step ih hstep

end Summarizing

/-- In every interleaving of conversations, context assemblies and background summary jobs, no request that is
    handed to the fallback has lost anything. -/
theorem background_summaries_lossless (provider : SummarizingCompactionProvider) (w : Summarizing.World)
    (h : Summarizing.Reachable provider w) :
    ∀ a ∈ w.assembled, Summarizing.Lossless provider a.history a.state a.prepared.messages :=
  (Summarizing.inv_reachable h).assembled

namespace Sample

open Summarizing

/-- A provider for a model whose window is not known; its fallback keeps the last message when there is text at
    all. -/
def unsized : SummarizingCompactionProvider where
  fallback := PolicyDrivenCompactionProvider.assemble ⟨id, .default, none, 1, 0, ⟨[], false⟩⟩
    (Compaction.truncationNote ⟨99⟩ ⟨0, 0⟩)
  policy := .default
  contextWindow := none
  keepRecent := 1
  retention := ⟨[], false⟩

def firstAsk : AgentMessage := ⟨⟨1⟩, .user, [.text "Fix the build"], ⟨0, 0⟩⟩

def followUp : AgentMessage := ⟨⟨2⟩, .user, [.text "Run the tests"], ⟨0, 0⟩⟩

def asked : ExecutionRequest := ⟨⟨3⟩, ⟨4⟩, "", [firstAsk, followUp], [], false, {}⟩

theorem reachable_assembled : ∃ w, Reachable unsized w ∧
    w.assembled = [⟨[firstAsk, followUp], {}, asked, unsized.fallback asked⟩] := by
  have hstart : Reachable unsized {} := Reachable.start
  have hone := hstart.step (Step.append ⟨1⟩ firstAsk (fun _ => rfl) nofun)
  have htwo := hone.step (Step.append ⟨1⟩ followUp (fun h => by cases h) (by decide))
  have hplanned := htwo.step (Step.plan ⟨1⟩ asked (by simp [asked]) ⟨[], rfl⟩)
  exact ⟨_, hplanned.step (Step.apply [] [] _ ⟨9⟩ ⟨0, 0⟩ asked rfl rfl rfl), rfl⟩

theorem sent_messages : (unsized.fallback asked).messages =
    [(Compaction.truncationNote ⟨99⟩ ⟨0, 0⟩).message 1, followUp] := by
  rfl

/-- The fallback's cheap tiers drop messages that no summary stands for. -/
theorem fallback_drops_message : ∃ w, Reachable unsized w ∧
    ∃ a ∈ w.assembled, ¬Lossless unsized a.history a.state a.sent.messages := by
  obtain ⟨w, hreachable, hassembled⟩ := reachable_assembled
  refine ⟨w, hreachable, _, by rw [hassembled]; exact mem_singleton_self _, fun h => ?_⟩
  have habsent : firstAsk ∉ (unsized.fallback asked).messages := by
    rw [sent_messages]
    simp [firstAsk, followUp, Compaction.Note.message]
  rcases h.absent firstAsk (by simp) habsent with hdisposable | ⟨summary, hsummary, -⟩
  · cases hdisposable
  · cases hsummary

/-- A provider whose window is so small that every request is under pressure. -/
def pressing : SummarizingCompactionProvider where
  fallback := PolicyDrivenCompactionProvider.assemble ⟨id, .default, none, 1, 0, ⟨[], false⟩⟩
    (Compaction.truncationNote ⟨99⟩ ⟨0, 0⟩)
  policy := { ContextPolicy.default with reservedOutputTokens := 0 }
  contextWindow := some 2
  keepRecent := 1
  retention := ⟨[], false⟩

def report : AgentMessage := ⟨⟨5⟩, .assistant, [.text "All tests pass"], ⟨0, 0⟩⟩

def discussed : ExecutionRequest := ⟨⟨3⟩, ⟨4⟩, "", [firstAsk, followUp, report], [], false, {}⟩

def batch : SummaryPlan := ⟨[firstAsk, followUp], ⟨2⟩, none⟩

def summary : Summary := .made none [firstAsk] "The user asked to fix the build."

theorem planned : (if pressing.pressured discussed then pressing.plan {} discussed else none) = some batch := by
  have hpressured : pressing.pressured discussed = true := by decide
  rw [if_pos hpressured]
  rfl

/-- The state of the conversation once the job has landed. -/
def summarized : SummaryState where
  summary := some summary
  coveredThrough := some ⟨2⟩
  disposable := [⟨2⟩]
  judged := [⟨2⟩]

theorem applied : pressing.applyReadySummary summarized ⟨9⟩ ⟨0, 0⟩ discussed =
    { discussed with messages := [(Compaction.summaryMessage ⟨9⟩ ⟨0, 0⟩ summary.text).message 2, report] } := by rfl

/-- The judge disposes of the second message, the job summarizes the first one and lands, and the history is assembled
    again. -/
theorem reachable_summarized : ∃ w, Reachable pressing w ∧ ∃ a ∈ w.assembled, a.history = [firstAsk, followUp, report] ∧
    a.state = summarized ∧
    a.prepared.messages = [(Compaction.summaryMessage ⟨9⟩ ⟨0, 0⟩ summary.text).message 2, report] := by
  have hone := (Reachable.start : Reachable pressing {}).step (Step.append ⟨1⟩ firstAsk (fun _ => rfl) nofun)
  have htwo := hone.step (Step.append ⟨1⟩ followUp (fun h => by cases h) (by decide))
  have hthree := htwo.step (Step.append ⟨1⟩ report (fun h => by cases h) (by decide))
  have hplanned := hthree.step (Step.plan ⟨1⟩ discussed (by simp [discussed]) ⟨[], rfl⟩)
  rw [show (if pressing.pressured discussed then pressing.plan _ discussed else none) = some batch from planned] at hplanned
  have happlied := hplanned.step (Step.apply [] [] _ ⟨8⟩ ⟨0, 0⟩ discussed rfl rfl rfl)
  have hspawned := happlied.step (Step.spawn [] [] _ discussed batch rfl rfl rfl (by decide) rfl)
  have hjudged := hspawned.step (Step.judge [] [] _ [⟨⟨2⟩, .disposable⟩] rfl rfl)
  have hclassified := hjudged.step (Step.classify [] [] _ rfl rfl)
  have hanswered := hclassified.step
    (Step.summarize [] [] _ [firstAsk] "The user asked to fix the build." rfl rfl (by simp))
  have hlanded := hanswered.step (Step.land [] [] _ rfl)
  have hagain := hlanded.step (Step.plan ⟨1⟩ discussed (by simp [discussed]) ⟨[], rfl⟩)
  exact ⟨_, hagain.step (Step.apply [] [] _ ⟨9⟩ ⟨0, 0⟩ _ rfl rfl rfl), _,
    mem_append_right _ (mem_singleton_self _), rfl, rfl, congrArg ExecutionRequest.messages applied⟩

theorem background_summaries_lossless_summarized : ∃ w, Reachable pressing w ∧
    (∃ a ∈ w.assembled, firstAsk ∈ a.history ∧ firstAsk ∉ a.prepared.messages ∧ a.state.summary = some summary) ∧
    ∀ a ∈ w.assembled, Lossless pressing a.history a.state a.prepared.messages := by
  obtain ⟨w, hreachable, a, ha, hhistory, hstate, hprepared⟩ := reachable_summarized
  refine ⟨w, hreachable, ⟨a, ha, by simp [hhistory], ?_, by rw [hstate]; rfl⟩,
    background_summaries_lossless pressing w hreachable⟩
  rw [hprepared]
  simp [firstAsk, report, Compaction.Note.message]

end Sample

end RustyCore
