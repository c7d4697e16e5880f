import RustyCore.Agent.Transcript

/-! A repaired history: the transcript check accepts it, repairing it again changes nothing, the first result of each
    call stands behind the call, and what is neither call nor result stays. -/

namespace RustyCore

open List

namespace Repair

def callOf : ContentBlock → Option ToolCallId
  | .toolUse call => some call.id
  | _ => none

/-- A block of the repaired message: an orphaned result is turned into text, an answered one goes. -/
def keep (calls : List ToolCallId) : ContentBlock → Option ContentBlock
  | .toolResult callId result => if calls.contains callId then none else some (.text (orphanText callId result))
  | block => some block

/-- The results of a message's calls, one each, in the order of the calls. -/
def answers : Results → List ToolCallId → List ContentBlock
  | _, [] => []
  | results, callId :: callIds =>
    .toolResult callId ((results.lookup callId).getD unavailableOutcome) :: answers (results.erase callId) callIds

def remaining : Results → List ToolCallId → Results
  | results, [] => results
  | results, callId :: callIds => remaining (results.erase callId) callIds

theorem toolUses_eq (message : AgentMessage) : message.toolUses = message.content.filterMap callOf := by
  refine filterMap_congr fun block _ => ?_
  cases block <;> rfl

theorem calls_eq (messages : List AgentMessage) : AgentMessage.calls messages = messages.flatMap AgentMessage.toolUses := by
  have hcalls : AgentMessage.calls messages = (messages.flatMap (·.content)).filterMap callOf := by
    refine filterMap_congr fun block _ => ?_
    cases block <;> rfl
  rw [hcalls]
  induction messages with
  | nil => rfl
  | cons message messages ih =>
    rw [flatMap_cons, flatMap_cons, filterMap_append, toolUses_eq]
    exact congrArg _ (ih (by
      refine filterMap_congr fun block _ => ?_
      cases block <;> rfl))

/-- The repair of one message, as three passes over its blocks. -/
theorem repairContent_eq (calls : List ToolCallId) (results : Results) (blocks : List ContentBlock) :
    repairContent calls results blocks = (blocks.filterMap (keep calls), answers results (blocks.filterMap callOf),
      remaining results (blocks.filterMap callOf)) := by
  induction blocks generalizing results with
  | nil => rfl
  | cons block blocks ih =>
    cases block with
    | toolUse call => simp [repairContent, ih, keep, callOf, answers, remaining]
    | toolResult callId result =>
      by_cases h : callId ∈ calls <;> simp [repairContent, ih, keep, callOf, filterMap_cons, h]
    | _ => simp [repairContent, ih, keep, callOf, filterMap_cons]

def repaired (calls : List ToolCallId) (results : Results) (message : AgentMessage) : List AgentMessage :=
  repairMessage message (message.content.filterMap (keep calls)) (answers results message.toolUses)

theorem repairFrom_cons (calls : List ToolCallId) (results : Results) (message : AgentMessage)
    (messages : List AgentMessage) :
    repairFrom calls results (message :: messages) =
      repaired calls results message ++ repairFrom calls (remaining results message.toolUses) messages := by
  rw [repairFrom, repairContent_eq, repaired, toolUses_eq]

theorem callOf_keep (calls : List ToolCallId) (blocks : List ContentBlock) :
    (blocks.filterMap (keep calls)).filterMap callOf = blocks.filterMap callOf := by
  rw [filterMap_filterMap]
  refine filterMap_congr fun block _ => ?_
  cases block with
  | toolResult callId result => by_cases h : callId ∈ calls <;> simp [keep, callOf, h]
  | _ => rfl

theorem toolUses_kept (calls : List ToolCallId) (message : AgentMessage) (role : MessageRole) :
    AgentMessage.toolUses ⟨message.id, role, message.content.filterMap (keep calls), message.createdAt⟩ =
      message.toolUses := by
  rw [toolUses_eq, callOf_keep, ← toolUses_eq]

variable {calls : List ToolCallId} {message : AgentMessage}

theorem keep_ne_nil (h : message.toolUses ≠ []) :
    message.content.filterMap (keep calls) ≠ [] := by
  intro hnil
  rw [toolUses_eq, ← callOf_keep calls, hnil] at h
  exact h rfl

variable {callIds : List ToolCallId}

theorem answers_eq_nil {results : Results} : answers results callIds = [] ↔ callIds = [] := by
  cases callIds <;> simp [answers]

theorem repaired_quiet {results : Results} (h : message.toolUses = []) :
    repaired calls results message =
      if message.content.filterMap (keep calls) = [] then []
      else [{ message with role := repairRole message.role, content := message.content.filterMap (keep calls) }] := by
  rw [repaired, h]
  simp [repairMessage, answers]

theorem repaired_calling {results : Results} (h : message.toolUses ≠ []) :
    repaired calls results message =
      [{ message with role := repairRole message.role, content := message.content.filterMap (keep calls) },
        { message with role := .tool, content := answers results message.toolUses }] := by
  have hkeep : message.content.filterMap (keep calls) ≠ [] := keep_ne_nil h
  have hanswers : answers results message.toolUses ≠ [] := answers_eq_nil.not.mpr h
  simp [repaired, repairMessage, hkeep, hanswers]

theorem toolResults_answers (results : Results) (callIds : List ToolCallId) (message : AgentMessage) :
    AgentMessage.toolResults ⟨message.id, .tool, answers results callIds, message.createdAt⟩ = callIds := by
  induction callIds generalizing results with
  | nil => rfl
  | cons callId callIds ih => exact congrArg (callId :: ·) (ih (results.erase callId))

theorem answer_self (rest : List AgentMessage) (callIds : List ToolCallId) :
    Transcript.answer rest callIds callIds = .ok [] := by
  induction callIds with
  | nil => rfl
  | cons callId callIds ih => simpa [Transcript.answer] using ih

theorem validateFrom_answers (results : Results) (callIds : List ToolCallId) (message : AgentMessage)
    (rest : List AgentMessage) :
    Transcript.validateFrom callIds (⟨message.id, .tool, answers results callIds, message.createdAt⟩ :: rest) =
      Transcript.validateFrom [] rest := by
  cases callIds <;> simp only [Transcript.validateFrom, toolResults_answers, answer_self]

def AssistantCalls (messages : List AgentMessage) : Prop :=
  ∀ message ∈ messages, message.role ≠ .assistant → message.toolUses = []

variable {messages : List AgentMessage}

/-- Every call is answered by the next message, so the check has nothing left to refuse. -/
theorem validateFrom_repairFrom (calls : List ToolCallId) (results : Results)
    (h : AssistantCalls messages) : Transcript.validateFrom [] (repairFrom calls results messages) = .ok () := by
  induction messages generalizing results with
  | nil => rfl
  | cons message messages ih =>
    obtain ⟨hfirst, hrest⟩ := forall_mem_cons.mp h
    have hvalid := ih (remaining results message.toolUses) hrest
    rw [repairFrom_cons]
    by_cases hcalls : message.toolUses = []
    · rw [repaired_quiet hcalls]
      split
      · exact hvalid
      · rename_i hkeep
        cases hrole : message.role <;>
          simpa [Transcript.validateFrom, repairRole, toolUses_kept, hcalls] using hvalid
    · have hassistant : message.role = .assistant := by
        by_contra hrole
        exact hcalls (hfirst hrole)
      rw [repaired_calling hcalls]
      simpa [Transcript.validateFrom, repairRole, hassistant, toolUses_kept, validateFrom_answers] using hvalid

def resultOf (callId : ToolCallId) : ContentBlock → Option ToolResultSummary
  | .toolResult id result => if id = callId then some result else none
  | _ => none

def firstResult (messages : List AgentMessage) (callId : ToolCallId) : Option ToolResultSummary :=
  (messages.flatMap (·.content)).findSome? (resultOf callId)

theorem lookup_collectResults (results : Results) (blocks : List ContentBlock) (callId : ToolCallId) :
    (collectResults results blocks).lookup callId = (results.lookup callId).or (blocks.findSome? (resultOf callId)) := by
  induction blocks generalizing results with
  | nil => simp [collectResults]
  | cons block blocks ih =>
    cases block with
    | toolResult id result =>
      rw [collectResults, ih]
      by_cases hid : callId = id
      · subst hid
        cases hfound : results.lookup callId with
        | some found => simp [hfound]
        | none => simp [resultOf]
      · have hne : ¬ id = callId := fun h => hid h.symm
        cases hfound : results.lookup id with
        | some found => simp [resultOf, hne]
        | none => simp [resultOf, hne, Table.lookup_insert_ne hid]
    | _ => exact ih results

variable {callId : ToolCallId}

theorem findSome?_keep (blocks : List ContentBlock) :
    (blocks.filterMap (keep calls)).findSome? (resultOf callId) = none := by
  rw [List.findSome?_eq_none_iff]
  intro block hblock
  obtain ⟨original, -, hkeep⟩ := mem_filterMap.mp hblock
  cases original with
  | toolResult id result =>
    by_cases h : id ∈ calls
    · simp [keep, h] at hkeep
    · simp only [keep, contains_eq_mem, h, decide_false] at hkeep
      obtain rfl := Option.some.inj hkeep
      rfl
  | _ =>
    obtain rfl := Option.some.inj hkeep
    rfl

theorem findSome?_answers (results : Results) :
    (answers results callIds).findSome? (resultOf callId) =
      if callId ∈ callIds then some ((results.lookup callId).getD unavailableOutcome) else none := by
  induction callIds generalizing results with
  | nil => rfl
  | cons first callIds ih =>
    rw [answers, List.findSome?_cons]
    by_cases hid : callId = first
    · subst hid
      simp [resultOf]
    · have hne : ¬ first = callId := fun h => hid h.symm
      simp [resultOf, hne, ih, hid, Table.lookup_erase_ne hid]

theorem lookup_remaining (results : Results) (h : callId ∉ callIds) :
    (remaining results callIds).lookup callId = results.lookup callId := by
  induction callIds generalizing results with
  | nil => rfl
  | cons first callIds ih =>
    rw [mem_cons, not_or] at h
    rw [remaining, ih _ h.2, Table.lookup_erase_ne h.1]

theorem content_repaired (calls : List ToolCallId) (results : Results) (message : AgentMessage) :
    (repaired calls results message).flatMap (·.content) =
      message.content.filterMap (keep calls) ++ answers results message.toolUses := by
  by_cases hcalls : message.toolUses = []
  · rw [repaired_quiet hcalls, hcalls]
    split
    · rename_i hkeep
      rw [hkeep]
      rfl
    · simp [answers]
  · rw [repaired_calling hcalls]
    simp

/-- Each call gets the result that is known of it. -/
theorem firstResult_repairFrom (calls : List ToolCallId) (results : Results) (h : callId ∈ AgentMessage.calls messages) :
    firstResult (repairFrom calls results messages) callId =
      some ((results.lookup callId).getD unavailableOutcome) := by
  rw [calls_eq] at h
  rw [firstResult]
  induction messages generalizing results with
  | nil => cases h
  | cons message messages ih =>
    rw [repairFrom_cons, flatMap_append, content_repaired, append_assoc, List.findSome?_append,
      findSome?_keep, Option.none_or, List.findSome?_append, findSome?_answers]
    by_cases hfirst : callId ∈ message.toolUses
    · simp [hfirst]
    · rw [flatMap_cons, mem_append] at h
      rw [if_neg hfirst, Option.none_or, ih _ (h.resolve_left hfirst), lookup_remaining results hfirst]

/-- Two tables that say the same of every call. -/
def Alike (callIds : List ToolCallId) (results results' : Results) : Prop :=
  ∀ callId ∈ callIds, (results.lookup callId).getD unavailableOutcome = (results'.lookup callId).getD unavailableOutcome

variable {results results' : Results}

theorem Alike.erase (h : Alike callIds results results')
    (callId : ToolCallId) : Alike callIds (results.erase callId) (results'.erase callId) := by
  intro id hid
  by_cases heq : id = callId
  · subst heq
    simp
  · rw [Table.lookup_erase_ne heq, Table.lookup_erase_ne heq]
    exact h id hid

theorem Alike.answers {all callIds : List ToolCallId} (h : Alike all results results')
    (hsub : ∀ callId ∈ callIds, callId ∈ all) :
    Repair.answers results callIds = Repair.answers results' callIds ∧
      Alike all (remaining results callIds) (remaining results' callIds) := by
  induction callIds generalizing results results' with
  | nil => exact ⟨rfl, h⟩
  | cons callId callIds ih =>
    obtain ⟨hfirst, hrest⟩ := forall_mem_cons.mp hsub
    obtain ⟨hanswers, hremaining⟩ := ih (h.erase callId) hrest
    exact ⟨by rw [Repair.answers, Repair.answers, h callId hfirst, hanswers], hremaining⟩

theorem keep_keep (calls : List ToolCallId) (blocks : List ContentBlock) :
    (blocks.filterMap (keep calls)).filterMap (keep calls) = blocks.filterMap (keep calls) := by
  rw [filterMap_filterMap]
  refine filterMap_congr fun block _ => ?_
  cases block with
  | toolResult callId result => by_cases h : callId ∈ calls <;> simp [keep, h]
  | _ => rfl

theorem callOf_answers (results : Results) (callIds : List ToolCallId) : (answers results callIds).filterMap callOf = [] := by
  induction callIds generalizing results with
  | nil => rfl
  | cons callId callIds ih => exact ih (results.erase callId)

theorem keep_answers (results : Results) {calls callIds : List ToolCallId} (h : ∀ callId ∈ callIds, callId ∈ calls) :
    (answers results callIds).filterMap (keep calls) = [] := by
  induction callIds generalizing results with
  | nil => rfl
  | cons callId callIds ih =>
    obtain ⟨hfirst, hrest⟩ := forall_mem_cons.mp h
    rw [answers, filterMap_cons_none (by simp [keep, hfirst])]
    exact ih (results.erase callId) hrest

theorem calls_repairFrom (calls : List ToolCallId) (results : Results) (messages : List AgentMessage) :
    AgentMessage.calls (repairFrom calls results messages) = AgentMessage.calls messages := by
  induction messages generalizing results with
  | nil => rfl
  | cons message messages ih =>
    have hfirst : AgentMessage.calls (repaired calls results message) = message.toolUses := by
      rw [calls_eq]
      by_cases hcalls : message.toolUses = []
      · rw [repaired_quiet hcalls]
        split
        · exact hcalls.symm
        · simp [toolUses_kept]
      · rw [repaired_calling hcalls]
        simp [toolUses_kept, toolUses_eq ⟨message.id, .tool, _, message.createdAt⟩, callOf_answers]
    rw [calls_eq] at hfirst ⊢
    rw [repairFrom_cons, flatMap_append, hfirst, ← calls_eq, ih, calls_eq, calls_eq, flatMap_cons]

@[simp] theorem repairRole_repairRole (role : MessageRole) : repairRole (repairRole role) = repairRole role := by
  cases role <;> rfl

theorem repairFrom_repaired
    (h : Alike calls results results') (hcalls : ∀ callId ∈ message.toolUses, callId ∈ calls) (rest : List AgentMessage) :
    repairFrom calls results' (repaired calls results message ++ rest) =
      repaired calls results message ++ repairFrom calls (remaining results' message.toolUses) rest := by
  by_cases hquiet : message.toolUses = []
  · rw [repaired_quiet hquiet, hquiet]
    split
    · rfl
    · rename_i hkeep
      have hkept := (toolUses_kept calls message (repairRole message.role)).trans hquiet
      rw [cons_append, repairFrom_cons, repaired_quiet hkept, hkept, keep_keep, if_neg hkeep, repairRole_repairRole]
      rfl
  · have hkept := toolUses_kept calls message (repairRole message.role)
    have hanswers : AgentMessage.toolUses ⟨message.id, .tool, answers results message.toolUses, message.createdAt⟩ = [] := by
      rw [toolUses_eq, callOf_answers]
    rw [repaired_calling hquiet, cons_append, cons_append, repairFrom_cons, repairFrom_cons,
      repaired_calling (hkept ▸ hquiet), repaired_quiet hanswers, hkept, hanswers, keep_keep, keep_answers results hcalls,
      (h.answers hcalls).1]
    simp [remaining]

theorem repairFrom_repairFrom
    (h : Alike calls results results') (hcalls : ∀ callId ∈ AgentMessage.calls messages, callId ∈ calls) :
    repairFrom calls results' (repairFrom calls results messages) = repairFrom calls results messages := by
  induction messages generalizing results results' with
  | nil => rfl
  | cons message messages ih =>
    rw [calls_eq, flatMap_cons, forall_mem_append] at hcalls
    rw [repairFrom_cons, repairFrom_repaired h hcalls.1]
    refine congrArg _ (ih (h.answers hcalls.1).2 ?_)
    rw [calls_eq]
    exact hcalls.2

/-- What was repaired needs no further repair. -/
theorem repair_repair (messages : List AgentMessage) :
    repairToolHistory (repairToolHistory messages) = repairToolHistory messages := by
  unfold repairToolHistory
  rw [calls_repairFrom]
  refine repairFrom_repairFrom (fun callId hcall => ?_) fun _ hcall => hcall
  have hfirst := firstResult_repairFrom (AgentMessage.calls messages)
    (collectResults ∅ (messages.flatMap (·.content))) hcall
  rw [firstResult] at hfirst
  rw [lookup_collectResults ∅ ((repairFrom _ _ _).flatMap _), hfirst]
  simp

theorem result_repairFrom (calls : List ToolCallId) (results : Results) {result : ToolResultSummary} (hcall : callId ∈ AgentMessage.calls messages)
    (hresult : results.lookup callId = some result) :
    ∃ before message replies after, repairFrom calls results messages =
        before ++ message :: ⟨message.id, .tool, replies, message.createdAt⟩ :: after ∧
      callId ∈ message.toolUses ∧ callId ∉ AgentMessage.calls before ∧
      replies.findSome? (resultOf callId) = some result := by
  induction messages generalizing results with
  | nil => cases hcall
  | cons message messages ih =>
    rw [repairFrom_cons]
    by_cases hfirst : callId ∈ message.toolUses
    · refine ⟨[], { message with role := repairRole message.role, content := message.content.filterMap (keep calls) },
        answers results message.toolUses, repairFrom calls (remaining results message.toolUses) messages,
        ?_, ?_, not_mem_nil, ?_⟩
      · rw [repaired_calling (ne_nil_of_mem hfirst)]
        rfl
      · rw [toolUses_kept]
        exact hfirst
      · rw [findSome?_answers, if_pos hfirst, hresult]
        rfl
    · rw [calls_eq, flatMap_cons, mem_append, ← calls_eq] at hcall
      obtain ⟨before, caller, replies, after, heq, hin, hnot, hfound⟩ :=
        ih (remaining results message.toolUses) (hcall.resolve_left hfirst)
          ((lookup_remaining results hfirst).trans hresult)
      refine ⟨repaired calls results message ++ before, caller, replies, after, ?_, hin, ?_, hfound⟩
      · rw [heq, append_assoc]
      · have hfirst' := calls_repairFrom calls results [message]
        rw [repairFrom_cons, repairFrom, append_nil, calls_eq [message]] at hfirst'
        rw [calls_eq, flatMap_append, ← calls_eq, ← calls_eq, hfirst']
        simpa using ⟨hfirst, hnot⟩

def plainOf : ContentBlock → Option ContentBlock
  | .text text => some (.text text)
  | .image mimeType data => some (.image mimeType data)
  | _ => none

def plainContent (messages : List AgentMessage) : List (MessageId × ContentBlock) :=
  messages.flatMap fun message => (message.content.filterMap plainOf).map (message.id, ·)

def readableContent (calls : List ToolCallId) (messages : List AgentMessage) : List (MessageId × ContentBlock) :=
  messages.flatMap fun message => ((message.content.filterMap (keep calls)).filterMap plainOf).map (message.id, ·)

theorem plainOf_answers (results : Results) (callIds : List ToolCallId) : (answers results callIds).filterMap plainOf = [] := by
  induction callIds generalizing results with
  | nil => rfl
  | cons callId callIds ih => exact ih (results.erase callId)

/-- All other content stays, in its order. -/
theorem plainContent_repairFrom (calls : List ToolCallId) (results : Results) (messages : List AgentMessage) :
    plainContent (repairFrom calls results messages) = readableContent calls messages := by
  induction messages generalizing results with
  | nil => rfl
  | cons message messages ih =>
    have hfirst : plainContent (repaired calls results message) = readableContent calls [message] := by
      by_cases hcalls : message.toolUses = []
      · rw [repaired_quiet hcalls]
        split
        · rename_i hkeep
          simp [plainContent, readableContent, hkeep]
        · simp [plainContent, readableContent]
      · rw [repaired_calling hcalls]
        simp [plainContent, readableContent, plainOf_answers]
    rw [repairFrom_cons]
    have hrest := ih (remaining results message.toolUses)
    simp only [plainContent, readableContent, flatMap_append, flatMap_cons, flatMap_nil,
      append_nil] at hfirst hrest ⊢
    rw [hfirst, hrest]

theorem plainContent_sublist (calls : List ToolCallId) (messages : List AgentMessage) :
    (plainContent messages).Sublist (readableContent calls messages) := by
  induction messages with
  | nil => exact List.Sublist.refl _
  | cons message messages ih =>
    refine List.Sublist.append (List.Sublist.map _ ?_) ih
    generalize message.content = blocks
    induction blocks with
    | nil => exact List.Sublist.refl _
    | cons block blocks ih =>
      cases block with
      | toolResult callId result =>
        by_cases h : callId ∈ calls
        · simpa [keep, plainOf, filterMap_cons, h] using ih
        · simpa [keep, plainOf, filterMap_cons, h] using List.Sublist.cons _ ih
      | toolUse call => simpa [keep, plainOf, filterMap_cons] using ih
      | text text => simpa [keep, plainOf, filterMap_cons] using ih
      | image mimeType data => simpa [keep, plainOf, filterMap_cons] using ih

end Repair

open Repair

/-- Where only the assistant makes calls, a repaired history passes the transcript check, repairing it again changes
    nothing, the first result recorded for a call stands behind the call, and what is neither call nor result stays,
    in its message and its order. -/
theorem repaired_history (messages : List AgentMessage) (h : AssistantCalls messages) :
    validateTranscript (repairToolHistory messages) = .ok () ∧
    repairToolHistory (repairToolHistory messages) = repairToolHistory messages ∧
    (∀ callId result, callId ∈ AgentMessage.calls messages → firstResult messages callId = some result →
      ∃ before message replies after, repairToolHistory messages =
          before ++ message :: ⟨message.id, .tool, replies, message.createdAt⟩ :: after ∧
        callId ∈ message.toolUses ∧ callId ∉ AgentMessage.calls before ∧
        replies.findSome? (resultOf callId) = some result) ∧
    plainContent (repairToolHistory messages) = readableContent (AgentMessage.calls messages) messages ∧
    (plainContent messages).Sublist (plainContent (repairToolHistory messages)) := by
  have hplain : plainContent (repairToolHistory messages) = readableContent (AgentMessage.calls messages) messages :=
    plainContent_repairFrom _ _ messages
  refine ⟨validateFrom_repairFrom _ _ h, repair_repair messages, fun callId result hcall hresult => ?_, hplain, ?_⟩
  · refine result_repairFrom _ _ hcall ?_
    rw [lookup_collectResults, ← hresult]
    simp [firstResult]
  · rw [hplain]
    exact plainContent_sublist _ messages

namespace Sample

def brokenHistory : List AgentMessage :=
  [⟨⟨1⟩, .tool, [.toolResult ⟨7⟩ ⟨false, "read"⟩], ⟨0, 0⟩⟩,
    ⟨⟨2⟩, .assistant, [.text "Reading", .toolUse ⟨⟨8⟩, "read", .null⟩], ⟨0, 0⟩⟩,
    ⟨⟨3⟩, .user, [.text "Stop"], ⟨0, 0⟩⟩]

end Sample

section

open Sample

theorem repaired_history_broken : AssistantCalls brokenHistory ∧
    validateTranscript (repairToolHistory brokenHistory) = .ok () := by
  have hcalls : AssistantCalls brokenHistory := by simp [AssistantCalls, brokenHistory, AgentMessage.toolUses]
  exact ⟨hcalls, (repaired_history brokenHistory hcalls).1⟩

end

end RustyCore
