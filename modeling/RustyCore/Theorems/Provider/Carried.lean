import RustyCore.Lib.Passage
import RustyCore.Lib.Search
import RustyCore.Provider.OpenAi

/-! What of a request's texts is in the bodies built for the two providers. A body takes the system text from
    one place, the prompt or else the system messages, and its messages from the others. -/

namespace RustyCore

open List hiding filter_map isEmpty_iff isEmpty_eq_false_iff length_eq_zero_iff

open ModelBackend Option String Bool

def Occurs (t : String) (strings : List String) : Prop := ∃ s ∈ strings, t.toList <:+: s.toList

theorem Occurs.self {t : String} {strings : List String} (h : t ∈ strings) : Occurs t strings :=
  ⟨t, h, infix_rfl⟩

theorem occurs_append {t : String} {strings strings' : List String} :
    Occurs t (strings ++ strings') ↔ Occurs t strings ∨ Occurs t strings' := by
  simp [Occurs, or_and_right, exists_or]

theorem occurs_flatMap {α : Type} {t : String} {l : List α} {f : α → List String} :
    Occurs t (l.flatMap f) ↔ ∃ a ∈ l, Occurs t (f a) := by
  simp only [Occurs, mem_flatMap]
  constructor
  · rintro ⟨s, ⟨a, ha, hs⟩, hinfix⟩
    exact ⟨a, ha, s, hs, hinfix⟩
  · rintro ⟨a, ha, s, hs, hinfix⟩
    exact ⟨s, ⟨a, ha, hs⟩, hinfix⟩

theorem toList_join_empty (texts : List String) : (Text.join "" texts).toList = (texts.map String.toList).flatten := by
  induction texts with
  | nil => rfl
  | cons text texts ih =>
    cases texts with
    | nil => simp [Text.join]
    | cons text' texts =>
      rw [Text.toList_join_cons "" text (by simp), ih]
      simp

theorem occurs_join {t sep : String} {texts : List String} (h : t ∈ texts) : Occurs t [Text.join sep texts] := by
  refine ⟨_, mem_singleton_self _, ?_⟩
  induction texts with
  | nil => cases h
  | cons text texts ih =>
    cases texts with
    | nil =>
      rw [mem_singleton] at h
      rw [h]
      exact infix_rfl
    | cons text' texts =>
      rw [Text.toList_join_cons sep text (by simp)]
      rcases mem_cons.mp h with rfl | h
      · exact (prefix_append _ _).isInfix
      · refine (ih h).trans ?_
        exact ((suffix_append _ _).trans (suffix_append _ _)).isInfix

def AgentMessage.texts (m : AgentMessage) : List String := m.content.filterMap ContentBlock.text?

def ContentBlock.result? : ContentBlock → Option String
  | .toolResult _ result => some result.outputPreview
  | _ => none

def ContentBlock.said? : ContentBlock → Option String
  | .text s => if s.isEmpty then none else some s
  | block => block.result?

/-- The texts of a message that are not empty, and its results. -/
def AgentMessage.said (m : AgentMessage) : List String := m.content.filterMap ContentBlock.said?

/-- The results of a tool message. Of any other message the texts, joined where no image stands between them. -/
def AgentMessage.joined (m : AgentMessage) : List String :=
  let text := Text.join "" m.texts
  match m.role with
  | .system => []
  | .tool => m.content.filterMap ContentBlock.result?
  | .user => if m.content.any OpenAi.isImage then m.texts else [text]
  | .assistant => if text.isEmpty then [] else [text]

theorem AgentMessage.mem_texts {m : AgentMessage} {t : String} : t ∈ m.texts ↔ .text t ∈ m.content := by
  unfold AgentMessage.texts
  rw [mem_filterMap]
  constructor
  · rintro ⟨block, hblock, ht⟩
    cases block <;> simp only [ContentBlock.text?, Option.some.injEq, reduceCtorEq] at ht
    rw [← ht]
    exact hblock
  · exact fun h => ⟨_, h, rfl⟩

theorem mem_systemTexts {messages : List AgentMessage} {t : String} :
    t ∈ systemTexts messages ↔ ∃ m ∈ messages, m.role = .system ∧ t ∈ m.texts := by
  unfold systemTexts AgentMessage.texts
  rw [mem_flatMap]
  constructor
  · rintro ⟨m, hm, ht⟩
    obtain ⟨hmem, hrole⟩ := mem_filter.mp hm
    exact ⟨m, hmem, by simpa using hrole, ht⟩
  · rintro ⟨m, hm, hrole, ht⟩
    exact ⟨m, mem_filter.mpr ⟨hm, by simpa using hrole⟩, ht⟩

def spokenTexts (messages : List AgentMessage) : List String :=
  ((messages.filter (·.role != .system)).flatMap AgentMessage.texts).filter (!·.isEmpty)

/-- Every text of the request that is not empty occurs in the strings of the body, and the texts that are not
    the system's stand in their order in the conversation it carries. -/
structure Carries (strings : List String) (conversation : List Char) (request : ModelRequest) : Prop where
  occurs : ∀ m ∈ request.messages, ∀ t, .text t ∈ m.content → t ≠ "" → Occurs t strings
  order : Passage.InOrder ((spokenTexts request.messages).map String.toList) conversation

/-- No system message says something that only the message says: there is no system prompt that takes its place,
    or its texts occur in the prompt or in what the other messages say. -/
def SystemSaid (said : AgentMessage → List String) (request : ModelRequest) : Prop :=
  request.systemPrompt = "" ∨ ∀ t ∈ systemTexts request.messages, t ≠ "" →
    Occurs t [request.systemPrompt] ∨ ∃ m ∈ request.messages, m.role ≠ .system ∧ Occurs t (said m)

def bodyStrings (said : AgentMessage → List String) (request : ModelRequest) : List String :=
  (if !request.systemPrompt.isEmpty then some request.systemPrompt
    else Anthropic.buildSystem request.messages).toList ++
    (request.messages.filter (·.role != .system)).flatMap said

theorem occurs_bodyStrings {said : AgentMessage → List String} {request : ModelRequest} {t : String} :
    Occurs t (bodyStrings said request) ↔
      (Occurs t (if !request.systemPrompt.isEmpty then some request.systemPrompt
        else Anthropic.buildSystem request.messages).toList ∨
      ∃ m ∈ request.messages, m.role ≠ .system ∧ Occurs t (said m)) := by
  rw [bodyStrings, occurs_append, occurs_flatMap]
  refine or_congr Iff.rfl ?_
  constructor
  · rintro ⟨m, hm, h⟩
    obtain ⟨hmem, hrole⟩ := mem_filter.mp hm
    exact ⟨m, hmem, by simpa using hrole, h⟩
  · rintro ⟨m, hm, hrole, h⟩
    exact ⟨m, mem_filter.mpr ⟨hm, by simpa using hrole⟩, h⟩

theorem occurs_iff_systemSaid {said : AgentMessage → List String} {request : ModelRequest}
    (hsaid : ∀ m ∈ request.messages, m.role ≠ .system → ∀ t ∈ m.texts, t ≠ "" → Occurs t (said m)) :
    (∀ m ∈ request.messages, ∀ t, .text t ∈ m.content → t ≠ "" → Occurs t (bodyStrings said request)) ↔
      SystemSaid said request := by
  constructor
  · intro h
    by_cases hprompt : request.systemPrompt = ""
    · exact Or.inl hprompt
    · refine Or.inr fun t ht hne => ?_
      obtain ⟨m, hm, -, htext⟩ := mem_systemTexts.mp ht
      have hoccurs := occurs_bodyStrings.mp (h m hm t (AgentMessage.mem_texts.mp htext) hne)
      have hnonempty : (!request.systemPrompt.isEmpty) = true := by
        rw [not_eq_true', ← not_eq_true, String.isEmpty_iff]
        exact hprompt
      rw [if_pos hnonempty] at hoccurs
      exact hoccurs
  · intro h m hm t ht hne
    rw [occurs_bodyStrings]
    have htext := AgentMessage.mem_texts.mpr ht
    by_cases hrole : m.role = .system
    · have hsystem : t ∈ systemTexts request.messages := mem_systemTexts.mpr ⟨m, hm, hrole, htext⟩
      by_cases hprompt : request.systemPrompt = ""
      · left
        have hempty : request.systemPrompt.isEmpty = true := String.isEmpty_iff.mpr hprompt
        have hsome : (systemTexts request.messages).isEmpty = false := by
          rw [List.isEmpty_eq_false_iff]
          exact ne_nil_of_mem hsystem
        simp only [hempty, Bool.not_true, Bool.false_eq_true, if_false, Anthropic.buildSystem, hsome, Option.toList_some]
        exact occurs_join hsystem
      · have hnonempty : (!request.systemPrompt.isEmpty) = true := by
          rw [not_eq_true', ← not_eq_true, String.isEmpty_iff]
          exact hprompt
        rw [if_pos hnonempty]
        rcases h with h | h
        · exact absurd h hprompt
        · exact h t hsystem hne
    · exact Or.inr ⟨m, hm, hrole, hsaid m hm hrole t htext hne⟩

namespace Anthropic

variable [WireExternals]

def Block.strings : Block → List String
  | .text s => [s]
  | .toolResult _ s => [s]
  | _ => []

def Block.text? : Block → Option String
  | .text s => some s
  | _ => none

def Body.strings (body : Body) : List String :=
  body.system.toList ++ body.messages.flatMap fun m => m.content.flatMap Block.strings

def Body.conversation (body : Body) : List Char :=
  ((body.messages.flatMap fun m => m.content.filterMap Block.text?).map String.toList).flatten

theorem strings_converted (m : AgentMessage) : (m.content.filterMap convertBlock).flatMap Block.strings = m.said := by
  unfold AgentMessage.said
  induction m.content with
  | nil => rfl
  | cons block content ih =>
    cases block with
    | text s =>
      by_cases hs : s.isEmpty = true
      · simp [convertBlock, ContentBlock.said?, hs, ih]
      · simp [convertBlock, ContentBlock.said?, Block.strings, hs, ih]
    | toolResult callId result => exact congrArg (result.outputPreview :: ·) ih
    | toolUse | image => exact ih

theorem strings_restoreProviderId (toolIds : ProviderToolIds) (block : Block) :
    (restoreProviderId toolIds block).strings = block.strings ∧ (restoreProviderId toolIds block).text? = block.text? := by
  cases block <;> exact ⟨rfl, rfl⟩

omit [WireExternals] in
theorem flatMap_filter_of_nil {α β : Type} {p : α → Bool} {g : α → List β} (h : ∀ a, p a = false → g a = []) (l : List α) :
    (l.filter p).flatMap g = l.flatMap g := by
  induction l with
  | nil => rfl
  | cons a l ih =>
    rw [filter_cons]
    cases hp : p a with
    | true => simp [ih]
    | false => simp [ih, h a hp]

theorem flatMap_agentMessages {β : Type} (messages : List AgentMessage) (f : Block → List β) :
    ((messages.filterMap agentMessageToAnthropic).flatMap fun m => m.content.flatMap f) =
      (messages.filter (·.role != .system)).flatMap fun m => (m.content.filterMap convertBlock).flatMap f := by
  induction messages with
  | nil => rfl
  | cons m messages ih =>
    cases hrole : m.role with
    | system =>
      rw [filterMap_cons_none (by simp [agentMessageToAnthropic, hrole]), filter_cons_of_neg (by simp [hrole]), ih]
    | user | tool =>
      rw [filterMap_cons_some (b := ⟨.user, m.content.filterMap convertBlock⟩) (by simp [agentMessageToAnthropic, hrole]),
        filter_cons_of_pos (by simp [hrole]), flatMap_cons, flatMap_cons, ih]
    | assistant =>
      rw [filterMap_cons_some (b := ⟨.assistant, m.content.filterMap convertBlock⟩)
        (by simp [agentMessageToAnthropic, hrole]),
        filter_cons_of_pos (by simp [hrole]), flatMap_cons, flatMap_cons, ih]

theorem flatMap_convertMessagesWithToolIds {β : Type} (messages : List AgentMessage) (toolIds : ProviderToolIds)
    (f : Block → List β) (hf : ∀ block, f (restoreProviderId toolIds block) = f block) :
    ((convertMessagesWithToolIds messages toolIds).flatMap fun m => m.content.flatMap f) =
      (messages.filter (·.role != .system)).flatMap fun m => (m.content.filterMap convertBlock).flatMap f := by
  rw [← flatMap_agentMessages, convertMessagesWithToolIds, flatMap_map, convertMessages]
  simp only [flatMap_map, hf]
  refine flatMap_filter_of_nil (fun m hm => ?_) _
  simp only [or_eq_false_iff, not_eq_false', List.isEmpty_iff] at hm
  rw [hm.2]
  rfl

omit [WireExternals] in
theorem filterMap_eq_flatMap {α β : Type} (f : α → Option β) (l : List α) :
    l.filterMap f = l.flatMap fun a => (f a).toList := by
  induction l with
  | nil => rfl
  | cons a l ih =>
    rw [filterMap_cons, flatMap_cons, ih]
    cases f a <;> rfl

theorem body_strings (toolIds : ProviderToolIds) (request : ModelRequest) :
    (buildBody toolIds request).strings = bodyStrings AgentMessage.said request := by
  unfold Body.strings buildBody bodyStrings
  dsimp only
  rw [flatMap_convertMessagesWithToolIds _ _ _ fun block => (strings_restoreProviderId toolIds block).1]
  simp only [strings_converted]

theorem texts_converted (content : List ContentBlock) :
    (content.filterMap convertBlock).filterMap Block.text? =
      (content.filterMap ContentBlock.text?).filter (!·.isEmpty) := by
  induction content with
  | nil => rfl
  | cons block content ih =>
    cases block with
    | text s =>
      by_cases hs : s.isEmpty = true
      · simp [convertBlock, ContentBlock.text?, hs, ih]
      · simp [convertBlock, ContentBlock.text?, Block.text?, hs, ih]
    | toolUse | toolResult | image => exact ih

theorem body_conversation (toolIds : ProviderToolIds) (request : ModelRequest) :
    (buildBody toolIds request).conversation = ((spokenTexts request.messages).map String.toList).flatten := by
  unfold Body.conversation buildBody spokenTexts
  dsimp only
  congr 2
  simp only [filterMap_eq_flatMap Block.text?]
  rw [flatMap_convertMessagesWithToolIds _ _ (fun block => block.text?.toList)
    fun block => by rw [(strings_restoreProviderId toolIds block).2]]
  simp only [← filterMap_eq_flatMap Block.text?, texts_converted]
  rw [filter_flatMap]
  rfl

theorem carries_iff (toolIds : ProviderToolIds) (request : ModelRequest) :
    Carries (buildBody toolIds request).strings (buildBody toolIds request).conversation request ↔
      SystemSaid AgentMessage.said request := by
  have hoccurs := @occurs_iff_systemSaid AgentMessage.said request fun m _ _ t ht hne => by
    refine Occurs.self (mem_filterMap.mpr ⟨_, AgentMessage.mem_texts.mp ht, ?_⟩)
    have hempty : t.isEmpty = false := by rw [← not_eq_true, String.isEmpty_iff]; exact hne
    simp [ContentBlock.said?, hempty]
  rw [← hoccurs, body_strings]
  constructor
  · exact fun h => h.occurs
  · intro h
    refine ⟨h, ?_⟩
    rw [body_conversation]
    exact Passage.inOrder_flatten _

end Anthropic

namespace OpenAi

variable [WireExternals]

def ContentPart.text? : ContentPart → Option String
  | .text s => some s
  | .imageUrl _ => none

def Content.strings : Content → List String
  | .text s => [s]
  | .parts ps => ps.filterMap ContentPart.text?

def Message.strings (m : Message) : List String := (m.content.map Content.strings).getD []

def conversation (messages : List Message) : List Char :=
  (((messages.filter fun m => m.role == "user" || m.role == "assistant").flatMap Message.strings).map String.toList).flatten

def ToolsSilent (request : ModelRequest) : Prop := ∀ m ∈ request.messages, m.role = .tool → ∀ t ∈ m.texts, t = ""

theorem parts_texts (content : List ContentBlock) :
    (content.filterMap contentPart).filterMap ContentPart.text? = content.filterMap ContentBlock.text? := by
  induction content with
  | nil => rfl
  | cons block content ih =>
    cases block with
    | text s => simpa [contentPart, ContentPart.text?, ContentBlock.text?] using ih
    | toolUse | toolResult | image => exact ih

theorem strings_agentMessageToOpenai (toolIds : ProviderToolIds) (m : AgentMessage) :
    (agentMessageToOpenai toolIds m).flatMap Message.strings = m.joined := by
  unfold agentMessageToOpenai AgentMessage.joined
  cases m.role with
  | system => rfl
  | tool =>
    dsimp only
    induction m.content with
    | nil => rfl
    | cons block content ih =>
      cases block with
      | toolResult callId result => exact congrArg (result.outputPreview :: ·) ih
      | text | toolUse | image => exact ih
  | user =>
    by_cases himage : m.content.any isImage = true
    · simp [contentBlocksToOpenaiContent, himage, Message.strings, Content.strings, parts_texts, AgentMessage.texts]
    · simp [contentBlocksToOpenaiContent, himage, Message.strings, Content.strings, concatText, AgentMessage.texts]
  | assistant =>
    change flatMap Message.strings (if (concatText m.content).isEmpty && _ then _ else _) =
      if (concatText m.content).isEmpty then [] else [concatText m.content]
    cases hempty : (concatText m.content).isEmpty with
    | true => split <;> simp [Message.strings]
    | false => simp [Message.strings, Content.strings]

theorem messages_strings (toolIds : ProviderToolIds) (request : ModelRequest) :
    (buildMessages toolIds request).flatMap Message.strings = bodyStrings AgentMessage.joined request := by
  unfold buildMessages bodyStrings convertMessagesWithToolIds buildSystemMessage Anthropic.buildSystem
  rw [flatMap_append, flatMap_assoc]
  simp only [strings_agentMessageToOpenai]
  congr 1
  split
  · simp [Message.strings, Content.strings]
  · split <;> simp [Message.strings, Content.strings]

theorem said_eq (toolIds : ProviderToolIds) (m : AgentMessage) :
    ((((agentMessageToOpenai toolIds m).filter fun m => m.role == "user" || m.role == "assistant").flatMap
      Message.strings).map String.toList).flatten =
      if m.role = .user ∨ m.role = .assistant then (m.texts.map String.toList).flatten else [] := by
  unfold agentMessageToOpenai AgentMessage.texts
  cases hrole : m.role with
  | system => rfl
  | tool =>
    have hnone : (m.content.filterMap (toolMessage toolIds)).filter (fun m => m.role == "user" || m.role == "assistant") =
        [] := by
      rw [filter_eq_nil_iff]
      intro message hmessage
      obtain ⟨block, -, hblock⟩ := mem_filterMap.mp hmessage
      cases block <;> simp only [toolMessage, Option.some.injEq, reduceCtorEq] at hblock
      rw [← hblock]
      simp
    dsimp only
    rw [hnone]
    rfl
  | user =>
    simp only [contentBlocksToOpenaiContent]
    split <;> simp [Message.strings, Content.strings, parts_texts, concatText, toList_join_empty]
  | assistant =>
    have htext := toList_join_empty (m.content.filterMap ContentBlock.text?)
    dsimp only
    split
    · rename_i hempty
      rw [and_eq_true, String.isEmpty_iff, concatText] at hempty
      rw [hempty.1] at htext
      simpa using htext
    · by_cases hempty : (concatText m.content).isEmpty = true
      · rw [String.isEmpty_iff, concatText] at hempty
        rw [hempty] at htext
        simpa [Message.strings, concatText, hempty] using htext
      · rw [String.isEmpty_iff, concatText] at hempty
        simp [Message.strings, Content.strings, concatText, hempty, htext]

theorem conversation_eq (toolIds : ProviderToolIds) (request : ModelRequest) :
    conversation (buildMessages toolIds request) =
      ((request.messages.filter (·.role != .system)).map fun m =>
        if m.role = .user ∨ m.role = .assistant then (m.texts.map String.toList).flatten else []).flatten := by
  have hsystem : (buildSystemMessage request.systemPrompt request.messages).toList.filter
      (fun m => m.role == "user" || m.role == "assistant") = [] := by
    rw [filter_eq_nil_iff]
    intro m hm
    unfold buildSystemMessage at hm
    rw [mem_toList] at hm
    obtain ⟨content, -, rfl⟩ := map_eq_some_iff.mp hm
    simp
  unfold conversation buildMessages convertMessagesWithToolIds
  rw [filter_append, hsystem, nil_append]
  induction request.messages.filter (·.role != .system) with
  | nil => rfl
  | cons m messages ih =>
    rw [flatMap_cons, filter_append, flatMap_append, map_append, flatten_append, said_eq, ih,
      map_cons, flatten_cons]

theorem order_iff (toolIds : ProviderToolIds) (request : ModelRequest) :
    Passage.InOrder ((spokenTexts request.messages).map String.toList) (conversation (buildMessages toolIds request)) ↔
      ToolsSilent request := by
  have hspoken : ((spokenTexts request.messages).map String.toList).flatten =
      ((request.messages.filter (·.role != .system)).map fun m => (m.texts.map String.toList).flatten).flatten := by
    have hnonempty : (spokenTexts request.messages).map String.toList =
        (((request.messages.filter (·.role != .system)).flatMap AgentMessage.texts).map String.toList).filter
          fun passage => !passage.isEmpty := by
      rw [spokenTexts, List.filter_map]
      congr 2
      funext t
      rw [Function.comp_apply, Bool.eq_iff_iff, Bool.not_eq_true', Bool.not_eq_true', ← Bool.not_eq_true, ← Bool.not_eq_true,
        String.isEmpty_iff, List.isEmpty_iff, String.toList_eq_nil_iff]
    rw [hnonempty, Passage.flatten_filter_not_isEmpty]
    induction request.messages.filter (·.role != .system) with
    | nil => rfl
    | cons m messages ih => simp [ih]
  constructor
  · intro h m hm hrole t ht
    have hlength := h.length_le
    rw [← length_flatten, hspoken, conversation_eq] at hlength
    have hmem : m ∈ request.messages.filter (·.role != .system) := mem_filter.mpr ⟨hm, by simp [hrole]⟩
    have hle := (Passage.length_le_of_flatten fun m _ => by split <;> simp).2 hlength m hmem
    have hnil : (m.texts.map String.toList).flatten = [] := by
      rw [← List.length_eq_zero_iff]
      simpa [hrole] using hle
    have htnil := flatten_eq_nil_iff.mp hnil t.toList (mem_map_of_mem ht)
    exact toList_eq_nil_iff.mp htnil
  · intro h
    have hsame : conversation (buildMessages toolIds request) = ((spokenTexts request.messages).map String.toList).flatten := by
      rw [conversation_eq, hspoken]
      congr 1
      refine map_congr_left fun m hm => ?_
      obtain ⟨hmem, hrole⟩ := mem_filter.mp hm
      split
      · rfl
      · rename_i hnot
        have htool : m.role = .tool := by cases hcase : m.role <;> simp_all
        symm
        rw [flatten_eq_nil_iff]
        intro passage hpassage
        obtain ⟨t, ht, rfl⟩ := mem_map.mp hpassage
        rw [h m hmem htool t ht, toList_empty]
    rw [hsame]
    exact Passage.inOrder_flatten _

omit [WireExternals] in
theorem occurs_joined {m : AgentMessage} (hrole : m.role = .user ∨ m.role = .assistant) {t : String} (ht : t ∈ m.texts)
    (hne : t ≠ "") : Occurs t m.joined := by
  have hjoined : Occurs t [Text.join "" m.texts] := occurs_join ht
  unfold AgentMessage.joined
  rcases hrole with hrole | hrole <;> rw [hrole] <;> dsimp only <;> split
  · exact Occurs.self ht
  · exact hjoined
  · rename_i hempty
    obtain ⟨s, hs, hinfix⟩ := hjoined
    rw [mem_singleton.mp hs, String.isEmpty_iff.mp hempty, String.toList_empty, infix_nil, String.toList_eq_nil_iff] at hinfix
    exact absurd hinfix hne
  · exact hjoined

theorem carries_iff (toolIds : ProviderToolIds) (request : ModelRequest) :
    Carries ((buildMessages toolIds request).flatMap Message.strings) (conversation (buildMessages toolIds request)) request ↔
      SystemSaid AgentMessage.joined request ∧ ToolsSilent request := by
  have hwire (hsilent : ToolsSilent request) : ∀ m ∈ request.messages, m.role ≠ .system → ∀ t ∈ m.texts, t ≠ "" →
      Occurs t m.joined := by
    intro m hm hrole t ht hne
    refine occurs_joined ?_ ht hne
    cases hcase : m.role with
    | system => exact absurd hcase hrole
    | user => exact Or.inl rfl
    | assistant => exact Or.inr rfl
    | tool => exact absurd (hsilent m hm hcase t ht) hne
  rw [messages_strings]
  constructor
  · intro h
    have hsilent := (order_iff toolIds request).mp h.order
    exact ⟨(occurs_iff_systemSaid (hwire hsilent)).mp h.occurs, hsilent⟩
  · rintro ⟨hsaid, hsilent⟩
    exact ⟨(occurs_iff_systemSaid (hwire hsilent)).mpr hsaid, (order_iff toolIds request).mpr hsilent⟩

end OpenAi

/-- The texts of a request reach both providers exactly when there is no system prompt in the place of its system
    messages, or what they say is said elsewhere too, and no tool message has a text. -/
theorem request_texts_carried [WireExternals] (toolIds toolIds' : ProviderToolIds) (request : ModelRequest) :
    (Carries (Anthropic.buildBody toolIds request).strings (Anthropic.buildBody toolIds request).conversation request ∧
      Carries ((OpenAi.buildMessages toolIds' request).flatMap OpenAi.Message.strings)
        (OpenAi.conversation (OpenAi.buildMessages toolIds' request)) request) ↔
      SystemSaid AgentMessage.said request ∧ SystemSaid AgentMessage.joined request ∧ OpenAi.ToolsSilent request := by
  rw [Anthropic.carries_iff, OpenAi.carries_iff]

namespace Sample

/-- No image is encoded and no id is parsed in the request below. -/
scoped instance wireExternals : WireExternals where
  encodeBase64 _ := ""
  parseToolCallId _ := none

def summaryText : String := "[summary of earlier conversation — 2 message(s) condensed]\n- the tests fail"

def compacted : ModelRequest where
  systemPrompt := "You are helpful."
  messages := [⟨⟨1⟩, .system, [.text summaryText], ⟨0, 0⟩⟩, ⟨⟨2⟩, .user, [.text "Go on"], ⟨0, 0⟩⟩]
  tools := []
  model := none
  maxTokens := none
  temperature := none
  stopSequences := []
  extendedThinking := false
  reasoningEffort := none
  responseFormat := none
  providerOptions := .null
  cacheKey := none

theorem summary_not_sent :
    ¬Occurs summaryText (Anthropic.buildBody (fun _ => none) compacted).strings ∧
      ¬Occurs summaryText ((OpenAi.buildMessages (fun _ => none) compacted).flatMap OpenAi.Message.strings) := by
  have hanthropic : (Anthropic.buildBody (fun _ => none) compacted).strings = ["You are helpful.", "Go on"] := rfl
  have hopenai : (OpenAi.buildMessages (fun _ => none) compacted).flatMap OpenAi.Message.strings =
      ["You are helpful.", "Go on"] := rfl
  have habsent : ¬Occurs summaryText ["You are helpful.", "Go on"] := by
    rintro ⟨s, hs, hinfix⟩
    have hlength := hinfix.length_le
    rcases mem_cons.mp hs with rfl | hs
    · exact absurd hlength (by decide)
    · rw [mem_singleton.mp hs] at hlength
      exact absurd hlength (by decide)
  rw [hanthropic, hopenai]
  exact ⟨habsent, habsent⟩

/-- A summary is lost on the way to both providers. -/
theorem request_loses_summary :
    ¬(Carries (Anthropic.buildBody (fun _ => none) compacted).strings
        (Anthropic.buildBody (fun _ => none) compacted).conversation compacted ∧
      Carries ((OpenAi.buildMessages (fun _ => none) compacted).flatMap OpenAi.Message.strings)
        (OpenAi.conversation (OpenAi.buildMessages (fun _ => none) compacted)) compacted) := by
  intro h
  refine summary_not_sent.1 (h.1.occurs ⟨⟨1⟩, .system, [.text summaryText], ⟨0, 0⟩⟩ ?_ summaryText ?_ ?_)
  · exact mem_cons_self
  · exact mem_singleton_self _
  · exact fun hempty => by simp [summaryText] at hempty

end Sample

end RustyCore
