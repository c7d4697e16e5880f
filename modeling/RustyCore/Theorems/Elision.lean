import RustyCore.Context.Compaction
import RustyCore.Lib.Lines
import Mathlib.Data.List.Forall2

/-! What eliding tool results leaves of a conversation: every message with its blocks, the protected ones and the
    tail as they were, every recovery stamp, and nothing for a second pass. A stub is built from the tool's name,
    the head of the output and its stamp, so it is no longer than the output exactly where these leave it the room. -/

namespace RustyCore

open List

namespace Compaction

def Bulky (result : ToolResultSummary) : Prop :=
  elideMinChars < result.outputPreview.utf8ByteSize ∧ isElisionStub result.outputPreview = false

def headSize (output : String) : Nat := (String.ofList (output.toList.take elideHeadChars)).utf8ByteSize

def stampSize (output : String) : Nat := ((recoveryStamp output).map fun stamp => stamp.utf8ByteSize + 1).getD 0

/-- The tool's name, the size in digits, the mark of an error, the head and the stamp fit into the output beside the
    47 bytes of the words around them. -/
def Fits (tool : String) (result : ToolResultSummary) : Prop :=
  47 + tool.utf8ByteSize + (toString result.outputPreview.utf8ByteSize).utf8ByteSize +
    (if result.hasError then 7 else 0) + headSize result.outputPreview + stampSize result.outputPreview ≤
      result.outputPreview.utf8ByteSize

def BlockRel (rel : String → String → Prop) : ContentBlock → ContentBlock → Prop
  | .toolResult callId result, after =>
    ∃ output, after = .toolResult callId { result with outputPreview := output } ∧ rel result.outputPreview output
  | block, after => after = block

def EachOutput (rel : String → String → Prop) : List AgentMessage → List AgentMessage → Prop :=
  List.Forall₂ fun before after =>
    after = { before with content := after.content } ∧ List.Forall₂ (BlockRel rel) before.content after.content

/-- No tool result is longer after elision, protected messages and the tail are untouched, stamps are kept and a
    second pass changes nothing. -/
structure ElidesOnce (messages : List AgentMessage) (protectTail : Nat) (retention : Retention) : Prop where
  shrinks : EachOutput (fun before after => after.utf8ByteSize ≤ before.utf8ByteSize) messages
    (elideToolResults messages protectTail retention).1
  shielded : ∀ index, isProtected retention messages index = true →
    (elideToolResults messages protectTail retention).1[index]? = messages[index]?
  tail : (elideToolResults messages protectTail retention).1.drop (messages.length - protectTail) =
    messages.drop (messages.length - protectTail)
  stamps : EachOutput (fun before after => ∀ stamp, recoveryStamp before = some stamp → recoveryStamp after = some stamp)
    messages (elideToolResults messages protectTail retention).1
  once : elideToolResults (elideToolResults messages protectTail retention).1 protectTail retention =
    ((elideToolResults messages protectTail retention).1, 0)

variable {messages : List AgentMessage} {protectTail : Nat} {retention : Retention} {tool : String}
  {result : ToolResultSummary} {rel : String → String → Prop}

theorem elisionStub_opens (tool : String) (result : ToolResultSummary) :
    ∃ rest, elisionStub tool result = "[" ++ tool ++ " " ++ elidedMark ++ rest := by
  refine ⟨" — " ++ (toString result.outputPreview.utf8ByteSize ++ (" chars" ++
    ((if result.hasError then ", error" else "") ++ ("] " ++
      (String.ofList (result.outputPreview.toList.take elideHeadChars) ++ ("…" ++
        ((recoveryStamp result.outputPreview).map fun stamp => "\n" ++ stamp).getD "")))))), ?_⟩
  simp only [elisionStub, String.append_assoc]

theorem elisionStub_ends (tool : String) (result : ToolResultSummary) : ∃ front, elisionStub tool result =
    front ++ ((recoveryStamp result.outputPreview).map fun stamp => "\n" ++ stamp).getD "" := ⟨_, rfl⟩

theorem isElisionStub_elisionStub : isElisionStub (elisionStub tool result) = true := by
  obtain ⟨rest, hstub⟩ := elisionStub_opens tool result
  rw [isElisionStub, Text.startsWith, Text.contains, Bool.and_eq_true, Text.before_isSome, hstub]
  refine ⟨?_, "[".toList ++ tool.toList ++ " ".toList, rest.toList, ?_⟩
  · simp
  · simp only [String.toList_append]

theorem utf8ByteSize_elisionStub : (elisionStub tool result).utf8ByteSize =
    47 + tool.utf8ByteSize + (toString result.outputPreview.utf8ByteSize).utf8ByteSize +
      (if result.hasError then 7 else 0) + headSize result.outputPreview + stampSize result.outputPreview := by
  have herror : (if result.hasError then ", error" else "").utf8ByteSize = if result.hasError then 7 else 0 := by
    split <;> rfl
  have hstamp : (((recoveryStamp result.outputPreview).map fun stamp => "\n" ++ stamp).getD "").utf8ByteSize =
      stampSize result.outputPreview := by
    rw [stampSize]
    cases recoveryStamp result.outputPreview with
    | none => rfl
    | some stamp =>
      have hbreak : "\n".utf8ByteSize = 1 := rfl
      simp only [Option.map_some, Option.getD_some, String.utf8ByteSize_append, hbreak]
      omega
  have hwords : "[".utf8ByteSize + " ".utf8ByteSize + elidedMark.utf8ByteSize + " — ".utf8ByteSize +
      " chars".utf8ByteSize + "] ".utf8ByteSize + "…".utf8ByteSize = 47 := by decide
  simp only [elisionStub, String.utf8ByteSize_append, herror, hstamp, headSize]
  omega

theorem fits_iff : Fits tool result ↔ (elisionStub tool result).utf8ByteSize ≤ result.outputPreview.utf8ByteSize := by
  rw [utf8ByteSize_elisionStub, Fits]

theorem recoveryStamp_line {output stamp : String} (h : recoveryStamp output = some stamp) :
    (Text.startsWith stamp stampPrefix && Text.endsWith stamp "]" && decide (stamp.utf8ByteSize ≤ maxStampChars)) = true ∧
      '\n' ∉ stamp.toList ∧ stamp.toList ≠ [] ∧ Text.trimEnd stamp.toList = stamp.toList := by
  have hfound := List.find?_some h
  obtain ⟨line, hline, hstamp⟩ := mem_map.mp (mem_of_find?_eq_some h)
  have hlist : stamp.toList = Text.trimEnd line := by rw [← hstamp, String.toList_ofList]
  obtain ⟨⟨hstart, hend⟩, -⟩ := by simpa only [Bool.and_eq_true] using hfound
  refine ⟨hfound, fun hmem => ?_, fun hnil => ?_, ?_⟩
  · rw [hlist] at hmem
    exact Text.newline_not_mem_lines line (mem_reverse.mp hline) ((Text.trimEnd_prefix line).subset hmem)
  · rw [Text.startsWith, hnil] at hstart
    cases hstart
  · have hlast : stamp.toList.getLast? = some ']' := by
      obtain ⟨init, hinit⟩ := isSuffixOf_iff_suffix.mp hend
      rw [← hinit]
      exact List.getLast?_concat
    have hsolid : ∀ c, stamp.toList.getLast? = some c → Text.isWhitespace c = false := by
      intro c hc
      rw [hlast] at hc
      obtain rfl := Option.some.inj hc
      rfl
    have htrim := Text.trimEnd_append hsolid (forall_mem_nil _)
    rwa [append_nil] at htrim

theorem recoveryStamp_elisionStub {stamp : String} (h : recoveryStamp result.outputPreview = some stamp) :
    recoveryStamp (elisionStub tool result) = some stamp := by
  obtain ⟨hshape, hnewline, hne, htrim⟩ := recoveryStamp_line h
  obtain ⟨front, hfront⟩ := elisionStub_ends tool result
  rw [h, Option.map_some, Option.getD_some] at hfront
  have hlist : (elisionStub tool result).toList = front.toList ++ '\n' :: stamp.toList := by
    rw [hfront, String.toList_append, String.toList_append]
    rfl
  rw [recoveryStamp, hlist, Text.lines_append_newline, Text.lines_last hnewline hne, reverse_append,
    reverse_singleton, singleton_append, map_cons, htrim, String.ofList_toList, List.find?_cons, hshape]

theorem elideBlock_bulky {callId : ToolCallId} (h : Bulky result) : elideBlock messages (.toolResult callId result) =
    (.toolResult callId { result with outputPreview := elisionStub ((toolName messages callId).getD "tool") result }, 1) := by
  obtain ⟨hsize, hstub⟩ := h
  rw [elideBlock, if_neg]
  simp only [hstub, Bool.or_false, decide_eq_true_eq]
  exact Nat.not_le.mpr hsize

theorem elideBlock_rest {block : ContentBlock} (h : ∀ callId result, block = .toolResult callId result → ¬Bulky result) :
    elideBlock messages block = (block, 0) := by
  cases block with
  | toolResult callId result =>
    rw [elideBlock, if_pos]
    by_contra hbulky
    simp only [Bool.or_eq_true, decide_eq_true_eq, not_or, Bool.not_eq_true, Nat.not_le] at hbulky
    exact h callId result rfl hbulky
  | text | toolUse | image => rfl

theorem elideBlock_cases (messages : List AgentMessage) (block : ContentBlock) :
    elideBlock messages block = (block, 0) ∨ ∃ callId result, block = .toolResult callId result ∧ Bulky result := by
  by_cases h : ∃ callId result, block = .toolResult callId result ∧ Bulky result
  · exact .inr h
  · exact .inl (elideBlock_rest fun callId result hblock hbulky => h ⟨callId, result, hblock, hbulky⟩)

theorem elideBlock_once (messages later : List AgentMessage) (block : ContentBlock) :
    elideBlock later (elideBlock messages block).1 = ((elideBlock messages block).1, 0) := by
  rcases elideBlock_cases messages block with h | ⟨callId, result, rfl, hbulky⟩
  · rw [h]
    rcases elideBlock_cases later block with hlater | ⟨callId, result, rfl, hbulky⟩
    · exact hlater
    · rw [elideBlock_bulky hbulky] at h
      cases congrArg Prod.snd h
  · rw [elideBlock_bulky hbulky]
    refine elideBlock_rest fun otherId other hsame hother => ?_
    obtain ⟨-, rfl⟩ := ContentBlock.toolResult.inj hsame
    rw [Bulky, isElisionStub_elisionStub] at hother
    cases hother.2

theorem BlockRel.refl (hsame : ∀ output, rel output output) (block : ContentBlock) : BlockRel rel block block := by
  cases block with
  | toolResult callId result => exact ⟨result.outputPreview, rfl, hsame _⟩
  | text | toolUse | image => rfl

theorem blockRel_elideBlock (hsame : ∀ output, rel output output) (block : ContentBlock) :
    BlockRel rel block (elideBlock messages block).1 ↔ ∀ callId result, block = .toolResult callId result → Bulky result →
      rel result.outputPreview (elisionStub ((toolName messages callId).getD "tool") result) := by
  rcases elideBlock_cases messages block with h | ⟨callId, result, rfl, hbulky⟩
  · rw [h]
    refine iff_of_true (.refl hsame block) fun callId result hblock hbulky => ?_
    subst hblock
    rw [elideBlock_bulky hbulky] at h
    cases congrArg Prod.snd h
  · rw [elideBlock_bulky hbulky]
    constructor
    · rintro ⟨output, hafter, hrel⟩ otherId other hblock _
      obtain ⟨rfl, rfl⟩ := ContentBlock.toolResult.inj hblock
      obtain ⟨-, hresult⟩ := ContentBlock.toolResult.inj hafter
      obtain rfl : elisionStub _ result = output := congrArg ToolResultSummary.outputPreview hresult
      exact hrel
    · intro h
      exact ⟨_, rfl, h callId result rfl hbulky⟩

def Exposed (messages : List AgentMessage) (protectTail : Nat) (retention : Retention) (index : Nat) : Prop :=
  index < messages.length - protectTail ∧ isProtected retention messages index = false

instance (messages : List AgentMessage) (protectTail : Nat) (retention : Retention) (index : Nat) :
    Decidable (Exposed messages protectTail retention index) := inferInstanceAs (Decidable (_ ∧ _))

def elideMessage (messages : List AgentMessage) (protectTail : Nat) (retention : Retention) (index : Nat)
    (message : AgentMessage) : AgentMessage :=
  if Exposed messages protectTail retention index then
    { message with content := message.content.map fun block => (elideBlock messages block).1 }
  else message

theorem getElem?_elide (messages : List AgentMessage) (protectTail : Nat) (retention : Retention) (index : Nat) :
    (elideToolResults messages protectTail retention).1[index]? =
      messages[index]?.map (elideMessage messages protectTail retention index) := by
  rw [elideToolResults]
  simp only [map_map, List.getElem?_map, List.getElem?_zipIdx, Option.map_map]
  congr 1
  funext message
  simp only [Function.comp_apply, Nat.zero_add, elideMessage]
  by_cases h : Exposed messages protectTail retention index
  · rw [if_pos h, if_pos (by simpa [Exposed] using h)]
    rfl
  · rw [if_neg h, if_neg (by simpa [Exposed] using h)]

@[simp] theorem length_elide : (elideToolResults messages protectTail retention).1.length = messages.length := by
  simp [elideToolResults]

theorem elideMessage_same (messages : List AgentMessage) (protectTail : Nat) (retention : Retention) (index : Nat)
    (message : AgentMessage) :
    (elideMessage messages protectTail retention index message).id = message.id ∧
      (elideMessage messages protectTail retention index message).role = message.role ∧
      isSummary (elideMessage messages protectTail retention index message) = isSummary message := by
  unfold elideMessage
  split
  · refine ⟨rfl, rfl, ?_⟩
    unfold isSummary
    cases message.content with
    | nil => rfl
    | cons block rest =>
      rcases elideBlock_cases messages block with h | ⟨callId, result, rfl, hbulky⟩
      · simp only [map_cons, List.head?_cons, h]
      · simp only [map_cons, List.head?_cons, elideBlock_bulky hbulky]
  · exact ⟨rfl, rfl, rfl⟩

theorem map_role_elide : (elideToolResults messages protectTail retention).1.map (·.role) = messages.map (·.role) := by
  refine ext_getElem? fun index => ?_
  rw [List.getElem?_map, List.getElem?_map, getElem?_elide, Option.map_map]
  congr 1
  funext message
  exact (elideMessage_same messages protectTail retention index message).2.1

theorem isProtected_elide (index : Nat) :
    isProtected retention (elideToolResults messages protectTail retention).1 index = isProtected retention messages index := by
  have hany (ms : List AgentMessage) : (ms.take index).any (fun m => m.role == .user) =
      ((ms.map (·.role)).take index).any (· == .user) := by
    rw [← map_take, any_map]
    rfl
  unfold isProtected
  rw [getElem?_elide]
  cases messages[index]? with
  | none => rfl
  | some message =>
    obtain ⟨hid, hrole, hsummary⟩ := elideMessage_same messages protectTail retention index message
    simp only [Option.map_some, hid, hrole, hsummary, hany, map_role_elide]

theorem forall₂_elide {related : AgentMessage → AgentMessage → Prop} :
    List.Forall₂ related messages (elideToolResults messages protectTail retention).1 ↔
      ∀ index message, messages[index]? = some message →
        related message (elideMessage messages protectTail retention index message) := by
  rw [forall₂_iff_get]
  constructor
  · rintro ⟨-, h⟩ index message hmessage
    obtain ⟨hindex, rfl⟩ := List.getElem?_eq_some_iff.mp hmessage
    have hrelated := h index hindex (by simpa using hindex)
    have helided := getElem?_elide messages protectTail retention index
    rw [hmessage, Option.map_some, List.getElem?_eq_getElem (by simpa using hindex)] at helided
    rwa [get_eq_getElem, get_eq_getElem, Option.some.inj helided] at hrelated
  · intro h
    refine ⟨by simp, fun index hindex helided => ?_⟩
    have hmessage := getElem?_elide messages protectTail retention index
    rw [List.getElem?_eq_getElem hindex, Option.map_some, List.getElem?_eq_getElem helided] at hmessage
    rw [get_eq_getElem, get_eq_getElem, Option.some.inj hmessage]
    exact h index _ (List.getElem?_eq_getElem hindex)

def Replaced (messages : List AgentMessage) (protectTail : Nat) (retention : Retention) (tool : String)
    (result : ToolResultSummary) : Prop :=
  ∃ index message callId, messages[index]? = some message ∧ Exposed messages protectTail retention index ∧
    .toolResult callId result ∈ message.content ∧ Bulky result ∧ (toolName messages callId).getD "tool" = tool

theorem eachOutput_elide (hsame : ∀ output, rel output output) :
    EachOutput rel messages (elideToolResults messages protectTail retention).1 ↔
      ∀ tool result, Replaced messages protectTail retention tool result →
        rel result.outputPreview (elisionStub tool result) := by
  rw [EachOutput, forall₂_elide]
  constructor
  · rintro h tool result ⟨index, message, callId, hmessage, hexposed, hblock, hbulky, rfl⟩
    obtain ⟨-, hcontent⟩ := h index message hmessage
    rw [elideMessage, if_pos hexposed, forall₂_map_right_iff, forall₂_same] at hcontent
    exact (blockRel_elideBlock hsame _).mp (hcontent _ hblock) callId result rfl hbulky
  · intro h index message hmessage
    unfold elideMessage
    split
    · rename_i hexposed
      refine ⟨rfl, ?_⟩
      rw [forall₂_map_right_iff, forall₂_same]
      refine fun block hblock => (blockRel_elideBlock hsame block).mpr fun callId result hresult hbulky => ?_
      subst hresult
      exact h _ result ⟨index, message, callId, hmessage, hexposed, hblock, hbulky, rfl⟩
    · exact ⟨rfl, forall₂_same.mpr fun block _ => .refl hsame block⟩

theorem exposed_elide (index : Nat) :
    Exposed (elideToolResults messages protectTail retention).1 protectTail retention index ↔
      Exposed messages protectTail retention index := by
  rw [Exposed, Exposed, length_elide, isProtected_elide]

theorem elideToolResults_idle (h : ∀ index message, messages[index]? = some message →
    Exposed messages protectTail retention index → ∀ block ∈ message.content, elideBlock messages block = (block, 0)) :
    elideToolResults messages protectTail retention = (messages, 0) := by
  unfold elideToolResults
  extract_lets elided
  have helided : elided = messages.zipIdx.map fun entry => (entry.1, 0) := by
    refine map_congr_left ?_
    rintro ⟨message, index⟩ hentry
    have hmessage : messages[index]? = some message := mem_zipIdx_iff_getElem?.mp hentry
    dsimp only
    split
    · rename_i hexposed
      have hblocks := h index message hmessage (by simpa [Exposed] using hexposed)
      have hmap : message.content.map (elideBlock messages) = message.content.map fun block => (block, 0) :=
        map_congr_left hblocks
      rw [hmap]
      simp [Function.comp_def]
    · rfl
  rw [helided]
  simp [Function.comp_def]

theorem elide_once : elideToolResults (elideToolResults messages protectTail retention).1 protectTail retention =
    ((elideToolResults messages protectTail retention).1, 0) := by
  refine elideToolResults_idle fun index later hlater hexposed block hblock => ?_
  rw [getElem?_elide, Option.map_eq_some_iff] at hlater
  obtain ⟨message, hmessage, rfl⟩ := hlater
  rw [elideMessage, if_pos ((exposed_elide index).mp hexposed)] at hblock
  obtain ⟨earlier, -, rfl⟩ := mem_map.mp hblock
  exact elideBlock_once messages _ earlier

theorem getElem?_elide_of_not_exposed {index : Nat} (h : ¬Exposed messages protectTail retention index) :
    (elideToolResults messages protectTail retention).1[index]? = messages[index]? := by
  rw [getElem?_elide]
  cases messages[index]? with
  | none => rfl
  | some message => rw [Option.map_some, elideMessage, if_neg h]

theorem shrinks_iff : EachOutput (fun before after => after.utf8ByteSize ≤ before.utf8ByteSize) messages
    (elideToolResults messages protectTail retention).1 ↔
      ∀ tool result, Replaced messages protectTail retention tool result → Fits tool result := by
  simp only [fits_iff]
  exact eachOutput_elide fun output => le_rfl

/-- Elision only shrinks and happens once exactly when every output it replaces leaves its stub the room: the name of
    its tool, its head in bytes and its stamp with it. -/
theorem elidesOnce_iff (messages : List AgentMessage) (protectTail : Nat) (retention : Retention) :
    ElidesOnce messages protectTail retention ↔
      ∀ tool result, Replaced messages protectTail retention tool result → Fits tool result := by
  constructor
  · rintro ⟨h, -, -, -, -⟩ tool result hreplaced
    exact shrinks_iff.mp h tool result hreplaced
  · intro h
    refine ⟨shrinks_iff.mpr h, fun index hprotected => ?_, ?_, ?_, elide_once⟩
    · refine getElem?_elide_of_not_exposed fun hexposed => ?_
      rw [hexposed.2] at hprotected
      cases hprotected
    · refine ext_getElem? fun index => ?_
      rw [List.getElem?_drop, List.getElem?_drop]
      exact getElem?_elide_of_not_exposed fun hexposed => absurd hexposed.1 (by omega)
    · exact (eachOutput_elide fun output stamp hstamp => hstamp).mpr fun tool result _ stamp hstamp =>
        recoveryStamp_elisionStub hstamp

namespace Sample

def wideOutput : ToolResultSummary := ⟨false, String.ofList (List.replicate 86 '語')⟩

def wideTurn : List AgentMessage := [⟨⟨1⟩, .tool, [.toolResult ⟨7⟩ wideOutput], .fromSequence 0⟩]

theorem bulky_wideOutput : Bulky wideOutput := by
  have hlen (n : Nat) : String.utf8Len (List.replicate n '語') = 3 * n := by
    induction n with
    | zero => rfl
    | succ n ih =>
      rw [replicate_succ, String.utf8Len_cons, ih]
      rfl
  refine ⟨?_, ?_⟩
  · rw [wideOutput, String.utf8ByteSize_ofList, hlen]
    decide
  · have hstart : Text.startsWith wideOutput.outputPreview "[" = false := by
      have hmark : "[".toList = ['['] := rfl
      have hother : ('[' == '語') = false := by decide
      have hlist : wideOutput.outputPreview.toList = '語' :: List.replicate 85 '語' := String.toList_ofList
      rw [Text.startsWith, hmark, hlist, isPrefixOf_cons_cons, hother, Bool.false_and]
    rw [isElisionStub, hstart, Bool.false_and]

theorem not_fits_wideOutput (tool : String) : ¬Fits tool wideOutput := by
  have hhead : headSize wideOutput.outputPreview = wideOutput.outputPreview.utf8ByteSize := by
    rw [headSize, wideOutput, String.toList_ofList]
    rfl
  rw [Fits, hhead]
  omega

end Sample

open Compaction.Sample in
/-- The stub of an output of wide characters is longer than the output. -/
theorem wide_output_grows : ¬ElidesOnce wideTurn 0 ⟨[], false⟩ := by
  intro h
  have hreplaced : Replaced wideTurn 0 ⟨[], false⟩ "tool" wideOutput :=
    ⟨0, _, ⟨7⟩, rfl, ⟨by decide, rfl⟩, mem_singleton.mpr rfl, bulky_wideOutput, rfl⟩
  exact not_fits_wideOutput "tool" (shrinks_iff.mp h.shrinks "tool" wideOutput hreplaced)

end Compaction

end RustyCore
