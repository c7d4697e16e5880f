import RustyCore.Agent.Transcript
import RustyCore.Lib.Closure

/-! Dropping the oldest messages of a conversation: what is kept regardless of age, the closure over tool
    pairs, and the note that stands for what was dropped. -/

namespace RustyCore

structure Retention where
  pinned : List MessageId
  anchorFirstUser : Bool

namespace Compaction

def summaryMarker : String := "[summary of earlier conversation"

def isSummary (message : AgentMessage) : Bool :=
  message.role == .system && match message.content.head? with
    | some (.text text) => Text.startsWith text summaryMarker
    | _ => false

def isProtected (retention : Retention) (messages : List AgentMessage) (index : Nat) : Bool :=
  match messages[index]? with
  | none => false
  | some message =>
    retention.pinned.contains message.id || isSummary message ||
      (retention.anchorFirstUser && message.role == .user && !(messages.take index).any (·.role == .user))

def elideMinChars : Nat := 256

def elideHeadChars : Nat := 120

def elidedMark : String := "result elided to save context"

def stampPrefix : String := "[rusty:"

def maxStampChars : Nat := 400

def recoveryStamp (output : String) : Option String :=
  (((Text.lines output.toList).reverse.map fun line => String.ofList (Text.trimEnd line)).find? fun line =>
    Text.startsWith line stampPrefix && Text.endsWith line "]" && decide (line.utf8ByteSize ≤ maxStampChars))

def isElisionStub (output : String) : Bool := Text.startsWith output "[" && Text.contains output elidedMark

def toolName (messages : List AgentMessage) (callId : ToolCallId) : Option String :=
  (messages.flatMap fun message => message.content.filterMap fun block => match block with
    | .toolUse call => if call.id = callId then some call.name else none
    | _ => none).getLast?

def elisionStub (tool : String) (result : ToolResultSummary) : String :=
  let output := result.outputPreview
  let stamp := ((recoveryStamp output).map fun stamp => "\n" ++ stamp).getD ""
  "[" ++ tool ++ " " ++ elidedMark ++ " — " ++ toString output.utf8ByteSize ++ " chars" ++
    (if result.hasError then ", error" else "") ++ "] " ++ String.ofList (output.toList.take elideHeadChars) ++ "…" ++ stamp

def elideBlock (messages : List AgentMessage) : ContentBlock → ContentBlock × Nat
  | .toolResult callId result =>
    let output := result.outputPreview
    if output.utf8ByteSize ≤ elideMinChars || isElisionStub output then (.toolResult callId result, 0)
    else
      let tool := (toolName messages callId).getD "tool"
      (.toolResult callId { result with outputPreview := elisionStub tool result }, 1)
  | block => (block, 0)

/-- Replaces large tool results outside the last `protectTail` messages with a stub. Returns the messages and
    how many results were elided. -/
def elideToolResults (messages : List AgentMessage) (protectTail : Nat) (retention : Retention) :
    List AgentMessage × Nat :=
  let elided : List (AgentMessage × Nat) := messages.zipIdx.map fun (message, index) =>
    if index < messages.length - protectTail && !isProtected retention messages index then
      let blocks : List (ContentBlock × Nat) := message.content.map (elideBlock messages)
      ({ message with content := blocks.map (·.1) }, (blocks.map (·.2)).sum)
    else (message, 0)
  (elided.map (·.1), (elided.map (·.2)).sum)

def initiallyKept (messages : List AgentMessage) (keep : Nat) (retention : Retention) : List Bool :=
  (List.range messages.length).map fun index =>
    decide (messages.length - keep ≤ index) || isProtected retention messages index

/-- The message that owns a call's use, or its result: the last one that carries it, as a later entry of the
    source's map replaces an earlier one. -/
def ownerOf (ids : AgentMessage → List ToolCallId) (messages : List AgentMessage) (id : ToolCallId) : Option Nat :=
  ((List.range messages.length).filter fun index => messages[index]?.any fun m => (ids m).contains id).getLast?

def partners (messages : List AgentMessage) (index : Nat) : List Nat :=
  match messages[index]? with
  | none => []
  | some message =>
    message.toolResults.filterMap (ownerOf AgentMessage.toolUses messages) ++
      message.toolUses.filterMap (ownerOf AgentMessage.toolResults messages)

/-- Keeps both halves of every tool call that has one half kept, until the set is stable. -/
def closeOverToolPairs (messages : List AgentMessage) (kept : List Bool) : List Bool :=
  Closure.close (partners messages) (messages.length + 1) kept

/-- The kept messages, with the note before the first kept message that follows a dropped one (or at the end
    when the dropped ones were last). The note is taken once. -/
def withoutDroppedFrom : Option AgentMessage → Bool → List (AgentMessage × Bool) → List AgentMessage
  | note, _, [] => note.toList
  | note, _, (_, false) :: rest => withoutDroppedFrom note true rest
  | note, pendingGap, (message, true) :: rest =>
    if pendingGap then note.toList ++ message :: withoutDroppedFrom none false rest
    else message :: withoutDroppedFrom note false rest

def withoutDropped (messages : List AgentMessage) (kept : List Bool) (note : AgentMessage) : List AgentMessage :=
  withoutDroppedFrom (some note) false (messages.zip kept)

/-- A synthetic system message that says how many messages it stands for. The id and the time are minted when
    it is made. -/
structure Note where
  id : MessageId
  createdAt : Timestamp
  text : Nat → String

def Note.message (note : Note) (dropped : Nat) : AgentMessage :=
  ⟨note.id, .system, [.text (note.text dropped)], note.createdAt⟩

def truncationNote (id : MessageId) (createdAt : Timestamp) : Note where
  id := id
  createdAt := createdAt
  text dropped := "[earlier conversation truncated — " ++ toString dropped ++ " message(s) omitted]"

def summaryMessage (id : MessageId) (createdAt : Timestamp) (summary : String) : Note where
  id := id
  createdAt := createdAt
  text condensed := summaryMarker ++ " — " ++ toString condensed ++ " message(s) condensed]\n" ++ summary

/-- Keeps the last `keep` messages plus protected ones, dropping the rest and inserting the note where the gap
    is. Returns the messages and how many were dropped. -/
def dropPrefix (messages : List AgentMessage) (keep : Nat) (retention : Retention) (note : Note) :
    List AgentMessage × Nat :=
  if messages.length ≤ keep then (messages, 0)
  else
    let kept := closeOverToolPairs messages (initiallyKept messages keep retention)
    let dropped := kept.count false
    if dropped = 0 then (messages, 0) else (withoutDropped messages kept (note.message dropped), dropped)

end Compaction

end RustyCore
