import RustyCore.Agent.State

/-! The transcript: the check of tool calls against tool results, and the messages a turn builds. -/

namespace RustyCore

inductive TranscriptError where
  | danglingToolCall (id : ToolCallId)
  | orphanToolResult (id : ToolCallId)
  | outOfOrderToolResult (id : ToolCallId)
  | unresolvedToolCall (id : ToolCallId)
deriving DecidableEq

def TranscriptError.display : TranscriptError → String
  | .danglingToolCall id => "Dangling unresolved tool call: " ++ id.display
  | .orphanToolResult id => "Tool result " ++ id.display ++ " without preceding tool call"
  | .outOfOrderToolResult id =>
    "Tool result " ++ id.display ++ " appears before the assistant message that made the call"
  | .unresolvedToolCall id => "Tool call " ++ id.display ++ " has no corresponding result"

namespace AgentMessage

def toolUses (message : AgentMessage) : List ToolCallId :=
  message.content.filterMap fun block => match block with
    | .toolUse call => some call.id
    | _ => none

def toolResults (message : AgentMessage) : List ToolCallId :=
  message.content.filterMap fun block => match block with
    | .toolResult callId _ => some callId
    | _ => none

end AgentMessage

namespace Transcript

/-- Whether some message at or after the given ones declares the call: `rest` are the messages after the
    one being read. The source keeps the last index that declares each call and asks whether it is greater
    than the current one. -/
def declaredLater (rest : List AgentMessage) (id : ToolCallId) : Bool := rest.any fun m => m.toolUses.contains id

def answer (rest : List AgentMessage) : List ToolCallId → List ToolCallId → Except TranscriptError (List ToolCallId)
  | pending, [] => .ok pending
  | pending, callId :: results =>
    if pending.contains callId then answer rest (pending.erase callId) results
    else if declaredLater rest callId then .error (.outOfOrderToolResult callId)
    else .error (.orphanToolResult callId)

def validateFrom : List ToolCallId → List AgentMessage → Except TranscriptError Unit
  | [], [] => .ok ()
  | id :: _, [] => .error (.unresolvedToolCall id)
  | pending, message :: rest =>
    match message.role with
    | .assistant => validateFrom (pending ++ message.toolUses) rest
    | .tool =>
      match answer rest pending message.toolResults with
      | .ok pending => validateFrom pending rest
      | .error e => .error e
    | .user | .system =>
      match pending with
      | id :: _ => .error (.danglingToolCall id)
      | [] => validateFrom [] rest

end Transcript

def validateTranscript (messages : List AgentMessage) : Except TranscriptError Unit :=
  Transcript.validateFrom [] messages

def maxAssistantTextBytes : Nat := 4 * 1024 * 1024

def truncationMarker : String := "\n... (truncated, exceeds assistant message size limit)"

/-- Appends `delta` to `text`, stopping (with a one-time truncation marker) once `text` would exceed
    `maxAssistantTextBytes`. -/
def pushBounded (text delta : String) : String :=
  if delta.isEmpty || Text.endsWith text truncationMarker then text
  else if text.utf8ByteSize ≥ maxAssistantTextBytes then text ++ truncationMarker
  else
    let remaining := maxAssistantTextBytes - text.utf8ByteSize
    if delta.utf8ByteSize ≤ remaining then text ++ delta
    else text ++ String.ofList (Text.takeBytes remaining delta.toList) ++ truncationMarker

def pushToText (delta : String) : List ContentBlock → Option (List ContentBlock)
  | [] => none
  | .text text :: rest => some (.text (pushBounded text delta) :: rest)
  | block :: rest => (pushToText delta rest).map (block :: ·)

def ContentBlock.isToolUse : ContentBlock → Bool
  | .toolUse _ => true
  | _ => false

namespace Agent

variable [Externals]

def trailingAssistantMessage (a : Agent) : Option AgentMessage :=
  a.state.messages.getLast?.filter (·.role == .assistant)

def setTrailingMessage (a : Agent) (message : AgentMessage) : Agent :=
  a.withMessages (a.state.messages.dropLast ++ [message])

def pushMessage (a : Agent) (role : MessageRole) (content : List ContentBlock) : Agent × MessageId :=
  let (a, id) := a.nextMessageId
  let (a, createdAt) := a.nextTimestamp
  (a.withMessages (a.state.messages ++ [⟨id, role, content, createdAt⟩]), id)

/-- Only the transcript's last message may absorb the delta; one opened by a reasoning delta and still
    without a tool call is given the text. -/
def appendAssistantText (a : Agent) (delta : String) : Agent × MessageId :=
  let fresh := a.pushMessage .assistant [.text (pushBounded "" delta)]
  match a.trailingAssistantMessage with
  | none => fresh
  | some message =>
    match pushToText delta message.content with
    | some content => (a.setTrailingMessage { message with content := content }, message.id)
    | none =>
      if message.content.any ContentBlock.isToolUse then fresh
      else
        let content := message.content ++ [.text (pushBounded "" delta)]
        (a.setTrailingMessage { message with content := content }, message.id)

/-- The message a reasoning delta belongs to: the assistant message the current turn is building, or a
    fresh one. -/
def assistantMessageId (a : Agent) : Agent × MessageId :=
  match a.trailingAssistantMessage with
  | some message => (a, message.id)
  | none => a.pushMessage .assistant []

/-- Records a tool call the model just requested. Reuses the turn's assistant message when it has no
    content yet. -/
def pushToolUse (a : Agent) (call : ToolCall) : Agent × MessageId :=
  match a.trailingAssistantMessage with
  | some message =>
    if message.content.isEmpty then (a.setTrailingMessage { message with content := [.toolUse call] }, message.id)
    else a.pushMessage .assistant [.toolUse call]
  | none => a.pushMessage .assistant [.toolUse call]

def discardTrailingEmptyAssistantMessage (a : Agent) : Agent :=
  if a.trailingAssistantMessage.any (·.content.isEmpty) then a.withMessages a.state.messages.dropLast
  else a

end Agent

end RustyCore
