import RustyCore.ModelBackend.Events

/-! The conversation as the Messages API is sent it: the system text and the converted messages. The cache marks
    and the provider options that are added to the body afterwards leave both as they are. -/

namespace RustyCore

open ModelBackend

/-- Libraries the providers use: base64, and the parser of identifiers. -/
class WireExternals where
  encodeBase64 : List UInt8 → String
  parseToolCallId : String → Option ToolCallId

abbrev ProviderToolIds := ToolCallId → Option String

def ContentBlock.text? : ContentBlock → Option String
  | .text s => some s
  | _ => none

def systemTexts (messages : List AgentMessage) : List String :=
  (messages.filter (·.role == .system)).flatMap fun message => message.content.filterMap ContentBlock.text?

namespace Anthropic

inductive Role where
  | user
  | assistant
deriving DecidableEq

inductive Block where
  | text (text : String)
  | toolUse (id name : String) (input : Value)
  | toolResult (toolUseId content : String)
  | image (mediaType data : String)

structure Message where
  role : Role
  content : List Block

section

variable [WireExternals]

def convertBlock : ContentBlock → Option Block
  | .text text => if text.isEmpty then none else some (.text text)
  | .toolUse call => some (.toolUse call.id.display call.name call.arguments)
  | .toolResult callId result => some (.toolResult callId.display result.outputPreview)
  | .image mimeType data => some (.image mimeType (WireExternals.encodeBase64 data))

/-- The wire form of one message, or `none` for a system message: system text travels in the request's `system`
    field, not in the message list. -/
def agentMessageToAnthropic (message : AgentMessage) : Option Message :=
  let content := message.content.filterMap convertBlock
  match message.role with
  | .user | .tool => some ⟨.user, content⟩
  | .assistant => some ⟨.assistant, content⟩
  | .system => none

def buildSystem (messages : List AgentMessage) : Option String :=
  let text := systemTexts messages
  if text.isEmpty then none else some (Text.join "\n" text)

/-- An assistant message left with no content blocks says nothing, and the API rejects empty content. -/
def convertMessages (messages : List AgentMessage) : List Message :=
  (messages.filterMap agentMessageToAnthropic).filter fun message =>
    message.role != .assistant || !message.content.isEmpty

/-- Puts the provider's own id back on a tool use or result that carries the harness-internal one. -/
def restoreProviderId (toolIds : ProviderToolIds) : Block → Block
  | .toolUse id name input => .toolUse (((WireExternals.parseToolCallId id).bind toolIds).getD id) name input
  | .toolResult id content => .toolResult (((WireExternals.parseToolCallId id).bind toolIds).getD id) content
  | block => block

def convertMessagesWithToolIds (messages : List AgentMessage) (toolIds : ProviderToolIds) : List Message :=
  (convertMessages messages).map fun message =>
    { message with content := message.content.map (restoreProviderId toolIds) }

structure Body where
  system : Option String
  messages : List Message

def buildBody (toolIds : ProviderToolIds) (request : ModelRequest) : Body where
  system := if !request.systemPrompt.isEmpty then some request.systemPrompt else buildSystem request.messages
  messages := convertMessagesWithToolIds request.messages toolIds

end

end Anthropic

end RustyCore
