import RustyCore.Provider.Anthropic

/-! The conversation as the Chat Completions API is sent it. -/

namespace RustyCore

open ModelBackend

namespace OpenAi

inductive ContentPart where
  | text (text : String)
  | imageUrl (url : String)

inductive Content where
  | text (text : String)
  | parts (parts : List ContentPart)

structure ToolCallOut where
  id : String
  kind : String
  name : String
  arguments : String

structure Message where
  role : String
  content : Option Content
  toolCalls : Option (List ToolCallOut)
  toolCallId : Option String

def concatText (content : List ContentBlock) : String := Text.join "" (content.filterMap ContentBlock.text?)

def isImage : ContentBlock → Bool
  | .image _ _ => true
  | _ => false

section

variable [WireExternals]

def contentPart : ContentBlock → Option ContentPart
  | .text text => some (.text text)
  | .image mimeType data => some (.imageUrl ("data:" ++ mimeType ++ ";base64," ++ WireExternals.encodeBase64 data))
  | _ => none

def contentBlocksToOpenaiContent (content : List ContentBlock) : Content :=
  if !content.any isImage then .text (concatText content) else .parts (content.filterMap contentPart)

def providerIdFor (toolIds : ProviderToolIds) (callId : ToolCallId) : String := (toolIds callId).getD callId.display

def toolMessage (toolIds : ProviderToolIds) : ContentBlock → Option Message
  | .toolResult callId result => some ⟨"tool", some (.text result.outputPreview), none, some (providerIdFor toolIds callId)⟩
  | _ => none

def toolCallOut (toolIds : ProviderToolIds) : ContentBlock → Option ToolCallOut
  | .toolUse call => some ⟨providerIdFor toolIds call.id, "function", call.name, call.arguments.display⟩
  | _ => none

/-- Converts one message into zero or more messages. System messages are filtered before conversion. -/
def agentMessageToOpenai (toolIds : ProviderToolIds) (message : AgentMessage) : List Message :=
  match message.role with
  | .tool => message.content.filterMap (toolMessage toolIds)
  | .user => [⟨"user", some (contentBlocksToOpenaiContent message.content), none, none⟩]
  | .assistant =>
    let text := concatText message.content
    let toolCalls := message.content.filterMap (toolCallOut toolIds)
    -- a message with neither says nothing, and several providers reject it
    if text.isEmpty && toolCalls.isEmpty then []
    else
      [⟨"assistant", if text.isEmpty then none else some (.text text),
        if toolCalls.isEmpty then none else some toolCalls, none⟩]
  | .system => []

/-- Prefers the request's system prompt, falling back to the system messages of the transcript. -/
def buildSystemMessage (systemPrompt : String) (messages : List AgentMessage) : Option Message :=
  let text :=
    if !systemPrompt.isEmpty then some systemPrompt
    else
      let collected := systemTexts messages
      if collected.isEmpty then none else some (Text.join "\n" collected)
  text.map fun content => ⟨"system", some (.text content), none, none⟩

def convertMessagesWithToolIds (messages : List AgentMessage) (toolIds : ProviderToolIds) : List Message :=
  (messages.filter (·.role != .system)).flatMap (agentMessageToOpenai toolIds)

def buildMessages (toolIds : ProviderToolIds) (request : ModelRequest) : List Message :=
  (buildSystemMessage request.systemPrompt request.messages).toList ++
    convertMessagesWithToolIds request.messages toolIds

end

end OpenAi

end RustyCore
