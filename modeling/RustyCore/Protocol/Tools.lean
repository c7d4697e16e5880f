import RustyCore.Lib.Table
import RustyCore.Protocol.Ids
import RustyCore.Protocol.Json

/-! Tool descriptors, policy, calls and results, and the transcript messages that carry them. -/

namespace RustyCore

structure ToolDescriptor where
  id : ToolId
  name : String
  description : String
  inputSchema : Value

inductive PermissionMode where
  | allow
  | ask
  | deny
deriving DecidableEq

structure ToolPolicy where
  permission : PermissionMode
  enabled : Bool

structure ToolCapability where
  descriptor : ToolDescriptor
  policy : ToolPolicy
  delegatable : Bool

structure AgentToolset where
  tools : Table.Map ToolId ToolCapability

def AgentToolset.enabledDescriptors (toolset : AgentToolset) : List ToolDescriptor :=
  ((toolset.tools.entries.filter fun entry => entry.2.policy.enabled).insertionSort
    fun a b => Id.le a.1 b.1).map fun entry => entry.2.descriptor

structure ToolCall where
  id : ToolCallId
  name : String
  arguments : Value

structure ToolResult where
  callId : ToolCallId
  output : Value
  isError : Bool

structure ToolResultSummary where
  hasError : Bool
  outputPreview : String
deriving DecidableEq

inductive ToolError where
  | executionFailed
  | permissionDenied
  | timeout
  | internal
  /-- Refused by the harness (behavior profile scope, limits, or a rule) before execution. `reason` is
      shown to the model as the result. -/
  | denied (reason : String)

inductive MessageRole where
  | system
  | user
  | assistant
  | tool
deriving DecidableEq

inductive ContentBlock where
  | text (text : String)
  | toolUse (call : ToolCall)
  | toolResult (callId : ToolCallId) (result : ToolResultSummary)
  | image (mimeType : String) (data : List UInt8)

structure AgentMessage where
  id : MessageId
  role : MessageRole
  content : List ContentBlock
  createdAt : Timestamp

/-! The repair of a provider-facing history after truncation or interruption. -/

def unavailableOutcome : ToolResultSummary where
  hasError := true
  outputPreview := "Tool outcome unavailable: execution may have been interrupted. Inspect the current state before retrying any action; do not assume it failed or succeeded."

namespace AgentMessage

def calls (messages : List AgentMessage) : List ToolCallId :=
  (messages.flatMap (·.content)).filterMap fun block => match block with
    | .toolUse call => some call.id
    | _ => none

end AgentMessage

namespace Repair

abbrev Results := Table.Map ToolCallId ToolResultSummary

def collectResults : Results → List ContentBlock → Results
  | results, [] => results
  | results, .toolResult callId result :: blocks =>
    collectResults (if (results.lookup callId).isSome then results else results.insert callId result) blocks
  | results, _ :: blocks => collectResults results blocks

def orphanText (callId : ToolCallId) (result : ToolResultSummary) : String :=
  "Earlier tool result (" ++ callId.display ++ "; call omitted from context): " ++ result.outputPreview

/-- What a message's blocks become, the answers to its calls and the results that are left. -/
def repairContent (calls : List ToolCallId) : Results → List ContentBlock → List ContentBlock × List ContentBlock × Results
  | results, [] => ([], [], results)
  | results, .toolResult callId result :: blocks =>
    let rest := repairContent calls results blocks
    if calls.contains callId then rest else (.text (orphanText callId result) :: rest.1, rest.2)
  | results, .toolUse call :: blocks =>
    let reply := ContentBlock.toolResult call.id ((results.lookup call.id).getD unavailableOutcome)
    let rest := repairContent calls (results.erase call.id) blocks
    (.toolUse call :: rest.1, reply :: rest.2.1, rest.2.2)
  | results, block :: blocks =>
    let rest := repairContent calls results blocks
    (block :: rest.1, rest.2)

def repairRole : MessageRole → MessageRole
  | .tool => .user
  | role => role

/-- The messages that take a message's place: itself, if anything of it is left, and the answers to its calls. -/
def repairMessage (message : AgentMessage) (content replies : List ContentBlock) : List AgentMessage :=
  (if content.isEmpty then [] else [{ message with role := repairRole message.role, content := content }]) ++
    if replies.isEmpty then [] else [{ message with role := .tool, content := replies }]

def repairFrom (calls : List ToolCallId) : Results → List AgentMessage → List AgentMessage
  | _, [] => []
  | results, message :: messages =>
    let (content, replies, results) := repairContent calls results message.content
    repairMessage message content replies ++ repairFrom calls results messages

end Repair

/-- Repair the provider-facing copy of history after truncation or interruption. Move existing results beside their
    calls; missing outcomes are explicitly unknown, never successful. Orphaned results remain readable context. -/
def repairToolHistory (messages : List AgentMessage) : List AgentMessage :=
  Repair.repairFrom (AgentMessage.calls messages) (Repair.collectResults ∅ (messages.flatMap (·.content))) messages

end RustyCore
