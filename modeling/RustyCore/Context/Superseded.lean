import RustyCore.Protocol.Tools

/-! File reads that a later read of the same file makes redundant: up to a point of the history, their results are
    replaced by a stub. -/

namespace RustyCore
namespace Superseded

def stepChars : Nat := 120000

def readTools : List String := ["read_file", "fs.read"]

def stub : String := "[older read replaced:"

structure Read where
  path : String
  scope : String
deriving DecidableEq

namespace Read

def of_ (arguments : Value) : Option Read :=
  match arguments with
  | .object fields =>
    match (fields.lookup "path").or (fields.lookup "file_path") with
    | some (.string path) =>
      let rest := (fields.filter fun (key, _) => key ≠ "path" ∧ key ≠ "file_path").insertionSort fun a b => a.1 ≤ b.1
      some ⟨String.ofList (Text.trimStartStr "./".toList path.toList),
        Text.join "&" (rest.map fun (key, value) => key ++ "=" ++ value.display)⟩
    | _ => none
  | _ => none

/-- A later read covers an earlier one of the same file when it asked the same thing or read the whole file. -/
def supersedes (later earlier : Read) : Bool :=
  later.path = earlier.path ∧ (later.scope = "" ∨ later.scope = earlier.scope)

end Read

def blocks (messages : List AgentMessage) : List ContentBlock := messages.flatMap (·.content)

def calls (blocks : List ContentBlock) : List (ToolCallId × Read) :=
  blocks.filterMap fun block =>
    match block with
    | .toolUse call => if readTools.contains call.name then (Read.of_ call.arguments).map fun read => (call.id, read) else none
    | _ => none

def reads (blocks : List ContentBlock) (id : ToolCallId) : Option Read := (calls blocks).reverse.lookup id

def order (reads : ToolCallId → Option Read) (blocks : List ContentBlock) : List ToolCallId :=
  blocks.filterMap fun block =>
    match block with
    | .toolResult id result => if (reads id).isSome && !result.hasError then some id else none
    | _ => none

def covers (reads : ToolCallId → Option Read) (later earlier : ToolCallId) : Bool :=
  match reads later, reads earlier with
  | some later, some earlier => later.supersedes earlier
  | _, _ => false

def superseded (reads : ToolCallId → Option Read) : List ToolCallId → List ToolCallId
  | [] => []
  | id :: rest => if rest.any fun later => covers reads later id then id :: superseded reads rest else superseded reads rest

def isStub (result : ToolResultSummary) : Bool := Text.startsWith result.outputPreview stub

def stubText (reads : ToolCallId → Option Read) (id : ToolCallId) : String :=
  stub ++ " " ++ ((reads id).map (·.path)).getD "" ++ " was read again later; use that newer copy]"

def replace (reads : ToolCallId → Option Read) (ids : List ToolCallId) (block : ContentBlock) : Option ContentBlock :=
  match block with
  | .toolResult id result =>
    if ids.contains id && !isStub result then some (.toolResult id { result with outputPreview := stubText reads id })
    else none
  | _ => none

/-- Replaces read results before `upto` that a later read before `upto` supersedes; with how many were replaced. -/
def stubSupersededReads (messages : List AgentMessage) (upto : Nat) : List AgentMessage × Nat :=
  let before := blocks (messages.take upto)
  let reads := reads before
  let ids := superseded reads (order reads before)
  ((messages.take upto).map (fun message =>
      { message with content := message.content.map fun block => (replace reads ids block).getD block }) ++
    messages.drop upto,
    (before.filterMap (replace reads ids)).length)

def size (message : AgentMessage) : Nat :=
  (message.content.map fun block =>
    match block with
    | .text text => text.utf8ByteSize
    | .toolUse call => call.name.utf8ByteSize + call.arguments.display.utf8ByteSize
    | .toolResult _ result => result.outputPreview.utf8ByteSize
    | .image _ _ => 0).sum

/-- The first message past which `boundary` bytes were seen. -/
def pointAt (boundary : Nat) : Nat → Nat → List AgentMessage → Nat
  | _, index, [] => index
  | seen, index, message :: rest =>
    if boundary ≤ seen + size message then index + 1 else pointAt boundary (seen + size message) (index + 1) rest

/-- The first message past the last whole step; none while the history is shorter than one step. -/
def rewritePoint (messages : List AgentMessage) (step : Nat) : Nat :=
  let boundary := (messages.map size).sum / step * step
  if boundary = 0 then 0 else pointAt boundary 0 0 messages

def assemble (messages : List AgentMessage) : List AgentMessage :=
  (stubSupersededReads messages (rewritePoint messages stepChars)).1

end Superseded
end RustyCore
