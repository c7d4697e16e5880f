import RustyCore.Lib.OrdMap
import RustyCore.Provider.OpenAi
import RustyCore.Provider.Sse

/-! Incremental normalization of the Chat Completions event stream. There is no stop signal for a tool call: its
    arguments are complete only when the whole stream ends. -/

namespace RustyCore

open ModelBackend Sse

namespace OpenAi

/-- The state of the parser apart from its buffer. Tool call ids are minted in order, as for the other parser, and
    the map of the tools is kept in the order of their indexes, by which they are sorted at the end. -/
structure Parser where
  tools : OrdMap Nat ToolBuffer := OrdMap.empty
  usage : ModelUsage := {}
  usageEventSent : Bool := false
  stopReason : String := "stop"
  model : String := ""
  responseId : Option String := none
  sawDone : Bool := false
  result : Option ModelResult := none
  toolIds : ProviderToolIds := fun _ => none
  minted : Nat := 0

def mapUsage (raw : RawOpenAiUsage) : ModelUsage where
  inputTokens := raw.promptTokens
  outputTokens := raw.completionTokens
  cacheReadTokens := raw.promptTokensDetails.bind (·.cachedTokens)
  cacheWriteTokens := none
  reasoningTokens := raw.completionTokensDetails.bind (·.reasoningTokens)
  totalTokens := raw.totalTokens.or (addTokens raw.promptTokens raw.completionTokens)

def lookupRate (model : String) : ModelRate :=
  if Text.startsWith model "gpt-4o-mini" then ⟨3 / 20, 3 / 5⟩
  else if Text.startsWith model "gpt-4o" then ⟨5 / 2, 10⟩
  else if Text.startsWith model "gpt-4-turbo" then ⟨10, 30⟩
  else ⟨0, 0⟩

def calculateCost (usage : ModelUsage) (model : String) : Cost :=
  let rate := lookupRate model
  { amountUsd := sumCosts [perMillion usage.inputTokens rate.inputRate, perMillion usage.outputTokens rate.outputRate]
    source := some .calculated }

/-- Some providers put thinking in `reasoning_content`, others in `reasoning`. -/
def reasoningEvent (delta : Value) : Option ModelEvent :=
  match (delta.index "reasoning_content").asStr.or (delta.index "reasoning").asStr with
  | some text => if text.isEmpty then none else some (.reasoningDelta text)
  | none => none

def textEvent (delta : Value) : Option ModelEvent :=
  match (delta.index "content").asStr with
  | some text => if text.isEmpty then none else some (.textDelta text)
  | none => none

namespace Parser

variable [StreamExternals]

def hasUsage (parser : Parser) : Bool :=
  parser.usage.totalTokens.getD 0 > 0 || parser.usage.inputTokens.getD 0 > 0 || parser.usage.outputTokens.getD 0 > 0

def mint (parser : Parser) (providerId : Option String) : Parser × ToolCallId :=
  let id : ToolCallId := ⟨parser.minted⟩
  ({ parser with
      minted := parser.minted + 1
      toolIds := fun i => if i = id ∧ providerId.isSome then providerId else parser.toolIds i }, id)

/-- Records the response id, model and usage a frame carries, and fails on an error frame. -/
def noteMetadata (parser : Parser) (value : Value) : Except ModelError Parser :=
  let parser :=
    if parser.responseId.isNone then { parser with responseId := (value.index "id").asStr } else parser
  match value.get "error" with
  | some error =>
    .error (.backendError ((error.index "message").asStr.getD "OpenAI stream error")
      ((error.index "type").asStr.getD "stream_error"))
  | none =>
    let parser :=
      if parser.model.isEmpty then { parser with model := (value.index "model").asStr.getD parser.model } else parser
    let rawUsage :=
      ((value.get "usage").filter fun usage => !usage.isNull).bind StreamExternals.decodeOpenAiUsage
    match rawUsage with
    | some raw => .ok { parser with usage := mapUsage raw }
    | none => .ok parser

def usageOnlyEvent (parser : Parser) (value : Value) : Parser × Option ModelEvent :=
  let carriesUsage := (value.get "usage").any fun usage => !usage.isNull
  if carriesUsage && parser.hasUsage then ({ parser with usageEventSent := true }, some (.usageUpdate parser.usage))
  else (parser, none)

/-- The first tool call of a delta: a start when its index is new, an argument fragment after. -/
def toolCallEvent (parser : Parser) (delta : Value) : Parser × Option ModelEvent :=
  match (delta.index "tool_calls").asArray.bind List.head? with
  | none => (parser, none)
  | some toolCall =>
    let index := (toolCall.index "index").asU64.getD 0
    let fragment := textOf ((toolCall.index "function").index "arguments")
    match parser.tools.get? index with
    | some buffer =>
      ({ parser with tools := parser.tools.insert index { buffer with json := buffer.json ++ fragment } },
        if fragment.isEmpty then none else some (.toolCallDelta buffer.id fragment))
    | none =>
      let (parser, id) := parser.mint (toolCall.index "id").asStr
      let name := textOf ((toolCall.index "function").index "name")
      ({ parser with tools := parser.tools.insert index ⟨id, name, fragment⟩ }, some (.toolCallStarted id name))

/-- The event of a frame's first choice: its reasoning, else its text, else its first tool call. -/
def choiceEvent (parser : Parser) (choice : Value) : Parser × Option ModelEvent :=
  let parser := { parser with stopReason := (choice.index "finish_reason").asStr.getD parser.stopReason }
  let delta := choice.index "delta"
  match (reasoningEvent delta).or (textEvent delta) with
  | some event => (parser, some event)
  | none => parser.toolCallEvent delta

def onFrame (parser : Parser) (value : Value) : Except ModelError (Parser × Option ModelEvent) :=
  match parser.noteMetadata value with
  | .error error => .error error
  | .ok parser =>
    match (value.index "choices").asArray.bind List.head? with
    | none => .ok (parser.usageOnlyEvent value)
    | some choice => .ok (parser.choiceEvent choice)

/-- Turns one frame into at most one event. `[DONE]` ends the stream. -/
def parseBlock (parser : Parser) (bytes : List UInt8) : Except ModelError (Parser × Option ModelEvent) :=
  match Utf8.decode bytes with
  | none => .error (.protocol (StreamExternals.utf8Error bytes))
  | some text =>
    let data := dataLines text
    if data.isEmpty then .ok (parser, none)
    else if data = "[DONE]" then .ok ({ parser with sawDone := true }, none)
    else
      match StreamExternals.parseJson data with
      | .error error => .error (.protocol ("invalid chunk: " ++ error))
      | .ok value => parser.onFrame value

def toolInput (tool : ToolBuffer) : Except ModelError ModelEvent :=
  match if tool.json.isEmpty then .ok (.object []) else StreamExternals.parseJson tool.json with
  | .error error => .error (.protocol ("invalid tool arguments: " ++ error))
  | .ok input => .ok (.toolCallCompleted tool.id tool.name input)

/-- The tool calls are flushed in the order of their indexes. Usage that came with a last choice is published here,
    before the end. -/
def finish (parser : Parser) (buffer : List UInt8) : Except ModelError (Parser × List ModelEvent × ModelResult) := do
  if parser.result.isSome then .error (.protocol "SSE parser was finished more than once")
  -- the event of a trailing frame is not delivered
  let parser ← if buffer.all isAsciiWhitespace then .ok parser else (parser.parseBlock buffer).map (·.1)
  if !parser.sawDone then .error (.streamInterrupted "SSE stream ended without [DONE]")
  let usage := if parser.hasUsage && !parser.usageEventSent then [ModelEvent.usageUpdate parser.usage] else []
  let calls ← parser.tools.values.mapM toolInput
  let result : ModelResult := ⟨parser.stopReason, parser.usage, calculateCost parser.usage parser.model⟩
  return ({ parser with tools := OrdMap.empty, result := some result }, usage ++ calls ++ [.completed result], result)

def finished (parser : Parser) (buffer : List UInt8) : Except ModelError (List ModelEvent × ModelResult) :=
  (parser.finish buffer).map (·.2)

end Parser

def findSseBoundary (buffer : List UInt8) : Option Nat := Framing.position [10, 10] buffer

theorem frame_le {buffer : List UInt8} {n k : Nat}
    (h : (findSseBoundary buffer).map (fun boundary => (boundary, 2)) = some (n, k)) : 0 < k ∧ n + k ≤ buffer.length := by
  obtain ⟨boundary, hboundary, hpair⟩ := Option.map_eq_some_iff.mp h
  cases hpair
  exact ⟨by omega, Framing.position_le hboundary⟩

theorem frame_append {buffer : List UInt8} {found : Nat × Nat} (more : List UInt8)
    (h : (findSseBoundary buffer).map (fun boundary => (boundary, 2)) = some found) :
    (findSseBoundary (buffer ++ more)).map (fun boundary => (boundary, 2)) = some found := by
  obtain ⟨n, hboundary, hpair⟩ := Option.map_eq_some_iff.mp h
  exact Option.map_eq_some_iff.mpr ⟨n, ((Framing.position_append (by simp)).mp hboundary).1, hpair⟩

theorem frame_take {buffer : List UInt8} {n k : Nat}
    (h : (findSseBoundary buffer).map (fun boundary => (boundary, 2)) = some (n, k)) :
    (findSseBoundary (buffer.take (n + k))).map (fun boundary => (boundary, 2)) = some (n, k) := by
  obtain ⟨boundary, hboundary, hpair⟩ := Option.map_eq_some_iff.mp h
  cases hpair
  have hle := Framing.position_le hboundary
  refine Option.map_eq_some_iff.mpr ⟨n, (Framing.position_take (by simp)).mpr ⟨hboundary, ?_⟩, rfl⟩
  rw [List.length_take]
  simp only [List.length_cons, List.length_nil] at hle ⊢
  omega

variable [StreamExternals]

/-- The stream in frames, each with the two bytes after it; one of white space is skipped. -/
def framing : Framing UInt8 Parser ModelEvent ModelError where
  boundary buffer := (findSseBoundary buffer).map fun boundary => (boundary, 2)
  block parser bytes := if bytes.all isAsciiWhitespace then .ok (parser, none) else parser.parseBlock bytes
  boundary_le h := frame_le h
  boundary_append more h := frame_append more h
  boundary_take h := frame_take h

def feed (chunks : List (List UInt8)) : List ModelEvent × Except ModelError ModelResult :=
  framing.feed Parser.finished {} [] chunks

end OpenAi

end RustyCore

/-! What a stream of Chat Completions frames says, apart from the parser: the frames on the wire, their texts, and
    the tool calls their fragments make up. -/

namespace RustyCore.OpenAi

open ModelBackend Sse

section

variable [StreamExternals]

/-- A frame: the text of its JSON, on one line, and whether its line ends have a carriage return. -/
structure Frame where
  text : String
  value : Value
  crlf : Bool
  parsed : StreamExternals.parseJson text = .ok value
  oneLine : '\n' ∉ text.toList ∧ '\r' ∉ text.toList
  trimmed : Text.trim text = text
  solid : Text.isBlank text = false
  notDone : text ≠ "[DONE]"
  noError : value.get "error" = none

end

def lineEnd (crlf : Bool) : List Char := if crlf then ['\r', '\n'] else ['\n']

def onWire (text : String) (crlf : Bool) : List Char :=
  "data: ".toList ++ text.toList ++ (lineEnd crlf ++ lineEnd crlf)

def stream [StreamExternals] (frames : List Frame) (doneCrlf : Bool) : List UInt8 :=
  Utf8.encode (frames.flatMap (fun f => onWire f.text f.crlf) ++ onWire "[DONE]" doneCrlf)

def choice (value : Value) : Option Value := (value.index "choices").asArray.bind List.head?

def delta (value : Value) : Value := ((choice value).map fun c => c.index "delta").getD .null

def reasoning (value : Value) : String :=
  (((delta value).index "reasoning_content").asStr.or ((delta value).index "reasoning").asStr).getD ""

def content (value : Value) : String := Sse.textOf ((delta value).index "content")

structure Fragment where
  index : Nat
  name : Option String
  arguments : String

def fragment (call : Value) : Fragment where
  index := (call.index "index").asU64.getD 0
  name := ((call.index "function").index "name").asStr
  arguments := Sse.textOf ((call.index "function").index "arguments")

def fragments (value : Value) : List Fragment := (((delta value).index "tool_calls").asArray.getD []).map fragment

def fragmentsOf (index : Nat) (all : List Fragment) : List Fragment := all.filter fun g => g.index = index

def firstName (all : List Fragment) (index : Nat) : String := ((fragmentsOf index all).findSome? (·.name)).getD ""

def joined (all : List Fragment) (index : Nat) : String :=
  (fragmentsOf index all).foldl (fun json g => json ++ g.arguments) ""

def parsedArguments [StreamExternals] (json : String) : Except String Value :=
  if json.isEmpty then .ok (.object []) else StreamExternals.parseJson json

def spoken : ModelEvent → List Char
  | .textDelta delta => delta.toList
  | _ => []

def thought : ModelEvent → List Char
  | .reasoningDelta delta => delta.toList
  | _ => []

def started : ModelEvent → Option (ToolCallId × String)
  | .toolCallStarted id name => some (id, name)
  | _ => none

def completedCall : ModelEvent → Option (ToolCallId × String × Value)
  | .toolCallCompleted id name input => some (id, name, input)
  | _ => none

structure Call where
  index : Nat
  id : ToolCallId
  name : String
  input : Value

/-- One call for each index, started once and completed once, in the order of the indexes; the ids are distinct as long
    as there are ids enough. -/
structure CallsDelivered [StreamExternals] (all : List Fragment) (events : List ModelEvent) (calls : List Call) :
    Prop where
  sorted : (calls.map (·.index)).Pairwise (· < ·)
  indexes : ∀ i, i ∈ calls.map (·.index) ↔ ∃ g ∈ all, g.index = i
  ids : calls.length ≤ 2 ^ 128 → (calls.map (·.id)).Nodup
  names : ∀ c ∈ calls, c.name = firstName all c.index
  inputs : ∀ c ∈ calls, parsedArguments (joined all c.index) = .ok c.input
  starts : (events.filterMap started).Perm (calls.map fun c => (c.id, c.name))
  completions : events.filterMap completedCall = calls.map fun c => (c.id, c.name, c.input)

structure Complete [StreamExternals] (frames : List Frame)
    (outcome : List ModelEvent × Except ModelError ModelResult) : Prop where
  ended : ∃ result, outcome.2 = .ok result
  texts : outcome.1.flatMap spoken = frames.flatMap fun f => (content f.value).toList
  thoughts : outcome.1.flatMap thought = frames.flatMap fun f => (reasoning f.value).toList
  calls : ∃ calls, CallsDelivered (frames.flatMap fun f => fragments f.value) outcome.1 calls

def readOf (value : Value) : List Fragment :=
  if reasoning value = "" ∧ content value = "" then (fragments value).take 1 else []

def headName (read : List Fragment) (index : Nat) : String := ((fragmentsOf index read).head?.bind (·.name)).getD ""

/-- Nothing is lost: line feeds only, one kind of text in a frame, and for each index a first fragment that is read
    and has the first name, and arguments that read as all of them together. -/
structure Lossless [StreamExternals] (frames : List Frame) : Prop where
  lineFeeds : ∀ f ∈ frames, f.crlf = false
  oneText : ∀ f ∈ frames, reasoning f.value = "" ∨ content f.value = ""
  calls : ∀ i, (∃ g ∈ frames.flatMap fun f => fragments f.value, g.index = i) →
    (∃ g ∈ frames.flatMap fun f => readOf f.value, g.index = i) ∧
    headName (frames.flatMap fun f => readOf f.value) i = firstName (frames.flatMap fun f => fragments f.value) i ∧
    ∃ input, parsedArguments (joined (frames.flatMap fun f => readOf f.value) i) = .ok input ∧
      parsedArguments (joined (frames.flatMap fun f => fragments f.value) i) = .ok input

end RustyCore.OpenAi
