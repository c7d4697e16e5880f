import Mathlib.Data.Finset.Basic
import RustyCore.Provider.Sse

/-! Incremental normalization of the Anthropic event stream. What the parser accumulates for its own
    `into_events` is left out: nothing it delivers depends on it. -/

namespace RustyCore

open ModelBackend Sse

namespace Anthropic

def structuredOutputTool : String := "__harness_structured_response"

/-- The state of the parser apart from its buffer. Tool call ids are minted in order: the number of an id is its
    place in that order, so runs that differ in the ids drawn agree here. -/
structure Parser where
  tools : Table.Map Nat ToolBuffer := ∅
  usage : ModelUsage := {}
  stopReason : String := "end_turn"
  model : String := ""
  sawMessageStop : Bool := false
  result : Option ModelResult := none
  pendingNonStreamingEvents : List ModelEvent := []
  toolIds : ProviderToolIds := fun _ => none
  structuredOutputBlocks : Finset Nat := ∅
  minted : Nat := 0

def mapUsage (raw : RawAnthropicUsage) : ModelUsage where
  inputTokens := raw.inputTokens
  outputTokens := raw.outputTokens
  cacheReadTokens := raw.cacheReadInputTokens
  cacheWriteTokens := raw.cacheWriteInputTokens
  reasoningTokens := none
  totalTokens := addTokens raw.inputTokens raw.outputTokens

def mergeUsage (previous : ModelUsage) (raw : RawAnthropicUsage) : ModelUsage :=
  let mapped := mapUsage raw
  let inputTokens := if mapped.inputTokens.isNone then previous.inputTokens else mapped.inputTokens
  let outputTokens := if mapped.outputTokens.isNone then previous.outputTokens else mapped.outputTokens
  { inputTokens
    outputTokens
    cacheReadTokens := if mapped.cacheReadTokens.isNone then previous.cacheReadTokens else mapped.cacheReadTokens
    cacheWriteTokens := if mapped.cacheWriteTokens.isNone then previous.cacheWriteTokens else mapped.cacheWriteTokens
    reasoningTokens := previous.reasoningTokens
    totalTokens := UsageValue.checkedAdd inputTokens outputTokens }

def lookupRate (model : String) : ModelRate :=
  if Text.startsWith model "claude-sonnet-4-20250513" then ⟨3, 15⟩
  else if Text.startsWith model "claude-3-5-haiku-20241022" then ⟨4 / 5, 4⟩
  else ⟨0, 0⟩

def calculateCost (usage : ModelUsage) (model : String) : Cost :=
  let rate := lookupRate model
  { amountUsd := sumCosts
      [perMillion usage.inputTokens rate.inputRate, perMillion usage.outputTokens rate.outputRate,
        perMillion usage.cacheReadTokens rate.inputRate, perMillion usage.cacheWriteTokens (rate.inputRate * (5 / 4))]
    source := some .calculated }

def blockIndex (value : Value) : Nat := (value.index "index").asU64.getD 0

/-- A tool block's `input` as it arrived, when it already carries something. -/
def initialInput (content : Value) : Option String :=
  match content.get "input" with
  | none | some .null | some (.object []) => none
  | some input => some input.display

def streamError (value : Value) : ModelError :=
  .backendError (((value.index "error").index "message").asStr.getD "Anthropic stream error")
    (((value.index "error").index "type").asStr.getD "stream_error")

namespace Parser

variable [StreamExternals]

/-- `ToolCallId::new`, with the provider's own id for the call, which the next request must echo back. -/
def mint (parser : Parser) (providerId : Option String) : Parser × ToolCallId :=
  let id : ToolCallId := ⟨parser.minted⟩
  ({ parser with
      minted := parser.minted + 1
      toolIds := fun i => if i = id ∧ providerId.isSome then providerId else parser.toolIds i }, id)

def onMessageStart (parser : Parser) (value : Value) : Parser × Option ModelEvent :=
  let parser := { parser with model := textOf ((value.index "message").index "model") }
  match StreamExternals.decodeAnthropicUsage ((value.index "message").index "usage") with
  | none => (parser, none)
  | some raw => ({ parser with usage := mapUsage raw }, some (.usageUpdate (mapUsage raw)))

/-- Only tool-use blocks need tracking. The structured-output tool is never registered with the host, so it
    surfaces as text, not as a tool call. -/
def onContentBlockStart (parser : Parser) (value : Value) : Parser × Option ModelEvent :=
  let index := blockIndex value
  let content := value.index "content_block"
  if (content.index "type").asStr ≠ some "tool_use" then (parser, none)
  else if (content.index "name").asStr = some structuredOutputTool then
    ({ parser with structuredOutputBlocks := insert index parser.structuredOutputBlocks },
      (initialInput content).map .textDelta)
  else
    let (parser, id) := parser.mint (content.index "id").asStr
    let name := textOf (content.index "name")
    ({ parser with tools := parser.tools.insert index ⟨id, name, (initialInput content).getD ""⟩ },
      some (.toolCallStarted id name))

def onContentBlockDelta (parser : Parser) (value : Value) : Parser × Option ModelEvent :=
  let index := blockIndex value
  let delta := value.index "delta"
  match (delta.index "type").asStr with
  | some "text_delta" => (parser, some (.textDelta (textOf (delta.index "text"))))
  | some "thinking_delta" => (parser, some (.reasoningDelta (textOf (delta.index "thinking"))))
  | some "input_json_delta" =>
    if index ∈ parser.structuredOutputBlocks then
      (parser, some (.textDelta (textOf (delta.index "partial_json"))))
    else
      match parser.tools.lookup index with
      | none => (parser, none)
      | some tool =>
        let fragment := textOf (delta.index "partial_json")
        ({ parser with tools := parser.tools.insert index { tool with json := tool.json ++ fragment } },
          some (.toolCallDelta tool.id fragment))
  | _ => (parser, none)

/-- A structured-output block was already emitted as text; a tool block is complete and its assembled JSON is
    parsed. -/
def onContentBlockStop (parser : Parser) (value : Value) : Except ModelError (Parser × Option ModelEvent) :=
  let index := blockIndex value
  if index ∈ parser.structuredOutputBlocks then
    .ok ({ parser with structuredOutputBlocks := parser.structuredOutputBlocks.erase index }, none)
  else
    match parser.tools.lookup index with
    | none => .ok (parser, none)
    | some tool =>
      let parser := { parser with tools := parser.tools.erase index }
      match if tool.json.isEmpty then .ok (.object []) else StreamExternals.parseJson tool.json with
      | .error error => .error (.protocol ("invalid tool input: " ++ error))
      | .ok input => .ok (parser, some (.toolCallCompleted tool.id tool.name input))

def onMessageDelta (parser : Parser) (value : Value) : Parser × Option ModelEvent :=
  let parser :=
    match ((value.index "delta").index "stop_reason").asStr with
    | some reason => { parser with stopReason := reason }
    | none => parser
  match StreamExternals.decodeAnthropicUsage (value.index "usage") with
  | none => (parser, none)
  | some raw =>
    ({ parser with usage := mergeUsage parser.usage raw }, some (.usageUpdate (mergeUsage parser.usage raw)))

def onEvent (parser : Parser) (kind : String) (value : Value) : Except ModelError (Parser × Option ModelEvent) :=
  match kind with
  | "message_start" => .ok (parser.onMessageStart value)
  | "content_block_start" => .ok (parser.onContentBlockStart value)
  | "content_block_delta" => .ok (parser.onContentBlockDelta value)
  | "content_block_stop" => parser.onContentBlockStop value
  | "message_delta" => .ok (parser.onMessageDelta value)
  | "message_stop" => .ok ({ parser with sawMessageStop := true }, none)
  | "error" => .error (streamError value)
  | _ => .ok (parser, none)

/-- Turns one block into at most one event. `message_stop` and `[DONE]` end the stream. -/
def parseBlock (parser : Parser) (bytes : List UInt8) : Except ModelError (Parser × Option ModelEvent) :=
  match Utf8.decode bytes with
  | none => .error (.protocol (StreamExternals.utf8Error bytes))
  | some text =>
    let event := (Text.lines text).findSome? (field "event:")
    let data := dataLines text
    if event = some "message_stop" ∨ Text.trim data = "[DONE]" then
      .ok ({ parser with sawMessageStop := true }, none)
    else if Text.isBlank data then .ok (parser, none)
    else
      match StreamExternals.parseJson data with
      | .error error => .error (.protocol ("invalid event data: " ++ error))
      | .ok value => parser.onEvent ((event.or (value.index "type").asStr).getD "") value

/-- The structured-output tool becomes text; any other tool is a started and completed call. -/
def toolUseEvents (parser : Parser) (block : Value) : Parser × List ModelEvent :=
  let name := textOf (block.index "name")
  let input := (block.get "input").getD (.object [])
  if name = structuredOutputTool then (parser, [.textDelta input.display])
  else
    let (parser, id) := parser.mint (block.index "id").asStr
    (parser, [.toolCallStarted id name, .toolCallCompleted id name input])

def blockEvents (parser : Parser) (block : Value) : Parser × List ModelEvent :=
  match textOf (block.index "type") with
  | "text" => (parser, ((block.index "text").asStr.map ModelEvent.textDelta).toList)
  | "thinking" => (parser, ((block.index "thinking").asStr.map ModelEvent.reasoningDelta).toList)
  | "tool_use" => parser.toolUseEvents block
  | _ => (parser, [])

/-- The events a complete message stands for: usage first, then each content block in order. -/
def parseNonStreamingJson (parser : Parser) (value : Value) : Parser × List ModelEvent :=
  let parser := { parser with
    model := (value.index "model").asStr.getD parser.model
    stopReason := (value.index "stop_reason").asStr.getD parser.stopReason }
  let (parser, events) : Parser × List ModelEvent :=
    match StreamExternals.decodeAnthropicUsage (value.index "usage") with
    | none => (parser, [])
    | some raw => ({ parser with usage := mapUsage raw }, [.usageUpdate (mapUsage raw)])
  ((value.index "content").asArray.getD []).foldl
    (fun (parser, events) block => ((parser.blockEvents block).1, events ++ (parser.blockEvents block).2))
    (parser, events)

/-- What is left in the buffer at the end: a whole JSON message, or a block without its delimiter. -/
def trailing (parser : Parser) (bytes : List UInt8) : Except ModelError Parser :=
  let parser :=
    match StreamExternals.parseJsonBytes bytes with
    | none => parser
    | some value =>
      if (value.get "type").bind Value.asStr = some "message" then
        let (parser, events) := parser.parseNonStreamingJson value
        { parser with
          pendingNonStreamingEvents := parser.pendingNonStreamingEvents ++ events
          sawMessageStop := true }
      else parser
  if parser.sawMessageStop then .ok parser
  else
    match parser.parseBlock bytes with
    | .error error => .error error
    | .ok (parser, none) | .ok (parser, some (.completed _)) => .ok parser
    | .ok (_, some _) => .error (.protocol "SSE stream ended with an unterminated event")

def finish (parser : Parser) (buffer : List UInt8) : Except ModelError (Parser × List ModelEvent × ModelResult) := do
  if parser.result.isSome then .error (.protocol "SSE parser was finished more than once")
  let parser ← if buffer.all isAsciiWhitespace then .ok parser else parser.trailing buffer
  if !parser.sawMessageStop then .error (.streamInterrupted "SSE stream ended without message_stop")
  let result : ModelResult := ⟨parser.stopReason, parser.usage, calculateCost parser.usage parser.model⟩
  return ({ parser with result := some result, pendingNonStreamingEvents := [] },
    parser.pendingNonStreamingEvents ++ [.completed result], result)

def finished (parser : Parser) (buffer : List UInt8) : Except ModelError (List ModelEvent × ModelResult) :=
  (parser.finish buffer).map (·.2)

end Parser

def findSseBoundary (buffer : List UInt8) : Option (Nat × Nat) :=
  match Framing.position [10, 10] buffer, Framing.position [13, 10, 13, 10] buffer with
  | some left, some right => if left ≤ right then some (left, 2) else some (right, 4)
  | some left, none => some (left, 2)
  | none, some right => some (right, 4)
  | none, none => none

theorem findSseBoundary_eq_some {buffer : List UInt8} {n k : Nat} : findSseBoundary buffer = some (n, k) ↔
    (k = 2 ∧ Framing.position [10, 10] buffer = some n ∧
      ∀ right, Framing.position [13, 10, 13, 10] buffer = some right → n ≤ right) ∨
    (k = 4 ∧ Framing.position [13, 10, 13, 10] buffer = some n ∧
      ∀ left, Framing.position [10, 10] buffer = some left → n < left) := by
  unfold findSseBoundary
  rcases Framing.position [10, 10] buffer with _ | left <;>
    rcases Framing.position [13, 10, 13, 10] buffer with _ | right <;> grind

section

variable {buffer more : List UInt8}

theorem right_le_of_left {left right : Nat} (hleft : Framing.position [10, 10] buffer = some left)
    (hright : Framing.position [13, 10, 13, 10] (buffer ++ more) = some right) (h : right < left) :
    right + 4 ≤ buffer.length := by
  have hle := Framing.position_le hleft
  by_contra hlate
  -- the second line feed would be a carriage return
  have hfeed := Framing.getElem?_of_position hleft (j := 1) (by simp)
  have hreturn := Framing.getElem?_of_position hright (j := 2) (by simp)
  simp only [List.length_cons, List.length_nil] at hle
  have hsame : right + 2 = left + 1 := by omega
  rw [hsame, List.getElem?_append_left (by omega), hfeed] at hreturn
  simp at hreturn

theorem left_append {n : Nat} : Framing.position [10, 10] buffer = some n ↔
    Framing.position [10, 10] (buffer ++ more) = some n ∧ n + 2 ≤ buffer.length :=
  Framing.position_append (by simp)

theorem right_append {n : Nat} : Framing.position [13, 10, 13, 10] buffer = some n ↔
    Framing.position [13, 10, 13, 10] (buffer ++ more) = some n ∧ n + 4 ≤ buffer.length :=
  Framing.position_append (by simp)

theorem findSseBoundary_append {n k : Nat} : findSseBoundary buffer = some (n, k) ↔
    findSseBoundary (buffer ++ more) = some (n, k) ∧ n + k ≤ buffer.length := by
  rw [findSseBoundary_eq_some, findSseBoundary_eq_some]
  constructor
  · rintro (⟨rfl, hhere, hfirst⟩ | ⟨rfl, hhere, hfirst⟩)
    · obtain ⟨hlater, hle⟩ := left_append.mp hhere
      refine ⟨Or.inl ⟨rfl, hlater, fun right hright => ?_⟩, hle⟩
      by_contra hlt
      exact hlt (hfirst right (right_append.mpr ⟨hright, right_le_of_left hhere hright (by omega)⟩))
    · obtain ⟨hlater, hle⟩ := right_append.mp hhere
      refine ⟨Or.inr ⟨rfl, hlater, fun left hleft => ?_⟩, hle⟩
      by_cases hin : left + 2 ≤ buffer.length
      · exact hfirst left (left_append.mpr ⟨hleft, hin⟩)
      · omega
  · rintro ⟨⟨rfl, hlater, hfirst⟩ | ⟨rfl, hlater, hfirst⟩, hle⟩
    · exact Or.inl ⟨rfl, left_append.mpr ⟨hlater, hle⟩, fun right hright => hfirst right (right_append.mp hright).1⟩
    · exact Or.inr ⟨rfl, right_append.mpr ⟨hlater, hle⟩, fun left hleft => hfirst left (left_append.mp hleft).1⟩

end

variable [StreamExternals]

def framing : Framing UInt8 Parser ModelEvent ModelError where
  boundary := findSseBoundary
  block parser bytes := if bytes.all isAsciiWhitespace then .ok (parser, none) else parser.parseBlock bytes
  boundary_le := by
    intro buffer n k h
    rcases findSseBoundary_eq_some.mp h with ⟨rfl, hhere, -⟩ | ⟨rfl, hhere, -⟩
    · exact ⟨by omega, Framing.position_le hhere⟩
    · exact ⟨by omega, Framing.position_le hhere⟩
  boundary_append := fun more h => (findSseBoundary_append.mp h).1
  boundary_take := by
    intro buffer n k h
    have happend := @findSseBoundary_append (buffer.take (n + k)) (buffer.drop (n + k)) n k
    have hle := ((@findSseBoundary_append buffer [] n k).mp h).2
    rw [List.take_append_drop, List.length_take] at happend
    exact happend.mpr ⟨h, by omega⟩

def feed (chunks : List (List UInt8)) : List ModelEvent × Except ModelError ModelResult :=
  framing.feed Parser.finished {} [] chunks

end Anthropic

end RustyCore
