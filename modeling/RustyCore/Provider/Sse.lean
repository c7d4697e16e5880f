import RustyCore.Lib.Framing
import RustyCore.Lib.Search
import RustyCore.Lib.Utf8
import RustyCore.Provider.Anthropic

/-! What the two parsers of event streams share: the lines of a block, the fields of the JSON it carries, the tool
    calls under construction and the price of the tokens. -/

namespace RustyCore

open ModelBackend

structure RawAnthropicUsage where
  inputTokens : Option Nat
  outputTokens : Option Nat
  cacheReadInputTokens : Option Nat
  cacheWriteInputTokens : Option Nat

structure PromptTokensDetails where
  cachedTokens : Option Nat

structure CompletionTokensDetails where
  reasoningTokens : Option Nat

structure RawOpenAiUsage where
  promptTokens : Option Nat
  completionTokens : Option Nat
  totalTokens : Option Nat
  promptTokensDetails : Option PromptTokensDetails
  completionTokensDetails : Option CompletionTokensDetails

/-- Libraries the stream parsers use: the text of an encoding error, the readers of JSON, and the derived readers
    of usage. -/
class StreamExternals where
  utf8Error : List UInt8 → String
  parseJson : String → Except String Value
  parseJsonBytes : List UInt8 → Option Value
  decodeAnthropicUsage : Value → Option RawAnthropicUsage
  decodeOpenAiUsage : Value → Option RawOpenAiUsage

/-- `value[key]`: a field that is not there reads as null. -/
def Value.index (value : Value) (key : String) : Value := (value.get key).getD .null

namespace Sse

def textOf (value : Value) : String := value.asStr.getD ""

def isAsciiWhitespace (b : UInt8) : Bool := b == 32 || b == 9 || b == 10 || b == 12 || b == 13

def field (name : String) (line : List Char) : Option String :=
  (Text.stripPrefix name.toList (line.reverse.dropWhile (· == '\r')).reverse).map fun rest =>
    Text.trim (String.ofList rest)

/-- The `data:` lines of a block, joined. -/
def dataLines (text : List Char) : String := Text.join "\n" ((Text.lines text).filterMap (field "data:"))

structure ToolBuffer where
  id : ToolCallId
  name : String
  json : String

def addTokens (input output : Option Nat) : Option Nat :=
  match input, output with
  | some i, some o => some ((i + o) % 2 ^ 64)
  | _, _ => none

structure ModelRate where
  inputRate : Rat
  outputRate : Rat

def perMillion (tokens : UsageValue) (rate : Rat) : Option Rat := tokens.map fun t => t * rate / 1000000

def sumCosts (costs : List (Option Rat)) : Option Rat :=
  costs.foldl (fun acc cost =>
    match acc, cost with
    | some a, some c => some (a + c)
    | none, some c => some c
    | a, none => a) none

end Sse

end RustyCore
