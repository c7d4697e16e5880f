import RustyCore.Protocol.Backend

/-! Local outbound credential shielding for model requests: it detects credential-shaped strings only. -/

namespace RustyCore

/-- A stretch of a text that was searched for a pattern: what is left between two matches, or a match with its group
    `prefix`, if the pattern has one. -/
inductive Segment where
  | between (text : String)
  | found (whole : String) (group : Option String)
deriving DecidableEq

class RegexExternals where
  search : (pattern text : String) → List Segment

inductive SecretShieldPolicy where
  | off
  | warn
  | mask
  | block
deriving DecidableEq

structure SecretShield where
  patterns : List String

namespace SecretShield

def redacted : String := "[REDACTED]"

def new : SecretShield where
  patterns := [
    r"\b(?:sk-[A-Za-z0-9_-]{16,}|gh[pousr]_[A-Za-z0-9]{20,}|github_pat_[A-Za-z0-9_]{20,}|glpat-[A-Za-z0-9_-]{20,}|xox[baprs]-[A-Za-z0-9-]{10,}|AKIA[0-9A-Z]{16})\b",
    r"\beyJ[A-Za-z0-9_-]{5,}\.[A-Za-z0-9_-]{5,}\.[A-Za-z0-9_-]{5,}\b",
    r#"(?i)(?P<prefix>\b(?:password|passwd|pwd|token|api[_-]?key|secret)[\"']?\s*[=:]\s*[\"']?)[^\s,;\"']{8,}"#,
    r"(?i)(?P<prefix>authorization\s*:\s*(?:bearer|basic)\s+)[A-Za-z0-9._~+/-]{8,}={0,2}",
    r"(?i)(?P<prefix>://[^:/@\s]+:)[^@/\s]{8,}@"]

section

variable [RegexExternals] (shield : SecretShield)

def replacement (whole : String) : Option String → String
  | some group => group ++ redacted ++ if whole.endsWith "@" then "@" else ""
  | none => redacted

def Segment.replaced : Segment → String
  | .between text => text
  | .found whole group => replacement whole group

def replaceAll (pattern text : String) : String := String.join ((RegexExternals.search pattern text).map Segment.replaced)

def count (pattern text : String) : Nat := (RegexExternals.search pattern text).countP fun
  | .found _ _ => true
  | .between _ => false

def redact (text : String) : String × Nat :=
  shield.patterns.foldl (fun (text, detections) pattern => (replaceAll pattern text, detections + count pattern text)) (text, 0)

def sensitiveKeys : List String := ["password", "passwd", "pwd", "token", "api_key", "api-key", "apikey", "secret"]

def sensitive (key : String) : Value → Bool
  | .string text => sensitiveKeys.contains key.toLower && 8 ≤ text.utf8ByteSize && text != redacted
  | _ => false

mutual

def rewriteValue : Value → Value × Nat
  | .string text =>
    let (text, detections) := shield.redact text
    (.string text, detections)
  | .array items =>
    let (items, detections) := rewriteItems items
    (.array items, detections)
  | .object fields =>
    let (fields, detections) := rewriteFields fields
    (.object fields, detections)
  | value => (value, 0)

def rewriteItems : List Value → List Value × Nat
  | [] => ([], 0)
  | item :: rest =>
    let (item, detections) := rewriteValue item
    let (rest, more) := rewriteItems rest
    (item :: rest, detections + more)

def rewriteFields : List (String × Value) → List (String × Value) × Nat
  | [] => ([], 0)
  | (key, item) :: rest =>
    let (item, detections) := if sensitive key item then (.string redacted, 1) else rewriteValue item
    let (rest, more) := rewriteFields rest
    ((key, item) :: rest, detections + more)

end

def rewriteBlock : ContentBlock → ContentBlock × Nat
  | .text text =>
    let (text, detections) := shield.redact text
    (.text text, detections)
  | .toolUse call =>
    let (arguments, detections) := shield.rewriteValue call.arguments
    (.toolUse { call with arguments }, detections)
  | .toolResult id result =>
    let (outputPreview, detections) := shield.redact result.outputPreview
    (.toolResult id { result with outputPreview }, detections)
  | .image mimeType data => (.image mimeType data, 0)

def rewriteMessage (message : AgentMessage) : AgentMessage × Nat :=
  let blocks := message.content.map shield.rewriteBlock
  ({ message with content := blocks.map (·.1) }, (blocks.map (·.2)).sum)

def rewriteTool (tool : ToolDescriptor) : ToolDescriptor × Nat :=
  let (description, detections) := shield.redact tool.description
  let (inputSchema, more) := shield.rewriteValue tool.inputSchema
  ({ tool with description, inputSchema }, detections + more)

def rewriteRequest (request : ExecutionRequest) : ExecutionRequest × Nat :=
  let (systemPrompt, detections) := shield.redact request.systemPrompt
  let messages := request.messages.map shield.rewriteMessage
  let tools := request.tools.map shield.rewriteTool
  ({ request with systemPrompt, messages := messages.map (·.1), tools := tools.map (·.1) },
    detections + (messages.map (·.2)).sum + (tools.map (·.2)).sum)

end

end SecretShield

structure SecretShieldBackend where
  inner : ExecutionRequest → Except ExecutionError ExecutionResult
  policy : SecretShieldPolicy
  shield : SecretShield := .new

namespace SecretShieldBackend

def blocked (detections : Nat) : ExecutionError :=
  .backendError ("Secret Shield blocked request (" ++ toString detections ++ " credential match(es))") "secret_shield_blocked"

def execute [RegexExternals] (backend : SecretShieldBackend) (request : ExecutionRequest) : Except ExecutionError ExecutionResult :=
  if backend.policy = .off then backend.inner request
  else
    let (rewritten, detections) := backend.shield.rewriteRequest request
    if detections = 0 then backend.inner rewritten
    else
      match backend.policy with
      | .off | .warn => backend.inner request
      | .mask => backend.inner rewritten
      | .block => .error (blocked detections)

end SecretShieldBackend

end RustyCore
