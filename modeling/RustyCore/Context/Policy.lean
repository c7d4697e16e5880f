import RustyCore.Context.Compaction

/-! The context budget: when context preparation should compact, and the provider that compacts a request by
    the model's budget. Telemetry and the compaction record are left out. -/

namespace RustyCore

structure TokenEstimate where
  tokens : Nat
  exact : Bool
deriving DecidableEq

structure ContextPolicy where
  safeWindowPercent : Nat
  softLimitPercent : Nat
  hardLimitPercent : Nat
  targetPercent : Nat
  emergencyTargetPercent : Nat
  reservedOutputTokens : Nat

def ContextPolicy.default : ContextPolicy where
  safeWindowPercent := 90
  softLimitPercent := 70
  hardLimitPercent := 85
  targetPercent := 55
  emergencyTargetPercent := 45
  reservedOutputTokens := 8192

inductive ContextBudgetUnavailable where
  | unknownContextWindow
  | reservedOutputExceedsSafeWindow
deriving DecidableEq

structure ContextBudget where
  contextWindow : Nat
  inputBudget : Nat
  projectedInput : TokenEstimate
  pressurePercent : Nat
deriving DecidableEq

inductive ContextDecision where
  | proceed (budget : ContextBudget)
  | scheduleBackgroundCompaction (budget : ContextBudget)
  | compactBeforeRequest (budget : ContextBudget)
  | unavailable (projectedInput : TokenEstimate) (reason : ContextBudgetUnavailable)
deriving DecidableEq

def percentageOf (value percent : Nat) : Nat := min (value * percent / 100) (2 ^ 64 - 1)

def ratioPercentCeil (value budget : Nat) : Nat := min ((value * 100 + (budget - 1)) / budget) (2 ^ 16 - 1)

namespace ContextPolicy

def evaluate (policy : ContextPolicy) (contextWindow : Option Nat) (projectedInput : TokenEstimate) : ContextDecision :=
  match contextWindow with
  | none => .unavailable projectedInput .unknownContextWindow
  | some contextWindow =>
    let safeWindow := percentageOf contextWindow policy.safeWindowPercent
    -- a reserve above the safe window and one that uses it up are refused alike
    if safeWindow ≤ policy.reservedOutputTokens then .unavailable projectedInput .reservedOutputExceedsSafeWindow
    else
      let inputBudget := safeWindow - policy.reservedOutputTokens
      let pressurePercent := ratioPercentCeil projectedInput.tokens inputBudget
      let budget := ⟨contextWindow, inputBudget, projectedInput, pressurePercent⟩
      if pressurePercent ≥ policy.hardLimitPercent then .compactBeforeRequest budget
      else if pressurePercent ≥ policy.softLimitPercent then .scheduleBackgroundCompaction budget
      else .proceed budget

def targetTokens (policy : ContextPolicy) (inputBudget : Nat) (emergency : Bool) : Nat :=
  percentageOf inputBudget (if emergency then policy.emergencyTargetPercent else policy.targetPercent)

end ContextPolicy

def imageChars : Nat := 6000

def blockCharLen : ContentBlock → Nat
  | .text text => text.utf8ByteSize
  | .toolResult _ result => result.outputPreview.utf8ByteSize
  | .toolUse call => call.name.utf8ByteSize + call.arguments.display.utf8ByteSize
  | .image _ _ => imageChars

def messageCharLen (message : AgentMessage) : Nat := (message.content.map blockCharLen).sum

def approxCharsPerToken : Nat := 4

def totalCharsOf (messages : List AgentMessage) : Nat := (messages.map messageCharLen).sum

def estimateTokens (request : ExecutionRequest) : TokenEstimate :=
  ⟨(request.systemPrompt.utf8ByteSize + totalCharsOf request.messages) / approxCharsPerToken, false⟩

abbrev ContextProvider := ExecutionRequest → ExecutionRequest

structure PolicyDrivenCompactionProvider where
  inner : ContextProvider
  policy : ContextPolicy
  contextWindow : Option Nat
  keepRecent : Nat
  fallbackMaxChars : Nat
  retention : Retention

namespace PolicyDrivenCompactionProvider

open Compaction

variable (provider : PolicyDrivenCompactionProvider)

def elideOldResults (request : ExecutionRequest) : ExecutionRequest × Bool :=
  let (messages, elided) := elideToolResults request.messages provider.keepRecent provider.retention
  ({ request with messages := messages }, elided > 0)

def compactTo (note : Note) (request : ExecutionRequest) (keep : Nat) : ExecutionRequest :=
  { request with messages := (dropPrefix request.messages keep provider.retention note).1 }

def messagesToKeep (request : ExecutionRequest) (targetChars : Nat) : Nat :=
  fits (min request.messages.length (max provider.keepRecent 1))
where
  fits : Nat → Nat
    | kept + 2 =>
      if totalCharsOf (request.messages.drop (request.messages.length - (kept + 2))) ≤ targetChars then kept + 2
      else fits (kept + 1)
    | kept => kept

def compactWithoutWindow (note : Note) (request : ExecutionRequest) : ExecutionRequest :=
  if totalCharsOf request.messages ≤ provider.fallbackMaxChars then request
  else
    let (request, elided) := provider.elideOldResults request
    if elided && totalCharsOf request.messages ≤ provider.fallbackMaxChars then request
    else if request.messages.length ≤ provider.keepRecent then request
    else provider.compactTo note request provider.keepRecent

/-- Elides bulky old tool output; if that alone reaches the target no turn is dropped. Otherwise the oldest
    messages go until the rest fits. -/
def compactToBudget (note : Note) (request : ExecutionRequest) (budget : ContextBudget) : ExecutionRequest :=
  let targetTokens := provider.policy.targetTokens budget.inputBudget false
  let targetChars := min (targetTokens * approxCharsPerToken) (2 ^ 64 - 1)
  let (request, elided) := provider.elideOldResults request
  if elided && totalCharsOf request.messages ≤ targetChars then request
  else provider.compactTo note request (provider.messagesToKeep request targetChars)

def prepare (note : Note) (request : ExecutionRequest) : ExecutionRequest :=
  match provider.contextWindow with
  | none => provider.compactWithoutWindow note request
  | some contextWindow =>
    match provider.policy.evaluate (some contextWindow) (estimateTokens request) with
    | .proceed _ | .scheduleBackgroundCompaction _ | .unavailable _ _ => request
    | .compactBeforeRequest budget => provider.compactToBudget note request budget

def assemble (note : Note) : ContextProvider := fun request => provider.prepare note (provider.inner request)

end PolicyDrivenCompactionProvider

end RustyCore
