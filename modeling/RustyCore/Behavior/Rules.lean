import RustyCore.Behavior.State

/-! Pure rule evaluation: given an event and the run's state, decide which rules fire and what they ask
    for. -/

namespace RustyCore

structure ToolEvent where
  call : ToolCall
  result : Option String

namespace Rules

/-- The suffixes of `text` that are reached without leaving the `/`-separated segment it starts in. -/
def segmentTails : List Char → List (List Char)
  | [] => [[]]
  | c :: cs => (c :: cs) :: if c = '/' then [] else segmentTails cs

/-- `*` matches within a `/`-separated segment, `**` across segments, `?` one non-`/` character. Everything
    else is literal. A `**/` also matches without its slash being there. -/
def globMatches : List Char → List Char → Bool
  | [], text => text.isEmpty
  | ['*', '*'], text => text.tails.any fun tail => globMatches [] tail
  | '*' :: '*' :: '/' :: rest, text =>
    (text.tails.any fun tail => globMatches rest tail) || globMatches ('/' :: rest) text
  | '*' :: '*' :: c :: rest, text =>
    (text.tails.any fun tail => globMatches (c :: rest) tail) || globMatches (c :: rest) text
  | '*' :: rest, text => (segmentTails text).any fun tail => globMatches rest tail
  | '?' :: rest, text =>
    match text with
    | first :: text => first != '/' && globMatches rest text
    | [] => false
  | literal :: rest, text =>
    match text with
    | first :: text => first == literal && globMatches rest text
    | [] => false

def globMatch (pattern text : String) : Bool := globMatches pattern.toList text.toList

def nameMatches (names : NameMatch) (name : String) : Bool := names.patterns.any fun pattern => globMatch pattern name

/-- `nameMatches` for a tool name: a pattern that matches the tool an alias follows also matches the
    alias. -/
def toolNameMatches (names : NameMatch) (tool : String) : Bool :=
  nameMatches names tool || (followedTool tool).any (nameMatches names)

def argMatches (arg : ArgMatch) (arguments : Value) : Bool :=
  match arguments.pointer arg.pointer with
  | none => false
  | some value =>
    let text := value.asStr.getD value.display
    arg.glob.all (globMatch · text) && arg.contains.all (Text.contains text ·) && arg.equals.all (value == ·)

/-- `u32::try_from(count).unwrap_or(u32::MAX)`. -/
def saturate (count : Nat) : Nat := min count maxU32

def counts (count : ToolCount) (call : ExecutedCall) : Bool :=
  count.outcome.admits call.failed && toolNameMatches count.tool call.tool

mutual

def holds (tool : Option ToolEvent) (run : RunCounters) : Condition → Bool
  | .tool names => tool.any fun tool => toolNameMatches names tool.call.name
  | .arg arg => tool.any fun tool => argMatches arg tool.call.arguments
  | .resultContains needle => (tool.bind (·.result)).any (Text.contains · needle)
  | .turn comparison => comparison.holds run.turns
  | .calls count => count.comparison.holds (saturate (run.executed.filter (counts count)).length)
  | .turnsSinceCall count =>
    let last := ((run.executed.reverse.find? (counts count)).map (·.turn)).getD 0
    count.comparison.holds (run.turns - last)
  | .sinceLastCall since =>
    if run.executed.any fun call => toolNameMatches since.of call.tool then
      -- the calls after the last one that matches `of`
      let after := run.executed.reverse.takeWhile fun call => !toolNameMatches since.of call.tool
      let calls := after.filter fun call =>
        since.outcome.admits call.failed && toolNameMatches since.called call.tool
      since.comparison.holds (saturate calls.length)
    else false
  | .toolOffered names => run.offeredTools.any (toolNameMatches names)
  | .repeatedCall comparison => comparison.holds ((run.streak.map (·.count)).getD 0)
  | .profileEnteredFrom names => run.enteredFrom.any (nameMatches names)
  | .finalStatus names => run.finalStatus.any fun status => !status.isEmpty && nameMatches names status
  | .all conditions => allHold tool run conditions
  | .any conditions => anyHolds tool run conditions
  | .not condition => !holds tool run condition

def allHold (tool : Option ToolEvent) (run : RunCounters) : List Condition → Bool
  | [] => true
  | c :: rest => holds tool run c && allHold tool run rest

def anyHolds (tool : Option ToolEvent) (run : RunCounters) : List Condition → Bool
  | [] => false
  | c :: rest => holds tool run c || anyHolds tool run rest

end

def backquote : Char := Char.ofNat 96

def bare (line : List Char) : List Char :=
  Text.trimMatches
    (fun c => Text.isWhitespace c || ['#', '*', '_', backquote, '>', '-', '"'].contains c) line

def statusOfLine (line : List Char) (following : List (List Char)) : Option (List Char) :=
  let line := bare line
  if (line.take 6).map Char.toLower = "status".toList then
    let rest := bare (line.drop 6)
    let after := match rest with
      | ':' :: tail => bare tail
      | _ => []
    if !after.isEmpty then some after
    else if rest.isEmpty || rest == [':'] then (following.map bare).find? (!·.isEmpty)
    else none
  else none

def statusLineFrom : List (List Char) → List (List Char) → Option (List Char)
  | [], _ => none
  | line :: earlier, following => (statusOfLine line following).or (statusLineFrom earlier (line :: following))

/-- The raw value of the last `Status:` line or `Status` heading. -/
def statusLine (answer : String) : Option String :=
  (statusLineFrom (Text.lines answer.toList).reverse []).map String.ofList

def separators : List String := ["—", "–", " - ", ":", ";", ",", ".", "("]

def cutAtSeparator (value : List Char) : List Char :=
  (separators.filterMap fun separator => Text.before separator.toList value).foldl
    (fun best head => if head.length < best.length then head else best) value

/-- The status a final answer declares, lower-cased, stripped of Markdown emphasis and cut at the first
    separator. Empty when the answer has no status. -/
def finalStatus [Externals] (answer : String) : String :=
  let fence := [backquote, backquote, backquote, 'j', 's', 'o', 'n']
  let unfenced := Text.trimMatches Text.isWhitespace (Text.trimMatches (· == backquote)
    (Text.trimStartStr fence (Text.trimMatches Text.isWhitespace answer.toList)))
  let jsonStatus := (Externals.parseJson (String.ofList unfenced)).bind fun reply =>
    (reply.get "status").bind Value.asStr
  match jsonStatus.or (statusLine answer) with
  | none => ""
  | some value =>
    let cut := cutAtSeparator (Externals.toLowercase value).toList
    let words := Text.splitOn (fun c => Text.isWhitespace c || ['*', '_', backquote, '"'].contains c) cut
    Text.join " " ((words.filter (!·.isEmpty)).map String.ofList)

/-- Wrap harness-authored text so the model, UIs, and replay can tell it apart from user input. -/
def systemReminder (source text : String) : String :=
  "<system-reminder source=\"" ++ source ++ "\">" ++ text ++ "</system-reminder>"

mutual

/-- RFC 7396 JSON merge patch: objects merge recursively, `null` deletes a key, anything else replaces. -/
def mergePatch (target : Value) : Value → Value
  | .object patch =>
    .object (mergeFields (match target with | .object fields => fields | _ => []) patch)
  | patch => patch

def mergeFields (fields : List (String × Value)) : List (String × Value) → List (String × Value)
  | [] => fields
  | (key, value) :: rest =>
    if value.isNull then mergeFields (Value.removeField key fields) rest
    else mergeFields (Value.insertField key (mergePatch ((fields.lookup key).getD .null) value) fields) rest

end

end Rules

inductive ResultRewrite where
  | replace (text : String)
  | append (text : String)

def ResultRewrite.apply (text : String) : ResultRewrite → String
  | .replace replacement => replacement
  | .append extra => if text.isEmpty then extra else text ++ "\n\n" ++ extra

inductive ToolDecision where
  | deny (ruleId reason : String)
  | ask (ruleId : String)
  | allow (ruleId : String)

structure RuleStop where
  ruleId : String
  reason : String

structure Injection where
  ruleId : String
  placement : Placement
  text : String

structure FiredRule where
  ruleId : String
  event : RuleEvent
  action : String

structure RuleOutcome where
  decision : Option ToolDecision := none
  stop : Option RuleStop := none
  injections : List Injection := []
  fired : List FiredRule := []
  switch : Option (String × ProfileRef) := none
  rewriteArgs : List (String × Value) := []
  rewriteResult : List (String × ResultRewrite) := []

namespace RuleOutcome

def alreadyDecided (outcome : RuleOutcome) (rule : Rule) : Bool :=
  match rule.action with
  | .deny _ | .ask _ | .allow => outcome.decision.isSome
  | .switchProfile _ => outcome.switch.isSome
  | _ => false

def applyAction (outcome : RuleOutcome) (rule : Rule) (event : RuleEvent) (reference : ProfileRef) : RuleOutcome :=
  match rule.action with
  | .inject inject =>
    let text := Rules.systemReminder ("profile:" ++ reference.display ++ " rule:" ++ rule.id) inject.text
    { outcome with
      injections := outcome.injections ++ [⟨rule.id, inject.placement.getD (Placement.defaultFor event), text⟩] }
  | .deny reason => { outcome with decision := some (.deny rule.id reason) }
  | .ask _ => { outcome with decision := some (.ask rule.id) }
  | .allow => { outcome with decision := some (.allow rule.id) }
  | .stopRun reason => { outcome with stop := some ⟨rule.id, reason⟩ }
  | .switchProfile profile => { outcome with switch := some (rule.id, profile) }
  | .rewriteArgs merge => { outcome with rewriteArgs := outcome.rewriteArgs ++ [(rule.id, merge)] }
  | .rewriteResult (some text) _ =>
    { outcome with rewriteResult := outcome.rewriteResult ++ [(rule.id, .replace text)] }
  | .rewriteResult none (some text) =>
    { outcome with rewriteResult := outcome.rewriteResult ++ [(rule.id, .append text)] }
  | .rewriteResult none none => outcome

end RuleOutcome

namespace BehaviorState

variable [Externals]

/-- A rule fires unless it is used up, its condition fails, or an earlier rule already took the one
    decision or switch an event allows. -/
def ruleMayFire (b : BehaviorState) (rule : Rule) (tool : Option ToolEvent) (outcome : RuleOutcome) : Bool :=
  !rule.maxFires.any (· ≤ (b.run.fired.lookup rule.id).getD 0) && rule.when.all (Rules.holds tool b.run) &&
    !outcome.alreadyDecided rule

def noteFired (b : BehaviorState) (ruleId : String) : BehaviorState :=
  { b with run.fired := b.run.fired.insert ruleId ((b.run.fired.lookup ruleId).getD 0 + 1) }

/-- The loop of `evaluate` over the rules of one event. Stopping the run ends the evaluation. -/
def evaluateRules (event : RuleEvent) (tool : Option ToolEvent) (reference : ProfileRef) :
    List Rule → BehaviorState → RuleOutcome → BehaviorState × RuleOutcome
  | [], b, outcome => (b, outcome)
  | rule :: rest, b, outcome =>
    if b.ruleMayFire rule tool outcome then
      let fired : RuleOutcome := { outcome with fired := outcome.fired ++ [⟨rule.id, event, rule.action.name⟩] }
      let next := fired.applyAction rule event reference
      match rule.action with
      | .stopRun _ => (b.noteFired rule.id, next)
      | _ => evaluateRules event tool reference rest (b.noteFired rule.id) next
    else evaluateRules event tool reference rest b outcome

/-- Evaluates the active profile's rules for `event` and records each firing in the run state, which is how
    `max_fires` is enforced. -/
def evaluate (b : BehaviorState) (event : RuleEvent) (tool : Option ToolEvent) : BehaviorState × RuleOutcome :=
  evaluateRules event tool b.reference (b.profile.profile.rules.filter (·.on == event)) b {}

def evaluateEntered (b : BehaviorState) (from_ : String) : BehaviorState × RuleOutcome :=
  let (b, outcome) := { b with run.enteredFrom := some from_ }.evaluate .profileEntered none
  ({ b with run.enteredFrom := none }, outcome)

def conditionHolds (b : BehaviorState) (condition : Condition) : Bool := Rules.holds none b.run condition

end BehaviorState

end RustyCore
