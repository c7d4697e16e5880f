import RustyCore.Context.Policy

/-! Background summaries of aged-out history. A context assembly plans a summary from the history it sees,
    applies the one that is ready and may start a background job; a job asks the judge, classifies its
    candidates and asks the summarizer. The lock of the states is taken at each of these points, so any two of
    them may interleave. -/

namespace RustyCore

/-- A summary with how it was written: the summary and the messages the successful summarizer call was given,
    and the text it answered. The source holds the text. -/
inductive Summary where
  | made (previous : Option Summary) (messages : List AgentMessage) (text : String)

namespace Summary

def text : Summary → String
  | made _ _ text => text

def Folds (m : AgentMessage) : Summary → Prop
  | made none messages _ => m ∈ messages
  | made (some previous) messages _ => m ∈ messages ∨ Folds m previous

end Summary

inductive Importance where
  | essential
  | useful
  | disposable
deriving DecidableEq

structure Verdict where
  id : MessageId
  importance : Importance

structure SummaryState where
  summary : Option Summary := none
  coveredThrough : Option MessageId := none
  essential : List MessageId := []
  disposable : List MessageId := []
  judged : List MessageId := []
  inFlight : Bool := false

/-- What a background pass will summarize, taken from the request before any summary is applied. -/
structure SummaryPlan where
  candidates : List AgentMessage
  boundary : MessageId
  previous : Option Summary

structure SummarizingCompactionProvider where
  fallback : ContextProvider
  policy : ContextPolicy
  contextWindow : Option Nat
  keepRecent : Nat
  retention : Retention

def minCandidates : Nat := 2

namespace SummarizingCompactionProvider

open Compaction

variable (provider : SummarizingCompactionProvider)

def retentionWithVerdicts (state : SummaryState) : Retention :=
  { provider.retention with pinned := provider.retention.pinned ++ state.essential }

def pressured (request : ExecutionRequest) : Bool :=
  match provider.contextWindow with
  | none => false
  | some window =>
    match provider.policy.evaluate (some window) (estimateTokens request) with
    | .proceed _ | .unavailable _ _ => false
    | .scheduleBackgroundCompaction _ | .compactBeforeRequest _ => true

def coveredPosition (state : SummaryState) (messages : List AgentMessage) : Option Nat :=
  state.coveredThrough.bind fun covered => messages.findIdx? (·.id == covered)

def readyNote (state : SummaryState) (id : MessageId) (createdAt : Timestamp) : Note :=
  match state.summary with
  | some summary => summaryMessage id createdAt summary.text
  | none => truncationNote id createdAt

/-- History that no longer contains the covered message was rewritten, and is left alone. -/
def applyReadySummary (state : SummaryState) (id : MessageId) (createdAt : Timestamp) (request : ExecutionRequest) :
    ExecutionRequest :=
  match coveredPosition state request.messages with
  | none => request
  | some position =>
    let keep := request.messages.length - (position + 1)
    { request with
      messages := (dropPrefix request.messages keep (provider.retentionWithVerdicts state)
        (readyNote state id createdAt)).1 }

/-- The next batch to summarize, or `none` when a pass is running or there is too little new history. -/
def plan (state : SummaryState) (request : ExecutionRequest) : Option SummaryPlan :=
  if state.inFlight then none
  else
    let messages := request.messages
    let start := ((coveredPosition state messages).map (· + 1)).getD 0
    let end_ := messages.length - provider.keepRecent
    if end_ ≤ start then none
    else
      -- protected messages stay verbatim, but the covered boundary still advances past them
      let candidates := ((List.range end_).drop start).filterMap fun i =>
        if isProtected (provider.retentionWithVerdicts state) messages i then none else messages[i]?
      if candidates.length < minCandidates then none
      else messages[end_ - 1]?.map fun last => ⟨candidates, last.id, state.summary⟩

end SummarizingCompactionProvider

namespace SummaryState

def withVerdict (state : SummaryState) (verdict : Verdict) : SummaryState :=
  let state := { state with judged := verdict.id :: state.judged }
  match verdict.importance with
  | .essential => { state with essential := verdict.id :: state.essential }
  | .disposable => { state with disposable := verdict.id :: state.disposable }
  | .useful => state

def classifiedCandidates (state : SummaryState) (plan : SummaryPlan) : List AgentMessage :=
  plan.candidates.filter fun message => !state.essential.contains message.id && !state.disposable.contains message.id

def withSummary (state : SummaryState) (plan : SummaryPlan) (summary : Option Summary) : SummaryState :=
  { state with summary := summary, coveredThrough := some plan.boundary }

end SummaryState

namespace Summarizing

/-- A call of `assemble` that has planned; `applied` is the request after the ready summary is in. -/
structure AssembleCall where
  key : MessageId
  request : ExecutionRequest
  plan : Option SummaryPlan
  applied : Option ExecutionRequest

inductive JobPhase where
  | judging
  | classifying
  | summarizing (toSummarize : List AgentMessage)
  | ended

structure Job where
  key : MessageId
  plan : SummaryPlan
  phase : JobPhase

/-- A request that `assemble` has handed on: the history it was called with, the state it was prepared from, the
    request given to the fallback and the one the fallback made of it. -/
structure Assembled where
  history : List AgentMessage
  state : SummaryState
  prepared : ExecutionRequest
  sent : ExecutionRequest

/-- The conversations and the states of the provider, by the conversation's first message; the calls and the
    jobs under way. -/
structure World where
  conversations : MessageId → List AgentMessage := fun _ => []
  states : MessageId → SummaryState := fun _ => {}
  calls : List AssembleCall := []
  jobs : List Job := []
  assembled : List Assembled := []

namespace World

def setState (w : World) (key : MessageId) (state : SummaryState) : World :=
  { w with states := fun k => if k = key then state else w.states k }

end World

variable (provider : SummarizingCompactionProvider)

inductive Step (w : World) : World → Prop where
  /-- A conversation goes on, under message ids of its own; its first message is its key. -/
  | append (key : MessageId) (m : AgentMessage) (hfirst : w.conversations key = [] → m.id = key)
      (hfresh : ∀ m' ∈ w.conversations key, m'.id ≠ m.id) :
    Step w { w with conversations := fun k => if k = key then w.conversations key ++ [m] else w.conversations k }
  /-- `assemble` is called with the history of some point, and plans. -/
  | plan (key : MessageId) (request : ExecutionRequest) (hnonempty : request.messages ≠ [])
      (hhistory : request.messages <+: w.conversations key) :
    Step w { w with
      calls := w.calls ++ [⟨key, request,
        if provider.pressured request then provider.plan (w.states key) request else none, none⟩] }
  | apply (before after : List AssembleCall) (call : AssembleCall) (id : MessageId) (createdAt : Timestamp)
      (prepared : ExecutionRequest) (hcalls : w.calls = before ++ call :: after) (hnew : call.applied = none)
      (hprepared : prepared = provider.applyReadySummary (w.states call.key) id createdAt call.request) :
    Step w { w with
      calls := before ++ { call with applied := some prepared } :: after
      assembled := w.assembled ++ [⟨call.request.messages, w.states call.key, prepared, provider.fallback prepared⟩] }
  /-- The call starts the job it planned, when the request is still under pressure and no job is running. -/
  | spawn (before after : List AssembleCall) (call : AssembleCall) (prepared : ExecutionRequest) (plan : SummaryPlan)
      (hcalls : w.calls = before ++ call :: after) (happlied : call.applied = some prepared)
      (hplan : call.plan = some plan) (hpressured : provider.pressured prepared = true)
      (hidle : (w.states call.key).inFlight = false) :
    Step w { w.setState call.key { w.states call.key with inFlight := true } with
      calls := before ++ after
      jobs := w.jobs ++ [⟨call.key, plan, .judging⟩] }
  | finish (before after : List AssembleCall) (call : AssembleCall) (hcalls : w.calls = before ++ call :: after)
      (happlied : call.applied ≠ none) :
    Step w { w with calls := before ++ after }
  | judge (before after : List Job) (job : Job) (verdicts : List Verdict) (hjobs : w.jobs = before ++ job :: after)
      (hphase : job.phase = .judging) :
    Step w { w.setState job.key (verdicts.foldl SummaryState.withVerdict (w.states job.key)) with
      jobs := before ++ { job with phase := .classifying } :: after }
  | classify (before after : List Job) (job : Job) (hjobs : w.jobs = before ++ job :: after)
      (hphase : job.phase = .classifying) :
    Step w { w with
      jobs := before ++ { job with phase := .summarizing ((w.states job.key).classifiedCandidates job.plan) } :: after }
  | cover (before after : List Job) (job : Job) (hjobs : w.jobs = before ++ job :: after)
      (hphase : job.phase = .summarizing []) :
    Step w { w.setState job.key ((w.states job.key).withSummary job.plan job.plan.previous) with
      jobs := before ++ { job with phase := .ended } :: after }
  | summarize (before after : List Job) (job : Job) (toSummarize : List AgentMessage) (text : String)
      (hjobs : w.jobs = before ++ job :: after) (hphase : job.phase = .summarizing toSummarize)
      (hsome : toSummarize ≠ []) :
    Step w { w.setState job.key
        ((w.states job.key).withSummary job.plan (some (.made job.plan.previous toSummarize text))) with
      jobs := before ++ { job with phase := .ended } :: after }
  /-- The job is over, however it ended: after its summary, when the summarizer failed, or aborted. -/
  | land (before after : List Job) (job : Job) (hjobs : w.jobs = before ++ job :: after) :
    Step w { w.setState job.key { w.states job.key with inFlight := false } with jobs := before ++ after }

inductive Reachable : World → Prop where
  | start : Reachable {}
  | step {w w' : World} (h : Reachable w) (hstep : Step provider w w') : Reachable w'

end Summarizing

end RustyCore
