import RustyCore.Theorems.ModelBackend.Circuit

/-! A retried request continues: what the caller has seen stands in every later request, nothing with a side effect
    is asked for twice, and the caller gets one terminal event. -/

namespace RustyCore.ModelBackend

open List

namespace Exchange

def isCall : Exchange → Bool
  | .call _ => true
  | .sent _ => false

def isTerminal : Exchange → Bool
  | .sent event => ModelBackend.isTerminal event
  | .call _ => false

end Exchange

def isToolCall : ExecutionEvent → Bool
  | .toolCallRequested _ _ => true
  | _ => false

def isText : ExecutionEvent → Bool
  | .textDelta _ _ => true
  | _ => false

def textOf : List ExecutionEvent → String
  | [] => ""
  | .textDelta _ delta :: events => delta ++ textOf events
  | _ :: events => textOf events

def sentEvents (log : List Exchange) : List ExecutionEvent :=
  log.filterMap fun exchange => match exchange with
    | .sent event => some event
    | .call _ => none

def assistantText : List AgentMessage → String
  | [] => ""
  | message :: messages =>
    (if message.role = .assistant then String.join (message.content.map fun block => match block with
      | .text text => text
      | _ => "") else "") ++ assistantText messages

structure Continues (request : ExecutionRequest) (before : List Exchange) (called : ModelRequest) : Prop where
  text : ∃ appended, called.messages = request.messages ++ appended ∧
    assistantText appended = textOf (sentEvents before)
  tools : (∃ event ∈ sentEvents before, isText event) → called.tools = []

structure Resumable (request : ExecutionRequest) (sent : List ExecutionEvent) : Prop where
  tools : ∀ event ∈ sent, isToolCall event = false
  text : sent ≠ [] → textOf sent ≠ "" ∧ plainTextResponse request.params.responseFormat = true

structure NeverReplays (policy : RecoveryPolicy) (r : RequestRun) : Prop where
  /-- Each call of the client continues. -/
  calls : ∀ before called after, r.log = before ++ .call called :: after → Continues r.request before called
  /-- Between two calls only resumable output was sent. -/
  retried : ∀ before called sent called' after, r.log = before ++ .call called :: (sent ++ .call called' :: after) →
    (∀ exchange ∈ sent, exchange.isCall = false) → Resumable r.request (sentEvents sent)
  attempts : r.log.countP Exchange.isCall ≤ max 1 policy.maxAttempts
  terminal : r.log.countP Exchange.isTerminal = if r.phase.isOver then 1 else 0

theorem textOf_append (events events' : List ExecutionEvent) : textOf (events ++ events') = textOf events ++ textOf events' := by
  induction events with
  | nil => simp [textOf]
  | cons event events ih => cases event <;> simp [textOf, ih, String.append_assoc]

structure Noted (progress progress' : AttemptProgress) (sent : List ExecutionEvent) : Prop where
  text : progress'.text = progress.text ++ textOf sent
  tools : progress'.requestedTools = (progress.requestedTools || sent.any isToolCall)
  output : progress'.emittedOutput = (progress.emittedOutput || !sent.isEmpty)
  quiet : ∀ event ∈ sent, isTerminal event = false

theorem Noted.refl (progress : AttemptProgress) : Noted progress progress [] := by
  constructor <;> simp [textOf]

theorem Noted.trans {p p' p'' : AttemptProgress} {sent sent' : List ExecutionEvent} (h : Noted p p' sent)
    (h' : Noted p' p'' sent') : Noted p p'' (sent ++ sent') where
  text := by rw [h'.text, h.text, textOf_append, String.append_assoc]
  tools := by rw [h'.tools, h.tools, any_append, Bool.or_assoc]
  output := by
    rw [h'.output, h.output, Bool.or_assoc]
    cases sent <;> simp
  quiet := forall_mem_append.mpr ⟨h.quiet, h'.quiet⟩

theorem noted_processAttemptEvent (requestId : RequestId) (progress : AttemptProgress) (event : ModelEvent) :
    Noted progress (processAttemptEvent requestId progress event).2.1 (processAttemptEvent requestId progress event).2.2 := by
  cases event with
  | completed | error => exact .refl progress
  | _ =>
    constructor <;>
      simp [processAttemptEvent, AttemptProgress.note, translateEvent, textOf, isToolCall, eventProducesOutput, isTerminal]

theorem noted_receiveAttemptEvents (requestId : RequestId) (cut : StreamCut) (progress : AttemptProgress)
    (events : List ModelEvent) :
    Noted progress (receiveAttemptEvents requestId cut progress events).2.1
      (receiveAttemptEvents requestId cut progress events).2.2 := by
  induction events generalizing progress with
  | nil => exact .refl progress
  | cons event events ih =>
    have hfirst := noted_processAttemptEvent requestId progress event
    unfold receiveAttemptEvents
    generalize processAttemptEvent requestId progress event = processed at hfirst
    obtain ⟨exit, progress', sent⟩ := processed
    cases exit with
    | some exit => exact hfirst
    | none => exact hfirst.trans (ih progress')

theorem noted_runAttempt (requestId : RequestId) (script : AttemptScript) :
    Noted {} (runAttempt requestId script).progress (runAttempt requestId script).sent :=
  noted_receiveAttemptEvents requestId script.cut {} script.events

theorem resumable_of_retry {policy : RecoveryPolicy} {r : RequestRun} {script : AttemptScript} {error : ModelError}
    (hformat : r.modelRequest.responseFormat = r.request.params.responseFormat)
    (h : (r.attemptOnce policy script).2 = .retry error) :
    Resumable r.request (runAttempt r.request.requestId script).sent ∧ r.attempt < policy.maxAttempts := by
  have hnoted := noted_runAttempt r.request.requestId script
  unfold RequestRun.attemptOnce classifyAttempt at h
  dsimp only at h
  generalize runAttempt r.request.requestId script = outcome at h hnoted
  have hretry : shouldRetry error
      ⟨outcome.progress, r.modelRequest.responseFormat, r.attempt, policy.maxAttempts⟩ = true := by
    split at h
    · cases h
    · split at h
      · cases h
      · split at h
        · rename_i hretry
          cases h
          exact hretry
        · cases h
  simp only [shouldRetry, hformat, Bool.and_eq_true, Bool.or_eq_true, bne_iff_ne, decide_eq_true_eq] at hretry
  obtain ⟨⟨hsafe, -⟩, hattempt⟩ := hretry
  refine ⟨?_, hattempt⟩
  have houtput := hnoted.output
  have htext := hnoted.text
  have htools := hnoted.tools
  simp only [Bool.false_or, String.empty_append] at houtput htext htools
  rcases hsafe with hsilent | ⟨⟨hnonempty, hnotools⟩, hplain⟩
  · have hnil : outcome.sent = [] := by simpa [houtput] using hsilent
    rw [hnil]
    exact ⟨by simp, by simp⟩
  · refine ⟨fun event hevent => ?_, fun _ => ⟨by rwa [htext] at hnonempty, hplain⟩⟩
    have hany : outcome.sent.any isToolCall = false := by simpa [htools] using hnotools
    simpa using any_eq_false.mp hany event hevent

theorem split_before {α : Type} {p : α → Bool} {before after l ys : List α} {x : α} (hx : p x = true)
    (hys : ∀ y ∈ ys, p y = false) (h : before ++ x :: after = l ++ ys) :
    ∃ rest, l = before ++ x :: rest ∧ after = rest ++ ys := by
  rcases append_eq_append_iff.mp h with ⟨middle, hl, hafter⟩ | ⟨middle, hbefore, hys'⟩
  · cases middle with
    | nil =>
      rw [nil_append] at hafter
      have hnot := hys x (by rw [← hafter]; exact mem_cons_self)
      rw [hx] at hnot
      cases hnot
    | cons y middle =>
      obtain ⟨rfl, rfl⟩ := List.cons.inj hafter
      exact ⟨middle, hl, rfl⟩
  · have hnot := hys x (by rw [hys']; simp)
    rw [hx] at hnot
    cases hnot

theorem split_last {α : Type} {p : α → Bool} {before after l ys : List α} {x y : α} (hx : p x = true)
    (hys : ∀ z ∈ ys, p z = false) (h : before ++ x :: after = l ++ y :: ys) :
    (before = l ∧ x = y ∧ after = ys) ∨ ∃ rest, l = before ++ x :: rest ∧ after = rest ++ y :: ys := by
  obtain ⟨rest, hrest, hafter⟩ := split_before hx hys (h.trans (append_cons l y ys))
  rcases eq_nil_or_concat rest with rfl | ⟨rest, last, rfl⟩
  · obtain ⟨rfl, hlast⟩ := append_inj' hrest rfl
    exact .inl ⟨rfl, (List.cons.inj hlast).1.symm, hafter⟩
  · have hsame : l ++ [y] = (before ++ x :: rest) ++ [last] := by simpa using hrest
    obtain ⟨hl, hlast⟩ := append_inj' hsame rfl
    obtain ⟨rfl, -⟩ := List.cons.inj hlast
    exact .inr ⟨rest, hl, by simpa using hafter⟩

theorem isCall_sent (sent : List ExecutionEvent) : ∀ exchange ∈ sent.map Exchange.sent, exchange.isCall = false := by
  intro exchange hexchange
  obtain ⟨event, -, rfl⟩ := mem_map.mp hexchange
  rfl

@[simp] theorem sentEvents_append (log log' : List Exchange) : sentEvents (log ++ log') = sentEvents log ++ sentEvents log' :=
  filterMap_append

@[simp] theorem sentEvents_nil : sentEvents [] = [] := rfl

@[simp] theorem sentEvents_call (called : ModelRequest) (log : List Exchange) :
    sentEvents (.call called :: log) = sentEvents log := rfl

@[simp] theorem sentEvents_sent (sent : List ExecutionEvent) : sentEvents (sent.map Exchange.sent) = sent := by
  induction sent with
  | nil => rfl
  | cons event sent ih => exact congrArg (event :: ·) ih

def LastResumable (r : RequestRun) : Prop :=
  ∀ before called sent, r.log = before ++ .call called :: sent → (∀ exchange ∈ sent, exchange.isCall = false) →
    Resumable r.request (sentEvents sent)

structure Underway (policy : RecoveryPolicy) (r : RequestRun) : Prop where
  continues : Continues r.request r.log r.modelRequest
  format : r.modelRequest.responseFormat = r.request.params.responseFormat
  resumable : LastResumable r
  attempting : r.phase = .attempting → r.log.countP Exchange.isCall + 1 = r.attempt ∧ r.attempt ≤ max 1 policy.maxAttempts
  waiting : r.phase = .waiting → r.log.countP Exchange.isCall = r.attempt ∧ r.attempt < policy.maxAttempts

variable {policy : RecoveryPolicy} {r r' : RequestRun}

theorem NeverReplays.of_log (h : NeverReplays policy r) (hrequest : r'.request = r.request) (hlog : r'.log = r.log)
    (hover : r'.phase.isOver = r.phase.isOver) : NeverReplays policy r' where
  calls := by rw [hlog, hrequest]; exact h.calls
  retried := by rw [hlog, hrequest]; exact h.retried
  attempts := by rw [hlog]; exact h.attempts
  terminal := by rw [hlog, hover]; exact h.terminal

theorem NeverReplays.attempt {sent : List ExecutionEvent} (h : NeverReplays policy r) (hunder : Underway policy r)
    (hphase : r.phase = .attempting) (hquiet : ∀ event ∈ sent, isTerminal event = false) (hrequest : r'.request = r.request)
    (hlog : r'.log = r.log ++ .call r.modelRequest :: sent.map .sent) (hover : r'.phase.isOver = false) :
    NeverReplays policy r' where
  calls := by
    rw [hlog, hrequest]
    intro before called after heq
    rcases split_last (p := Exchange.isCall) rfl (isCall_sent sent) heq.symm with ⟨rfl, hcall, -⟩ | ⟨rest, hold, -⟩
    · cases hcall
      exact hunder.continues
    · exact h.calls before called rest hold
  retried := by
    rw [hlog, hrequest]
    intro before called between called' after heq hbetween
    rw [← cons_append, ← append_assoc] at heq
    rcases split_last (p := Exchange.isCall) rfl (isCall_sent sent) heq.symm with ⟨hold, -, -⟩ | ⟨rest, hold, -⟩
    · exact hunder.resumable before called between hold.symm hbetween
    · refine h.retried before called between called' rest ?_ hbetween
      rw [hold, append_assoc, cons_append]
  attempts := by
    have hnone : (sent.map Exchange.sent).countP Exchange.isCall = 0 :=
      countP_eq_zero.mpr fun exchange hexchange => by simp [isCall_sent sent exchange hexchange]
    obtain ⟨hcalls, hbound⟩ := hunder.attempting hphase
    rw [hlog, countP_append, countP_cons, hnone]
    simpa [Exchange.isCall, hcalls] using hbound
  terminal := by
    have hnone : (sent.map Exchange.sent).countP Exchange.isTerminal = 0 := by
      refine countP_eq_zero.mpr fun exchange hexchange => ?_
      obtain ⟨event, hevent, rfl⟩ := mem_map.mp hexchange
      simp [Exchange.isTerminal, hquiet event hevent]
    have hold := h.terminal
    rw [hphase] at hold
    rw [hlog, countP_append, countP_cons, hnone, hold, hover]
    rfl

theorem NeverReplays.conclude {event : ExecutionEvent} (h : NeverReplays policy r) (hover : r.phase.isOver = false)
    (hterminal : isTerminal event = true) (hrequest : r'.request = r.request) (hlog : r'.log = r.log ++ [.sent event])
    (hover' : r'.phase.isOver = true) : NeverReplays policy r' where
  calls := by
    rw [hlog, hrequest]
    intro before called after heq
    obtain ⟨rest, hold, -⟩ := split_before (p := Exchange.isCall) rfl (isCall_sent [event]) heq.symm
    exact h.calls before called rest hold
  retried := by
    rw [hlog, hrequest]
    intro before called between called' after heq hbetween
    rw [← cons_append, ← append_assoc] at heq
    obtain ⟨rest, hold, -⟩ := split_before (p := Exchange.isCall) rfl (isCall_sent [event]) heq.symm
    refine h.retried before called between called' rest ?_ hbetween
    rw [hold, append_assoc, cons_append]
  attempts := by
    rw [hlog, countP_append]
    simpa [Exchange.isCall] using h.attempts
  terminal := by
    have hold := h.terminal
    rw [hover] at hold
    rw [hlog, countP_append, hold, hover']
    simp [Exchange.isTerminal, hterminal]

theorem assistantText_append (messages messages' : List AgentMessage) :
    assistantText (messages ++ messages') = assistantText messages ++ assistantText messages' := by
  induction messages with
  | nil => simp [assistantText]
  | cons message messages ih => rw [cons_append, assistantText, assistantText, ih, String.append_assoc]

theorem assistantText_interrupted (moment : RetryMoment) (text : String) :
    assistantText [⟨moment.messageIds.1, .assistant, [.text text], moment.timestamps.1⟩,
      ⟨moment.messageIds.2, .user, [.text continueInstruction], moment.timestamps.2⟩] = text := by
  simp [assistantText, String.join]

theorem Continues.retry {error : ModelError} {moment : RetryMoment} {outcome : AttemptOutcome} {called : ModelRequest}
    (h : Continues r.request r.log r.modelRequest) (hnoted : Noted {} outcome.progress outcome.sent)
    (hresumable : Resumable r.request outcome.sent)
    (hprepare : prepareRetry policy error r.attempt r.modelRequest outcome.progress moment = some called) :
    Continues r.request (r.log ++ .call r.modelRequest :: outcome.sent.map .sent) called := by
  obtain ⟨appended, hmessages, htext⟩ := h.text
  have hprogress : outcome.progress.text = textOf outcome.sent := by simpa using hnoted.text
  unfold prepareRetry at hprepare
  split at hprepare
  · cases hprepare
  · split at hprepare
    · obtain rfl := Option.some.inj hprepare
      refine ⟨⟨appended ++ _, by rw [appendInterruptedResponse, hmessages, append_assoc], ?_⟩, fun _ => rfl⟩
      rw [assistantText_append, assistantText_interrupted, htext, hprogress, sentEvents_append, sentEvents_call,
        sentEvents_sent, textOf_append]
    · rename_i hempty
      obtain rfl := Option.some.inj hprepare
      have hnil : outcome.sent = [] := by
        by_contra hsent
        exact (hresumable.text hsent).1 (by simpa [hprogress] using hempty)
      refine ⟨⟨appended, hmessages, ?_⟩, ?_⟩
      · simpa [hnil] using htext
      · simpa [hnil] using h.tools

theorem format_of_prepareRetry {error : ModelError} {moment : RetryMoment} {attempt : Nat} {progress : AttemptProgress}
    {request called : ModelRequest} (h : prepareRetry policy error attempt request progress moment = some called) :
    called.responseFormat = request.responseFormat := by
  unfold prepareRetry at h
  split at h
  · cases h
  · split at h <;> (obtain rfl := Option.some.inj h; rfl)

structure Faithful (policy : RecoveryPolicy) (r : RequestRun) : Prop where
  law : NeverReplays policy r
  underway : r.phase.inFlight → Underway policy r

theorem faithful_attempt (h : Faithful policy r) (hphase : r.phase = .attempting) (script : AttemptScript)
    (moment : RetryMoment) : Faithful policy (r.attemptStep policy script moment).1 := by
  have hunder : Underway policy r := h.underway (by rw [hphase]; rfl)
  have hnoted := noted_runAttempt r.request.requestId script
  have hlaw {r' : RequestRun} (hrequest : r'.request = r.request)
      (hlog : r'.log = r.log ++ .call r.modelRequest :: (runAttempt r.request.requestId script).sent.map .sent)
      (hover : r'.phase.isOver = false) : NeverReplays policy r' :=
    h.law.attempt hunder hphase hnoted.quiet hrequest hlog hover
  unfold RequestRun.attemptStep
  dsimp only
  cases hdecision : (r.attemptOnce policy script).2 with
  | completed result => exact ⟨hlaw rfl rfl rfl, by simp [Phase.inFlight]⟩
  | cancelled | failed => exact ⟨hlaw rfl rfl rfl, by simp [Phase.inFlight, settle]⟩
  | retry error =>
    obtain ⟨hresumable, hattempt⟩ := resumable_of_retry hunder.format hdecision
    dsimp only
    split
    · rename_i called hprepare
      refine ⟨hlaw rfl rfl rfl, fun _ => ?_⟩
      obtain ⟨hcalls, -⟩ := hunder.attempting hphase
      exact {
        continues := hunder.continues.retry hnoted hresumable hprepare
        format := (format_of_prepareRetry hprepare).trans hunder.format
        resumable := by
          intro before called' sent heq hsent
          rcases split_last (p := Exchange.isCall) rfl (isCall_sent _) heq.symm with ⟨-, -, rfl⟩ | ⟨rest, -, hrest⟩
          · rw [sentEvents_sent]
            exact hresumable
          · have hnot := hsent (.call r.modelRequest) (by rw [hrest]; simp)
            cases hnot
        attempting := by simp
        waiting := by
          have hnone : ((runAttempt r.request.requestId script).sent.map Exchange.sent).countP Exchange.isCall = 0 :=
            countP_eq_zero.mpr fun exchange hexchange => by simp [isCall_sent _ exchange hexchange]
          refine fun _ => ⟨?_, hattempt⟩
          show (r.log ++ Exchange.call r.modelRequest :: _).countP Exchange.isCall = r.attempt
          rw [countP_append, countP_cons]
          simpa [Exchange.isCall, RequestRun.attemptOnce, hnone] using hcalls }
    · exact ⟨hlaw rfl rfl rfl, by simp [Phase.inFlight]⟩

theorem faithful_wait (h : Faithful policy r) (hphase : r.phase = .waiting) (elapsed : Bool) :
    Faithful policy (r.waitStep elapsed) := by
  have hunder : Underway policy r := h.underway (by rw [hphase]; rfl)
  obtain ⟨hcalls, hattempt⟩ := hunder.waiting hphase
  cases elapsed with
  | true =>
    refine ⟨h.law.of_log rfl rfl (by rw [hphase]; rfl), fun _ => ⟨hunder.continues, hunder.format, hunder.resumable, ?_, ?_⟩⟩
    · exact fun _ => ⟨congrArg (· + 1) hcalls, Nat.le_trans hattempt (Nat.le_max_right _ _)⟩
    · simp [RequestRun.waitStep]
  | false => exact ⟨h.law.of_log rfl rfl (by rw [hphase]; rfl), by simp [RequestRun.waitStep, Phase.inFlight]⟩

theorem Faithful.step (h : Faithful policy r) (input : RequestInput) : Faithful policy (r.step policy input).1 := by
  unfold RequestRun.step
  split
  · rename_i script moment hphase
    exact faithful_attempt h hphase script moment
  · rename_i elapsed hphase
    exact faithful_wait h hphase elapsed
  · rename_i result hphase
    exact ⟨h.law.conclude (by rw [hphase]; rfl) (isTerminal_terminalEvent _ _) rfl rfl rfl,
      by simp [RequestRun.concludeStep, Phase.inFlight]⟩
  · exact h

theorem Faithful.run (h : Faithful policy r) (inputs : List RequestInput) :
    Faithful policy ((requestMachine policy).run r inputs) := by
  induction inputs generalizing r with
  | nil => exact h
  | cons input inputs ih => exact ih (h.step input)

theorem faithful_submitted (policy : RecoveryPolicy) (request : ExecutionRequest) : Faithful policy (.submitted request) where
  law := by constructor <;> simp [RequestRun.submitted, Phase.isOver]
  underway _ := by
    refine ⟨⟨⟨[], by simp [RequestRun.submitted, prepareModelRequest], rfl⟩, ?_⟩, rfl, ?_, fun _ => ⟨rfl, ?_⟩, ?_⟩
    · simp [RequestRun.submitted, sentEvents]
    · intro before called sent heq
      simp [RequestRun.submitted] at heq
    · exact Nat.le_max_left _ _
    · simp [RequestRun.submitted]

theorem faithful_reject (policy : RecoveryPolicy) (request : ExecutionRequest) (error : ModelError) :
    Faithful policy (.reject request error) where
  law := by
    constructor
    · intro before called after heq
      have hmem : Exchange.call called ∈ (RequestRun.reject request error).log := by rw [heq]; simp
      simp [RequestRun.reject] at hmem
    · intro before called between called' after heq
      have hmem : Exchange.call called ∈ (RequestRun.reject request error).log := by rw [heq]; simp
      simp [RequestRun.reject] at hmem
    · simp [RequestRun.reject, Exchange.isCall]
    · simp [RequestRun.reject, Exchange.isTerminal, Phase.isOver]
  underway h := by cases h

def Awaited : Phase → RequestInput → Prop
  | .attempting, .attempt _ _ | .waiting, .wait _ | .concluding _, .conclude => True
  | _, _ => False

def stepsLeft (policy : RecoveryPolicy) (r : RequestRun) : Nat :=
  match r.phase with
  | .attempting => 2 * (policy.maxAttempts - r.attempt) + 2
  | .waiting => 2 * (policy.maxAttempts - r.attempt) + 1
  | .concluding _ => 1
  | .ended _ | .rejected _ => 0

theorem stepsLeft_attempt (hphase : r.phase = .attempting) (script : AttemptScript) (moment : RetryMoment) :
    stepsLeft policy (r.attemptStep policy script moment).1 < stepsLeft policy r := by
  unfold RequestRun.attemptStep
  simp only [stepsLeft, hphase]
  cases hdecision : (r.attemptOnce policy script).2 with
  | completed _ | cancelled | failed _ => simp
  | retry error =>
    dsimp only
    cases prepareRetry policy error r.attempt r.modelRequest (r.attemptOnce policy script).1.progress moment with
    | none | some => simp

theorem stepsLeft_step (h : Faithful policy r) {input : RequestInput} (hawaited : Awaited r.phase input) :
    stepsLeft policy (r.step policy input).1 < stepsLeft policy r := by
  unfold RequestRun.step
  split
  · rename_i script moment hphase
    exact stepsLeft_attempt hphase script moment
  · rename_i elapsed hphase
    obtain ⟨-, hattempt⟩ := (h.underway (by rw [hphase]; rfl)).waiting hphase
    cases elapsed with
    | true =>
      simp only [stepsLeft, RequestRun.waitStep, hphase, if_true]
      omega
    | false =>
      simp only [stepsLeft, RequestRun.waitStep, hphase]
      simp
      omega
  · rename_i result hphase
    simp [stepsLeft, RequestRun.concludeStep, hphase]
  · rename_i hidle hidle' hidle''
    unfold Awaited at hawaited
    split at hawaited
    · rename_i hphase
      exact absurd rfl (hidle _ _ hphase)
    · rename_i hphase
      exact absurd rfl (hidle' _ hphase)
    · rename_i hphase
      exact absurd rfl (hidle'' _ hphase)
    · cases hawaited

theorem ends (h : Faithful policy r) (script : Nat → RequestInput)
    (hscript : ∀ n, ((requestMachine policy).run r ((List.range n).map script)).phase.isOver = true ∨
      Awaited ((requestMachine policy).run r ((List.range n).map script)).phase (script n)) :
    ∃ n, ((requestMachine policy).run r ((List.range n).map script)).phase.isOver = true := by
  by_contra hnever
  have hleft (n : Nat) : stepsLeft policy ((requestMachine policy).run r ((List.range n).map script)) + n ≤
      stepsLeft policy r := by
    induction n with
    | zero => exact Nat.le_refl _
    | succ n ih =>
      have hstep := stepsLeft_step (h.run _) ((hscript n).resolve_left fun hover => hnever ⟨n, hover⟩)
      rw [range_succ, map_append, Machine.run_append]
      have hlast : stepsLeft policy ((requestMachine policy).run ((requestMachine policy).run r ((List.range n).map script))
          ([n].map script)) < stepsLeft policy ((requestMachine policy).run r ((List.range n).map script)) := hstep
      omega
  have := hleft (stepsLeft policy r + 1)
  omega

/-- A retried request continues and never replays, whatever its attempts stream and however they fail; it ends; and
    a request that is turned away is answered once, without a call of the client. -/
theorem retried_request_continues (policy : RecoveryPolicy) (request : ExecutionRequest) :
    (∀ inputs, NeverReplays policy ((requestMachine policy).run (.submitted request) inputs)) ∧
    (∀ script : Nat → RequestInput,
      (∀ n, ((requestMachine policy).run (.submitted request) ((List.range n).map script)).phase.isOver = true ∨
        Awaited ((requestMachine policy).run (.submitted request) ((List.range n).map script)).phase (script n)) →
      ∃ n, ((requestMachine policy).run (.submitted request) ((List.range n).map script)).phase.isOver = true) ∧
    ∀ error, NeverReplays policy (.reject request error) := by
  have hsubmitted := faithful_submitted policy request
  exact ⟨fun inputs => (hsubmitted.run inputs).law, fun script => ends hsubmitted script,
    fun error => (faithful_reject policy request error).law⟩

end RustyCore.ModelBackend
