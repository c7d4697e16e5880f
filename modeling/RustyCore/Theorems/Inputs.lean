import RustyCore.Theorems.Deeds
import RustyCore.Theorems.Transition

/-! What becomes of the user's inputs: each is the source of one user's message of the transcript, or it waits in the
    queue, unless a queued input is taken for a run that the transcript's check refuses. -/

namespace RustyCore

open List

/-- Where a user's message of the transcript comes from: an input that started a run, one that waited in the queue, or
    the completion gate. -/
inductive Origin
  | started (input : UserInput)
  | queued (input : UserInput)
  | gate

namespace Origin

def started? : Origin → Option UserInput
  | .started input => some input
  | _ => none

def queued? : Origin → Option UserInput
  | .queued input => some input
  | _ => none

def isInput : Origin → Bool
  | .gate => false
  | _ => true

theorem filterMap_inputs (f : Origin → Option UserInput) (hgate : f .gate = none) (origins : List Origin) :
    (origins.filter isInput).filterMap f = origins.filterMap f := by
  induction origins with
  | nil => rfl
  | cons origin origins ih => cases origin <;> simp [filter_cons, isInput, filterMap_cons, hgate, ih]

@[simp] theorem map_started_started (inputs : List UserInput) : (inputs.map started).filterMap started? = inputs := by
  simp [filterMap_map, Function.comp_def, started?]

@[simp] theorem map_started_queued (inputs : List UserInput) : (inputs.map started).filterMap queued? = [] := by
  simp [filterMap_map, Function.comp_def, queued?]

@[simp] theorem map_queued_started (inputs : List UserInput) : (inputs.map queued).filterMap started? = [] := by
  simp [filterMap_map, Function.comp_def, started?]

@[simp] theorem map_queued_queued (inputs : List UserInput) : (inputs.map queued).filterMap queued? = inputs := by
  simp [filterMap_map, Function.comp_def, queued?]

end Origin

def inLimit (input : UserInput) : Bool := input.attachments.all (·.data.length ≤ maxAttachmentBytes)

theorem validateAttachments_isOk (index : Nat) (attachments : List Attachment) :
    (validateAttachments index attachments).isOk = attachments.all (·.data.length ≤ maxAttachmentBytes) := by
  induction attachments generalizing index with
  | nil => rfl
  | cons attachment rest ih =>
    unfold validateAttachments
    split
    · rename_i hlarge
      simp [Except.isOk, Except.toBool, Nat.not_le.mpr hlarge]
    · rename_i hsmall
      rw [ih, all_cons, decide_eq_true (Nat.not_lt.mp hsmall), Bool.true_and]

section

variable [Externals]

def Origin.Marks : Origin → AgentMessage → Prop
  | .started input, message | .queued input, message => Agent.userContent input <+: message.content
  | .gate, message => ∃ content, IsFeedback content ∧ content <+: message.content

omit [Externals] in
theorem Origin.Marks.amended {origin : Origin} {message : AgentMessage} (h : origin.Marks message)
    (text : List ContentBlock) : origin.Marks { message with content := message.content ++ text } := by
  cases origin with
  | started | queued => exact h.trans (prefix_append _ _)
  | gate =>
    obtain ⟨content, hfeedback, hkept⟩ := h
    exact ⟨content, hfeedback, hkept.trans (prefix_append _ _)⟩

structure Sourced (sources : List (Origin × AgentMessage)) (users : List AgentMessage) : Prop where
  messages : sources.map (·.2) = users
  marks : ∀ source ∈ sources, source.1.Marks source.2

omit [Externals] in
theorem Sourced.snoc {sources : List (Origin × AgentMessage)} {users : List AgentMessage} (h : Sourced sources users)
    {origin : Origin} {message : AgentMessage} (hmarks : origin.Marks message) :
    Sourced (sources ++ [(origin, message)]) (users ++ [message]) where
  messages := by rw [map_append, h.messages]; rfl
  marks source hsource := by
    rcases mem_append.mp hsource with hold | hnew
    · exact h.marks source hold
    · cases mem_singleton.mp hnew
      exact hmarks

variable {B : CompiledProfile → ProfileRegistry → Prop} {a b c : Agent} {es fs : List AgentEffect}
  {opened : List UserInput}

variable {sources : List (Origin × AgentMessage)} {origin : UserInput → Origin}

theorem Deed.sourced (h : Deed B opened a es b)
    (horigin : ∀ input message, Agent.userContent input <+: message.content → (origin input).Marks message)
    (hinput : ∀ input, (origin input).isInput = true)
    (hsources : Sourced sources a.holdings.users) : ∃ sources' added, Sourced sources' b.holdings.users ∧
      sources'.map (·.1) = sources.map (·.1) ++ added ∧ added.filter Origin.isInput = opened.map origin := by
  have hsame (husers : b.holdings.users = a.holdings.users) (hopened : opened = []) : ∃ sources' added,
      Sourced sources' b.holdings.users ∧ sources'.map (·.1) = sources.map (·.1) ++ added ∧
        added.filter Origin.isInput = opened.map origin :=
    ⟨sources, [], husers ▸ hsources, (append_nil _).symm, by rw [hopened]; rfl⟩
  cases h with
  | plain h _ | pends _ _ _ _ h | brings _ _ _ h | refreshes _ _ _ _ h | switches _ _ _ _ _ h
  | finishes _ _ _ _ _ h | answers _ _ _ _ h => exact hsame (by rw [h]) rfl
  | amends before message text husers h =>
    obtain ⟨earlier, last, rfl, hearlier, hlast⟩ := map_eq_append_iff.mp (hsources.messages.trans husers)
    obtain ⟨source, rfl, hmessage⟩ : ∃ source, last = [source] ∧ source.2 = message := by
      obtain ⟨source, _, rfl, hmessage, hnil⟩ := map_eq_cons_iff.mp hlast
      exact ⟨source, by rw [map_eq_nil_iff.mp hnil], hmessage⟩
    have hprevious : Sourced earlier before :=
      ⟨hearlier, fun source hsource => hsources.marks source (mem_append_left _ hsource)⟩
    have hmarks := hsources.marks source (mem_append_right _ (mem_singleton_self _))
    rw [hmessage] at hmarks
    refine ⟨earlier ++ [(source.1, { message with content := message.content ++ [.text text] })], [], ?_, ?_, rfl⟩
    · rw [h]
      exact hprevious.snoc (hmarks.amended [.text text])
    · simp
  | tells message hcontent h =>
    have hmarks : Origin.gate.Marks message := ⟨_, hcontent, prefix_rfl⟩
    refine ⟨sources ++ [(.gate, message)], [.gate], ?_, by simp, rfl⟩
    rw [h]
    exact hsources.snoc hmarks
  | opens input message hcontent h =>
    refine ⟨sources ++ [(origin input, message)], [origin input], ?_, by simp, by simp [hinput]⟩
    rw [h]
    exact hsources.snoc (horigin input message (hcontent ▸ prefix_rfl))

theorem Deeds.sourced (h : Deeds B opened a es b)
    (horigin : ∀ input message, Agent.userContent input <+: message.content → (origin input).Marks message)
    (hinput : ∀ input, (origin input).isInput = true)
    (hsources : Sourced sources a.holdings.users) : ∃ sources' added, Sourced sources' b.holdings.users ∧
      sources'.map (·.1) = sources.map (·.1) ++ added ∧ added.filter Origin.isInput = opened.map origin := by
  induction h generalizing sources with
  | refl a => exact ⟨sources, [], hsources, (append_nil _).symm, rfl⟩
  | step h _ ih =>
    obtain ⟨sources', added, hsources', horigins, hadded⟩ := h.sourced horigin hinput hsources
    obtain ⟨sources'', added', hsources'', horigins', hadded'⟩ := ih hsources'
    refine ⟨sources'', added ++ added', hsources'', ?_, ?_⟩
    · rw [horigins', horigins, append_assoc]
    · rw [filter_append, hadded, hadded', map_append]

theorem Deeds.queue (h : Deeds B opened a es b) : b.holdings.queue = a.holdings.queue := by
  induction h with
  | refl a => rfl
  | step h _ ih =>
    rw [ih]
    cases h with
    | plain h _ | tells _ _ h | opens _ _ _ h | pends _ _ _ _ h | brings _ _ _ h | refreshes _ _ _ _ h
    | switches _ _ _ _ _ h | finishes _ _ _ _ _ h | answers _ _ _ _ h => rw [h]
    | amends _ _ _ _ h => rw [h]

namespace Agent

def starts (a : Agent) : AgentCommand → List UserInput
  | .startRun input | .steer input | .followUp input => if a.state.activeRun.isSome then [] else a.opening input
  | _ => []

def queues (a : Agent) : AgentCommand → List UserInput
  | .startRun input | .steer input | .followUp input => if a.state.activeRun.isSome then [input] else []
  | _ => []

def drains (a : Agent) : AgentCommand → List UserInput
  | .startNextQueuedRun => a.state.queuedInputs.head?.toList.flatMap a.opening
  | _ => []

theorem openedBy_cases (a : Agent) (command : AgentCommand) :
    (a.openedBy command = a.starts command ∧ a.drains command = []) ∨
      (a.openedBy command = a.drains command ∧ a.starts command = []) := by
  cases command with
  | startNextQueuedRun => exact .inr ⟨rfl, rfl⟩
  | _ => exact .inl ⟨rfl, rfl⟩

def LosesInput (a : Agent) (command : AgentCommand) : Prop :=
  command = .startNextQueuedRun ∧ a.state.queuedInputs.head?.any inLimit = true ∧
    (validateTranscript a.state.messages).isOk = false

theorem drains_waits {a : Agent} {command : AgentCommand} (h : ¬ a.LosesInput command) :
    a.drains command ++ (a.queueAfter command).filter inLimit =
      a.state.queuedInputs.filter inLimit ++ (a.queues command).filter inLimit := by
  cases command with
  | startRun input | steer input | followUp input =>
    unfold drains queueAfter queues
    cases a.state.activeRun.isSome <;> simp
  | startNextQueuedRun =>
    unfold drains queueAfter queues
    cases hqueue : a.state.queuedInputs with
    | nil => rfl
    | cons input rest =>
      have hopening : a.opening input =
          if (validateTranscript a.state.messages).isOk && inLimit input then [input] else [] := by
        unfold opening
        rw [validateAttachments_isOk, inLimit]
      cases hinput : inLimit input with
      | false => simp [hopening, hinput]
      | true =>
        have hvalid : (validateTranscript a.state.messages).isOk = true :=
          Bool.of_not_eq_false fun hinvalid => h ⟨rfl, by simpa [hqueue] using hinput, hinvalid⟩
        simp [hopening, hinput, hvalid]
  | _ => simp [drains, queueAfter, queues]

end Agent

abbrev AgentStep := Machine.Step Agent AgentCommand AgentEffect

def inputsStarted (steps : List AgentStep) : List UserInput := steps.flatMap fun st => st.pre.starts st.input

def inputsQueued (steps : List AgentStep) : List UserInput := steps.flatMap fun st => st.pre.queues st.input

theorem inputsStarted_snoc (steps : List AgentStep) (command : AgentCommand) :
    inputsStarted (steps ++ [Agent.machine.stepAt a command]) = inputsStarted steps ++ a.starts command := by
  simp [inputsStarted, Machine.stepAt]

theorem inputsQueued_snoc (steps : List AgentStep) (command : AgentCommand) :
    inputsQueued (steps ++ [Agent.machine.stepAt a command]) = inputsQueued steps ++ a.queues command := by
  simp [inputsQueued, Machine.stepAt]

/-- Every user's message has its source: each input that started a run is the source of exactly one message; so is each
    queued input that no longer waits, in the order of the queue. -/
structure Accounted (steps : List AgentStep) (a : Agent) (sources : List (Origin × AgentMessage)) : Prop where
  users : Sourced sources (a.state.messages.filter isUser)
  started : (sources.map (·.1)).filterMap Origin.started? = inputsStarted steps
  queued : (sources.map (·.1)).filterMap Origin.queued? ++ a.state.queuedInputs.filter inLimit =
    (inputsQueued steps).filter inLimit

theorem Accounted.step_of {steps : List AgentStep}
    (h : Accounted steps a sources) {command : AgentCommand} (hkeeps : ¬ a.LosesInput command)
    (horigin : ∀ input message, Agent.userContent input <+: message.content → (origin input).Marks message)
    (hinput : ∀ input, (origin input).isInput = true)
    (hstarts : ((a.openedBy command).map origin).filterMap Origin.started? = a.starts command)
    (hdrains : ((a.openedBy command).map origin).filterMap Origin.queued? = a.drains command) :
    ∃ sources', Accounted (steps ++ [Agent.machine.stepAt a command]) (a.apply command).1 sources' := by
  obtain ⟨m, hm, hdeeds⟩ := a.deeds_apply (B := fun _ _ => True) command fun _ _ _ => trivial
  have husers : Sourced sources m.holdings.users := by
    rw [hm]
    exact h.users
  have hqueue : (a.apply command).1.state.queuedInputs = a.queueAfter command :=
    hdeeds.queue.trans (by rw [hm])
  obtain ⟨sources', added, hsources', horigins, hadded⟩ := hdeeds.sourced horigin hinput husers
  have hstarted := Origin.filterMap_inputs Origin.started? rfl added
  have hqueued := Origin.filterMap_inputs Origin.queued? rfl added
  rw [hadded, hstarts] at hstarted
  rw [hadded, hdrains] at hqueued
  refine ⟨sources', hsources', ?_, ?_⟩
  · rw [horigins, filterMap_append, h.started, ← hstarted, inputsStarted_snoc]
  · rw [horigins, filterMap_append, ← hqueued, hqueue, append_assoc, a.drains_waits hkeeps,
      ← append_assoc, h.queued, inputsQueued_snoc, filter_append]

theorem Accounted.step {steps : List AgentStep} {sources : List (Origin × AgentMessage)}
    (h : Accounted steps a sources) {command : AgentCommand} (hkeeps : ¬ a.LosesInput command) :
    ∃ sources', Accounted (steps ++ [Agent.machine.stepAt a command]) (a.apply command).1 sources' := by
  rcases a.openedBy_cases command with ⟨hopened, hdrains⟩ | ⟨hopened, hstarts⟩
  · have hmarks (input : UserInput) (message : AgentMessage) (hkept : Agent.userContent input <+: message.content) :
        (Origin.started input).Marks message := hkept
    refine h.step_of hkeeps hmarks (fun _ => rfl) ?_ ?_
    · rw [hopened, Origin.map_started_started]
    · rw [hopened, hdrains, Origin.map_started_queued]
  · have hmarks (input : UserInput) (message : AgentMessage) (hkept : Agent.userContent input <+: message.content) :
        (Origin.queued input).Marks message := hkept
    refine h.step_of hkeeps hmarks (fun _ => rfl) ?_ ?_
    · rw [hopened, hstarts, Origin.map_queued_started]
    · rw [hopened, Origin.map_queued_queued]

theorem Accounted.run {steps : List AgentStep} (h : Accounted steps a sources)
    {commands : List AgentCommand}
    (hkeeps : ∀ st ∈ Agent.machine.trace a commands, ¬ st.pre.LosesInput st.input) :
    ∃ sources', Accounted (steps ++ Agent.machine.trace a commands) (Agent.machine.run a commands) sources' := by
  induction commands generalizing a steps sources with
  | nil => exact ⟨sources, (append_nil steps).symm ▸ h⟩
  | cons command commands ih =>
    obtain ⟨hfirst, hrest⟩ := forall_mem_cons.mp hkeeps
    obtain ⟨sources', hnext⟩ := h.step hfirst
    obtain ⟨sources'', hlast⟩ := ih hnext hrest
    refine ⟨sources'', ?_⟩
    rwa [append_assoc] at hlast

def Refused (st : AgentStep) : Prop :=
  st.pre.state.activeRun = none ∧ ∃ error, validateTranscript st.pre.state.messages = .error error ∧
    st.out = (st.pre.fail "INVALID_TRANSCRIPT" error.display).2

def AgentCommand.brings : AgentCommand → Option UserInput
  | .startRun input | .steer input | .followUp input => some input
  | _ => none

theorem brought_input (a : Agent) (command : AgentCommand) {input : UserInput} (h : command.brings = some input)
    (hlimit : inLimit input = true) : a.starts command = [input] ∨ a.queues command = [input] ∨
      Refused (Agent.machine.stepAt a command) := by
  have hstart : (a.state.activeRun.isSome = true ∨ a.opening input = [input]) ∨
      (a.state.activeRun = none ∧ ∃ error, validateTranscript a.state.messages = .error error ∧
        (a.startOrQueue input).2 = (a.fail "INVALID_TRANSCRIPT" error.display).2) := by
    cases hrun : a.state.activeRun with
    | some runId => exact .inl (.inl rfl)
    | none =>
      cases hvalid : validateTranscript a.state.messages with
      | ok =>
        refine .inl (.inr ?_)
        have hattachments : (validateAttachments 0 input.attachments).isOk = true :=
          (validateAttachments_isOk 0 input.attachments).trans hlimit
        unfold Agent.opening
        rw [hvalid, hattachments]
        rfl
      | error error =>
        refine .inr ⟨rfl, error, rfl, ?_⟩
        simp [Agent.startOrQueue, hrun, Agent.startRun, hvalid]
  cases command with
  | startRun _ | steer _ | followUp _ =>
    cases h
    rcases hstart with hstart | hrefused
    · cases hrun : a.state.activeRun with
      | some runId => exact .inr (.inl (by simp [Agent.queues, hrun]))
      | none => exact .inl (by simpa [Agent.starts, hrun] using hstart)
    · exact .inr (.inr hrefused)
  | _ => cases h

/-- In every run in which no queued input is taken against a transcript that fails its check, the inputs are all
    accounted for: every one within the limits started a run, was put in the queue, or was refused with a report, and
    those that started and those that were queued are the sources of the user's messages, once each and in order, save
    for what is still in the queue. -/
theorem inputs_accounted (a : Agent) (h : a.Fresh) (commands : List AgentCommand)
    (hkeeps : ∀ st ∈ Agent.machine.trace a commands, ¬ st.pre.LosesInput st.input) :
    (∀ st ∈ Agent.machine.trace a commands, ∀ input, st.input.brings = some input → inLimit input = true →
      st.pre.starts st.input = [input] ∨ st.pre.queues st.input = [input] ∨ Refused st) ∧
    ∃ sources, Accounted (Agent.machine.trace a commands) (Agent.machine.run a commands) sources := by
  constructor
  · intro st hst input hbrings hlimit
    have hreachable : a.Reachable := .start h
    obtain ⟨-, hstep⟩ := hreachable.mem_trace hst
    rw [hstep]
    exact brought_input st.pre st.input hbrings hlimit
  · have hstart : Accounted [] a [] := by
      obtain ⟨_, _, _, _, _, _, _, _, _, _, rfl⟩ := h
      exact ⟨⟨rfl, fun _ hsource => absurd hsource not_mem_nil⟩, rfl, rfl⟩
    exact hstart.run hkeeps

end

section

open Sample

def Sample.more : UserInput := ⟨"more", []⟩

/-- The queued input enters the transcript once the first run is over. -/
theorem inputs_accounted_of_steer : ∃ sources,
    Accounted (Agent.machine.trace (agent .allow defaultProfile)
        [prompt, .steer more, fromBackend (.completed ⟨0⟩ ⟨⟨0⟩, {}, {}, "end_turn"⟩), .startNextQueuedRun])
      (Agent.machine.run (agent .allow defaultProfile)
        [prompt, .steer more, fromBackend (.completed ⟨0⟩ ⟨⟨0⟩, {}, {}, "end_turn"⟩), .startNextQueuedRun]) sources := by
  refine (inputs_accounted (agent .allow defaultProfile) (fresh_agent .allow defaultProfile) _ fun st hst hloses => ?_).2
  simp only [Machine.trace_cons, Machine.trace_nil, mem_cons, not_mem_nil, or_false] at hst
  rcases hst with rfl | rfl | rfl | rfl
  · cases hloses.1
  · cases hloses.1
  · cases hloses.1
  · exact absurd hloses.2.2 (by decide)

/-- An input is queued while a tool call is out, the run is cancelled, and the queued input is taken for a run that the
    transcript's check refuses: it is neither in the queue nor in the transcript. -/
theorem queued_input_lost : (agent .allow defaultProfile).Fresh ∧ ¬ ∃ sources,
    Accounted
      (Agent.machine.trace (agent .allow defaultProfile) [prompt, requests 5, .steer more, .cancel, .startNextQueuedRun])
      (Agent.machine.run (agent .allow defaultProfile) [prompt, requests 5, .steer more, .cancel, .startNextQueuedRun])
      sources := by
  refine ⟨fresh_agent .allow defaultProfile, fun haccounted => ?_⟩
  obtain ⟨sources, hsources⟩ := haccounted
  have hlength : sources.length = 1 := by
    rw [← length_map (·.2), hsources.users.messages]
    rfl
  obtain ⟨source, rfl⟩ := length_eq_one_iff.mp hlength
  have hstarted : [source.1].filterMap Origin.started? = [⟨"hello", []⟩] := hsources.started.trans (by rfl)
  have hqueued : [source.1].filterMap Origin.queued? = [more] :=
    (append_nil _).symm.trans (hsources.queued.trans (by rfl))
  cases hsource : source.1 with
  | started =>
    rw [hsource] at hqueued
    cases hqueued
  | queued | gate =>
    rw [hsource] at hstarted
    cases hstarted

end

end RustyCore
