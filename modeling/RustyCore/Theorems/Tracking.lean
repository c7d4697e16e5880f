import RustyCore.Lib.Projection
import RustyCore.Theorems.Restore

/-! The outline of an agent: the parts of its state that the replay of its events keeps up to date. What the
    replay does to a stored agent is, on its outline, a projection of the events; and most of what the reducer
    does is followed by it. -/

namespace RustyCore

open List

/-- What the replay keeps of an agent. -/
structure Outline where
  status : AgentStatus
  activeRun : Option RunId
  lastError : Option AgentError
  children : List AgentId
  pendingPermissions : Table.Map PermissionId ToolCallId

namespace Outline

def answered (o : Outline) (callId : ToolCallId) : Outline :=
  { o with pendingPermissions := Table.retain (fun _ pending => pending != callId) o.pendingPermissions }

/-- What one event does to the outline; the replay refuses a change from another status. -/
def note (o : Outline) : AgentEvent → Option Outline
  | .stateChanged from_ to_ => if o.status ≠ from_ then none else some { o with status := to_ }
  | .runStarted runId => some { o with activeRun := some runId, lastError := none }
  | .permissionRequested request =>
    some { o with pendingPermissions := o.pendingPermissions.insert request.id request.toolCall.id }
  | .toolCallCompleted callId _ => some (o.answered callId)
  | .childAgentSpawned childId _ =>
    some { o with children := if o.children.contains childId then o.children else o.children ++ [childId] }
  | .failed error => some { o with lastError := some error, activeRun := none }
  | .completed _ => some { o with activeRun := none }
  | _ => some o

def projection : Projection Outline AgentEvent := ⟨note⟩

/-- An event that is not stored changes nothing the replay keeps. -/
theorem ignores_of_not_durable (e : AgentEvent) (h : isDurable e = false) : projection.Ignores e := by
  cases e with
  | stateChanged | runStarted | permissionRequested | toolCallCompleted | childAgentSpawned | failed | completed =>
    simp [isDurable] at h
  | _ => exact fun _ => rfl

end Outline

def StoredAgentState.outline (agent : StoredAgentState) : Outline :=
  ⟨agent.status, agent.activeRun, agent.lastError, agent.children, agent.pendingPermissions⟩

theorem Replay.applyEvent_outline (agent : StoredAgentState) (envelope : AgentEventEnvelope) (sequence : Nat) :
    (Outline.projection.note agent.outline envelope.event = none ∧
      ∃ e, Replay.applyEvent agent envelope sequence = .error e) ∨
      ∃ agent', Replay.applyEvent agent envelope sequence = .ok agent' ∧ agent'.agentId = agent.agentId ∧
        Outline.projection.note agent.outline envelope.event = some agent'.outline := by
  unfold Replay.applyEvent
  cases envelope.event with
  | stateChanged from_ to_ =>
    dsimp only [Outline.projection, Outline.note, StoredAgentState.outline]
    unfold Replay.changeState
    split
    · exact .inl ⟨rfl, _, rfl⟩
    · exact .inr ⟨_, rfl, rfl, rfl⟩
  | childAgentSpawned childId _ =>
    refine .inr ⟨_, rfl, ?_⟩
    dsimp only [Outline.projection, Outline.note, StoredAgentState.outline]
    split <;> exact ⟨rfl, rfl⟩
  | _ => exact .inr ⟨_, rfl, rfl, rfl⟩

structure Filed (agentId : AgentId) (event : DurableSessionEvent) : Prop where
  agentId : event.envelope.agentId = agentId
  sequence : event.sessionSequence ≠ none

theorem Replay.replaySnapshot_outline {agentId : AgentId} {events : List DurableSessionEvent}
    (hfiled : ∀ event ∈ events, Filed agentId event) {snapshot : DurableSessionSnapshot} {agent : StoredAgentState}
    (hagents : snapshot.agents = [agent]) (hid : agent.agentId = agentId) (o : Outline) :
    (∃ restored agent', Replay.replaySnapshot snapshot events = .ok restored ∧ restored.agents = [agent'] ∧
      agent'.outline = o) ↔ Outline.projection.follow agent.outline (events.map (·.envelope.event)) = some o := by
  induction events generalizing snapshot agent with
  | nil =>
    simp only [Replay.replaySnapshot, map_nil, Projection.follow_nil, Option.some.injEq]
    constructor
    · rintro ⟨restored, agent', hrestored, hagent, rfl⟩
      cases hrestored
      rw [hagents] at hagent
      rw [(List.cons.inj hagent).1]
    · exact fun h => ⟨snapshot, agent, rfl, hagents, h⟩
  | cons event rest ih =>
    rw [forall_mem_cons] at hfiled
    obtain ⟨sequence, hsequence⟩ := Option.ne_none_iff_exists'.mp hfiled.1.sequence
    rw [map_cons, Projection.follow]
    simp only [Replay.replaySnapshot, Replay.finalSequence, hsequence, Replay.ok_bind, hagents, Replay.applyTo, hid,
      hfiled.1.agentId, if_true]
    rcases Replay.applyEvent_outline agent event.envelope sequence with ⟨hnone, e, herror⟩ | ⟨agent', hok, hid', hnote⟩
    · rw [hnone, herror]
      refine iff_of_false ?_ (by simp)
      rintro ⟨restored, agent', hrestored, -⟩
      cases hrestored
    · rw [hnote, hok]
      exact ih hfiled.2 rfl (hid'.trans hid)

section

variable [Externals]

def Agent.outline (a : Agent) : Outline :=
  ⟨a.state.status, a.state.activeRun, a.state.lastError, a.state.children, a.state.pendingPermissions⟩

end

/-! What the outline of an agent follows: the operations of the reducer that leave the outline alone, and those
    whose events lead from the outline before them to the outline after them. -/

def AgentEffect.isSilent : AgentEffect → Bool
  | .emit (.stateChanged _ _) | .emit (.runStarted _) | .emit (.permissionRequested _) | .emit (.toolCallCompleted _ _)
  | .emit (.childAgentSpawned _ _) | .emit (.failed _) | .emit (.completed _) => false
  | _ => true

def emittedEvents (es : List AgentEffect) : List AgentEvent := es.filterMap AgentEffect.emitted?

theorem emittedEvents_append (es fs : List AgentEffect) :
    emittedEvents (es ++ fs) = emittedEvents es ++ emittedEvents fs := filterMap_append

theorem Outline.ignores_of_isSilent {es : List AgentEffect} (h : ∀ e ∈ es, e.isSilent = true) :
    ∀ event ∈ emittedEvents es, Outline.projection.Ignores event := by
  intro event hevent
  obtain ⟨e, he, hemitted⟩ := mem_filterMap.mp hevent
  have hsilent := h e he
  cases e with
  | emit event' =>
    obtain rfl := Option.some.inj hemitted
    cases event' with
    | stateChanged | runStarted | permissionRequested | toolCallCompleted | childAgentSpawned | failed | completed =>
      simp [AgentEffect.isSilent] at hsilent
    | _ => exact fun _ => rfl
  | _ => cases hemitted

section

variable [Externals]

/-- Nothing happens that the outline shows. -/
structure Unseen (a : Agent) (es : List AgentEffect) (b : Agent) : Prop where
  outline : b.outline = a.outline
  silent : ∀ e ∈ es, e.isSilent = true

/-- The events of a step lead from the outline before it to the outline after it. -/
def Tracks (a : Agent) (es : List AgentEffect) (b : Agent) : Prop :=
  Outline.projection.follow a.outline (emittedEvents es) = some b.outline

/-- The same, whatever the outline says of the active run and the last error: the events set both. -/
def EndsRun (a : Agent) (es : List AgentEffect) (b : Agent) : Prop :=
  ∀ activeRun lastError, Outline.projection.follow { a.outline with activeRun := activeRun, lastError := lastError }
    (emittedEvents es) = some b.outline

variable {a b c : Agent} {es fs : List AgentEffect} {e : AgentEffect}

namespace Unseen

theorem refl (a : Agent) : Unseen a [] a := ⟨rfl, fun _ h => absurd h not_mem_nil⟩

theorem same (h : b.outline = a.outline) : Unseen a [] b := ⟨h, fun _ h => absurd h not_mem_nil⟩

theorem trans (h : Unseen a es b) (h' : Unseen b fs c) : Unseen a (es ++ fs) c :=
  ⟨h'.outline.trans h.outline, forall_mem_append.mpr ⟨h.silent, h'.silent⟩⟩

theorem single (h : b.outline = a.outline) (he : e.isSilent = true) : Unseen a [e] b :=
  ⟨h, fun x hx => by rwa [mem_singleton.mp hx]⟩

theorem tracks (h : Unseen a es b) : Tracks a es b := by
  rw [Tracks, Projection.follow_of_ignores (Outline.ignores_of_isSilent h.silent), h.outline]

end Unseen

namespace Tracks

theorem trans (h : Tracks a es b) (h' : Tracks b fs c) : Tracks a (es ++ fs) c := by
  rw [Tracks, emittedEvents_append]
  exact (Projection.follow_trans h).trans h'

theorem of_outline (ho : b.outline = a.outline) (h : Tracks b es c) : Tracks a es c := by
  rw [Tracks, ← ho]
  exact h

theorem after (h : Unseen a es b) (h' : Tracks b fs c) : Tracks a (es ++ fs) c := h.tracks.trans h'

theorem noted {event : AgentEvent} (h : Outline.projection.note a.outline event = some b.outline) :
    Tracks a [.emit event] b := by
  simp [Tracks, emittedEvents, AgentEffect.emitted?, Projection.follow, h]

theorem change {from_ to_ : AgentStatus} (hfrom : a.state.status = from_)
    (ho : b.outline = { a.outline with status := to_ }) : Tracks a [Agent.stateChanged from_ to_] b := by
  have hstatus : a.outline.status = from_ := hfrom
  simp [Tracks, emittedEvents, AgentEffect.emitted?, Agent.stateChanged, Projection.follow, Outline.projection,
    Outline.note, hstatus, ho]

theorem effect (h : Tracks a es b) (he : e.isSilent = true) : Tracks a (es ++ [e]) b :=
  h.trans (Unseen.single rfl he).tracks

end Tracks

namespace EndsRun

theorem tracks (h : EndsRun a es b) : Tracks a es b := h a.outline.activeRun a.outline.lastError

theorem after (h : Unseen a es b) (h' : EndsRun b fs c) : EndsRun a (es ++ fs) c := by
  intro activeRun lastError
  rw [emittedEvents_append, Projection.follow_append,
    Projection.follow_of_ignores (Outline.ignores_of_isSilent h.silent), ← h.outline]
  exact h' activeRun lastError

theorem of_outline {m : Agent} {activeRun : Option RunId} {lastError : Option AgentError}
    (ho : m.outline = { a.outline with activeRun := activeRun, lastError := lastError }) (h : EndsRun m es b) :
    EndsRun a es b := by
  intro activeRun' lastError'
  have hm := h activeRun' lastError'
  rw [ho] at hm
  exact hm

end EndsRun

namespace Agent

@[simp] theorem outline_withMessages (messages : List AgentMessage) : (a.withMessages messages).outline = a.outline := rfl

@[simp] theorem outline_withInFlight (inFlight : Bool) : (a.withInFlight inFlight).outline = a.outline := rfl

@[simp] theorem outline_withQueuedInputs (inputs : List UserInput) : (a.withQueuedInputs inputs).outline = a.outline := rfl

@[simp] theorem outline_withPendingTools (tools : Table.Map ToolCallId PendingToolCall) :
    (a.withPendingTools tools).outline = a.outline := rfl

@[simp] theorem outline_withTimeouts (timeouts : Nat) : (a.withTimeouts timeouts).outline = a.outline := rfl

@[simp] theorem outline_withBehavior (behavior : BehaviorState) : (a.withBehavior behavior).outline = a.outline := rfl

@[simp] theorem outline_withRun (run : RunCounters) : (a.withRun run).outline = a.outline := rfl

@[simp] theorem outline_withPendingProfile (profile : Option (CompiledProfile × ProfileRegistry)) :
    (a.withPendingProfile profile).outline = a.outline := rfl

@[simp] theorem outline_withUsage (usage : UsageLedger) : (a.withUsage usage).outline = a.outline := rfl

@[simp] theorem outline_withStatus (status : AgentStatus) :
    (a.withStatus status).outline = { a.outline with status := status } := rfl

@[simp] theorem outline_withActiveRun (activeRun : Option RunId) :
    (a.withActiveRun activeRun).outline = { a.outline with activeRun := activeRun } := rfl

@[simp] theorem outline_pushMessage (role : MessageRole) (content : List ContentBlock) :
    (a.pushMessage role content).1.outline = a.outline := rfl

@[simp] theorem outline_setTrailingMessage (message : AgentMessage) :
    (a.setTrailingMessage message).outline = a.outline := rfl

@[simp] theorem outline_appendAssistantText (delta : String) : (a.appendAssistantText delta).1.outline = a.outline := by
  unfold appendAssistantText
  dsimp only
  split
  · rfl
  · split
    · rfl
    · split <;> rfl

@[simp] theorem outline_assistantMessageId : a.assistantMessageId.1.outline = a.outline := by
  unfold assistantMessageId
  split <;> rfl

@[simp] theorem outline_pushToolUse (call : ToolCall) : (a.pushToolUse call).1.outline = a.outline := by
  unfold pushToolUse
  split
  · split <;> rfl
  · rfl

@[simp] theorem outline_discardTrailing : a.discardTrailingEmptyAssistantMessage.outline = a.outline := by
  unfold discardTrailingEmptyAssistantMessage
  split <;> rfl

/-- A failed run is over by its own event. -/
theorem endsRun_fail (a : Agent) (code message : String) : EndsRun a (a.fail code message).2 (a.fail code message).1 := by
  intro activeRun lastError
  have ho := a.outline_discardTrailing
  have hstatus : a.discardTrailingEmptyAssistantMessage.state.status = a.outline.status := congrArg Outline.status ho
  have hchildren : a.discardTrailingEmptyAssistantMessage.state.children = a.outline.children :=
    congrArg Outline.children ho
  have hpermissions : a.discardTrailingEmptyAssistantMessage.state.pendingPermissions = a.outline.pendingPermissions :=
    congrArg Outline.pendingPermissions ho
  simp [fail, emittedEvents, AgentEffect.emitted?, stateChanged, Projection.follow, Outline.projection, Outline.note,
    outline, hstatus, hchildren, hpermissions]
  rfl

theorem endsRun_behaviorStop (a : Agent) (stop : RuleStop) : EndsRun a (a.behaviorStop stop).2 (a.behaviorStop stop).1 :=
  a.endsRun_fail _ _

@[simp] theorem outline_queueRequestText (text : String) : (a.queueRequestText text).outline = a.outline := rfl

@[simp] theorem outline_placeInjection (injection : Injection) (callId : Option ToolCallId) :
    (a.placeInjection injection callId).outline = a.outline := by
  unfold placeInjection
  split
  · rfl
  · split <;> rfl
  · rfl

theorem outline_placeInjections (injections : List Injection) (callId : Option ToolCallId) (a : Agent) :
    (injections.foldl (fun a injection => a.placeInjection injection callId) a).outline = a.outline := by
  induction injections generalizing a with
  | nil => rfl
  | cons injection rest ih => exact (ih _).trans (a.outline_placeInjection injection callId)

@[simp] theorem outline_requestSwitch (outcome : RuleOutcome) : (a.requestSwitch outcome).outline = a.outline := by
  unfold requestSwitch
  split
  · rfl
  · split <;> rfl

theorem unseen_applyRuleOutcome (a : Agent) (outcome : RuleOutcome) (callId : Option ToolCallId) :
    Unseen a (a.applyRuleOutcome outcome callId).2 (a.applyRuleOutcome outcome callId).1 := by
  refine ⟨(outline_requestSwitch _).trans (outline_placeInjections _ callId a), ?_⟩
  intro e he
  rcases mem_append.mp he with he | he
  · obtain ⟨fired, -, rfl⟩ := mem_map.mp he
    rfl
  · obtain ⟨injection, -, rfl⟩ := mem_map.mp he
    rfl

theorem unseen_runRules (a : Agent) (event : RuleEvent) (tool : Option ToolEvent) (callId : Option ToolCallId) :
    Unseen a (a.runRules event tool callId).2.1 (a.runRules event tool callId).1 :=
  ⟨(unseen_applyRuleOutcome _ _ callId).outline, (unseen_applyRuleOutcome _ _ callId).silent⟩

theorem applySwitch_outline (a : Agent) (profile : CompiledProfile) (library : ProfileRegistry) :
    Unseen a (a.applySwitch profile library).2 (a.applySwitch profile library).1 ∨
      a.state.activeRun.isSome = true ∧ (a.applySwitch profile library).1.state.status = .failed ∧
        EndsRun a (a.applySwitch profile library).2 (a.applySwitch profile library).1 := by
  unfold applySwitch
  dsimp only
  split
  · exact .inl (.same rfl)
  · split
    · rename_i hloop
      refine .inr ⟨hloop.1, rfl, ?_⟩
      exact EndsRun.after (b := a.withBehavior (a.state.behavior.switchedTo profile library)) (.single rfl rfl)
        (endsRun_fail _ _ _)
    · exact .inl (.single rfl rfl)

/-- A pending switch is not seen, unless it fails the run. -/
theorem takePendingSwitch_outline (a : Agent) : Unseen a a.takePendingSwitch.2 a.takePendingSwitch.1 ∨
    a.state.pendingProfile.isSome ∧ a.takePendingSwitch.1.state.status = .failed ∧
      EndsRun a a.takePendingSwitch.2 a.takePendingSwitch.1 := by
  unfold takePendingSwitch
  split
  · rename_i profile library hpending
    rcases applySwitch_outline (a.withPendingProfile none) profile library with h | ⟨-, hfailed, h⟩
    · exact .inl ⟨h.outline, h.silent⟩
    · exact .inr ⟨by simp [hpending], hfailed, h⟩
  · exact .inl (.refl a)

theorem tracks_takePendingSwitch (a : Agent) : Tracks a a.takePendingSwitch.2 a.takePendingSwitch.1 := by
  rcases a.takePendingSwitch_outline with h | ⟨-, -, h⟩
  · exact h.tracks
  · exact h.tracks

/-- The start of a turn is either not seen or ends the run. -/
structure Announces (a b : Agent) (r : Except (List AgentEffect) (List AgentEffect)) : Prop where
  ok : ∀ es, r = .ok es → Unseen a es b
  error : ∀ es, r = .error es → EndsRun a es b

theorem Announces.of_outline {m : Agent} {r : Except (List AgentEffect) (List AgentEffect)} (h : Announces m b r)
    (ho : m.outline = a.outline) : Announces a b r :=
  ⟨fun es hes => ⟨(h.ok es hes).outline.trans ho, (h.ok es hes).silent⟩, fun es hes => .of_outline ho (h.error es hes)⟩

theorem Announces.announce {r : Except (List AgentEffect) (List AgentEffect)} (h : Announces a b r)
    (he : e.isSilent = true) : Announces a b (r.map (e :: ·)) := by
  cases r with
  | ok fs =>
    refine ⟨?_, by simp [Except.map]⟩
    rintro es ⟨⟩
    exact (Unseen.single rfl he).trans (h.ok fs rfl)
  | error fs =>
    refine ⟨by simp [Except.map], ?_⟩
    rintro es ⟨⟩
    exact h.error fs rfl

theorem announces_enteredRules (a : Agent) (from_ : ProfileRef) :
    Announces a (a.enteredRules from_).1 (a.enteredRules from_).2 := by
  have hrules := unseen_applyRuleOutcome (a.withBehavior (a.state.behavior.evaluateEntered from_.id).1)
    (a.state.behavior.evaluateEntered from_.id).2 none
  have hseen : Unseen a _ _ := ⟨hrules.outline, hrules.silent⟩
  unfold enteredRules
  dsimp only
  split
  · refine ⟨by simp, ?_⟩
    rintro es ⟨⟩
    exact .after hseen (endsRun_behaviorStop _ _)
  · refine ⟨?_, by simp⟩
    rintro es ⟨⟩
    exact hseen

theorem announces_enterProfile (a : Agent) (from_ : EnteredFrom) :
    Announces a (a.enterProfile from_).1 (a.enterProfile from_).2 := by
  unfold enterProfile
  split
  · exact ((announces_enteredRules _ from_.profile).of_outline (outline_queueRequestText _)).announce rfl
  · exact announces_enteredRules a from_.profile

theorem announces_announceProfile (a : Agent) : Announces a a.announceProfile.1 a.announceProfile.2 := by
  unfold announceProfile
  split
  · rename_i from_ hfrom
    exact (announces_enterProfile _ from_).of_outline (outline_withBehavior _)
  · refine ⟨?_, by simp⟩
    rintro es ⟨⟩
    exact .refl a

structure Begins (a b : Agent) (r : Except (List AgentEffect) (List AgentEffect)) : Prop where
  ok : ∀ es, r = .ok es → Unseen a es b
  error : ∀ es, r = .error es → Tracks a es b
  endsRun : ∀ es, r = .error es → a.state.status ≠ .failed → EndsRun a es b

theorem Begins.failed {es : List AgentEffect} (h : EndsRun a es b) : Begins a b (.error es) := by
  refine ⟨by simp, ?_, ?_⟩
  · rintro _ ⟨⟩
    exact h.tracks
  · rintro _ ⟨⟩ _
    exact h

/-- A turn that begins is not seen; one that cannot begin is tracked. -/
theorem begins_beginTurn (a : Agent) : Begins a a.beginTurn.1 a.beginTurn.2 := by
  unfold beginTurn
  dsimp only
  split
  · rename_i hfailed
    refine ⟨by simp, ?_, ?_⟩
    · rintro es ⟨⟩
      exact a.tracks_takePendingSwitch
    · rintro es ⟨⟩ hlive
      rcases a.takePendingSwitch_outline with h | ⟨-, -, h⟩
      · exact absurd ((congrArg Outline.status h.outline).symm.trans hfailed.2) hlive
      · exact h
  · rename_i hlive
    have hswitch : Unseen a a.takePendingSwitch.2 a.takePendingSwitch.1 := by
      rcases a.takePendingSwitch_outline with h | ⟨hpending, hfailed, -⟩
      · exact h
      · exact absurd ⟨hpending, hfailed⟩ hlive
    have hannounce := a.takePendingSwitch.1.announces_announceProfile
    split
    · rename_i c failure hc
      rw [hc] at hannounce
      exact .failed (.after hswitch (hannounce.error failure rfl))
    · rename_i c entered hc
      rw [hc] at hannounce
      have hentered := hswitch.trans (hannounce.ok entered rfl)
      split
      · rename_i behavior hbehavior
        exact .failed (.of_outline hentered.outline (endsRun_fail (c.withBehavior behavior) _ _))
      · rename_i behavior plan hplan hbehavior
        have hrules := unseen_runRules (c.withBehavior behavior) .beforeModelRequest none none
        have hseen := hentered.trans (⟨hrules.outline, hrules.silent⟩ : Unseen c _ _)
        split
        · exact .failed (.after hseen (endsRun_behaviorStop _ _))
        · refine ⟨?_, by simp, by simp⟩
          rintro es ⟨⟩
          exact hseen

@[simp] theorem outline_buildRequest (runId : RunId) (reissue : Bool) :
    (a.buildRequest runId reissue).1.outline = a.outline := rfl

theorem tracks_changedTo (a : Agent) (to_ : AgentStatus) :
    Tracks a (changedTo a.state.status to_) (a.withStatus to_) := by
  unfold changedTo
  split
  · exact .change rfl rfl
  · rename_i hsame
    refine (Unseen.same ?_).tracks
    have hstatus : a.outline.status = to_ := not_not.mp hsame
    rw [outline_withStatus, ← hstatus]

end Agent

end

end RustyCore
