import RustyCore.Theorems.TrackedRuns

/-! Replay against the live state. A checkpoint taken between two commands of a session, brought up to date by the
    events appended afterwards, shows the outline of the live agent exactly when no command in between changes a
    part of it without an event that says so. -/

namespace RustyCore

open Path List Outline

section

variable [Externals]

omit [Externals] in
theorem changes_emittedEvents (es : List AgentEffect) :
    (emittedEvents es).filterMap AgentEvent.stateChange? = stateChanges es := by
  rw [← changes_durableEvents, durableEvents, filterMap_filter]
  congr 1
  funext event
  cases event <;> rfl

omit [Externals] in
theorem chain_of_follow {o o' : Outline} {events : List AgentEvent}
    (h : Outline.projection.follow o events = some o') :
    Chain o.status (events.filterMap AgentEvent.stateChange?) o'.status := by
  induction events generalizing o with
  | nil =>
    cases h
    rfl
  | cons event rest ih =>
    obtain ⟨m, hnote, hrest⟩ := Option.bind_eq_some_iff.mp h
    have hlater := ih hrest
    cases event with
    | stateChanged from_ to_ =>
      simp only [projection, note] at hnote
      split at hnote
      · cases hnote
      · rename_i hfrom
        cases hnote
        exact ⟨not_not.mp hfrom, hlater⟩
    | _ =>
      cases hnote
      exact hlater

omit [Externals] in
theorem rest_of_follow {o o' : Outline} {events : List AgentEvent}
    (hmoves : ∀ event ∈ events, event.stateChange?.isSome = true ∨ Outline.projection.Ignores event)
    (h : Outline.projection.follow o events = some o') : o' = { o with status := o'.status } := by
  induction events generalizing o with
  | nil =>
    cases h
    rfl
  | cons event rest ih =>
    rw [forall_mem_cons] at hmoves
    obtain ⟨m, hnote, hrest⟩ := Option.bind_eq_some_iff.mp h
    have hlater := ih hmoves.2 hrest
    rcases hmoves.1 with hchange | hignored
    · cases event with
      | stateChanged from_ to_ =>
        simp only [projection, note] at hnote
        split at hnote
        · cases hnote
        · cases hnote
          exact hlater
      | _ => cases hchange
    · rw [hignored o] at hnote
      cases hnote
      exact hlater

omit [Externals] in
theorem ignores_childAgentCompleted (agentId : AgentId) (outcome : AgentOutcome) :
    Outline.projection.Ignores (.childAgentCompleted agentId outcome) := fun _ => rfl

variable {es : List AgentEffect}

theorem Tracks.rest {a b : Agent} (h : Tracks a es b)
    (hmoves : ∀ event ∈ emittedEvents es, event.stateChange?.isSome = true ∨ Outline.projection.Ignores event) :
    b.outline = { a.outline with status := b.state.status } := rest_of_follow hmoves h

theorem Tracks.chain {a b : Agent} (h : Tracks a es b) :
    Chain a.state.status (stateChanges es) b.state.status := by
  rw [← changes_emittedEvents]
  exact chain_of_follow h

namespace Agent

/-- The command changes a part of the outline and emits no event that says so. An answer other than the denial of
    a pending call takes a question off; so does an outcome the backend reports itself; a child is added when it
    is spawned, and taken off when it is done; the failure of a child sets the last error, which a new run does
    not clear; and a cancellation drops children and questions. -/
def HidesChange (a : Agent) : AgentCommand → Prop
  | .permissionResolved id decision => ∃ callId, a.state.pendingPermissions.lookup id = some callId ∧
      (decision = .approved ∨ ¬ a.IsPending callId)
  | .backendEvent runId event => a.state.activeRun = some runId ∧ a.reportsAsked event
  | .childSpawned agentId _ => agentId ∉ a.state.children
  | .childCompleted agentId _ => agentId ∈ a.state.children
  | .childFailed agentId error => agentId ∈ a.state.children ∨ a.state.lastError ≠ some error
  | .cancel => a.nothingToCancel = false ∧ (a.state.children ≠ [] ∨ a.state.pendingPermissions ≠ ∅)
  | c => ∃ m input, a.startInput c = some (m, input) ∧ m.acceptsRun input = true ∧
      m.takePendingSwitch.1.stoppedAtStart input = false ∧ m.takePendingSwitch.1.state.lastError ≠ none

def LosesTrack (a : Agent) (c : AgentCommand) : Prop := a.MisreportsStatus c ∨ a.HidesChange c

variable {a : Agent}

variable {c : AgentCommand}

theorem tracks_start {m : Agent} {input : UserInput} (hstart : a.startInput c = some (m, input))
    (htrack : ¬ a.MisreportsStatus c)
    (hclear : m.acceptsRun input = true → m.takePendingSwitch.1.stoppedAtStart input = false →
      m.takePendingSwitch.1.state.lastError = none) :
    Tracks a (a.apply c).2 (a.apply c).1 := by
  rw [apply_of_startInput hstart]
  have hm : m.outline = a.outline := by
    obtain ⟨-, rfl⟩ | ⟨rest, -, -, rfl⟩ := startInput_cases hstart
    · rfl
    · rfl
  refine .of_outline hm ?_
  cases hvalid : m.acceptsRun input with
  | false =>
    unfold startRun
    unfold acceptsRun at hvalid
    split
    · exact (m.endsRun_fail _ _).tracks
    · rename_i htranscript
      split
      · exact (m.endsRun_fail _ _).tracks
      · rename_i hattachments
        simp [htranscript, hattachments, Except.isOk, Except.toBool] at hvalid
  | true =>
    rw [startRun_of_acceptsRun hvalid]
    refine m.tracks_takePendingSwitch.trans ?_
    cases hstop : m.takePendingSwitch.1.stoppedAtStart input with
    | true =>
      have hpreparing : m.takePendingSwitch.1.state.status = .preparingContext := by
        by_contra hne
        exact htrack (.inr ⟨m, input, hstart, hvalid, hstop, hne⟩)
      have ho : (m.takePendingSwitch.1.openRun input).1.outline = { m.takePendingSwitch.1.outline with
          activeRun := some (m.takePendingSwitch.1.openRun input).2
          lastError := m.takePendingSwitch.1.outline.lastError } := by
        rw [outline_openRun, ← hpreparing]
        rfl
      exact (EndsRun.of_outline ho (endsRun_beginRun hstop)).tracks
    | false =>
      obtain ⟨hfollow, herror⟩ := follow_beginRun hstop
      refine hfollow.trans (congrArg some ?_)
      have hnone := herror.trans (hclear hvalid hstop)
      show { (m.takePendingSwitch.1.beginRun input).1.outline with lastError := none } = _
      rw [← hnone]
      rfl

theorem tracks_startOrQueue {input : UserInput} (hc : a.apply c = a.startOrQueue input)
    (hstart : a.startInput c = if a.state.activeRun.isSome then none else some (a, input))
    (htrack : ¬ a.MisreportsStatus c)
    (hclear : ∀ m input, a.startInput c = some (m, input) → m.acceptsRun input = true →
      m.takePendingSwitch.1.stoppedAtStart input = false → m.takePendingSwitch.1.state.lastError = none) :
    Tracks a (a.apply c).2 (a.apply c).1 := by
  cases hrun : a.state.activeRun.isSome with
  | true =>
    rw [hc, startOrQueue, if_pos hrun]
    exact (Unseen.same rfl).tracks
  | false =>
    rw [hrun] at hstart
    exact tracks_start hstart htrack fun hvalid hgo => hclear a input hstart hvalid hgo

theorem tracks_childDone {m : Agent} (agentId : AgentId) (outcome : AgentOutcome) (hm : m.outline = a.outline)
    (hunknown : agentId ∉ a.state.children) :
    Tracks a (m.childDone agentId outcome).2 (m.childDone agentId outcome).1 := by
  have hchildren : m.state.children = a.state.children := congrArg Outline.children hm
  have hsame : m.state.children.filter (· != agentId) = m.state.children := by
    refine filter_eq_self.mpr fun id hid => ?_
    rw [bne_iff_ne]
    rintro rfl
    exact hunknown (hchildren ▸ hid)
  have hkept : (m.withChildren (m.state.children.filter (· != agentId))).outline = a.outline := by
    rw [hsame]
    exact hm
  unfold childDone
  dsimp only
  split
  · rename_i hlast
    have hdone : Unseen a [.emit (.childAgentCompleted agentId outcome)]
        (m.withChildren (m.state.children.filter (· != agentId))) := .single hkept rfl
    exact .after hdone (.change hlast.2 rfl)
  · exact (Unseen.single hkept rfl).tracks

theorem follow_cancel (hlive : a.nothingToCancel = false) :
    Outline.projection.follow a.outline (emittedEvents a.cancel.2) =
      some { a.outline with status := .cancelled, activeRun := none } := by
  have hemitted : emittedEvents a.cancel.2 = [.stateChanged a.state.status .cancelled, .completed .cancelled] := by
    have htools : emittedEvents ((Id.sort a.state.pendingTools.keys).map AgentEffect.cancelTool) = [] := by
      refine filterMap_eq_nil_iff.mpr fun e he => ?_
      obtain ⟨callId, -, rfl⟩ := mem_map.mp he
      rfl
    have hchildren : emittedEvents ((Id.sort a.state.children).map AgentEffect.cancelChild) = [] := by
      refine filterMap_eq_nil_iff.mpr fun e he => ?_
      obtain ⟨agentId, -, rfl⟩ := mem_map.mp he
      rfl
    simp only [cancel, hlive, Bool.false_eq_true, if_false, emittedEvents_append, htools, hchildren]
    cases a.state.activeRun with
    | none => rfl
    | some runId =>
      dsimp only
      split <;> rfl
  rw [hemitted]
  have hstatus : a.outline.status = a.state.status := rfl
  simp [Projection.follow, Outline.projection, Outline.note, hstatus]

theorem unseen_setBehaviorProfile (a : Agent) (profile : Value) (library : List Value) (allowCommands : Bool) :
    Unseen a (a.setBehaviorProfile profile library allowCommands).2
      (a.setBehaviorProfile profile library allowCommands).1 := by
  unfold setBehaviorProfile
  dsimp only
  split
  · exact .same rfl
  · split
    · exact .same rfl
    · rename_i hidle
      rcases applySwitch_outline (a.withBehavior (a.state.behavior.withCommandsTrusted allowCommands)) _ _ with
        h | ⟨hactive, -, -⟩
      · exact ⟨h.outline, h.silent⟩
      · exact absurd hactive hidle

theorem tracks_cancel (hidden : ¬ a.HidesChange .cancel) : Tracks a a.cancel.2 a.cancel.1 := by
  cases hlive : a.nothingToCancel with
  | true =>
    simp only [cancel, hlive, if_true]
    exact (Unseen.refl a).tracks
  | false =>
    have hnone : a.state.children = [] ∧ a.state.pendingPermissions = ∅ := by
      by_contra hne
      exact hidden ⟨hlive, by tauto⟩
    refine (follow_cancel hlive).trans (congrArg some ?_)
    rw [cancel_fst hlive]
    simp only [outline, hnone.1, hnone.2]

theorem tracks_of_not_losesTrack (hkeyed : a.Keyed) (h : ¬ a.LosesTrack c) :
    Tracks a (a.apply c).2 (a.apply c).1 := by
  obtain ⟨hreports, hshows⟩ := not_or.mp h
  cases c with
  | startRun input | steer input | followUp input =>
    exact tracks_startOrQueue rfl rfl hreports fun m input hstart hvalid hgo =>
      by_contra fun hne => hshows ⟨m, input, hstart, hvalid, hgo, hne⟩
  | startNextQueuedRun =>
    cases hstart : a.startInput .startNextQueuedRun with
    | some started =>
      obtain ⟨m, input⟩ := started
      exact tracks_start hstart hreports fun hvalid hgo =>
        by_contra fun hne => hshows ⟨m, input, hstart, hvalid, hgo, hne⟩
    | none =>
      have hempty : a.state.queuedInputs = [] := by
        cases hqueue : a.state.queuedInputs with
        | nil => rfl
        | cons input rest => simp [startInput, hqueue] at hstart
      simp only [apply, startNextQueuedRun, hempty]
      exact (Unseen.refl a).tracks
  | backendEvent runId event => exact tracks_backendEvent hkeyed runId event fun hrun hasked => hshows ⟨hrun, hasked⟩
  | toolCompleted callId result => exact tracks_toolCompleted hkeyed callId result
  | toolFailed callId error => exact tracks_toolFailed hkeyed callId error
  | permissionResolved id decision =>
    cases hasked : a.state.pendingPermissions.lookup id with
    | none =>
      simp only [apply, permissionResolved, hasked]
      exact (Unseen.refl a).tracks
    | some callId =>
      have hpending : a.IsPending callId := by
        by_contra hgone
        exact hshows ⟨callId, hasked, .inr hgone⟩
      cases decision with
      | approved => exact absurd ⟨callId, hasked, .inl rfl⟩ hshows
      | denied => exact tracks_denied hkeyed hasked hpending
  | spawnChild spec => exact (Unseen.single rfl rfl).tracks
  | childSpawned agentId awaiting =>
    have hknown : agentId ∈ a.state.children := not_not.mp hshows
    simp only [apply, childSpawned, contains_iff_mem, hknown, if_true]
    split
    · exact (Unseen.refl a).tracks
    · exact .change rfl rfl
  | childCompleted agentId result => exact tracks_childDone agentId .success rfl hshows
  | childFailed agentId error =>
    obtain ⟨hunknown, hsame⟩ := not_or.mp hshows
    refine tracks_childDone agentId .failed ?_ hunknown
    exact congrArg (fun lastError => { a.outline with lastError := lastError }) (not_not.mp hsame).symm
  | cancel => exact tracks_cancel hshows
  | pause =>
    simp only [apply, pause]
    split
    · exact (Unseen.refl a).tracks
    · exact (Unseen.refl a).tracks
    · exact (Unseen.refl a).tracks
    · exact (Unseen.refl a).tracks
    · exact .change rfl rfl
  | resume =>
    simp only [apply, resume]
    split
    · exact (Unseen.refl a).tracks
    · rename_i hpaused
      split
      · rename_i runId hrun
        have hchange : Tracks a [stateChanged .paused .waitingForBackend] (a.withStatus .waitingForBackend) :=
          .change (not_not.mp hpaused) rfl
        exact hchange.trans (Unseen.single rfl rfl).tracks
      · exact .change (not_not.mp hpaused) rfl
  | configureExecution params => exact (Unseen.same rfl).tracks
  | setBehaviorProfile profile library allowCommands =>
    exact (unseen_setBehaviorProfile a profile library allowCommands).tracks
  | completionEvaluated runId attempt verdicts usage => exact a.tracks_completionEvaluated runId attempt verdicts usage

theorem not_tracks_permissionResolved {id : PermissionId} {decision : PermissionDecision} {callId : ToolCallId}
    (hasked : a.state.pendingPermissions.lookup id = some callId)
    (hanswer : decision = .approved ∨ ¬ a.IsPending callId) :
    ¬ Tracks a (a.permissionResolved id decision).2 (a.permissionResolved id decision).1 := by
  have hdiffers : a.state.pendingPermissions ≠ a.state.pendingPermissions.erase id := by
    intro hsame
    rw [hsame, Table.lookup_erase_self] at hasked
    cases hasked
  intro htracks
  cases hp : a.state.pendingTools.lookup callId with
  | none =>
    have hp' : (a.withPendingPermissions (a.state.pendingPermissions.erase id)).state.pendingTools.lookup callId = none :=
      hp
    simp only [permissionResolved, hasked, hp'] at htracks
    exact hdiffers (congrArg Outline.pendingPermissions (Option.some.inj htracks))
  | some pending =>
    obtain rfl : decision = .approved := hanswer.resolve_right (not_not.mpr (by simp [IsPending, hp]))
    have happly := apply_approved hasked hp
    rw [apply] at happly
    rw [happly] at htracks
    simp only [Tracks, emittedEvents, stateChanged, filterMap_cons, filterMap_nil, AgentEffect.emitted?,
      Projection.follow, Outline.projection, Outline.note] at htracks
    split at htracks
    · cases htracks
    · exact hdiffers (congrArg Outline.pendingPermissions (Option.some.inj htracks))

theorem not_tracks_childDone {m : Agent} (agentId : AgentId) (outcome : AgentOutcome)
    (hdiffers : m.state.lastError ≠ a.state.lastError ∨
      m.state.children = a.state.children ∧ agentId ∈ a.state.children) :
    ¬ Tracks a (m.childDone agentId outcome).2 (m.childDone agentId outcome).1 := by
  intro htracks
  have hrest : (m.childDone agentId outcome).1.outline =
      { a.outline with status := (m.childDone agentId outcome).1.state.status } := by
    refine htracks.rest ?_
    unfold childDone
    dsimp only
    split
    · simp [emittedEvents, AgentEffect.emitted?, AgentEvent.stateChange?, ignores_childAgentCompleted]
    · simp [emittedEvents, AgentEffect.emitted?, ignores_childAgentCompleted]
  have hdone : (m.childDone agentId outcome).1.state.children = m.state.children.filter (· != agentId) ∧
      (m.childDone agentId outcome).1.state.lastError = m.state.lastError := by
    unfold childDone
    dsimp only
    split <;> exact ⟨rfl, rfl⟩
  rcases hdiffers with herror | ⟨hsame, hknown⟩
  · exact herror (hdone.2.symm.trans (congrArg Outline.lastError hrest))
  · have hchildren : m.state.children.filter (· != agentId) = a.state.children :=
      hdone.1.symm.trans (congrArg Outline.children hrest)
    rw [← hchildren] at hknown
    simpa using (mem_filter.mp hknown).2

theorem not_tracks_childSpawned {agentId : AgentId} (awaiting : Bool) (hunknown : agentId ∉ a.state.children) :
    ¬ Tracks a (a.childSpawned agentId awaiting).2 (a.childSpawned agentId awaiting).1 := by
  intro htracks
  have hrest : (a.childSpawned agentId awaiting).1.outline =
      { a.outline with status := (a.childSpawned agentId awaiting).1.state.status } := by
    refine htracks.rest ?_
    simp only [childSpawned, contains_iff_mem, hunknown, if_false]
    split <;> simp [emittedEvents, AgentEffect.emitted?, stateChanged, AgentEvent.stateChange?]
  have hadded : (a.childSpawned agentId awaiting).1.state.children = a.state.children ++ [agentId] := by
    simp only [childSpawned, contains_iff_mem, hunknown, if_false]
    split <;> rfl
  have hsame := hadded.symm.trans (congrArg Outline.children hrest)
  exact absurd (congrArg List.length hsame) (by simp [outline])

theorem not_tracks_cancel (hlive : a.nothingToCancel = false)
    (hdropped : a.state.children ≠ [] ∨ a.state.pendingPermissions ≠ ∅) : ¬ Tracks a a.cancel.2 a.cancel.1 := by
  intro htracks
  have hsame := Option.some.inj ((follow_cancel hlive).symm.trans htracks)
  rw [cancel_fst hlive] at hsame
  rcases hdropped with hchildren | hpermissions
  · exact hchildren (congrArg Outline.children hsame)
  · exact hpermissions (congrArg Outline.pendingPermissions hsame)

theorem not_tracks_start {m : Agent} {input : UserInput} (hstart : a.startInput c = some (m, input))
    (hvalid : m.acceptsRun input = true) (hgo : m.takePendingSwitch.1.stoppedAtStart input = false)
    (herror : m.takePendingSwitch.1.state.lastError ≠ none) : ¬ Tracks a (a.apply c).2 (a.apply c).1 := by
  have hm : m.outline = a.outline := by
    obtain ⟨-, rfl⟩ | ⟨rest, -, -, rfl⟩ := startInput_cases hstart
    · rfl
    · rfl
  obtain ⟨hfollow, hkept⟩ := follow_beginRun hgo
  rw [apply_of_startInput hstart, startRun_of_acceptsRun hvalid]
  intro htracks
  have hswitch : Outline.projection.follow a.outline (emittedEvents m.takePendingSwitch.2) =
      some m.takePendingSwitch.1.outline := hm ▸ m.tracks_takePendingSwitch
  rw [Tracks, andThen, emittedEvents_append, Projection.follow_trans hswitch, hfollow] at htracks
  have hsame := congrArg Outline.lastError (Option.some.inj htracks)
  exact herror (hkept.symm.trans hsame.symm)

theorem not_tracks_of_losesTrack (h : a.LosesTrack c) : ¬ Tracks a (a.apply c).2 (a.apply c).1 := by
  rcases h with hmis | hhides
  · exact fun htracks => not_chain_of_misreports hmis _ htracks.chain
  · cases c with
    | permissionResolved id decision =>
      obtain ⟨callId, hasked, hanswer⟩ := hhides
      exact not_tracks_permissionResolved hasked hanswer
    | backendEvent runId event => exact not_tracks_backendEvent hhides.1 hhides.2
    | childSpawned agentId awaiting => exact not_tracks_childSpawned awaiting hhides
    | childCompleted agentId result => exact not_tracks_childDone agentId .success (.inr ⟨rfl, hhides⟩)
    | childFailed agentId error =>
      refine not_tracks_childDone agentId .failed ?_
      rcases hhides with hknown | herror
      · exact .inr ⟨rfl, hknown⟩
      · exact .inl fun hsame => herror hsame.symm
    | cancel => exact not_tracks_cancel hhides.1 hhides.2
    | _ =>
      obtain ⟨m, input, hstart, hvalid, hgo, herror⟩ := hhides
      exact not_tracks_start hstart hvalid hgo herror

theorem tracks_iff (hkeyed : a.Keyed) (c : AgentCommand) :
    Tracks a (a.apply c).2 (a.apply c).1 ↔ ¬ a.LosesTrack c :=
  ⟨fun h hloses => not_tracks_of_losesTrack hloses h, tracks_of_not_losesTrack hkeyed⟩

theorem keyed_of_fresh (hfresh : a.Fresh) : a.Keyed := by
  obtain ⟨id, sessionId, parentId, depth, systemPrompt, capabilities, profile, library, trusted, params, rfl⟩ := hfresh
  intro callId pending hpending
  cases hpending

theorem Keyed.erase {b : Agent} (h : a.Keyed) {callId : ToolCallId}
    (heq : b.state.pendingTools = a.state.pendingTools.erase callId) : b.Keyed := by
  intro id p hp
  rw [heq] at hp
  exact h id p (Table.lookup_of_erase hp).2

end Agent

theorem Decides.pendingTools {runId : RunId} {a b : Agent} (h : Decides runId a es b) :
    b.state.pendingTools = a.state.pendingTools := by
  cases h with
  | finish h => exact h.pendingTools
  | fail h => exact h.pending.1
  | again h => exact h.pendingTools
  | verify h => exact h.pendingTools

open Agent in
theorem Transition.keyed {a b : Agent} {c : AgentCommand} (h : Transition a c es b)
    (hkeyed : a.Keyed) : b.Keyed := by
  have hstart : ∀ {m : Agent} {input : UserInput}, a.startInput c = some (m, input) →
      m.takePendingSwitch.1.state.pendingTools = a.state.pendingTools ∧ m.state.pendingTools = a.state.pendingTools := by
    intro m input hstart
    have hm : m.state.pendingTools = a.state.pendingTools := by
      obtain ⟨-, rfl⟩ | ⟨rest, -, -, rfl⟩ := startInput_cases hstart
      · rfl
      · rfl
    exact ⟨m.moves_takePendingSwitch.pending.1.trans hm, hm⟩
  cases h with
  | quiet h => exact hkeyed.of_pendingTools h.pendingTools
  | queue => exact hkeyed.of_pendingTools rfl
  | reject hm hinvalid hfail =>
    exact hkeyed.of_pendingTools ((congrArg Control.pendingTools hfail.control).trans (hstart hm).2)
  | stop hm hvalid hstop hfail =>
    exact hkeyed.of_pendingTools ((congrArg Control.pendingTools hfail.control).trans (hstart hm).1)
  | start hm hvalid hgo hquiet => exact hkeyed.of_pendingTools (hquiet.pendingTools.trans (hstart hm).1)
  | stream hrun hevent hkept => exact hkeyed.of_pendingTools hkept.pendingTools
  | @refuse _ _ call _ _ hrun h =>
    have herased : b.state.pendingTools = a.state.pendingTools.erase call.id := by
      generalize a.stopsRequest call = stops at h
      cases h with
      | denied h => exact h.moves.pending.1
      | stopped h code message => exact (fail_pendingTools _ code message).trans h.moves.pending.1
    exact hkeyed.erase herased
  | @execute _ _ call call' m _ hrun hadmitted | @ask _ _ call call' m _ hrun hadmitted =>
    intro id p hp
    obtain ⟨q, hq, hcall⟩ := hadmitted.pending
    by_cases hsame : id = call.id
    · subst hsame
      obtain rfl := Option.some.inj (hq.symm.trans hp)
      rw [hcall]
      exact hadmitted.sameId
    · exact hkeyed id p ((hadmitted.others id hsame).symm.trans hp)
  | cutOff hrun hreason h | error hrun h =>
    exact hkeyed.of_pendingTools (congrArg Control.pendingTools h.control)
  | toolUse hrun hreason h => exact hkeyed.of_pendingTools h.moves.pending.1
  | propose hrun hreason h | evaluated hstatus hrun h => exact hkeyed.of_pendingTools h.pendingTools
  | outcome houtcome hpending hgo h | deny hasked hpending h => exact hkeyed.erase h.moves.pending.1
  | halt houtcome hpending hends h => exact hkeyed.erase (congrArg Control.pendingTools h.control)
  | children hchild hto hkept => exact hkeyed.of_pendingTools hkept.pendingTools
  | cancel hlive =>
    rw [cancel_fst hlive]
    intro id p hp
    cases hp
  | drop | approve | pause | wake | reissue => exact hkeyed.of_pendingTools rfl

namespace Agent

variable {a : Agent}

theorem Reachable.keyed (hr : a.Reachable) : a.Keyed := by
  refine Machine.Reachable.invariant ?_ (fun s c h => (s.apply_transition c).keyed h) hr
  exact fun s hfresh => keyed_of_fresh hfresh

end Agent

omit [Externals] in
def AgreesWith (stored live : StoredAgentState) : Prop :=
  stored.status = live.status ∧ stored.activeRun = live.activeRun ∧ stored.lastError = live.lastError ∧
    stored.children = live.children ∧ stored.pendingPermissions = live.pendingPermissions

omit [Externals] in
theorem agreesWith_iff {stored live : StoredAgentState} : AgreesWith stored live ↔ stored.outline = live.outline := by
  simp [AgreesWith, StoredAgentState.outline]

omit [Externals] in
def ReplayAgrees (snapshot : DurableSessionSnapshot) (events : List DurableSessionEvent) (live : StoredAgentState) :
    Prop :=
  ∃ restored agent, Replay.replaySnapshot snapshot events = .ok restored ∧ restored.agents = [agent] ∧
    AgreesWith agent live

namespace AgentRunner

def appended : Projection Outline Append := Outline.projection.comap (·.event.envelope.event)

def checkpoint (r : AgentRunner) (atSequence : Nat) (now : Timestamp) : DurableSessionSnapshot :=
  buildSnapshot r.agent.sessionId r.agent.id [storedAgentState r.agent] atSequence now

variable {stamp : Nat → Stamp} {r : AgentRunner}

theorem filed_emit (r : AgentRunner) (event : AgentEvent) :
    ∀ p ∈ (r.emit stamp event).2.1, Filed r.agent.id p.event := by
  unfold emit SessionCommitter.commit
  intro p hp
  dsimp only [envelope] at hp
  split at hp
  · exact absurd hp not_mem_nil
  · exact absurd hp not_mem_nil
  · rename_i committer enveloped event' due hcommit
    obtain rfl := mem_singleton.mp hp
    split at hcommit
    · cases hcommit
    · split at hcommit
      · simp only [Except.ok.injEq, Prod.mk.injEq, Option.some.injEq] at hcommit
        obtain ⟨-, -, rfl, -⟩ := hcommit
        exact ⟨rfl, by simp⟩
      · simp at hcommit

theorem filed_dispatchEffects (r : AgentRunner) (es : List AgentEffect) (hreal : ∀ i, (stamp i).eventId.uuid ≠ 0) :
    ∀ p ∈ (r.dispatchEffects stamp es).2, Filed r.agent.id p.event := by
  induction es generalizing r with
  | nil => exact fun p hp => absurd hp not_mem_nil
  | cons e es ih =>
    cases e with
    | emit event =>
      have hfiled : ∀ p ∈ (r.emit stamp event).2.1, Filed r.agent.id p.event := r.filed_emit event
      obtain ⟨hcommitted, hwrites⟩ := r.writes_emit event (hreal _)
      rcases hemit : r.emit stamp event with ⟨m, appends, committed⟩
      rw [hemit] at hcommitted hwrites hfiled
      cases hcommitted
      simp only [dispatchEffects, hemit]
      refine forall_mem_append.mpr ⟨hfiled, ?_⟩
      rw [← hwrites.agent]
      exact ih m
    | executeBackend request =>
      have hwrites := r.writes_executeBackend request hreal
      simp only [dispatchEffects, map_eq_nil_iff.mp hwrites.events, nil_append]
      rw [← hwrites.agent]
      exact ih _
    | _ => exact ih r

theorem filed_output (hreal : ∀ i, (stamp i).eventId.uuid ≠ 0) (hrunning : r.fatalError = false) (cs : List AgentCommand) :
    ∀ p ∈ (session stamp).output r cs, Filed r.agent.id p.event := by
  induction cs generalizing r with
  | nil => exact fun p hp => absurd hp not_mem_nil
  | cons c cs ih =>
    have hadvances := advances hreal hrunning c
    have hid : ((session stamp).step r c).1.agent.id = r.agent.id := by
      rw [hadvances.agent]
      exact (r.agent.apply_transition c).aligned.id
    rw [Machine.output, Machine.trace_cons, flatMap_cons]
    refine forall_mem_append.mpr ⟨?_, ?_⟩
    · have hfiled := filed_dispatchEffects { r with agent := (r.agent.apply c).1 } (r.agent.apply c).2 hreal
      have hout : ((session stamp).stepAt r c).out =
          (dispatchEffects stamp { r with agent := (r.agent.apply c).1 } (r.agent.apply c).2).2 := by
        simp [Machine.stepAt, session, handleCommand, hrunning]
      rw [hout, ← (r.agent.apply_transition c).aligned.id]
      exact hfiled
    · rw [← hid]
      exact ih hadvances.running

theorem tracks_stepAt_iff (hreal : ∀ i, (stamp i).eventId.uuid ≠ 0) (hrunning : r.fatalError = false)
    (hr : r.agent.Reachable) (c : AgentCommand) :
    appended.Tracks (fun r => r.agent.outline) ((session stamp).stepAt r c) ↔ ¬ r.agent.LosesTrack c := by
  have hadvances := advances hreal hrunning c
  have hevents := (writes_handleCommand hrunning c hreal).events
  rw [← Agent.tracks_iff hr.keyed c]
  unfold Projection.Tracks appended
  rw [Projection.follow_comap]
  show Outline.projection.follow r.agent.outline (((session stamp).step r c).2.map (·.event.envelope.event)) =
    some ((session stamp).step r c).1.agent.outline ↔ _
  rw [hadvances.agent, show ((session stamp).step r c).2.map (·.event.envelope.event) = _ from hevents, durableEvents,
    Projection.follow_filter ignores_of_not_durable]
  rfl

theorem replayAgrees_iff (hreal : ∀ i, (stamp i).eventId.uuid ≠ 0) (hrunning : r.fatalError = false)
    (cs : List AgentCommand) (atSequence : Nat) (now : Timestamp) :
    ReplayAgrees (r.checkpoint atSequence now) (((session stamp).output r cs).map (·.event))
        (storedAgentState ((session stamp).run r cs).agent) ↔
      appended.follow r.agent.outline ((session stamp).output r cs) = some ((session stamp).run r cs).agent.outline := by
  have hfiled : ∀ event ∈ ((session stamp).output r cs).map (·.event), Filed r.agent.id event := by
    intro event hevent
    obtain ⟨p, hp, rfl⟩ := mem_map.mp hevent
    exact filed_output hreal hrunning cs p hp
  have hagents : (r.checkpoint atSequence now).agents = [storedAgentState r.agent] := rfl
  have hreplay := Replay.replaySnapshot_outline hfiled hagents rfl ((session stamp).run r cs).agent.outline
  rw [map_map] at hreplay
  rw [appended, Projection.follow_comap]
  simp only [ReplayAgrees, agreesWith_iff]
  exact hreplay

/-- From every checkpoint between two commands, the events appended up to every later point bring the agent to
    agree with the live one exactly when no command of the run loses track. -/
theorem replay_agrees_iff (hreal : ∀ i, (stamp i).eventId.uuid ≠ 0) (hfresh : r.agent.Fresh)
    (hrunning : r.fatalError = false) (cs : List AgentCommand) :
    (∀ early middle late, cs = early ++ (middle ++ late) → ∀ atSequence now,
      ReplayAgrees (((session stamp).run r early).checkpoint atSequence now)
        (((session stamp).output ((session stamp).run r early) middle).map (·.event))
        (storedAgentState ((session stamp).run ((session stamp).run r early) middle).agent)) ↔
      ∀ st ∈ (session stamp).trace r cs, ¬ st.pre.agent.LosesTrack st.input := by
  have hr : r.agent.Reachable := .start hfresh
  have hsteps : ∀ st ∈ (session stamp).trace r cs,
      appended.Tracks (fun r => r.agent.outline) st ↔ ¬ st.pre.agent.LosesTrack st.input := by
    refine Machine.trace_invariant (P := fun r => r.fatalError = false ∧ r.agent.Reachable) ?_ ⟨hrunning, hr⟩
    rintro r c ⟨hrunning, hr⟩
    have hadvances := advances hreal hrunning c
    refine ⟨⟨hadvances.running, ?_⟩, tracks_stepAt_iff hreal hrunning hr c⟩
    rw [hadvances.agent]
    exact hr.step c
  rw [← forall₂_congr hsteps, ← Projection.follow_output_iff]
  refine forall₄_congr fun early middle late heq => ?_
  obtain ⟨hrunning', -⟩ := running_run hreal hrunning hr early
  have hreplay := replayAgrees_iff hreal hrunning' middle
  exact ⟨fun h => (hreplay 0 (.fromSequence 0)).mp (h 0 (.fromSequence 0)),
    fun h atSequence now => (hreplay atSequence now).mpr h⟩

end AgentRunner

end

section

open Sample Agent AgentRunner

def Sample.askingRunner : AgentRunner where
  agent := agent .ask defaultProfile
  committer := ⟨0, defaultSnapshotEvery, 0⟩

theorem replay_agrees_iff_prompt : (∀ i, (stamps i).eventId.uuid ≠ 0) ∧ askingRunner.agent.Fresh ∧ askingRunner.fatalError = false ∧
    ((∀ early middle late, [prompt, requests 5] = early ++ (middle ++ late) → ∀ atSequence now,
      ReplayAgrees (((session stamps).run askingRunner early).checkpoint atSequence now)
        (((session stamps).output ((session stamps).run askingRunner early) middle).map (·.event))
        (storedAgentState ((session stamps).run ((session stamps).run askingRunner early) middle).agent)) ↔
      ∀ st ∈ (session stamps).trace askingRunner [prompt, requests 5], ¬ st.pre.agent.LosesTrack st.input) :=
  ⟨stamps_real, fresh_agent .ask defaultProfile, rfl,
    replay_agrees_iff stamps_real (fresh_agent .ask defaultProfile) rfl [prompt, requests 5]⟩

set_option maxRecDepth 4096 in
/-- The user approves a call after the checkpoint; the replay still shows the question. -/
theorem replay_keeps_resolved_question : (∀ i, (stamps i).eventId.uuid ≠ 0) ∧ askingRunner.agent.Fresh ∧
    ¬ ∀ atSequence now,
      ReplayAgrees (((session stamps).run askingRunner [prompt, requests 5]).checkpoint atSequence now)
        (((session stamps).output ((session stamps).run askingRunner [prompt, requests 5])
          [.permissionResolved (.derived 7 7 4) .approved]).map (·.event))
        (storedAgentState ((session stamps).run ((session stamps).run askingRunner [prompt, requests 5])
          [.permissionResolved (.derived 7 7 4) .approved]).agent) := by
  refine ⟨stamps_real, fresh_agent .ask defaultProfile, fun hagrees => ?_⟩
  have hfollow := (replayAgrees_iff stamps_real rfl _ 0 (.fromSequence 0)).mp (hagrees 0 (.fromSequence 0))
  have hquestion := congrArg (fun o => o.map fun o => (o.pendingPermissions.lookup (.derived 7 7 4)).isSome) hfollow
  exact absurd hquestion (by decide)

end

end RustyCore
