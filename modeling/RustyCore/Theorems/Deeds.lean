import RustyCore.Theorems.Allowance

/-! The holdings of an agent: its profile, library and pending switch, its usage counters, the inputs that wait and the
    user's part of the transcript. Most of what the reducer does leaves the holdings alone; what does not is one of a few
    deeds, each with what it does to the holdings and what it announces. An operation is a sequence of deeds. -/

namespace RustyCore

open List

namespace AgentEffect

def isFinish : AgentEffect → Bool
  | .finishRun _ => true
  | _ => false

def isAnswer : AgentEffect → Bool
  | .emit (.toolCallCompleted _ _) => true
  | _ => false

def isPlain (e : AgentEffect) : Bool := !e.isFinish && !e.isAnswer && !e.isSwitch

end AgentEffect

def Uncounted (es : List AgentEffect) : Prop := ∀ e ∈ es, e.isPlain = true

theorem Uncounted.nil : Uncounted [] := fun _ h => absurd h not_mem_nil

theorem Uncounted.single {e : AgentEffect} (h : e.isPlain = true) : Uncounted [e] := by
  intro x hx
  rwa [mem_singleton.mp hx]

theorem Uncounted.append {es fs : List AgentEffect} (h : Uncounted es) (h' : Uncounted fs) : Uncounted (es ++ fs) :=
  forall_mem_append.mpr ⟨h, h'⟩

section

variable [Externals]

structure Holdings where
  profile : CompiledProfile
  library : ProfileRegistry
  pending : Option (CompiledProfile × ProfileRegistry)
  runs : Nat
  toolCalls : Nat
  queue : List UserInput
  /-- The user's messages in the transcript. -/
  users : List AgentMessage

def isUser (message : AgentMessage) : Bool := message.role == .user

def Agent.holdings (a : Agent) : Holdings where
  profile := a.state.behavior.profile
  library := a.state.behavior.library
  pending := a.state.pendingProfile
  runs := a.usage.runs
  toolCalls := a.usage.toolCalls
  queue := a.state.queuedInputs
  users := a.state.messages.filter isUser

def IsFeedback (content : List ContentBlock) : Prop :=
  ∃ source text, content = [.text (Rules.systemReminder ("gate:" ++ source) text)]

/-- A deed: what it opens runs with, what it announces, what it does to the holdings. `B` are the bundles that are
    brought. -/
inductive Deed (B : CompiledProfile → ProfileRegistry → Prop) :
    List UserInput → Agent → List AgentEffect → Agent → Prop
  | plain {a b es} (h : b.holdings = a.holdings) (he : Uncounted es) : Deed B [] a es b
  /-- Text is added to the user's last message. -/
  | amends {a b} (before : List AgentMessage) (message : AgentMessage) (text : String)
      (h : a.holdings.users = before ++ [message])
      (h' : b.holdings = { a.holdings with users := before ++ [{ message with content := message.content ++ [.text text] }] }) :
    Deed B [] a [] b
  /-- The gate's feedback is put in the transcript as the user's message. -/
  | tells {a b} (message : AgentMessage) (hcontent : IsFeedback message.content)
      (h : b.holdings = { a.holdings with users := a.holdings.users ++ [message] }) :
      Deed B [] a [] b
  | opens {a b} (input : UserInput) (message : AgentMessage) (hcontent : message.content = Agent.userContent input)
      (h : b.holdings = { a.holdings with users := a.holdings.users ++ [message] }) :
      Deed B [input] a [] b
  /-- A rule's switch waits. -/
  | pends {a b} (target : ProfileRef) (next : CompiledProfile) (hnamed : target ∈ a.holdings.profile.switchTargets)
      (hresolve : a.holdings.library.resolve target = .ok next)
      (h : b.holdings = { a.holdings with pending := some (next, a.holdings.library) }) :
      Deed B [] a [] b
  /-- A bundle waits. -/
  | brings {a b} (next : CompiledProfile) (library : ProfileRegistry) (hbundle : B next library)
      (h : b.holdings = { a.holdings with pending := some (next, library) }) : Deed B [] a [] b
  /-- What waited, or a bundle that need not wait, brings a library for the profile that is active. -/
  | refreshes {a b} (next : CompiledProfile) (library : ProfileRegistry)
      (hsource : (a.holdings.pending = some (next, library) ∧ b.holdings.pending = none) ∨ (b.holdings.pending = a.holdings.pending ∧ B next library))
      (hsame : a.holdings.profile.contentHash = next.contentHash)
      (h : b.holdings = { a.holdings with library := library, pending := b.holdings.pending }) :
      Deed B [] a [] b
  /-- Or it brings another profile. -/
  | switches {a b} (next : CompiledProfile) (library : ProfileRegistry) (from_ : String)
      (hsource : (a.holdings.pending = some (next, library) ∧ b.holdings.pending = none) ∨ (b.holdings.pending = a.holdings.pending ∧ B next library))
      (hother : a.holdings.profile.contentHash ≠ next.contentHash)
      (h : b.holdings = { a.holdings with profile := next, library := library, pending := b.holdings.pending }) :
    Deed B [] a [.emit (.profileChanged from_ next.reference.display)] b
  | finishes {a b} (before after : List AgentEffect) (result : AgentResult) (hbefore : Uncounted before)
      (hafter : Uncounted after) (h : b.holdings = { a.holdings with runs := saturatingAdd a.holdings.runs 1 }) :
    Deed B [] a (before ++ .finishRun result :: after) b
  | answers {a b} (before : List AgentEffect) (callId : ToolCallId) (result : ToolResultSummary)
      (hbefore : Uncounted before)
      (h : b.holdings = { a.holdings with toolCalls := saturatingAdd a.holdings.toolCalls 1 }) :
    Deed B [] a (before ++ [.emit (.toolCallCompleted callId result)]) b

inductive Deeds (B : CompiledProfile → ProfileRegistry → Prop) :
    List UserInput → Agent → List AgentEffect → Agent → Prop
  | refl (a : Agent) : Deeds B [] a [] a
  | step {opened opened' : List UserInput} {a b c : Agent} {es fs : List AgentEffect} (h : Deed B opened a es b)
    (h' : Deeds B opened' b fs c) : Deeds B (opened ++ opened') a (es ++ fs) c

variable {B : CompiledProfile → ProfileRegistry → Prop} {a b c : Agent} {es fs : List AgentEffect}
  {opened opened' : List UserInput}

theorem Deed.deeds (h : Deed B opened a es b) : Deeds B opened a es b := by
  have hone := Deeds.step h (.refl b)
  rwa [append_nil, append_nil] at hone

namespace Deeds

theorem trans (h : Deeds B opened a es b) (h' : Deeds B opened' b fs c) : Deeds B (opened ++ opened') a (es ++ fs) c := by
  induction h with
  | refl a => exact h'
  | step hfirst _ ih =>
    rw [append_assoc, append_assoc]
    exact .step hfirst (ih h')

theorem then_ (h : Deeds B [] a es b) (h' : Deeds B [] b fs c) : Deeds B [] a (es ++ fs) c := h.trans h'

theorem plain (h : b.holdings = a.holdings) (he : Uncounted es) : Deeds B [] a es b := (Deed.plain h he).deeds

theorem same (h : b.holdings = a.holdings) : Deeds B [] a [] b := plain h .nil

theorem announce (a : Agent) (he : Uncounted es) : Deeds B [] a es a := plain rfl he

theorem keep (h : b.holdings = a.holdings) (h' : Deeds B opened b es c) : Deeds B opened a es c := (same h).trans h'

theorem kept (h' : Deeds B opened b es c) (h : b.holdings = a.holdings) : Deeds B opened a es c := keep h h'

theorem keeps (h : Deeds B [] a es b) (h' : c.holdings = b.holdings) : Deeds B [] a es c := by
  have hboth := h.then_ (same h')
  rwa [append_nil] at hboth

theorem andThen {r : Agent × List AgentEffect} {next : Agent → Agent × List AgentEffect} (h : Deeds B [] a r.2 r.1)
    (h' : Deeds B [] r.1 (next r.1).2 (next r.1).1) : Deeds B [] a (Agent.andThen r next).2 (Agent.andThen r next).1 :=
  h.then_ h'

theorem profile_of_silent (h : Deeds B opened a [] b) : b.holdings.profile = a.holdings.profile := by
  generalize hes : ([] : List AgentEffect) = es at h
  induction h with
  | refl a => rfl
  | step hfirst _ ih =>
    obtain ⟨hfirstNil, hrestNil⟩ := append_eq_nil_iff.mp hes.symm
    rw [ih hrestNil.symm]
    cases hfirst with
    | plain h | tells _ _ h | opens _ _ _ h | pends _ _ _ _ h | brings _ _ _ h | refreshes _ _ _ _ h => rw [h]
    | amends _ _ _ _ h => rw [h]
    | switches | finishes | answers => simp at hfirstNil

theorem silent (h : Deeds B opened a es b) (he : Uncounted es) : Deeds B opened a [] b := by
  induction h with
  | refl a => exact .refl a
  | step hfirst _ ih =>
    obtain ⟨hes, hfs⟩ := forall_mem_append.mp he
    have hrest := ih hfs
    cases hfirst with
    | plain h _ => exact .keep h hrest
    | amends before message text h h' => exact .step (.amends before message text h h') hrest
    | tells message hcontent h => exact .step (.tells message hcontent h) hrest
    | opens input message hcontent h => exact .step (.opens input message hcontent h) hrest
    | pends target next hnamed hresolve h => exact .step (.pends target next hnamed hresolve h) hrest
    | brings next library hbundle h => exact .step (.brings next library hbundle h) hrest
    | refreshes next library hsource hsame h => exact .step (.refreshes next library hsource hsame h) hrest
    | switches next library from_ _ _ _ => cases hes _ mem_cons_self
    | finishes before after result _ _ _ => cases hes (.finishRun result) (by simp)
    | answers before callId result _ _ => cases hes (.emit (.toolCallCompleted callId result)) (by simp)

end Deeds

structure Bundled (R : CompiledProfile → ProfileRegistry → Prop) (held : Holdings) : Prop where
  active : R held.profile held.library
  pending : ∀ next library, held.pending = some (next, library) → R next library

/-- Deeds keep such a relation when it goes over to the profiles that the active one names and to another library of a
    profile with the same hash, and the bundles that are brought are in it. -/
structure Conveys (R B : CompiledProfile → ProfileRegistry → Prop) : Prop where
  named : ∀ {profile next library target}, R profile library → target ∈ profile.switchTargets →
    library.resolve target = .ok next → R next library
  refreshed : ∀ {profile next library library'}, R profile library → R next library' →
    profile.contentHash = next.contentHash → R profile library'
  brought : ∀ {next library}, B next library → R next library

variable {R : CompiledProfile → ProfileRegistry → Prop}

theorem Deed.bundled (h : Deed B opened a es b) (hR : Conveys R B) (ha : Bundled R a.holdings) : Bundled R b.holdings := by
  have hsource {next : CompiledProfile} {library : ProfileRegistry}
      (h : (a.holdings.pending = some (next, library) ∧ b.holdings.pending = none) ∨
        (b.holdings.pending = a.holdings.pending ∧ B next library)) : R next library ∧
        ∀ next library, b.holdings.pending = some (next, library) → R next library := by
    rcases h with ⟨hpending, hnone⟩ | ⟨hsame, hbrought⟩
    · refine ⟨ha.pending next library hpending, fun next library h => ?_⟩
      rw [hnone] at h
      cases h
    · exact ⟨hR.brought hbrought, fun next library h => ha.pending next library (hsame ▸ h)⟩
  cases h with
  | plain h | tells _ _ h | opens _ _ _ h | finishes _ _ _ _ _ h | answers _ _ _ _ h | amends _ _ _ _ h =>
    rw [h]
    exact ⟨ha.active, ha.pending⟩
  | pends target next hnamed hresolve h =>
    rw [h]
    refine ⟨ha.active, ?_⟩
    rintro next' library' ⟨⟩
    exact hR.named ha.active hnamed hresolve
  | brings next library hbrought h =>
    rw [h]
    refine ⟨ha.active, ?_⟩
    rintro next' library' ⟨⟩
    exact hR.brought hbrought
  | refreshes next library hfrom hsame h =>
    obtain ⟨hnext, hpending⟩ := hsource hfrom
    rw [h]
    exact ⟨hR.refreshed ha.active hnext hsame, hpending⟩
  | switches next library from_ hfrom _ h =>
    obtain ⟨hnext, hpending⟩ := hsource hfrom
    rw [h]
    exact ⟨hnext, hpending⟩

theorem Deeds.bundled (h : Deeds B opened a es b) (hR : Conveys R B) (ha : Bundled R a.holdings) :
    Bundled R b.holdings := by
  induction h with
  | refl a => exact ha
  | step hfirst _ ih => exact ih (hfirst.bundled hR ha)

def AgentCommand.Installs (next : CompiledProfile) (library : ProfileRegistry) : AgentCommand → Prop
  | .setBehaviorProfile profile documents _ => installBundle profile documents = some (next, library)
  | _ => False

namespace Agent

theorem holdings_pushMessage (a : Agent) {role : MessageRole} (content : List ContentBlock) (h : role ≠ .user) :
    (a.pushMessage role content).1.holdings = a.holdings := by
  have husers : (a.pushMessage role content).1.state.messages.filter isUser = a.state.messages.filter isUser := by
    simp [pushMessage, withMessages, nextMessageId, nextTimestamp, takeSequence, isUser, h]
  simp only [holdings, husers]
  rfl

theorem pushMessage_user (a : Agent) (content : List ContentBlock) :
    ∃ message : AgentMessage, message.content = content ∧
      (a.pushMessage .user content).1.holdings = { a.holdings with users := a.holdings.users ++ [message] } := by
  refine ⟨⟨(a.nextMessageId).2, .user, content, (a.nextMessageId).1.nextTimestamp.2⟩, rfl, ?_⟩
  have husers : (a.pushMessage .user content).1.state.messages.filter isUser =
      a.state.messages.filter isUser ++ [⟨(a.nextMessageId).2, .user, content, (a.nextMessageId).1.nextTimestamp.2⟩] := by
    simp [pushMessage, withMessages, nextMessageId, nextTimestamp, takeSequence, isUser]
  simp only [holdings, husers]
  rfl

theorem holdings_setTrailingMessage {a : Agent} {message message' : AgentMessage}
    (h : a.trailingAssistantMessage = some message) (h' : message'.role = message.role) :
    (a.setTrailingMessage message').holdings = a.holdings := by
  obtain ⟨hlast, hrole⟩ : a.state.messages.getLast? = some message ∧ message.role = .assistant := by
    simpa [trailingAssistantMessage, Option.filter_eq_some_iff] using h
  have hmessages : a.state.messages = a.state.messages.dropLast ++ [message] :=
    (dropLast_append_getLast? message hlast).symm
  have husers : (a.state.messages.dropLast ++ [message']).filter isUser = a.state.messages.filter isUser := by
    rw [hmessages]
    simp [isUser, h', hrole]
  simp only [setTrailingMessage, withMessages, holdings, husers]

theorem holdings_discardTrailing (a : Agent) : a.discardTrailingEmptyAssistantMessage.holdings = a.holdings := by
  unfold discardTrailingEmptyAssistantMessage
  split
  · rename_i hempty
    obtain ⟨message, htrailing⟩ : ∃ message, a.trailingAssistantMessage = some message := by
      cases htrailing : a.trailingAssistantMessage with
      | none => simp [htrailing] at hempty
      | some message => exact ⟨message, rfl⟩
    obtain ⟨hlast, hrole⟩ : a.state.messages.getLast? = some message ∧ message.role = .assistant := by
      simpa [trailingAssistantMessage, Option.filter_eq_some_iff] using htrailing
    have hmessages : a.state.messages = a.state.messages.dropLast ++ [message] :=
      (dropLast_append_getLast? message hlast).symm
    have husers : a.state.messages.dropLast.filter isUser = a.state.messages.filter isUser := by
      conv_rhs => rw [hmessages]
      simp [isUser, hrole]
    simp only [withMessages, holdings, husers]
  · rfl

theorem holdings_appendAssistantText (a : Agent) (delta : String) : (a.appendAssistantText delta).1.holdings = a.holdings := by
  unfold appendAssistantText
  dsimp only
  split
  · exact a.holdings_pushMessage _ (by simp)
  · rename_i message htrailing
    split
    · exact holdings_setTrailingMessage htrailing rfl
    · split
      · exact a.holdings_pushMessage _ (by simp)
      · exact holdings_setTrailingMessage htrailing rfl

theorem holdings_assistantMessageId (a : Agent) : a.assistantMessageId.1.holdings = a.holdings := by
  unfold assistantMessageId
  split
  · rfl
  · exact a.holdings_pushMessage _ (by simp)

theorem holdings_pushToolUse (a : Agent) (call : ToolCall) : (a.pushToolUse call).1.holdings = a.holdings := by
  unfold pushToolUse
  split
  · rename_i message htrailing
    split
    · exact holdings_setTrailingMessage htrailing rfl
    · exact a.holdings_pushMessage _ (by simp)
  · exact a.holdings_pushMessage _ (by simp)

theorem deeds_fail (a : Agent) (code message : String) : Deeds B [] a (a.fail code message).2 (a.fail code message).1 := by
  refine .keep a.holdings_discardTrailing (Deed.finishes [stateChanged _ _, .emit _] [] _ ?_ .nil rfl).deeds
  exact (Uncounted.single rfl).append (Uncounted.single rfl)

theorem deeds_behaviorStop (a : Agent) (stop : RuleStop) : Deeds B [] a (a.behaviorStop stop).2 (a.behaviorStop stop).1 :=
  a.deeds_fail _ _

theorem deeds_placeInjection (a : Agent) (injection : Injection) (callId : Option ToolCallId) :
    Deeds B [] a [] (a.placeInjection injection callId) := by
  unfold placeInjection
  split
  · exact .same rfl
  · split
    · rename_i message hlast
      obtain ⟨hlast, hrole⟩ : a.state.messages.getLast? = some message ∧ message.role = .user := by
        simpa [Option.filter_eq_some_iff] using hlast
      have hmessages : a.state.messages = a.state.messages.dropLast ++ [message] :=
        (dropLast_append_getLast? message hlast).symm
      have husers : a.state.messages.filter isUser = a.state.messages.dropLast.filter isUser ++ [message] := by
        conv_lhs => rw [hmessages]
        simp [isUser, hrole]
      refine (Deed.amends _ message injection.text husers ?_).deeds
      simp [setTrailingMessage, withMessages, holdings, isUser, hrole]
    · exact .refl a
  · exact .same rfl

theorem deeds_placeInjections (injections : List Injection) (callId : Option ToolCallId) (a : Agent) :
    Deeds B [] a [] (injections.foldl (fun a injection => a.placeInjection injection callId) a) := by
  induction injections generalizing a with
  | nil => exact .refl a
  | cons injection rest ih => exact (a.deeds_placeInjection injection callId).then_ (ih _)

def NamesOwn (a : Agent) (outcome : RuleOutcome) : Prop :=
  ∀ ruleId target, outcome.switch = some (ruleId, target) → target ∈ a.holdings.profile.switchTargets

theorem deeds_requestSwitch (a : Agent) (outcome : RuleOutcome) (hasks : a.NamesOwn outcome) :
    Deeds B [] a [] (a.requestSwitch outcome) := by
  unfold requestSwitch
  split
  · exact .refl a
  · rename_i ruleId target hswitch
    split
    · rename_i next hresolve
      refine (Deed.pends target next (hasks ruleId target hswitch) ?_ rfl).deeds
      unfold BehaviorState.resolveSwitch at hresolve
      revert hresolve
      cases hlookup : a.state.behavior.library.resolve target with
      | error e => exact fun h => by cases h
      | ok found =>
        intro h
        cases h
        exact hlookup
    · exact .refl a

theorem plain_applyRuleOutcome (a : Agent) (outcome : RuleOutcome) (callId : Option ToolCallId) :
    Uncounted (a.applyRuleOutcome outcome callId).2 := by
  intro e he
  rcases mem_append.mp he with he | he
  · obtain ⟨fired, -, rfl⟩ := mem_map.mp he
    rfl
  · obtain ⟨injection, -, rfl⟩ := mem_map.mp he
    rfl

theorem deeds_applyRuleOutcome (a : Agent) (outcome : RuleOutcome) (callId : Option ToolCallId)
    (hasks : a.NamesOwn outcome) : Deeds B [] a (a.applyRuleOutcome outcome callId).2 (a.applyRuleOutcome outcome callId).1 := by
  have hplaced : Deeds B [] a [] _ := deeds_placeInjections outcome.injections callId a
  have hasks' : NamesOwn (outcome.injections.foldl (fun a injection => a.placeInjection injection callId) a) outcome := by
    intro ruleId target hswitch
    rw [hplaced.profile_of_silent]
    exact hasks ruleId target hswitch
  exact hplaced.then_ ((deeds_requestSwitch _ outcome hasks').then_ (.announce _ (plain_applyRuleOutcome a outcome callId)))

theorem evaluateRules_switch (event : RuleEvent) (tool : Option ToolEvent) (reference : ProfileRef)
    (targets : List ProfileRef) (rules : List Rule) (b : BehaviorState) (outcome : RuleOutcome)
    (hrules : ∀ rule ∈ rules, ∀ target, rule.action = .switchProfile target → target ∈ targets)
    (houtcome : ∀ ruleId target, outcome.switch = some (ruleId, target) → target ∈ targets) (ruleId : String)
    (target : ProfileRef)
    (h : (BehaviorState.evaluateRules event tool reference rules b outcome).2.switch = some (ruleId, target)) :
    target ∈ targets := by
  induction rules generalizing b outcome with
  | nil => exact houtcome ruleId target h
  | cons rule rest ih =>
    obtain ⟨hrule, hrest⟩ := forall_mem_cons.mp hrules
    have hnext (fired : RuleOutcome) (hfired : fired.switch = outcome.switch) (ruleId : String) (target : ProfileRef)
        (hswitch : (fired.applyAction rule event reference).switch = some (ruleId, target)) : target ∈ targets := by
      unfold RuleOutcome.applyAction at hswitch
      split at hswitch
      case h_6 haction =>
        cases hswitch
        exact hrule target haction
      all_goals exact houtcome ruleId target (hfired ▸ hswitch)
    simp only [BehaviorState.evaluateRules] at h
    split at h
    · split at h
      · exact hnext { outcome with fired := outcome.fired ++ [_] } rfl ruleId target h
      · exact ih _ _ hrest (hnext { outcome with fired := outcome.fired ++ [_] } rfl) h
    · exact ih _ _ hrest houtcome h

theorem asks_evaluate (a : Agent) (event : RuleEvent) (tool : Option ToolEvent) :
    a.NamesOwn (a.state.behavior.evaluate event tool).2 := by
  intro ruleId target hswitch
  refine evaluateRules_switch event tool _ _ _ _ _ (fun rule hrule target haction => ?_) (fun _ _ hnone => ?_) ruleId
    target hswitch
  · refine mem_filterMap.mpr ⟨rule, mem_of_mem_filter hrule, ?_⟩
    rw [haction]
  · cases hnone

theorem holdings_evaluate (a : Agent) (event : RuleEvent) (tool : Option ToolEvent) :
    (a.withBehavior (a.state.behavior.evaluate event tool).1).holdings = a.holdings := by
  obtain ⟨fired, h⟩ := a.state.behavior.evaluate_frame event tool
  rw [h]
  rfl

theorem asks_evaluateEntered (a : Agent) (from_ : String) : a.NamesOwn (a.state.behavior.evaluateEntered from_).2 :=
  (a.withBehavior { a.state.behavior with run.enteredFrom := some from_ }).asks_evaluate .profileEntered none

theorem holdings_evaluateEntered (a : Agent) (from_ : String) :
    (a.withBehavior (a.state.behavior.evaluateEntered from_).1).holdings = a.holdings := by
  obtain ⟨fired, h⟩ := BehaviorState.evaluate_frame { a.state.behavior with run.enteredFrom := some from_ }
    .profileEntered none
  simp only [BehaviorState.evaluateEntered, h]
  rfl

theorem deeds_runRules (a : Agent) (event : RuleEvent) (tool : Option ToolEvent) (callId : Option ToolCallId) :
    Deeds B [] a (a.runRules event tool callId).2.1 (a.runRules event tool callId).1 := by
  refine .keep (a.holdings_evaluate event tool) (deeds_applyRuleOutcome _ _ callId fun ruleId target hswitch => ?_)
  rw [holdings_evaluate]
  exact a.asks_evaluate event tool ruleId target hswitch

theorem deeds_applySwitch {a m : Agent} (profile : CompiledProfile) (library : ProfileRegistry)
    (hheld : m.holdings = { a.holdings with pending := m.holdings.pending })
    (hsource : (a.holdings.pending = some (profile, library) ∧ m.holdings.pending = none) ∨
      (m.holdings.pending = a.holdings.pending ∧ B profile library)) :
    Deeds B [] a (m.applySwitch profile library).2 (m.applySwitch profile library).1 := by
  have hprofile : m.state.behavior.profile = a.holdings.profile := congrArg Holdings.profile hheld
  unfold applySwitch
  dsimp only
  split
  · rename_i hsame
    refine (Deed.refreshes (b := m.withBehavior (m.state.behavior.withLibrary library)) profile library hsource
      (hprofile ▸ hsame) ?_).deeds
    exact congrArg (fun holdings => { holdings with library := library }) hheld
  · rename_i hother
    have hswitch : Deeds B [] a [.emit (.profileChanged m.state.behavior.reference.display
        (m.withBehavior (m.state.behavior.switchedTo profile library)).state.behavior.reference.display)]
        (m.withBehavior (m.state.behavior.switchedTo profile library)) := by
      refine (Deed.switches (b := m.withBehavior (m.state.behavior.switchedTo profile library)) profile library _ hsource
        (hprofile ▸ hother) ?_).deeds
      exact congrArg (fun holdings => { holdings with profile := profile, library := library }) hheld
    split
    · exact hswitch.andThen (deeds_fail _ _ _)
    · exact hswitch

theorem deeds_takePendingSwitch (a : Agent) : Deeds B [] a a.takePendingSwitch.2 a.takePendingSwitch.1 := by
  unfold takePendingSwitch
  split
  · rename_i profile library hpending
    exact deeds_applySwitch profile library rfl (.inl ⟨hpending, rfl⟩)
  · exact .refl a

theorem takePendingSwitch_anew (a : Agent) : a.takePendingSwitch.2 = [] ∨ a.takePendingSwitch.1.meter.finalTurn = false := by
  unfold takePendingSwitch
  split
  · rename_i profile library hpending
    unfold applySwitch
    dsimp only
    split
    · exact .inl rfl
    · right
      split
      · exact congrArg Meter.finalTurn (free_fail _ _ _).meter
      · rfl
  · exact .inl rfl

theorem deeds_setBehaviorProfile (a : Agent) (profile : Value) (documents : List Value) (allowCommands : Bool)
    (hbundle : ∀ next library, installBundle profile documents = some (next, library) → B next library) :
    Deeds B [] a (a.setBehaviorProfile profile documents allowCommands).2
      (a.setBehaviorProfile profile documents allowCommands).1 := by
  unfold setBehaviorProfile
  dsimp only
  split
  · exact .same rfl
  · rename_i compiled library hinstall
    have hbrought := hbundle compiled library hinstall
    split
    · exact (Deed.brings compiled library hbrought rfl).deeds
    · exact deeds_applySwitch compiled library rfl (.inr ⟨rfl, hbrought⟩)

structure Heralds (B : CompiledProfile → ProfileRegistry → Prop) (a b : Agent)
    (r : Except (List AgentEffect) (List AgentEffect)) : Prop where
  deeds : Deeds B [] a (effectsOf r) b
  quiet : ∀ es, r = .ok es → Uncounted es

theorem heralds_enteredRules (a : Agent) (from_ : ProfileRef) :
    Heralds B a (a.enteredRules from_).1 (a.enteredRules from_).2 := by
  have hevaluated := a.holdings_evaluateEntered from_.id
  have hasks : (a.withBehavior (a.state.behavior.evaluateEntered from_.id).1).NamesOwn
      (a.state.behavior.evaluateEntered from_.id).2 := by
    intro ruleId target hswitch
    rw [hevaluated]
    exact a.asks_evaluateEntered from_.id ruleId target hswitch
  have hrules : Deeds B [] a _ _ := .keep hevaluated (deeds_applyRuleOutcome _ _ none hasks)
  unfold enteredRules
  dsimp only
  split
  · exact ⟨hrules.then_ (deeds_behaviorStop _ _), by simp⟩
  · refine ⟨hrules, ?_⟩
    rintro es ⟨⟩
    exact plain_applyRuleOutcome _ _ none

theorem heralds_enterProfile (a : Agent) (from_ : EnteredFrom) :
    Heralds B a (a.enterProfile from_).1 (a.enterProfile from_).2 := by
  unfold enterProfile
  split
  · dsimp only
    generalize hm : a.queueRequestText _ = m
    have hqueued : m.holdings = a.holdings := hm ▸ rfl
    have hentered := m.heralds_enteredRules (B := B) from_.profile
    generalize m.enteredRules from_.profile = r at hentered ⊢
    obtain ⟨b, r⟩ := r
    cases r with
    | ok es =>
      have hplain := hentered.quiet es rfl
      refine ⟨.keep hqueued ((Deeds.announce m (Uncounted.single rfl)).then_ hentered.deeds), ?_⟩
      rintro _ ⟨⟩
      exact (Uncounted.single rfl).append hplain
    | error es => exact ⟨.keep hqueued hentered.deeds, by simp [Except.map]⟩
  · exact a.heralds_enteredRules from_.profile

theorem heralds_announceProfile (a : Agent) : Heralds B a a.announceProfile.1 a.announceProfile.2 := by
  unfold announceProfile
  split
  · rename_i from_ hfrom
    generalize hm : a.withBehavior _ = m
    have hcleared : m.holdings = a.holdings := hm ▸ rfl
    have hentered := m.heralds_enterProfile (B := B) from_
    exact ⟨.keep hcleared hentered.deeds, hentered.quiet⟩
  · refine ⟨.refl a, ?_⟩
    rintro es ⟨⟩
    exact .nil

theorem holdings_beginTurn (a : Agent) : (a.withBehavior a.state.behavior.beginTurn.1).holdings = a.holdings := by
  have hsame : a.state.behavior.beginTurn.1.profile = a.state.behavior.profile ∧
      a.state.behavior.beginTurn.1.library = a.state.behavior.library := by
    unfold BehaviorState.beginTurn
    dsimp only
    split
    · split <;> exact ⟨rfl, rfl⟩
    · split <;> exact ⟨rfl, rfl⟩
  simp only [holdings, withBehavior, hsame.1, hsame.2]

theorem deeds_beginTurn (a : Agent) : Deeds B [] a (effectsOf a.beginTurn.2) a.beginTurn.1 := by
  have hswitch := a.deeds_takePendingSwitch (B := B)
  unfold beginTurn
  dsimp only
  split
  · exact hswitch
  · have hannounce := a.takePendingSwitch.1.heralds_announceProfile (B := B)
    have hmeter := (a.takePendingSwitch.1.free_announceProfile).meter
    split
    · rename_i c failure hc
      rw [hc] at hannounce
      exact hswitch.then_ hannounce.deeds
    · rename_i c entered hc
      rw [hc] at hannounce hmeter
      have hentered := hswitch.then_ hannounce.deeds
      have hcounted := c.holdings_beginTurn
      split
      · rename_i behavior hbehavior
        rw [hbehavior] at hcounted
        -- a switch would have started the turns anew, so only the announcement is dropped
        have hsilent : a.takePendingSwitch.2 = [] := by
          refine a.takePendingSwitch_anew.resolve_right fun hanew => ?_
          have hfinal : c.meter.finalTurn = true := (exceeded_beginTurn hbehavior).2
          rw [hmeter, hanew] at hfinal
          cases hfinal
        have hdropped : Deeds B [] a [] c := hentered.silent (by
          rw [hsilent, nil_append]
          exact hannounce.quiet entered rfl)
        exact (hdropped.keeps hcounted).then_ (deeds_fail _ _ _)
      · rename_i behavior plan hplan hbehavior
        rw [hbehavior] at hcounted
        have hrules := (hentered.keeps hcounted).then_ (deeds_runRules _ .beforeModelRequest none none)
        split
        · exact hrules.andThen (deeds_behaviorStop _ _)
        · exact hrules

theorem holdings_buildRequest (a : Agent) (runId : RunId) (reissue : Bool) :
    (a.buildRequest runId reissue).1.holdings = a.holdings := by
  unfold buildRequest
  dsimp only
  split <;> split <;> rfl

omit [Externals] in
theorem plain_changedTo (from_ to_ : AgentStatus) : Uncounted (changedTo from_ to_) := by
  unfold changedTo
  split
  · exact .single rfl
  · exact .nil

theorem deeds_continueAfterTools (a : Agent) : Deeds B [] a a.continueAfterTools.2 a.continueAfterTools.1 := by
  unfold continueAfterTools
  split
  · split
    · exact .refl a
    · rename_i runId hrun
      have hturn := a.deeds_beginTurn (B := B)
      split
      · rename_i b failure hb
        rw [hb] at hturn
        exact hturn
      · rename_i b effects hb
        rw [hb] at hturn
        have hrequest : ((b.withStatus .waitingForBackend).executionRequest runId).1.holdings = b.holdings :=
          holdings_buildRequest (b.withStatus .waitingForBackend) runId false
        dsimp only
        rw [append_assoc]
        refine hturn.then_ (.plain hrequest (Uncounted.append ?_ (Uncounted.single rfl)))
        exact plain_changedTo b.state.status .waitingForBackend
  · exact .refl a

theorem deeds_nextAfterResult (a : Agent) (stop : Option RuleStop) :
    Deeds B [] a (a.nextAfterResult stop).2 (a.nextAfterResult stop).1 := by
  unfold nextAfterResult
  split
  · exact a.deeds_behaviorStop _
  · split
    · exact .kept (deeds_fail _ _ _) rfl
    · exact a.deeds_continueAfterTools

theorem deeds_runPostToolRules (a : Agent) (call : ToolCall) (hasError : Bool) (preview : String) :
    Deeds B [] a (a.runPostToolRules call hasError preview).2.1 (a.runPostToolRules call hasError preview).1 := by
  unfold runPostToolRules
  dsimp only
  exact .kept (deeds_runRules _ _ _ _) rfl

theorem deeds_recordToolResult (a : Agent) (call : ToolCall) (executed hasError : Bool) (preview : String) :
    Deeds B [] a (a.recordToolResult call executed hasError preview).2 (a.recordToolResult call executed hasError preview).1 := by
  have hpost : Deeds B [] a
      (if executed then a.runPostToolRules call hasError preview else (a, [], preview, none)).2.1
      (if executed then a.runPostToolRules call hasError preview else (a, [], preview, none)).1 := by
    split
    · exact a.deeds_runPostToolRules call hasError preview
    · exact .refl a
  unfold recordToolResult
  generalize (if executed then a.runPostToolRules call hasError preview else (a, [], preview, none)) = r at hpost ⊢
  obtain ⟨b, effects, preview', stop⟩ := r
  dsimp only at hpost ⊢
  refine .andThen (hpost.then_ ?_) (deeds_nextAfterResult _ stop)
  exact (Deed.answers [] call.id _ .nil (holdings_pushMessage _ _ (by simp))).deeds

theorem deeds_toolCompleted (a : Agent) (callId : ToolCallId) (result : ToolResult) :
    Deeds B [] a (a.toolCompleted callId result).2 (a.toolCompleted callId result).1 := by
  unfold toolCompleted
  split
  · exact .refl a
  · exact .kept (deeds_recordToolResult _ _ _ _ _) rfl

theorem deeds_toolFailed (a : Agent) (callId : ToolCallId) (error : ToolError) :
    Deeds B [] a (a.toolFailed callId error).2 (a.toolFailed callId error).1 := by
  unfold toolFailed
  split
  · exact .refl a
  · exact .kept (deeds_recordToolResult _ _ _ _ _) rfl

theorem deeds_denyTool (a : Agent) (callId : ToolCallId) (ruleId : Option String) (reason : String) :
    Deeds B [] a (a.denyTool callId ruleId reason).2 (a.denyTool callId ruleId reason).1 :=
  .andThen (.announce a (Uncounted.single rfl)) (a.deeds_toolFailed callId _)

def refusalOf {α : Type} : Except (List AgentEffect) α → List AgentEffect
  | .ok _ => []
  | .error es => es

theorem deeds_sessionPermission (a : Agent) (call : ToolCall) :
    Deeds B [] a (refusalOf (a.sessionPermission call).2) (a.sessionPermission call).1 := by
  unfold sessionPermission
  split
  · exact .refl a
  · exact a.deeds_toolFailed call.id _

theorem deeds_requireProfileScope (a : Agent) (call : ToolCall) :
    Deeds B [] a (refusalOf (a.requireProfileScope call).2) (a.requireProfileScope call).1 := by
  unfold requireProfileScope
  dsimp only
  split
  · exact .refl a
  · exact a.deeds_denyTool _ _ _

theorem deeds_evaluateRequestRules (a : Agent) (call : ToolCall) :
    Deeds B [] a ((a.evaluateRequestRules call).2.1 ++ refusalOf (a.evaluateRequestRules call).2.2)
      (a.evaluateRequestRules call).1 := by
  have hrules := Deeds.kept (B := B) (a := a)
    (deeds_runRules (a.withBehavior (a.state.behavior.noteToolRequest call)) .preToolUse (some ⟨call, none⟩) (some call.id))
    rfl
  unfold evaluateRequestRules
  dsimp only
  split
  · simpa [refusalOf] using hrules
  · exact hrules.then_ (.andThen (deeds_denyTool _ _ _ _) (deeds_behaviorStop _ _))

theorem deeds_approvalFor (a : Agent) (call : ToolCall) (sessionMode : PermissionMode) (outcome : RuleOutcome) :
    Deeds B [] a (refusalOf (a.approvalFor call sessionMode outcome).2) (a.approvalFor call sessionMode outcome).1 := by
  unfold approvalFor
  dsimp only
  split
  · exact a.deeds_denyTool _ _ _
  · split
    · exact .refl a
    · exact .refl a
    · split
      · exact a.deeds_toolFailed _ _
      · exact a.deeds_denyTool _ _ _

theorem holdings_rewriteArguments (a : Agent) (call : ToolCall) (outcome : RuleOutcome) :
    (a.rewriteArguments call outcome).1.holdings = a.holdings := by
  unfold rewriteArguments
  split
  · rfl
  · dsimp only
    unfold patchPending
    split <;> rfl

theorem deeds_requireToolBudget (a : Agent) (callId : ToolCallId) :
    Deeds B [] a (refusalOf (a.requireToolBudget callId).2) (a.requireToolBudget callId).1 := by
  have hadmit : (a.withBehavior a.state.behavior.admitToolCall.1).holdings = a.holdings := by
    unfold BehaviorState.admitToolCall
    split <;> rfl
  unfold requireToolBudget
  split
  · rename_i behavior hbehavior
    rw [hbehavior] at hadmit
    exact .same hadmit
  · rename_i behavior hbehavior
    rw [hbehavior] at hadmit
    exact .keep hadmit (deeds_denyTool _ _ _ _)

theorem deeds_admitToolCall (a : Agent) (call : ToolCall) :
    Deeds B [] a ((a.admitToolCall call).2.1 ++ refusalOf (a.admitToolCall call).2.2) (a.admitToolCall call).1 := by
  unfold admitToolCall
  have hpermission := a.deeds_sessionPermission (B := B) call
  split
  · rename_i b refusal hb
    rw [hb] at hpermission
    exact hpermission
  · rename_i b mode hb
    rw [hb] at hpermission
    have hscope := b.deeds_requireProfileScope (B := B) call
    split
    · rename_i c refusal hc
      rw [hc] at hscope
      exact hpermission.then_ hscope
    · rename_i c hc
      rw [hc] at hscope
      have hscoped := hpermission.then_ hscope
      have hrules := c.deeds_evaluateRequestRules (B := B) call
      split
      · rename_i d effects refusal hd
        rw [hd] at hrules
        exact hscoped.then_ hrules
      · rename_i d effects outcome hd
        rw [hd] at hrules
        have hevaluated := hscoped.then_ hrules
        have happroval := d.deeds_approvalFor (B := B) call mode outcome
        simp only [refusalOf, nil_append, append_nil] at hevaluated
        split
        · rename_i e refusal he
          rw [he] at happroval
          exact hevaluated.then_ happroval
        · rename_i e approval he
          rw [he] at happroval
          have hrewritten := (hevaluated.then_ happroval).keeps (e.holdings_rewriteArguments call outcome)
          simp only [refusalOf, append_nil] at hrewritten
          dsimp only
          have hbudget := deeds_requireToolBudget (B := B) (e.rewriteArguments call outcome).1 (e.rewriteArguments call outcome).2.id
          split
          · rename_i f refusal hf
            rw [hf] at hbudget
            exact hrewritten.then_ hbudget
          · rename_i f hf
            rw [hf] at hbudget
            exact hrewritten.then_ hbudget

theorem deeds_startAdmittedCall (a : Agent) (from_ : AgentStatus) (call : ToolCall) (approval : Approval) :
    Deeds B [] a (a.startAdmittedCall from_ call approval).2 (a.startAdmittedCall from_ call approval).1 := by
  cases approval with
  | allow => exact .plain rfl ((Uncounted.single rfl).append (Uncounted.single rfl))
  | ask => exact .plain rfl ((Uncounted.single rfl).append ((Uncounted.single rfl).append (Uncounted.single rfl)))

theorem deeds_toolRequested (a : Agent) (call : ToolCall) :
    Deeds B [] a (a.toolRequested call).2 (a.toolRequested call).1 := by
  have hrecord : Deeds B [] a (a.recordToolRequest call).2 (a.recordToolRequest call).1 :=
    .plain (a.holdings_pushToolUse call) (Uncounted.single rfl)
  unfold toolRequested
  refine hrecord.andThen ?_
  have hadmit := deeds_admitToolCall (B := B) (a.recordToolRequest call).1 call
  split
  · rename_i b effects call' approval hb
    rw [hb] at hadmit
    simp only [refusalOf, append_nil] at hadmit
    exact hadmit.andThen (deeds_startAdmittedCall _ _ _ _)
  · rename_i b effects refusal hb
    rw [hb] at hadmit
    exact hadmit

theorem deeds_permissionResolved (a : Agent) (id : PermissionId) (decision : PermissionDecision) :
    Deeds B [] a (a.permissionResolved id decision).2 (a.permissionResolved id decision).1 := by
  unfold permissionResolved
  split
  · exact .refl a
  · dsimp only
    split
    · exact .same rfl
    · cases decision with
      | approved => exact .plain rfl ((Uncounted.single rfl).append (Uncounted.single rfl))
      | denied => exact .kept (deeds_toolFailed _ _ _) rfl

theorem deeds_finishSuccess (a : Agent) (summary : String) (gatePassed : Option Bool) :
    Deeds B [] a (a.finishSuccess summary gatePassed).2 (a.finishSuccess summary gatePassed).1 :=
  (Deed.finishes [stateChanged _ _, .emit _] [] _ ((Uncounted.single rfl).append (Uncounted.single rfl)) .nil rfl).deeds

theorem deeds_sendAnswerBack (a : Agent) (runId : RunId) (reference : ProfileRef) (failures : List CheckFailure) :
    Deeds B [] a (a.sendAnswerBack runId reference failures).2 (a.sendAnswerBack runId reference failures).1 := by
  unfold sendAnswerBack
  dsimp only
  generalize hm : a.withRun _ = m
  have hcounted : m.holdings = a.holdings := hm ▸ rfl
  have hrejection : Deeds B [] a [] (m.pushGateRejection reference failures) := by
    obtain ⟨message, hcontent, hheld⟩ := m.pushMessage_user [.text (Rules.systemReminder ("gate:" ++ reference.display)
      (failures.foldl (fun text failure => text ++ "\n- [" ++ failure.1 ++ "] " ++ failure.2)
        "Your answer was not accepted yet. Address the following before finishing:"))]
    exact .keep hcounted (Deed.tells message ⟨_, _, hcontent⟩ hheld).deeds
  have hturn := hrejection.then_ (m.pushGateRejection reference failures).deeds_beginTurn
  split
  · rename_i b failure hb
    rw [hb] at hturn
    exact hturn
  · rename_i b effects hb
    rw [hb] at hturn
    have hrequest : ((b.withStatus .waitingForBackend).executionRequest runId).1.holdings = b.holdings :=
      holdings_buildRequest (b.withStatus .waitingForBackend) runId false
    exact hturn.then_ (.plain hrequest ((Uncounted.single rfl).append (Uncounted.single rfl)))

theorem deeds_gateDecided (a : Agent) (runId : RunId) (failures : List CheckFailure) (summary : String) :
    Deeds B [] a (a.gateDecided runId failures summary).2 (a.gateDecided runId failures summary).1 := by
  unfold gateDecided
  dsimp only
  split
  · exact a.deeds_finishSuccess _ _
  · refine .andThen (.announce a (Uncounted.single rfl)) ?_
    dsimp only
    split
    · exact a.deeds_finishSuccess _ _
    · unfold endExhaustedGate
      split
      · exact a.deeds_finishSuccess _ _
      · exact a.deeds_fail _ _
    · exact a.deeds_sendAnswerBack _ _ _

theorem deeds_proposeCompletion (a : Agent) (runId : RunId) (summary : String) :
    Deeds B [] a (a.proposeCompletion runId summary).2 (a.proposeCompletion runId summary).1 := by
  unfold proposeCompletion
  split
  · exact a.deeds_finishSuccess _ _
  · dsimp only
    split
    · exact .kept (deeds_gateDecided _ _ _ _) rfl
    · exact .plain rfl ((Uncounted.single rfl).append (Uncounted.single rfl))

theorem deeds_completionEvaluated (a : Agent) (runId : RunId) (attempt : Nat) (verdicts : List CheckVerdict)
    (usage : List UsageRecord) :
    Deeds B [] a (a.completionEvaluated runId attempt verdicts usage).2 (a.completionEvaluated runId attempt verdicts usage).1 := by
  unfold completionEvaluated
  dsimp only
  generalize hcounted : (if usage.isEmpty = true then ((a, []) : Agent × List AgentEffect) else _) = counted
  have hdeeds : Deeds B [] a counted.2 counted.1 := by
    rw [← hcounted]
    split
    · exact .refl a
    · exact .plain rfl (Uncounted.single rfl)
  have hsilent : Deeds B [] a [] counted.1 := by
    refine hdeeds.silent ?_
    rw [← hcounted]
    split
    · exact .nil
    · exact .single rfl
  split
  · exact hdeeds
  · split
    · exact hsilent
    · exact hdeeds.andThen (deeds_gateDecided _ _ _ _)

theorem deeds_completed (a : Agent) (runId : RunId) (result : ExecutionResult) :
    Deeds B [] a (a.completed runId result).2 (a.completed runId result).1 := by
  have hrecorded := (a.withInFlight false).holdings_discardTrailing
  unfold completed
  dsimp only
  generalize hm : Agent.withUsage _ _ = m
  have hheld : m.holdings = a.holdings := by
    rw [← hm]
    exact hrecorded
  split
  · exact .keep hheld (m.deeds_fail _ _)
  · split
    · exact .keep hheld m.deeds_continueAfterTools
    · exact .keep hheld (m.deeds_proposeCompletion _ _)

theorem deeds_handleBackendEvent (a : Agent) (runId : RunId) (event : ExecutionEvent) :
    Deeds B [] a (a.handleBackendEvent runId event).2 (a.handleBackendEvent runId event).1 := by
  cases event with
  | textDelta _ delta =>
    exact .plain (holdings_appendAssistantText (a.withStatus .streaming) delta)
      ((plain_changedTo _ _).append (Uncounted.single rfl))
  | reasoningDelta _ delta => exact .plain a.holdings_assistantMessageId (Uncounted.single rfl)
  | toolCallRequested _ call => exact a.deeds_toolRequested call
  | toolCallStarted _ call =>
    exact .plain (holdings_pushToolUse (a.withStatus .executing) call)
      ((plain_changedTo _ _).append ((Uncounted.single rfl).append (Uncounted.single rfl)))
  | toolCallCompleted _ callId result =>
    exact (Deed.answers _ callId result (plain_changedTo _ _) (holdings_pushMessage _ _ (by simp))).deeds
  | usageUpdate _ usage => exact .plain rfl (Uncounted.single rfl)
  | completed _ result => exact a.deeds_completed runId result
  | error _ error => exact a.deeds_fail _ _

theorem deeds_backendEvent (a : Agent) (runId : RunId) (event : ExecutionEvent) :
    Deeds B [] a (a.backendEvent runId event).2 (a.backendEvent runId event).1 := by
  unfold backendEvent
  split
  · exact .refl a
  · exact a.deeds_handleBackendEvent runId event

theorem deeds_resume (a : Agent) : Deeds B [] a a.resume.2 a.resume.1 := by
  unfold resume
  split
  · exact .refl a
  · split
    · rename_i runId hrun
      exact .plain (holdings_buildRequest (a.withStatus .waitingForBackend) runId true)
        ((Uncounted.single rfl).append (Uncounted.single rfl))
    · exact .plain rfl (Uncounted.single rfl)

theorem deeds_pause (a : Agent) : Deeds B [] a a.pause.2 a.pause.1 := by
  unfold pause
  split
  · exact .refl a
  · exact .refl a
  · exact .refl a
  · exact .refl a
  · exact .plain rfl (Uncounted.single rfl)

theorem deeds_cancel (a : Agent) : Deeds B [] a a.cancel.2 a.cancel.1 := by
  unfold cancel
  dsimp only
  split
  · exact .refl a
  · refine .plain rfl (Uncounted.append (Uncounted.append (Uncounted.append ?_ ?_) ?_) ((Uncounted.single rfl).append (Uncounted.single rfl)))
    · split
      · split
        · exact (Uncounted.single rfl).append (Uncounted.single rfl)
        · exact .single rfl
      · exact .nil
    · intro e he
      obtain ⟨callId, -, rfl⟩ := mem_map.mp he
      rfl
    · intro e he
      obtain ⟨childId, -, rfl⟩ := mem_map.mp he
      rfl

theorem deeds_childDone (a : Agent) (agentId : AgentId) (outcome : AgentOutcome) :
    Deeds B [] a (a.childDone agentId outcome).2 (a.childDone agentId outcome).1 := by
  unfold childDone
  dsimp only
  split
  · exact .plain rfl ((Uncounted.single rfl).append (Uncounted.single rfl))
  · exact .plain rfl (Uncounted.single rfl)

theorem deeds_childSpawned (a : Agent) (agentId : AgentId) (awaiting : Bool) :
    Deeds B [] a (a.childSpawned agentId awaiting).2 (a.childSpawned agentId awaiting).1 := by
  unfold childSpawned
  dsimp only
  generalize hm : (if a.state.children.contains agentId = true then a else _) = m
  have hheld : m.holdings = a.holdings := by
    rw [← hm]
    split <;> rfl
  split
  · exact .same hheld
  · exact .plain hheld (Uncounted.single rfl)

def opening (a : Agent) (input : UserInput) : List UserInput :=
  if (validateTranscript a.state.messages).isOk && (validateAttachments 0 input.attachments).isOk then [input] else []

theorem deeds_beginRun (a : Agent) (input : UserInput) : Deeds B [input] a (a.beginRun input).2 (a.beginRun input).1 := by
  have hopened : Deeds B [input] a [] (a.openRun input).1 := by
    obtain ⟨message, hcontent, hheld⟩ :=
      (a.withBehavior a.state.behavior.resetRun).nextRunId.1.pushMessage_user (userContent input)
    exact (Deed.opens (a := a) (b := (a.openRun input).1) input message hcontent hheld).deeds
  have hrules := hopened.trans ((a.openRun input).1.deeds_runRules .runStart none none)
  unfold beginRun
  dsimp only
  split
  · exact hrules.trans (deeds_behaviorStop _ _)
  · have hturn := ((a.openRun input).1.runRules .runStart none none).1.deeds_beginTurn (B := B)
    split
    · rename_i b failure hb
      rw [hb] at hturn
      exact hrules.trans hturn
    · rename_i b turnEffects hb
      rw [hb] at hturn
      have hrequest : (b.executionRequest (a.openRun input).2).1.holdings = b.holdings := holdings_buildRequest b _ false
      exact (hrules.trans hturn).trans
        (.plain hrequest ((Uncounted.single rfl).append ((Uncounted.single rfl).append (Uncounted.single rfl))))

theorem deeds_startRun (a : Agent) (input : UserInput) :
    Deeds B (a.opening input) a (a.startRun input).2 (a.startRun input).1 := by
  unfold startRun opening
  cases validateTranscript a.state.messages with
  | error error => exact a.deeds_fail _ _
  | ok =>
    cases validateAttachments 0 input.attachments with
    | error error => exact a.deeds_fail _ _
    | ok => exact a.deeds_takePendingSwitch.trans (a.takePendingSwitch.1.deeds_beginRun input)

def queueAfter (a : Agent) : AgentCommand → List UserInput
  | .startRun input | .steer input | .followUp input =>
    if a.state.activeRun.isSome then a.state.queuedInputs ++ [input] else a.state.queuedInputs
  | .startNextQueuedRun => a.state.queuedInputs.tail
  | _ => a.state.queuedInputs

def openedBy (a : Agent) : AgentCommand → List UserInput
  | .startRun input | .steer input | .followUp input => if a.state.activeRun.isSome then [] else a.opening input
  | .startNextQueuedRun => a.state.queuedInputs.head?.toList.flatMap a.opening
  | _ => []

theorem deeds_apply (a : Agent) (command : AgentCommand)
    (hbundle : ∀ next library, command.Installs next library → B next library) :
    ∃ m : Agent, m.holdings = { a.holdings with queue := a.queueAfter command } ∧
      Deeds B (a.openedBy command) m (a.apply command).2 (a.apply command).1 := by
  have hsame (h : a.queueAfter command = a.state.queuedInputs)
      (h' : Deeds B (a.openedBy command) a (a.apply command).2 (a.apply command).1) :
      ∃ m : Agent, m.holdings = { a.holdings with queue := a.queueAfter command } ∧
        Deeds B (a.openedBy command) m (a.apply command).2 (a.apply command).1 := ⟨a, by rw [h]; rfl, h'⟩
  have hstart (input : UserInput) : ∃ m : Agent, m.holdings = { a.holdings with
        queue := if a.state.activeRun.isSome then a.state.queuedInputs ++ [input] else a.state.queuedInputs } ∧
      Deeds B (if a.state.activeRun.isSome then [] else a.opening input) m (a.startOrQueue input).2
        (a.startOrQueue input).1 := by
    unfold startOrQueue
    split
    · exact ⟨a.withQueuedInputs (a.state.queuedInputs ++ [input]), rfl, .refl _⟩
    · exact ⟨a, rfl, a.deeds_startRun input⟩
  cases command with
  | startRun input | steer input | followUp input => exact hstart input
  | startNextQueuedRun =>
    unfold apply startNextQueuedRun queueAfter openedBy
    cases hqueue : a.state.queuedInputs with
    | nil => exact ⟨a, by simp [holdings, hqueue], .refl a⟩
    | cons input rest =>
      refine ⟨a.withQueuedInputs rest, rfl, ?_⟩
      have hopened := (a.withQueuedInputs rest).deeds_startRun (B := B) input
      simpa [opening, withQueuedInputs] using hopened
  | backendEvent runId event => exact hsame rfl (a.deeds_backendEvent runId event)
  | toolCompleted callId result => exact hsame rfl (a.deeds_toolCompleted callId result)
  | toolFailed callId error => exact hsame rfl (a.deeds_toolFailed callId error)
  | permissionResolved id decision => exact hsame rfl (a.deeds_permissionResolved id decision)
  | spawnChild spec => exact hsame rfl (.announce a (Uncounted.single rfl))
  | childSpawned agentId awaiting => exact hsame rfl (a.deeds_childSpawned agentId awaiting)
  | childCompleted agentId result => exact hsame rfl (.kept (deeds_childDone _ agentId .success) rfl)
  | childFailed agentId error => exact hsame rfl (.kept (deeds_childDone _ agentId .failed) rfl)
  | cancel => exact hsame rfl a.deeds_cancel
  | pause => exact hsame rfl a.deeds_pause
  | resume => exact hsame rfl a.deeds_resume
  | configureExecution params => exact hsame rfl (.same rfl)
  | setBehaviorProfile profile library allowCommands =>
    exact hsame rfl (a.deeds_setBehaviorProfile profile library allowCommands hbundle)
  | completionEvaluated runId attempt verdicts usage =>
    exact hsame rfl (a.deeds_completionEvaluated runId attempt verdicts usage)

end Agent

end

end RustyCore
