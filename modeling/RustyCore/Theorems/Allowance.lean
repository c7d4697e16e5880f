import RustyCore.Theorems.Admission
import RustyCore.Theorems.Finishing

/-! What a run may spend. The meter of an agent is its profile with the counters that the limits of the profile
    are checked against. Most of what the reducer does is free; a model request, an admitted call, an answer sent
    back and a switch of the profile are paid for: each moves the meter by at least as much, and no further than
    the profile allows. -/

namespace RustyCore

open List

namespace AgentEffect

def isSwitch : AgentEffect → Bool
  | .emit (.profileChanged _ _) => true
  | _ => false

def isRequest : AgentEffect → Bool
  | .executeBackend _ => true
  | _ => false

def isAdmission : AgentEffect → Bool
  | .executeTool _ | .requestPermission _ => true
  | _ => false

def isSendBack : AgentEffect → Bool
  | .emit (.completionGateEvaluated _ _ true _) => true
  | _ => false

def isFree (e : AgentEffect) : Bool := !e.isSwitch && !e.isRequest && !e.isAdmission && !e.isSendBack

end AgentEffect

def switchCount (es : List AgentEffect) : Nat := es.countP (·.isSwitch)

def requestCount (es : List AgentEffect) : Nat := es.countP (·.isRequest)

def admissionCount (es : List AgentEffect) : Nat := es.countP (·.isAdmission)

def sendBackCount (es : List AgentEffect) : Nat := es.countP (·.isSendBack)

/-- What a run spends: switches, requests, admitted calls and answers sent back. -/
structure Spending where
  switches : Nat := 0
  requests : Nat := 0
  admissions : Nat := 0
  sendBacks : Nat := 0

namespace Spending

instance : Add Spending :=
  ⟨fun s t => ⟨s.switches + t.switches, s.requests + t.requests, s.admissions + t.admissions,
    s.sendBacks + t.sendBacks⟩⟩

variable (s t u : Spending)

@[simp] theorem switches_add : (s + t).switches = s.switches + t.switches := rfl

@[simp] theorem requests_add : (s + t).requests = s.requests + t.requests := rfl

@[simp] theorem admissions_add : (s + t).admissions = s.admissions + t.admissions := rfl

@[simp] theorem sendBacks_add : (s + t).sendBacks = s.sendBacks + t.sendBacks := rfl

theorem mk_add (w x y z w' x' y' z' : Nat) :
    (⟨w, x, y, z⟩ : Spending) + ⟨w', x', y', z'⟩ = ⟨w + w', x + x', y + y', z + z'⟩ := rfl

theorem nothing_add : ({} : Spending) + s = s := by
  cases s
  simp [mk_add]

theorem add_nothing : s + ({} : Spending) = s := rfl

theorem add_assoc : s + t + u = s + (t + u) := by
  cases s
  cases t
  cases u
  simp only [mk_add, Nat.add_assoc]

theorem add_right_comm : s + t + u = s + u + t := by
  cases s
  cases t
  cases u
  simp only [mk_add, Nat.add_right_comm]

end Spending

/-- What the effects of a step cost. -/
def charges (es : List AgentEffect) : Spending :=
  ⟨switchCount es, requestCount es, admissionCount es, sendBackCount es⟩

theorem charges_append (es fs : List AgentEffect) : charges (es ++ fs) = charges es + charges fs := by
  simp [charges, switchCount, requestCount, admissionCount, sendBackCount, Spending.mk_add]

theorem charges_of_free {es : List AgentEffect} (h : ∀ e ∈ es, e.isFree = true) : charges es = {} := by
  induction es with
  | nil => rfl
  | cons e es ih =>
    rw [forall_mem_cons] at h
    have hfree := h.1
    simp only [AgentEffect.isFree, Bool.and_eq_true, Bool.not_eq_true'] at hfree
    obtain ⟨⟨⟨hswitch, hrequest⟩, hadmission⟩, hsendBack⟩ := hfree
    rw [← singleton_append, charges_append, ih h.2]
    simp [charges, switchCount, requestCount, admissionCount, sendBackCount, hswitch, hrequest, hadmission, hsendBack,
      Spending.add_nothing]

section

variable [Externals]

theorem CompiledProfile.maxTurns_pos (p : CompiledProfile) {limit : Nat}
    (hlimit : p.profile.limits.maxTurns = some limit) : 0 < limit := by
  have hvalid := p.valid
  simp only [Compiler.issues, Compiler.checkExecutionAndLimits, append_eq_nil_iff] at hvalid
  have hturns := hvalid.1.2.1.2
  rw [hlimit] at hturns
  rcases Nat.eq_zero_or_pos limit with rfl | hpos
  · simp [Compiler.reject, Compiler.issue] at hturns
  · exact hpos

/-- The counters of a run, with the profile that limits them. -/
structure Meter where
  profile : CompiledProfile
  turns : Nat
  toolCalls : Nat
  finalTurn : Bool
  finalGraceUsed : Nat
  gateContinuations : Nat
  switches : Nat

def BehaviorState.meter (b : BehaviorState) : Meter :=
  ⟨b.profile, b.run.turns, b.run.toolCalls, b.run.finalTurn, b.run.finalGraceUsed, b.run.gateContinuations,
    b.run.switches⟩

def Agent.meter (a : Agent) : Meter := a.state.behavior.meter

namespace Meter

/-- The turns are within `limit`, and below it until the final turn; so is the grace after it. -/
def TurnsFit (k : Meter) (limit : Nat) : Prop :=
  k.turns ≤ limit ∧ (k.finalTurn = false → k.turns < limit) ∧ k.finalGraceUsed ≤ finalTurnGrace

/-- The counters go on by what was spent, within the limits they were within before. -/
structure Moved (k : Meter) (spent : Spending) (k' : Meter) : Prop where
  profile : k'.profile = k.profile
  requests : spent.requests + (k.turns + k.finalGraceUsed) ≤ k'.turns + k'.finalGraceUsed
  turnsFit : ∀ limit, k.profile.profile.limits.maxTurns = some limit → k.TurnsFit limit → k'.TurnsFit limit
  admissions : spent.admissions + k.toolCalls ≤ k'.toolCalls
  callsFit : ∀ limit, k.profile.profile.limits.maxToolCalls = some limit → k.toolCalls ≤ limit → k'.toolCalls ≤ limit
  sendBacks : spent.sendBacks + k.gateContinuations ≤ k'.gateContinuations
  gateFit : ∀ gate, k.profile.profile.completionGate = some gate → k.gateContinuations ≤ gate.maxContinuations →
    k'.gateContinuations ≤ gate.maxContinuations

theorem Moved.refl (k : Meter) : Moved k {} k :=
  ⟨rfl, by simp, fun _ _ h => h, by simp, fun _ _ h => h, by simp, fun _ _ h => h⟩

theorem Moved.trans {k k' k'' : Meter} {n n' : Spending} (h : Moved k n k') (h' : Moved k' n' k'') :
    Moved k (n + n') k'' where
  profile := h'.profile.trans h.profile
  requests := by
    have := h.requests
    have := h'.requests
    simp only [Spending.requests_add]
    omega
  turnsFit limit hlimit hfit := h'.turnsFit limit (by rw [h.profile]; exact hlimit) (h.turnsFit limit hlimit hfit)
  admissions := by
    have := h.admissions
    have := h'.admissions
    simp only [Spending.admissions_add]
    omega
  callsFit limit hlimit hfit := h'.callsFit limit (by rw [h.profile]; exact hlimit) (h.callsFit limit hlimit hfit)
  sendBacks := by
    have := h.sendBacks
    have := h'.sendBacks
    simp only [Spending.sendBacks_add]
    omega
  gateFit gate hgate hfit := h'.gateFit gate (by rw [h.profile]; exact hgate) (h.gateFit gate hgate hfit)

end Meter

def Agent.SwitchesFit (a : Agent) : Prop :=
  a.meter.switches ≤ maxSwitchesPerRun + 1 ∧ (a.state.activeRun ≠ none → a.meter.switches ≤ maxSwitchesPerRun)

/-- A step counts what it costs, unless it has switched profiles, which starts the counters again. -/
structure Pays (a : Agent) (spent : Spending) (b : Agent) : Prop where
  switches : spent.switches + a.meter.switches ≤ b.meter.switches
  switchesFit : a.SwitchesFit → b.SwitchesFit
  moved : spent.switches = 0 → a.meter.Moved spent b.meter

/-- A step that costs nothing and leaves the counters alone. -/
structure Free (a : Agent) (es : List AgentEffect) (b : Agent) : Prop where
  meter : b.meter = a.meter
  run : b.state.activeRun ≠ none → a.state.activeRun ≠ none
  free : ∀ e ∈ es, e.isFree = true

variable {a b c : Agent} {es fs : List AgentEffect} {e : AgentEffect} {n n' : Spending}

namespace Pays

theorem trans (h : Pays a n b) (h' : Pays b n' c) : Pays a (n + n') c where
  switches := by
    have := h.switches
    have := h'.switches
    simp only [Spending.switches_add]
    omega
  switchesFit hfit := h'.switchesFit (h.switchesFit hfit)
  moved hnone := by
    simp only [Spending.switches_add, Nat.add_eq_zero_iff] at hnone
    exact (h.moved hnone.1).trans (h'.moved hnone.2)

theorem append (h : Pays a (charges es) b) (h' : Pays b (charges fs) c) : Pays a (charges (es ++ fs)) c := by
  rw [charges_append]
  exact h.trans h'

end Pays

namespace Free

theorem refl (a : Agent) : Free a [] a := ⟨rfl, fun h => h, fun _ h => absurd h not_mem_nil⟩

theorem same (h : b.meter = a.meter) (hrun : b.state.activeRun = a.state.activeRun) : Free a [] b :=
  ⟨h, fun hb => hrun ▸ hb, fun _ h => absurd h not_mem_nil⟩

theorem single (h : b.meter = a.meter) (hrun : b.state.activeRun = a.state.activeRun) (he : e.isFree = true) :
    Free a [e] b := ⟨h, fun hb => hrun ▸ hb, fun x hx => by rwa [mem_singleton.mp hx]⟩

theorem trans (h : Free a es b) (h' : Free b fs c) : Free a (es ++ fs) c :=
  ⟨h'.meter.trans h.meter, fun hc => h.run (h'.run hc), forall_mem_append.mpr ⟨h.free, h'.free⟩⟩

theorem pays (h : Free a es b) : Pays a (charges es) b := by
  rw [charges_of_free h.free]
  refine ⟨by simp [h.meter], ?_, fun _ => h.meter ▸ Meter.Moved.refl _⟩
  rintro ⟨hall, hactive⟩
  refine ⟨h.meter ▸ hall, fun hrun => ?_⟩
  rw [h.meter]
  exact hactive (h.run hrun)

theorem then_ (h : Free a es b) (h' : Pays b (charges fs) c) : Pays a (charges (es ++ fs)) c := h.pays.append h'

theorem thenPays (h : Free a [] b) (h' : Pays b n c) : Pays a n c := by
  have hsum := h.pays.trans h'
  rwa [charges_of_free h.free, Spending.nothing_add] at hsum

end Free

theorem Pays.paysLess {spent : Spending} {m : Agent} (h : Pays a (charges es + spent) m) (h' : Free m fs b)
    (hspent : spent.switches = 0) : Pays a (charges (es ++ fs)) b := by
  have hsum := h.trans h'.pays
  rw [charges_of_free h'.free, Spending.add_nothing] at hsum
  rw [charges_append, charges_of_free h'.free, Spending.add_nothing]
  refine ⟨?_, hsum.switchesFit, fun hnone => ?_⟩
  · have := hsum.switches
    simp only [Spending.switches_add] at this
    omega
  · have hmoved := hsum.moved (by simp [hnone, hspent])
    refine ⟨hmoved.profile, ?_, hmoved.turnsFit, ?_, hmoved.callsFit, ?_, hmoved.gateFit⟩
    · have := hmoved.requests
      simp only [Spending.requests_add] at this
      omega
    · have := hmoved.admissions
      simp only [Spending.admissions_add] at this
      omega
    · have := hmoved.sendBacks
      simp only [Spending.sendBacks_add] at this
      omega

namespace Agent

theorem meter_evaluate (b : BehaviorState) (event : RuleEvent) (tool : Option ToolEvent) :
    (b.evaluate event tool).1.meter = b.meter := by
  obtain ⟨fired, h⟩ := b.evaluate_frame event tool
  rw [h]
  rfl

theorem free_fail (a : Agent) (code message : String) : Free a (a.fail code message).2 (a.fail code message).1 := by
  have hmeter : a.discardTrailingEmptyAssistantMessage.meter = a.meter := by
    unfold discardTrailingEmptyAssistantMessage
    split <;> rfl
  refine ⟨hmeter, fun h => absurd rfl h, ?_⟩
  intro e he
  simp only [fail, mem_cons, not_mem_nil, or_false] at he
  rcases he with rfl | rfl | rfl <;> rfl

theorem free_behaviorStop (a : Agent) (stop : RuleStop) : Free a (a.behaviorStop stop).2 (a.behaviorStop stop).1 :=
  a.free_fail _ _

theorem free_placeInjections (injections : List Injection) (callId : Option ToolCallId) (a : Agent) :
    Free a [] (injections.foldl (fun a injection => a.placeInjection injection callId) a) := by
  induction injections generalizing a with
  | nil => exact .refl a
  | cons injection rest ih =>
    have hfirst : Free a [] (a.placeInjection injection callId) := by
      unfold placeInjection
      split
      · exact .same rfl rfl
      · split
        · exact .same rfl rfl
        · exact .refl a
      · exact .same rfl rfl
    exact hfirst.trans (ih _)

theorem free_applyRuleOutcome (a : Agent) (outcome : RuleOutcome) (callId : Option ToolCallId) :
    Free a (a.applyRuleOutcome outcome callId).2 (a.applyRuleOutcome outcome callId).1 := by
  have hplaced := free_placeInjections outcome.injections callId a
  have hswitch : Free a [] (a.applyRuleOutcome outcome callId).1 := by
    refine hplaced.trans (c := (a.applyRuleOutcome outcome callId).1) ?_
    unfold applyRuleOutcome requestSwitch
    dsimp only
    split
    · exact .refl _
    · split
      · exact .same rfl rfl
      · exact .refl _
  refine ⟨hswitch.meter, hswitch.run, ?_⟩
  intro e he
  rcases mem_append.mp he with he | he
  · obtain ⟨fired, -, rfl⟩ := mem_map.mp he
    rfl
  · obtain ⟨injection, -, rfl⟩ := mem_map.mp he
    rfl

theorem free_withBehavior (a : Agent) {behavior : BehaviorState} (h : behavior.meter = a.meter) :
    Free a [] (a.withBehavior behavior) := .same h rfl

theorem free_runRules (a : Agent) (event : RuleEvent) (tool : Option ToolEvent) (callId : Option ToolCallId) :
    Free a (a.runRules event tool callId).2.1 (a.runRules event tool callId).1 :=
  (a.free_withBehavior (meter_evaluate a.state.behavior event tool)).trans (free_applyRuleOutcome _ _ callId)

structure Switches (a : Agent) (es : List AgentEffect) (b : Agent) : Prop where
  pays : Pays a (charges es) b
  anew : b.meter.finalTurn = false

theorem applySwitch_meter {a : Agent} (profile : CompiledProfile) (library : ProfileRegistry)
    (hactive : a.state.activeRun ≠ none) :
    Free a (a.applySwitch profile library).2 (a.applySwitch profile library).1 ∨
      Switches a (a.applySwitch profile library).2 (a.applySwitch profile library).1 := by
  unfold applySwitch
  dsimp only
  split
  · exact .inl (.same rfl rfl)
  · right
    have hcharged : ∀ fs, (∀ e ∈ fs, e.isFree = true) → charges ([.emit (.profileChanged a.state.behavior.reference.display
        (a.withBehavior (a.state.behavior.switchedTo profile library)).state.behavior.reference.display)] ++ fs) =
          { switches := 1 } := by
      intro fs hfree
      rw [charges_append, charges_of_free hfree]
      rfl
    split
    · have hfailed := free_fail (a.withBehavior (a.state.behavior.switchedTo profile library)) "BEHAVIOR_SWITCH_LOOP"
        ("more than " ++ toString maxSwitchesPerRun ++ " profile switches in one run (last to " ++
          (a.withBehavior (a.state.behavior.switchedTo profile library)).state.behavior.reference.display ++ ")")
      refine ⟨?_, congrArg Meter.finalTurn hfailed.meter⟩
      simp only [andThen]
      rw [hcharged _ hfailed.free]
      have hswitches := congrArg Meter.switches hfailed.meter
      refine ⟨?_, ?_, by simp⟩
      · rw [hswitches]
        exact le_of_eq (Nat.add_comm 1 _)
      · rintro ⟨-, hfit⟩
        refine ⟨?_, fun hrun => absurd rfl hrun⟩
        rw [hswitches]
        exact Nat.succ_le_succ (hfit hactive)
    · rename_i hloop
      refine ⟨?_, rfl⟩
      have hcharges := hcharged [] (fun _ h => absurd h not_mem_nil)
      rw [append_nil] at hcharges
      rw [hcharges]
      have hfew : a.state.behavior.run.switches + 1 ≤ maxSwitchesPerRun := by
        by_contra hmany
        exact hloop ⟨Option.isSome_iff_ne_none.mpr hactive, Nat.lt_of_not_le hmany⟩
      exact ⟨le_of_eq (Nat.add_comm 1 _), fun _ => ⟨Nat.le_succ_of_le hfew, fun _ => hfew⟩, by simp⟩

/-- A pending switch is made and counted, or fails and costs nothing. -/
theorem takePendingSwitch_meter {a : Agent} (hactive : a.state.activeRun ≠ none) :
    Free a a.takePendingSwitch.2 a.takePendingSwitch.1 ∨ Switches a a.takePendingSwitch.2 a.takePendingSwitch.1 := by
  unfold takePendingSwitch
  split
  · rename_i profile library hpending
    rcases applySwitch_meter (a := a.withPendingProfile none) profile library hactive with h | h
    · exact .inl ⟨h.meter, h.run, h.free⟩
    · exact .inr ⟨⟨h.pays.switches, h.pays.switchesFit, h.pays.moved⟩, h.anew⟩
  · exact .inl (.refl a)

theorem pays_takePendingSwitch {a : Agent} (hactive : a.state.activeRun ≠ none) :
    Pays a (charges a.takePendingSwitch.2) a.takePendingSwitch.1 := by
  rcases takePendingSwitch_meter hactive with h | h
  · exact h.pays
  · exact h.pays

def effectsOf : Except (List AgentEffect) (List AgentEffect) → List AgentEffect
  | .ok es | .error es => es

theorem free_enteredRules (a : Agent) (from_ : ProfileRef) :
    Free a (effectsOf (a.enteredRules from_).2) (a.enteredRules from_).1 := by
  have hevaluated : (a.state.behavior.evaluateEntered from_.id).1.meter = a.meter :=
    meter_evaluate { a.state.behavior with run.enteredFrom := some from_.id } .profileEntered none
  have hrules := (a.free_withBehavior hevaluated).trans
    (free_applyRuleOutcome _ (a.state.behavior.evaluateEntered from_.id).2 none)
  unfold enteredRules
  dsimp only
  split
  · exact hrules.trans (free_behaviorStop _ _)
  · exact hrules

theorem free_enterProfile (a : Agent) (from_ : EnteredFrom) :
    Free a (effectsOf (a.enterProfile from_).2) (a.enterProfile from_).1 := by
  unfold enterProfile
  split
  · dsimp only
    generalize hm : a.queueRequestText _ = m
    have hqueued : Free a [] m := hm ▸ .same rfl rfl
    have hentered := hqueued.trans (m.free_enteredRules from_.profile)
    generalize m.enteredRules from_.profile = r at hentered ⊢
    obtain ⟨b, r⟩ := r
    cases r with
    | ok es => exact ⟨hentered.meter, hentered.run, forall_mem_cons.mpr ⟨rfl, hentered.free⟩⟩
    | error es => exact hentered
  · exact a.free_enteredRules from_.profile

theorem free_announceProfile (a : Agent) : Free a (effectsOf a.announceProfile.2) a.announceProfile.1 := by
  unfold announceProfile
  split
  · rename_i from_ hfrom
    have hcleared : Free a [] (a.withBehavior { a.state.behavior with enteredFrom := none }) := .same rfl rfl
    exact hcleared.trans (free_enterProfile _ from_)
  · exact .refl a

theorem moved_beginTurn {b b' : BehaviorState} {plan : TurnPlan} (h : b.beginTurn = (b', plan))
    (hplan : plan ≠ .exceeded) : b.meter.Moved { requests := 1 } b'.meter ∧ b'.run.switches = b.run.switches := by
  unfold BehaviorState.beginTurn at h
  split at h
  · rename_i hfinal
    split at h
    · cases h
      exact absurd rfl hplan
    · rename_i hgrace
      cases h
      refine ⟨⟨rfl, ?_, ?_, by simp [BehaviorState.meter], fun _ _ h => h, by simp [BehaviorState.meter],
        fun _ _ h => h⟩, rfl⟩
      · simp only [BehaviorState.meter]
        omega
      · rintro limit - ⟨hturns, hbelow, -⟩
        exact ⟨hturns, hbelow, Nat.succ_le_of_lt (Nat.lt_of_not_le hgrace)⟩
  · rename_i hfinal
    dsimp only at h
    split at h
    · cases h
      refine ⟨⟨rfl, ?_, ?_, by simp [BehaviorState.meter], fun _ _ h => h, by simp [BehaviorState.meter],
        fun _ _ h => h⟩, rfl⟩
      · simp only [BehaviorState.meter]
        omega
      · rintro limit - ⟨-, hbelow, hgrace⟩
        exact ⟨hbelow (Bool.eq_false_iff.mpr hfinal), fun h => absurd h (by simp [BehaviorState.meter]), hgrace⟩
    · rename_i hmore
      cases h
      refine ⟨⟨rfl, ?_, ?_, by simp [BehaviorState.meter], fun _ _ h => h, by simp [BehaviorState.meter],
        fun _ _ h => h⟩, rfl⟩
      · simp only [BehaviorState.meter]
        omega
      · rintro limit hlimit ⟨-, -, hgrace⟩
        have hlimit' : b.profile.profile.limits.maxTurns = some limit := hlimit
        have hless : b.run.turns + 1 < limit := by
          simp only [hlimit', Option.any_some, Bool.or_eq_true, decide_eq_true_eq, not_or, not_le] at hmore
          exact hmore.1
        exact ⟨Nat.le_of_lt hless, fun _ => hless, hgrace⟩

structure Prepares (a b : Agent) (r : Except (List AgentEffect) (List AgentEffect)) : Prop where
  ok : ∀ es, r = .ok es → Pays a (charges es + { requests := 1 }) b
  error : ∀ es, r = .error es → Pays a (charges es) b

theorem Prepares.failed {es : List AgentEffect} (h : Pays a (charges es) b) : Prepares a b (.error es) := by
  refine ⟨by simp, ?_⟩
  rintro _ ⟨⟩
  exact h

theorem Prepares.begun {es : List AgentEffect} (h : Pays a (charges es + { requests := 1 }) b) :
    Prepares a b (.ok es) := by
  refine ⟨?_, by simp⟩
  rintro _ ⟨⟩
  exact h

theorem exceeded_beginTurn {b b' : BehaviorState} (h : b.beginTurn = (b', .exceeded)) :
    b' = b ∧ b.run.finalTurn = true := by
  unfold BehaviorState.beginTurn at h
  split at h
  · rename_i hfinal
    split at h
    · cases h
      exact ⟨rfl, hfinal⟩
    · cases h
  · dsimp only at h
    split at h <;> cases h

/-- A turn that begins has paid for the request that follows. -/
theorem prepares_beginTurn (hactive : a.state.activeRun ≠ none) : Prepares a a.beginTurn.1 a.beginTurn.2 := by
  have hswitch := pays_takePendingSwitch hactive
  unfold beginTurn
  dsimp only
  split
  · exact .failed hswitch
  · have hannounce := a.takePendingSwitch.1.free_announceProfile
    split
    · rename_i c failure hc
      rw [hc] at hannounce
      exact .failed (hswitch.append hannounce.pays)
    · rename_i c entered hc
      rw [hc] at hannounce
      split
      · rename_i behavior hbehavior
        -- a switch would have started the turns anew
        obtain ⟨hsame, hfinal⟩ := exceeded_beginTurn hbehavior
        rcases takePendingSwitch_meter hactive with hfree | hnew
        · have hbefore := hfree.trans hannounce
          have hkept : Free a [] (c.withBehavior behavior) :=
            ⟨(congrArg BehaviorState.meter hsame).trans hbefore.meter, hbefore.run,
              fun _ h => absurd h not_mem_nil⟩
          exact .failed (hkept.trans (free_fail _ _ _)).pays
        · have hanew := hnew.anew
          rw [← hannounce.meter, show c.meter.finalTurn = true from hfinal] at hanew
          cases hanew
      · rename_i behavior plan hplan hbehavior
        obtain ⟨hmoved, hswitches⟩ := moved_beginTurn hbehavior hplan
        have hcounted : Pays c { requests := 1 } (c.withBehavior behavior) := by
          refine ⟨by simp [meter, BehaviorState.meter, withBehavior, hswitches], ?_, fun _ => hmoved⟩
          rintro ⟨hall, hrun⟩
          have hsame : (c.withBehavior behavior).meter.switches = c.meter.switches := hswitches
          exact ⟨hsame ▸ hall, fun h => hsame ▸ hrun h⟩
        have hrules := free_runRules (c.withBehavior behavior) .beforeModelRequest none none
        have hentered := hswitch.append hannounce.pays
        have hpaid : ∀ es, charges (a.takePendingSwitch.2 ++ entered ++ es) + { requests := 1 } =
            charges (a.takePendingSwitch.2 ++ entered) + { requests := 1 } + charges es := by
          intro es
          rw [charges_append, Spending.add_right_comm]
        have hturn := (hentered.trans hcounted).trans hrules.pays
        split
        · rename_i stop hstop
          have hended := hrules.trans (free_behaviorStop _ stop)
          refine .failed ?_
          simp only [andThen, append_assoc]
          rw [← append_assoc]
          exact (hentered.trans hcounted).paysLess hended rfl
        · refine .begun ?_
          rw [hpaid]
          exact hturn

end Agent

end

end RustyCore
