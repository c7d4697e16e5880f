import RustyCore.Theorems.Gate

/-! The rules that fire over a run. Each evaluation reads the rules of its event in order up to a stop that fires, takes
    the decision and the switch of the first rules that match, and counts every firing; so no rule fires more often than
    it may. -/

namespace RustyCore

open List

namespace Rule

def decision (rule : Rule) : Option ToolDecision :=
  match rule.action with
  | .deny reason => some (.deny rule.id reason)
  | .ask _ => some (.ask rule.id)
  | .allow => some (.allow rule.id)
  | _ => none

def switch (rule : Rule) : Option (String × ProfileRef) :=
  match rule.action with
  | .switchProfile profile => some (rule.id, profile)
  | _ => none

def stop (rule : Rule) : Option RuleStop :=
  match rule.action with
  | .stopRun reason => some ⟨rule.id, reason⟩
  | _ => none

theorem switch_of_decision {rule : Rule} (h : rule.decision.isSome = true) : rule.switch = none := by
  obtain ⟨id, on, condition, action, maxFires, metadata⟩ := rule
  cases action with
  | deny | ask | allow => rfl
  | inject | stopRun | switchProfile | rewriteArgs | rewriteResult => cases h

theorem decision_of_stop {rule : Rule} (h : rule.stop.isSome = true) : rule.decision = none ∧ rule.switch = none := by
  obtain ⟨id, on, condition, action, maxFires, metadata⟩ := rule
  cases action with
  | stopRun => exact ⟨rfl, rfl⟩
  | inject | deny | ask | allow | switchProfile | rewriteArgs | rewriteResult => cases h

end Rule

namespace FiredRule

def decides (fired : FiredRule) : Bool := fired.action == "deny" || fired.action == "ask" || fired.action == "allow"

def switches (fired : FiredRule) : Bool := fired.action == "switch_profile"

end FiredRule

def Rule.firing (rule : Rule) (event : RuleEvent) : FiredRule := ⟨rule.id, event, rule.action.name⟩

theorem decides_firing (rule : Rule) (event : RuleEvent) : (rule.firing event).decides = rule.decision.isSome := by
  obtain ⟨id, on, condition, action, maxFires, metadata⟩ := rule
  cases action <;> rfl

theorem switches_firing (rule : Rule) (event : RuleEvent) : (rule.firing event).switches = rule.switch.isSome := by
  obtain ⟨id, on, condition, action, maxFires, metadata⟩ := rule
  cases action <;> rfl

namespace RuleOutcome

variable (outcome : RuleOutcome) (rule : Rule)

theorem alreadyDecided_eq : outcome.alreadyDecided rule =
    (rule.decision.isSome && outcome.decision.isSome || rule.switch.isSome && outcome.switch.isSome) := by
  obtain ⟨id, on, condition, action, maxFires, metadata⟩ := rule
  cases action <;> simp [alreadyDecided, Rule.decision, Rule.switch]

variable (event : RuleEvent) (reference : ProfileRef)

theorem applyAction_decision : (outcome.applyAction rule event reference).decision =
    rule.decision.or outcome.decision := by
  obtain ⟨id, on, condition, action, maxFires, metadata⟩ := rule
  rcases action with _ | _ | _ | _ | _ | _ | _ | ⟨_ | _, _ | _⟩ <;> rfl

theorem applyAction_switch : (outcome.applyAction rule event reference).switch = rule.switch.or outcome.switch := by
  obtain ⟨id, on, condition, action, maxFires, metadata⟩ := rule
  rcases action with _ | _ | _ | _ | _ | _ | _ | ⟨_ | _, _ | _⟩ <;> rfl

theorem applyAction_stop : (outcome.applyAction rule event reference).stop = rule.stop.or outcome.stop := by
  obtain ⟨id, on, condition, action, maxFires, metadata⟩ := rule
  rcases action with _ | _ | _ | _ | _ | _ | _ | ⟨_ | _, _ | _⟩ <;> rfl

theorem applyAction_fired : (outcome.applyAction rule event reference).fired = outcome.fired := by
  obtain ⟨id, on, condition, action, maxFires, metadata⟩ := rule
  rcases action with _ | _ | _ | _ | _ | _ | _ | ⟨_ | _, _ | _⟩ <;> rfl

structure OneEach : Prop where
  decisions : outcome.fired.countP (·.decides) = if outcome.decision.isSome then 1 else 0
  switches : outcome.fired.countP (·.switches) = if outcome.switch.isSome then 1 else 0

end RuleOutcome

namespace Rules

mutual

theorem holds_fired (tool : Option ToolEvent) (run : RunCounters) (fired : Table.Map String Nat) :
    ∀ condition, holds tool { run with fired := fired } condition = holds tool run condition
  | .tool _ | .arg _ | .resultContains _ | .turn _ | .calls _ | .turnsSinceCall _ | .sinceLastCall _ | .toolOffered _
  | .repeatedCall _ | .profileEnteredFrom _ | .finalStatus _ => by simp only [holds]
  | .all conditions => by
    rw [holds, holds]
    exact allHold_fired tool run fired conditions
  | .any conditions => by
    rw [holds, holds]
    exact anyHolds_fired tool run fired conditions
  | .not condition => by rw [holds, holds, holds_fired tool run fired condition]

theorem allHold_fired (tool : Option ToolEvent) (run : RunCounters) (fired : Table.Map String Nat) :
    ∀ conditions, allHold tool { run with fired := fired } conditions = allHold tool run conditions
  | [] => by rw [allHold, allHold]
  | c :: rest => by rw [allHold, allHold, holds_fired tool run fired c, allHold_fired tool run fired rest]

theorem anyHolds_fired (tool : Option ToolEvent) (run : RunCounters) (fired : Table.Map String Nat) :
    ∀ conditions, anyHolds tool { run with fired := fired } conditions = anyHolds tool run conditions
  | [] => by rw [anyHolds, anyHolds]
  | c :: rest => by rw [anyHolds, anyHolds, holds_fired tool run fired c, anyHolds_fired tool run fired rest]

end

end Rules

namespace BehaviorState

variable [Externals]

def firedCount (b : BehaviorState) (id : String) : Nat := (b.run.fired.lookup id).getD 0

def matching (b : BehaviorState) (tool : Option ToolEvent) (rule : Rule) : Bool :=
  !rule.maxFires.any (· ≤ b.firedCount rule.id) && rule.when.all (Rules.holds tool b.run)

def reached (b : BehaviorState) (tool : Option ToolEvent) : List Rule → List Rule
  | [] => []
  | rule :: rest => if rule.stop.isSome && b.matching tool rule then [rule] else rule :: reached b tool rest

def fire (outcome : RuleOutcome) (rule : Rule) (event : RuleEvent) (reference : ProfileRef) : RuleOutcome :=
  { outcome with fired := outcome.fired ++ [rule.firing event] }.applyAction rule event reference

theorem ruleMayFire_eq (b : BehaviorState) (rule : Rule) (tool : Option ToolEvent) (outcome : RuleOutcome) :
    b.ruleMayFire rule tool outcome = (b.matching tool rule && !outcome.alreadyDecided rule) := rfl

omit [Externals] in
theorem fire_fired (outcome : RuleOutcome) (rule : Rule) (event : RuleEvent) (reference : ProfileRef) :
    (fire outcome rule event reference).fired = outcome.fired ++ [rule.firing event] :=
  RuleOutcome.applyAction_fired ..

theorem evaluateRules_cons (event : RuleEvent) (tool : Option ToolEvent) (reference : ProfileRef) (rule : Rule)
    (rest : List Rule) (b : BehaviorState) (outcome : RuleOutcome) :
    evaluateRules event tool reference (rule :: rest) b outcome =
      if b.ruleMayFire rule tool outcome then
        if rule.stop.isSome then (b.noteFired rule.id, fire outcome rule event reference)
        else evaluateRules event tool reference rest (b.noteFired rule.id) (fire outcome rule event reference)
      else evaluateRules event tool reference rest b outcome := by
  rw [evaluateRules]
  split
  · obtain ⟨id, on, condition, action, maxFires, metadata⟩ := rule
    cases action <;> rfl
  · rfl

theorem firedCount_noteFired (b : BehaviorState) (id id' : String) :
    (b.noteFired id).firedCount id' = b.firedCount id' + if id' = id then 1 else 0 := by
  rw [firedCount, noteFired]
  by_cases h : id' = id
  · subst h
    rw [Table.lookup_insert_self, if_pos rfl, firedCount, Option.getD_some]
  · rw [Table.lookup_insert_ne h, if_neg h, firedCount, Nat.add_zero]

def firings (entries : List FiredRule) (id : String) : Nat := entries.countP (·.ruleId == id)

omit [Externals] in
theorem firings_append_firing (entries : List FiredRule) (rule : Rule) (event : RuleEvent) (id : String) :
    firings (entries ++ [rule.firing event]) id = firings entries id + if id = rule.id then 1 else 0 := by
  rw [firings, countP_append, firings, countP_singleton]
  by_cases h : id = rule.id
  · simp [Rule.firing, h]
  · simp [Rule.firing, h, Ne.symm h]

/-- Every entry that an evaluation adds is counted, and nothing else. -/
theorem evaluateRules_counts (event : RuleEvent) (tool : Option ToolEvent) (reference : ProfileRef) (rules : List Rule)
    (b : BehaviorState) (outcome : RuleOutcome) (id : String) :
    (evaluateRules event tool reference rules b outcome).1.firedCount id + firings outcome.fired id =
      b.firedCount id + firings (evaluateRules event tool reference rules b outcome).2.fired id := by
  induction rules generalizing b outcome with
  | nil => rfl
  | cons rule rest ih =>
    have hfire : (b.noteFired rule.id).firedCount id + firings outcome.fired id =
        b.firedCount id + firings (fire outcome rule event reference).fired id := by
      rw [firedCount_noteFired, fire_fired, firings_append_firing]
      omega
    rw [evaluateRules_cons]
    split
    · split
      · exact hfire
      · have hrest := ih (b.noteFired rule.id) (fire outcome rule event reference)
        omega
    · exact ih b outcome

variable {rules : List Rule}

/-- A rule that is at its limit is passed over, so no counter goes beyond it. -/
theorem evaluateRules_limit (event : RuleEvent) (tool : Option ToolEvent) (reference : ProfileRef)
    {limited : Rule} {max : Nat} (hmax : limited.maxFires = some max) (hone : ∀ rule ∈ rules, rule.id = limited.id → rule = limited)
    (b : BehaviorState) (outcome : RuleOutcome) (h : b.firedCount limited.id ≤ max) :
    (evaluateRules event tool reference rules b outcome).1.firedCount limited.id ≤ max := by
  induction rules generalizing b outcome with
  | nil => exact h
  | cons rule rest ih =>
    obtain ⟨hrule, hrest⟩ := forall_mem_cons.mp hone
    rw [evaluateRules_cons]
    split
    · rename_i hfires
      have hnext : (b.noteFired rule.id).firedCount limited.id ≤ max := by
        rw [firedCount_noteFired]
        split
        · rename_i hid
          obtain rfl := hrule hid.symm
          rw [ruleMayFire_eq, matching, hmax] at hfires
          simp only [Option.any_some, Bool.and_eq_true, Bool.not_eq_true', decide_eq_false_iff_not, not_le] at hfires
          exact hfires.1.1
        · exact h
      split
      · exact hnext
      · exact ih hrest _ _ hnext
    · exact ih hrest b outcome h

theorem matching_noteFired (b : BehaviorState) (tool : Option ToolEvent) {rule other : Rule} (h : other.id ≠ rule.id) :
    (b.noteFired rule.id).matching tool other = b.matching tool other := by
  have hholds : Rules.holds tool (b.noteFired rule.id).run = Rules.holds tool b.run :=
    funext (Rules.holds_fired tool b.run _)
  rw [matching, matching, firedCount_noteFired, if_neg h, Nat.add_zero, hholds]

/-- Decision, switch and stop are those there were, or of the first matching rule reached that asks for one. -/
structure FirstWins (b : BehaviorState) (tool : Option ToolEvent) (rules : List Rule) (before after : RuleOutcome) : Prop where
  decision : after.decision = before.decision.or
    (((b.reached tool rules).filter (b.matching tool)).findSome? Rule.decision)
  switch : after.switch = before.switch.or (((b.reached tool rules).filter (b.matching tool)).findSome? Rule.switch)
  stop : after.stop = before.stop.or (((b.reached tool rules).filter (b.matching tool)).findSome? Rule.stop)
  one : before.OneEach → after.OneEach
  fired : ∃ later, after.fired = before.fired ++ later ∧
    (later.map (·.ruleId)).Sublist (((b.reached tool rules).filter (b.matching tool)).map (·.id))

variable {rule : Rule}

omit [Externals] in
theorem oneEach_fire {outcome : RuleOutcome} (event : RuleEvent) (reference : ProfileRef)
    (hopen : outcome.alreadyDecided rule = false) (h : outcome.OneEach) : (fire outcome rule event reference).OneEach := by
  rw [RuleOutcome.alreadyDecided_eq] at hopen
  constructor
  · rw [fire_fired, countP_append, h.decisions, countP_singleton, decides_firing, fire,
      RuleOutcome.applyAction_decision]
    cases hdecision : rule.decision <;> cases houtcome : outcome.decision <;> simp_all
  · rw [fire_fired, countP_append, h.switches, countP_singleton, switches_firing, fire,
      RuleOutcome.applyAction_switch]
    cases hswitch : rule.switch <;> cases houtcome : outcome.switch <;> simp_all

theorem reached_subset (b : BehaviorState) (tool : Option ToolEvent) (rules : List Rule) : b.reached tool rules ⊆ rules := by
  induction rules with
  | nil => exact List.Subset.refl []
  | cons rule rest ih =>
    rw [reached]
    split
    · exact cons_subset_cons rule (nil_subset rest)
    · exact cons_subset_cons rule ih

variable {tool : Option ToolEvent}

theorem reached_congr {b b' : BehaviorState}
    (h : ∀ rule ∈ rules, b'.matching tool rule = b.matching tool rule) : b'.reached tool rules = b.reached tool rules := by
  induction rules with
  | nil => rfl
  | cons rule rest ih =>
    obtain ⟨hrule, hrest⟩ := forall_mem_cons.mp h
    rw [reached, reached, hrule, ih hrest]

variable {before after : RuleOutcome}

theorem FirstWins.congr {b b' : BehaviorState}
    (hmatching : ∀ rule ∈ rules, b'.matching tool rule = b.matching tool rule) (h : FirstWins b' tool rules before after) :
    FirstWins b tool rules before after := by
  have hfilter : (b'.reached tool rules).filter (b'.matching tool) = (b.reached tool rules).filter (b.matching tool) := by
    rw [reached_congr hmatching]
    exact filter_congr fun rule hrule => hmatching rule (reached_subset b tool rules hrule)
  obtain ⟨hdecision, hswitch, hstop, hone, hfired⟩ := h
  rw [hfilter] at hdecision hswitch hstop hfired
  exact ⟨hdecision, hswitch, hstop, hone, hfired⟩

variable {b : BehaviorState}

theorem FirstWins.skip {rest : List Rule} (hno : b.matching tool rule = false) (h : FirstWins b tool rest before after) :
    FirstWins b tool (rule :: rest) before after := by
  have hfilter : (b.reached tool (rule :: rest)).filter (b.matching tool) = (b.reached tool rest).filter (b.matching tool) := by
    rw [reached, hno, Bool.and_false, if_neg Bool.false_ne_true, filter_cons_of_neg (by simp [hno])]
  obtain ⟨hdecision, hswitch, hstop, hone, hfired⟩ := h
  rw [← hfilter] at hdecision hswitch hstop hfired
  exact ⟨hdecision, hswitch, hstop, hone, hfired⟩

theorem filter_reached (rest : List Rule)
    (hmatching : b.matching tool rule = true) (hstop : rule.stop = none) :
    (b.reached tool (rule :: rest)).filter (b.matching tool) =
      rule :: (b.reached tool rest).filter (b.matching tool) := by
  rw [reached, hstop, Option.isSome_none, Bool.false_and, if_neg Bool.false_ne_true, filter_cons_of_pos hmatching]

theorem FirstWins.late {rest : List Rule} (hmatching : b.matching tool rule = true) (hlate : before.alreadyDecided rule = true)
    (h : FirstWins b tool rest before after) : FirstWins b tool (rule :: rest) before after := by
  rw [RuleOutcome.alreadyDecided_eq, Bool.or_eq_true, Bool.and_eq_true, Bool.and_eq_true] at hlate
  have hstop : rule.stop = none := by
    cases hstop : rule.stop with
    | none => rfl
    | some stop =>
      have hsome : rule.stop.isSome = true := by rw [hstop, Option.isSome_some]
      obtain ⟨hdecision, hswitch⟩ := Rule.decision_of_stop hsome
      rw [hdecision, hswitch] at hlate
      simp at hlate
  have hfilter := filter_reached rest hmatching hstop
  obtain ⟨hdecision, hswitch, hstops, hone, later, hlater, hsub⟩ := h
  refine ⟨?_, ?_, ?_, hone, later, hlater, ?_⟩
  · rw [hdecision, hfilter, List.findSome?_cons]
    rcases hlate with ⟨-, hdecided⟩ | ⟨hswitches, -⟩
    · obtain ⟨decision, hdecided⟩ := Option.isSome_iff_exists.mp hdecided
      rw [hdecided, Option.some_or, Option.some_or]
    · cases hnone : rule.decision with
      | none => rfl
      | some decision =>
        rw [Rule.switch_of_decision (by rw [hnone]; rfl)] at hswitches
        cases hswitches
  · rw [hswitch, hfilter, List.findSome?_cons]
    rcases hlate with ⟨hdecides, -⟩ | ⟨-, hswitched⟩
    · rw [Rule.switch_of_decision hdecides]
    · obtain ⟨switch, hswitched⟩ := Option.isSome_iff_exists.mp hswitched
      rw [hswitched, Option.some_or, Option.some_or]
  · rw [hstops, hfilter, List.findSome?_cons, hstop]
  · rw [hfilter, map_cons]
    exact hsub.cons rule.id

theorem FirstWins.go {rest : List Rule} {event : RuleEvent} {reference : ProfileRef} (hmatching : b.matching tool rule = true)
    (hopen : before.alreadyDecided rule = false) (hstop : rule.stop = none)
    (h : FirstWins b tool rest (fire before rule event reference) after) : FirstWins b tool (rule :: rest) before after := by
  have hfilter := filter_reached rest hmatching hstop
  obtain ⟨hdecision, hswitch, hstops, hone, later, hlater, hsub⟩ := h
  have hboth := hopen
  rw [RuleOutcome.alreadyDecided_eq, Bool.or_eq_false_iff] at hboth
  refine ⟨?_, ?_, ?_, fun hbefore => hone (oneEach_fire event reference hopen hbefore), rule.firing event :: later, ?_, ?_⟩
  · rw [hdecision, hfilter, fire, RuleOutcome.applyAction_decision, List.findSome?_cons]
    cases hfirst : rule.decision <;> cases hbefore : before.decision <;> simp_all
  · rw [hswitch, hfilter, fire, RuleOutcome.applyAction_switch, List.findSome?_cons]
    cases hfirst : rule.switch <;> cases hbefore : before.switch <;> simp_all
  · rw [hstops, hfilter, fire, RuleOutcome.applyAction_stop, List.findSome?_cons, hstop]
    rfl
  · rw [hlater, fire_fired, append_assoc]
    rfl
  · rw [hfilter, map_cons, map_cons]
    exact hsub.cons_cons rule.id

theorem FirstWins.halt {before : RuleOutcome}
    (rest : List Rule) (event : RuleEvent) (reference : ProfileRef) (hmatching : b.matching tool rule = true)
    (hopen : before.alreadyDecided rule = false) (hbefore : before.stop = none) (hstop : rule.stop.isSome = true) :
    FirstWins b tool (rule :: rest) before (fire before rule event reference) := by
  have hfilter : (b.reached tool (rule :: rest)).filter (b.matching tool) = [rule] := by
    rw [reached, hstop, hmatching, Bool.true_and, if_pos rfl, filter_cons_of_pos hmatching, filter_nil]
  obtain ⟨hdecision, hswitch⟩ := Rule.decision_of_stop hstop
  refine ⟨?_, ?_, ?_, oneEach_fire event reference hopen, [rule.firing event], fire_fired .., ?_⟩
  · rw [hfilter, fire, RuleOutcome.applyAction_decision, hdecision, List.findSome?_singleton, hdecision]
    simp
  · rw [hfilter, fire, RuleOutcome.applyAction_switch, hswitch, List.findSome?_singleton, hswitch]
    simp
  · rw [hfilter, fire, RuleOutcome.applyAction_stop, List.findSome?_singleton, hbefore]
    simp
  · rw [hfilter]
    exact List.Sublist.refl _

/-- By induction over the rules: one is skipped, comes too late, fires, or ends the evaluation. -/
theorem evaluateRules_firstWins (event : RuleEvent) (tool : Option ToolEvent) (reference : ProfileRef) (hnodup : (rules.map (·.id)).Nodup) (b : BehaviorState) (outcome : RuleOutcome)
    (hgoing : outcome.stop = none) :
    FirstWins b tool rules outcome (evaluateRules event tool reference rules b outcome).2 := by
  induction rules generalizing b outcome with
  | nil => exact ⟨by simp [evaluateRules, reached], by simp [evaluateRules, reached], by simp [evaluateRules, reached], id,
      [], by simp [evaluateRules], by simp [reached]⟩
  | cons rule rest ih =>
    rw [map_cons, nodup_cons] at hnodup
    obtain ⟨hnew, hnodup⟩ := hnodup
    have hothers : ∀ other ∈ rest, (b.noteFired rule.id).matching tool other = b.matching tool other :=
      fun other hother => matching_noteFired b tool fun hid => hnew (hid ▸ mem_map_of_mem hother)
    rw [evaluateRules_cons, ruleMayFire_eq]
    cases hmatching : b.matching tool rule with
    | false => exact (ih hnodup b outcome hgoing).skip hmatching
    | true =>
      cases hopen : outcome.alreadyDecided rule with
      | true => exact (ih hnodup b outcome hgoing).late hmatching hopen
      | false =>
        rw [Bool.not_false, Bool.and_true, if_pos rfl]
        cases hstop : rule.stop with
        | some stop =>
          exact .halt rest event reference hmatching hopen hgoing (by rw [hstop]; rfl)
        | none =>
          have hnext : (fire outcome rule event reference).stop = none := by
            rw [fire, RuleOutcome.applyAction_stop, hstop]
            exact hgoing
          exact ((ih hnodup (b.noteFired rule.id) _ hnext).congr hothers).go hmatching hopen hstop

theorem evaluateRules_reached (event : RuleEvent) (tool : Option ToolEvent) (reference : ProfileRef) (rules : List Rule)
    (hnodup : (rules.map (·.id)).Nodup) (b : BehaviorState) (outcome : RuleOutcome) :
    evaluateRules event tool reference rules b outcome =
      evaluateRules event tool reference (b.reached tool rules) b outcome := by
  induction rules generalizing b outcome with
  | nil => rfl
  | cons rule rest ih =>
    rw [map_cons, nodup_cons] at hnodup
    obtain ⟨hnew, hnodup⟩ := hnodup
    have hothers : ∀ other ∈ rest, (b.noteFired rule.id).matching tool other = b.matching tool other :=
      fun other hother => matching_noteFired b tool fun hid => hnew (hid ▸ mem_map_of_mem hother)
    rw [reached]
    split
    · rename_i hends
      obtain ⟨hstop, hmatching⟩ := Bool.and_eq_true_iff.mp hends
      have hfires : b.ruleMayFire rule tool outcome = true := by
        obtain ⟨hdecision, hswitch⟩ := Rule.decision_of_stop hstop
        rw [ruleMayFire_eq, hmatching, RuleOutcome.alreadyDecided_eq, hdecision, hswitch]
        rfl
      rw [evaluateRules_cons, evaluateRules_cons, hfires, hstop, if_pos rfl, if_pos rfl, if_pos rfl, if_pos rfl]
    · rw [evaluateRules_cons, evaluateRules_cons, ih hnodup b outcome, ih hnodup (b.noteFired rule.id),
        reached_congr hothers]

end BehaviorState

theorem Compiler.checkRules_nil {seen : List String} {index : Nat} {rules : List Rule}
    (h : checkRules seen index rules = []) : (rules.map (·.id)).Nodup ∧ ∀ rule ∈ rules, rule.id ∉ seen := by
  induction rules generalizing seen index with
  | nil => simp
  | cons rule rest ih =>
    simp only [checkRules, append_eq_nil_iff] at h
    obtain ⟨⟨⟨⟨hid, -⟩, -⟩, -⟩, hrest⟩ := h
    obtain ⟨hblank, hseen⟩ := checkId_nil hid
    rw [nextSeen, if_neg (by simp [hblank])] at hrest
    obtain ⟨hnodup, hunseen⟩ := ih hrest
    constructor
    · rw [map_cons, nodup_cons, mem_map]
      refine ⟨?_, hnodup⟩
      rintro ⟨other, hother, hsame⟩
      exact hunseen other hother (hsame ▸ mem_cons_self)
    · rw [forall_mem_cons]
      exact ⟨hseen, fun other hother hmem => hunseen other hother (mem_cons_of_mem _ hmem)⟩

section

variable [Externals]

theorem CompiledProfile.rules_nodup (p : CompiledProfile) : (p.profile.rules.map (·.id)).Nodup := by
  have hvalid := p.valid
  simp only [Compiler.issues, Compiler.checkRulesAndChildren, append_eq_nil_iff] at hvalid
  exact (Compiler.checkRules_nil hvalid.2.1.1).1

def CompiledProfile.rulesOn (p : CompiledProfile) (event : RuleEvent) : List Rule := p.profile.rules.filter (·.on == event)

theorem CompiledProfile.rulesOn_nodup (p : CompiledProfile) (event : RuleEvent) : ((p.rulesOn event).map (·.id)).Nodup :=
  p.rules_nodup.sublist (filter_sublist.map _)

structure Inquiry where
  counters : RunCounters
  event : RuleEvent
  tool : Option ToolEvent

namespace BehaviorState

def asked (b : BehaviorState) (q : Inquiry) : BehaviorState := { b with run := { q.counters with fired := b.run.fired } }

def answer (b : BehaviorState) (q : Inquiry) : RuleOutcome := ((b.asked q).evaluate q.event q.tool).2

def evaluations : Machine BehaviorState Inquiry FiredRule where
  step b q := (((b.asked q).evaluate q.event q.tool).1, (b.answer q).fired)

def matched (b : BehaviorState) (q : Inquiry) : List Rule :=
  ((b.asked q).reached q.tool (b.profile.rulesOn q.event)).filter ((b.asked q).matching q.tool)

theorem profile_step (b : BehaviorState) (q : Inquiry) : (evaluations.step b q).1.profile = b.profile := by
  obtain ⟨fired, h⟩ := (b.asked q).evaluate_frame q.event q.tool
  show ((b.asked q).evaluate q.event q.tool).1.profile = b.profile
  rw [h]
  rfl

/-- What one evaluation does for the profile's rules on its event. -/
structure Orderly (b : BehaviorState) (q : Inquiry) : Prop where
  decision : (b.answer q).decision = (b.matched q).findSome? Rule.decision
  switch : (b.answer q).switch = (b.matched q).findSome? Rule.switch
  stop : (b.answer q).stop = (b.matched q).findSome? Rule.stop
  decisions : (b.answer q).fired.countP (·.decides) ≤ 1
  switches : (b.answer q).fired.countP (·.switches) ≤ 1
  /-- The firings are of rules that match, in their order. -/
  fired : ((b.answer q).fired.map (·.ruleId)).Sublist ((b.matched q).map (·.id))
  /-- What comes after the stop might as well not be there. -/
  reached : (b.asked q).evaluate q.event q.tool = evaluateRules q.event q.tool b.reference
    ((b.asked q).reached q.tool (b.profile.rulesOn q.event)) (b.asked q) {}

theorem orderly (b : BehaviorState) (q : Inquiry) : b.Orderly q := by
  have hnodup := b.profile.rulesOn_nodup q.event
  have hwins := evaluateRules_firstWins q.event q.tool b.reference hnodup (b.asked q) {} rfl
  have hone := hwins.one ⟨rfl, rfl⟩
  obtain ⟨later, hlater, hsub⟩ := hwins.fired
  refine ⟨hwins.decision, hwins.switch, hwins.stop, ?_, ?_, ?_, evaluateRules_reached _ _ _ _ hnodup _ _⟩
  · show List.countP _ (evaluateRules q.event q.tool b.reference (b.profile.rulesOn q.event) (b.asked q) {}).2.fired ≤ 1
    rw [hone.decisions]
    split <;> decide
  · show List.countP _ (evaluateRules q.event q.tool b.reference (b.profile.rulesOn q.event) (b.asked q) {}).2.fired ≤ 1
    rw [hone.switches]
    split <;> decide
  · have hfired : (b.answer q).fired = later := hlater
    rw [hfired]
    exact hsub

theorem firedCount_step (b : BehaviorState) (q : Inquiry) (id : String) :
    (evaluations.step b q).1.firedCount id = b.firedCount id + firings (b.answer q).fired id :=
  evaluateRules_counts q.event q.tool b.reference (b.profile.rulesOn q.event) (b.asked q) {} id

theorem firedCount_run (b : BehaviorState) (inquiries : List Inquiry) (id : String) :
    (evaluations.run b inquiries).firedCount id = b.firedCount id + firings (evaluations.output b inquiries) id := by
  induction inquiries generalizing b with
  | nil => rfl
  | cons q rest ih =>
    rw [Machine.run_cons, ih, firedCount_step, Nat.add_assoc, firings, firings, ← countP_append]
    rfl

def WithinLimits (b : BehaviorState) : Prop :=
  ∀ rule ∈ b.profile.profile.rules, ∀ max, rule.maxFires = some max → b.firedCount rule.id ≤ max

theorem WithinLimits.step {b : BehaviorState} (h : b.WithinLimits) (q : Inquiry) : (evaluations.step b q).1.WithinLimits := by
  intro rule hrule max hmax
  rw [profile_step] at hrule
  refine evaluateRules_limit q.event q.tool b.reference hmax (fun other hother hid => ?_) (b.asked q) {} (h rule hrule max hmax)
  exact inj_on_of_nodup_map b.profile.rules_nodup (mem_of_mem_filter hother) hrule hid

theorem WithinLimits.run {b : BehaviorState} (h : b.WithinLimits) (inquiries : List Inquiry) :
    (evaluations.run b inquiries).WithinLimits := by
  induction inquiries generalizing b with
  | nil => exact h
  | cons q rest ih => exact ih (h.step q)

theorem profile_run (b : BehaviorState) (inquiries : List Inquiry) :
    (evaluations.run b inquiries).profile = b.profile := by
  induction inquiries generalizing b with
  | nil => rfl
  | cons q rest ih => rw [Machine.run_cons, ih, profile_step]

/-- Over the evaluations of a run, whatever they are asked, the counters are the numbers of entries, no rule has more
    entries than it may fire, and each evaluation is orderly. -/
theorem rules_respect_limits (b : BehaviorState) (hstart : b.run.fired = ∅) (inquiries : List Inquiry) :
    (∀ rule ∈ b.profile.profile.rules, ∀ max, rule.maxFires = some max →
      firings (evaluations.output b inquiries) rule.id ≤ max) ∧
    (∀ id, (evaluations.run b inquiries).firedCount id = firings (evaluations.output b inquiries) id) ∧
    ∀ round ∈ evaluations.trace b inquiries, round.pre.Orderly round.input ∧ round.out = (round.pre.answer round.input).fired := by
  have hzero (id : String) : b.firedCount id = 0 := by
    rw [firedCount, hstart, AList.lookup_empty]
    rfl
  have hcount (id : String) : (evaluations.run b inquiries).firedCount id = firings (evaluations.output b inquiries) id := by
    rw [firedCount_run, hzero, Nat.zero_add]
  refine ⟨fun rule hrule max hmax => ?_, hcount, ?_⟩
  · have hlimits : b.WithinLimits := by
      intro rule _ max _
      rw [hzero]
      exact Nat.zero_le max
    rw [← hcount]
    exact hlimits.run inquiries rule (by rw [profile_run]; exact hrule) max hmax
  · exact Machine.trace_invariant (P := fun _ => True) (fun b q _ => ⟨trivial, b.orderly q, rfl⟩) trivial

end BehaviorState

end

namespace Sample

def remindingDefinition : BehaviorProfile where
  schemaVersion := behaviorSchemaVersion
  id := "reminding"
  revision := 1
  name := "Reminding"
  rules := [{ id := "remind", on := .beforeModelRequest, action := .inject { text := "Be brief." }, maxFires := some 1 }]

def reminding : CompiledProfile := ⟨remindingDefinition, contentHash remindingDefinition, by decide, rfl⟩

def beforeRequest (turns : Nat) : Inquiry := ⟨{ turns }, .beforeModelRequest, none⟩

end Sample

open Sample in
theorem rules_respect_limits_reminding :
    BehaviorState.firings (BehaviorState.evaluations.output (.new reminding) [beforeRequest 1, beforeRequest 2]) "remind" ≤ 1 ∧
    (BehaviorState.evaluations.run (.new reminding) [beforeRequest 1, beforeRequest 2]).firedCount "remind" =
      BehaviorState.firings (BehaviorState.evaluations.output (.new reminding) [beforeRequest 1, beforeRequest 2]) "remind" := by
  obtain ⟨hlimit, hcount, -⟩ := BehaviorState.rules_respect_limits (.new reminding) rfl [beforeRequest 1, beforeRequest 2]
  exact ⟨hlimit _ (mem_singleton_self _) 1 rfl, hcount "remind"⟩

end RustyCore
