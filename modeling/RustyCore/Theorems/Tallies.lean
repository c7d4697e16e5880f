import RustyCore.Theorems.Deeds
import RustyCore.Theorems.Gate

/-! What the deeds add up to: the usage counters against the announced ends of runs and answers to calls, and the
    active profile against the announced switches. -/

namespace RustyCore

open List

section

variable [Externals] {B : CompiledProfile → ProfileRegistry → Prop} {a b c : Agent}
  {es fs : List AgentEffect} {opened : List UserInput}

def finishCount (es : List AgentEffect) : Nat := es.countP (·.isFinish)

def answerCount (es : List AgentEffect) : Nat := es.countP (·.isAnswer)

omit [Externals] in
theorem counts_of_plain (h : Uncounted es) : finishCount es = 0 ∧ answerCount es = 0 := by
  constructor
  all_goals
    refine countP_eq_zero.mpr fun e he => ?_
    have hplain := h e he
    simp only [AgentEffect.isPlain, Bool.and_eq_true, Bool.not_eq_true'] at hplain
    simp [hplain.1.1, hplain.1.2]

structure Tallied (a : Agent) (es : List AgentEffect) (b : Agent) : Prop where
  runs : a.holdings.runs ≤ maxU64 → b.holdings.runs = min (a.holdings.runs + finishCount es) maxU64
  toolCalls : a.holdings.toolCalls ≤ maxU64 → b.holdings.toolCalls = min (a.holdings.toolCalls + answerCount es) maxU64

theorem Tallied.same (hruns : b.holdings.runs = a.holdings.runs) (hcalls : b.holdings.toolCalls = a.holdings.toolCalls)
    (h : Uncounted es) : Tallied a es b := by
  obtain ⟨hfinish, hanswer⟩ := counts_of_plain h
  constructor
  · intro hle
    rw [hruns, hfinish]
    omega
  · intro hle
    rw [hcalls, hanswer]
    omega

theorem Tallied.trans (h : Tallied a es b) (h' : Tallied b fs c) : Tallied a (es ++ fs) c := by
  constructor
  · intro hle
    have hb := h.runs hle
    rw [h'.runs (by omega), hb, finishCount, finishCount, finishCount, countP_append]
    omega
  · intro hle
    have hb := h.toolCalls hle
    rw [h'.toolCalls (by omega), hb, answerCount, answerCount, answerCount, countP_append]
    omega

theorem Deed.tallied (h : Deed B opened a es b) : Tallied a es b := by
  cases h with
  | plain h he => exact .same (by rw [h]) (by rw [h]) he
  | amends _ _ _ _ h | tells _ _ h | opens _ _ _ h | pends _ _ _ _ h | brings _ _ _ h =>
    exact .same (by rw [h]) (by rw [h]) .nil
  | refreshes _ _ _ _ h => exact .same (by rw [h]) (by rw [h]) .nil
  | switches _ _ _ _ _ h =>
    constructor
    · intro hle
      rw [h]
      simp [finishCount, AgentEffect.isFinish]
      omega
    · intro hle
      rw [h]
      simp [answerCount, AgentEffect.isAnswer]
      omega
  | finishes before after result hbefore hafter h =>
    obtain ⟨hfinish, hanswer⟩ := counts_of_plain hbefore
    obtain ⟨hfinish', hanswer'⟩ := counts_of_plain hafter
    simp only [finishCount, answerCount] at hfinish hanswer hfinish' hanswer'
    constructor
    · intro hle
      rw [h, finishCount, countP_append, countP_cons, hfinish, hfinish']
      simp [AgentEffect.isFinish, saturatingAdd]
    · intro hle
      rw [h, answerCount, countP_append, countP_cons, hanswer, hanswer']
      simp [AgentEffect.isAnswer]
      omega
  | answers before callId result hbefore h =>
    obtain ⟨hfinish, hanswer⟩ := counts_of_plain hbefore
    simp only [finishCount, answerCount] at hfinish hanswer
    constructor
    · intro hle
      rw [h, finishCount, countP_append, hfinish]
      simp [AgentEffect.isFinish]
      omega
    · intro hle
      rw [h, answerCount, countP_append, hanswer]
      simp [AgentEffect.isAnswer, saturatingAdd]

theorem Deeds.tallied (h : Deeds B opened a es b) : Tallied a es b := by
  induction h with
  | refl a => exact .same rfl rfl .nil
  | step h _ ih => exact h.tallied.trans ih

theorem tallied_apply (a : Agent) (command : AgentCommand) :
    Tallied a (a.apply command).2 (a.apply command).1 := by
  obtain ⟨m, hm, hdeeds⟩ := a.deeds_apply (B := fun _ _ => True) command fun _ _ _ => trivial
  have hfirst : Tallied a [] m := .same (by rw [hm]) (by rw [hm]) .nil
  exact hfirst.trans hdeeds.tallied

theorem tallied_run (a : Agent) (commands : List AgentCommand) :
    Tallied a (Agent.machine.output a commands) (Agent.machine.run a commands) := by
  induction commands generalizing a with
  | nil => exact .same rfl rfl .nil
  | cons command commands ih => exact (tallied_apply a command).trans (ih (a.apply command).1)

/-- Over any commands to a fresh agent, the usage counters count the ends of runs and the answers to calls that were
    announced, up to where they saturate. -/
theorem usage_counts_effects (a : Agent) (h : a.Fresh) (commands : List AgentCommand) :
    (Agent.machine.run a commands).usage.runs = min (finishCount (Agent.machine.output a commands)) maxU64 ∧
      (Agent.machine.run a commands).usage.toolCalls =
        min (answerCount (Agent.machine.output a commands)) maxU64 := by
  have htallied := tallied_run a commands
  obtain ⟨_, _, _, _, _, _, _, _, _, _, rfl⟩ := h
  constructor
  · exact (htallied.runs (Nat.zero_le _)).trans (congrArg (min · maxU64) (Nat.zero_add _))
  · exact (htallied.toolCalls (Nat.zero_le _)).trans (congrArg (min · maxU64) (Nat.zero_add _))

def Heralded (a : Agent) (es : List AgentEffect) (b : Agent) : Prop :=
  b.holdings.profile = a.holdings.profile ∨ ∃ from_, .emit (.profileChanged from_ b.holdings.profile.reference.display) ∈ es

theorem Heralded.trans (h : Heralded a es b) (h' : Heralded b fs c) : Heralded a (es ++ fs) c := by
  rcases h' with hsame | ⟨from_, hlater⟩
  · rcases h with hfirst | ⟨from_, hfirst⟩
    · exact .inl (hsame.trans hfirst)
    · exact .inr ⟨from_, mem_append_left _ (hsame ▸ hfirst)⟩
  · exact .inr ⟨from_, mem_append_right _ hlater⟩

theorem Deeds.heralded (h : Deeds B opened a es b) : Heralded a es b := by
  induction h with
  | refl a => exact .inl rfl
  | @step _ _ a b c es fs h _ ih =>
    have hfirst : Heralded a es b := by
      cases h with
      | switches next library from_ _ _ h => exact .inr ⟨from_, by rw [h]; exact mem_cons_self⟩
      | plain h | tells _ _ h | opens _ _ _ h | pends _ _ _ _ h | brings _ _ _ h | refreshes _ _ _ _ h
      | finishes _ _ _ _ _ h | answers _ _ _ _ h => exact .inl (by rw [h])
      | amends _ _ _ _ h => exact .inl (by rw [h])
    exact hfirst.trans ih

/-- A command that changes the active profile announces the new one, whatever else it does to the run. -/
theorem profile_changes_announced (a : Agent) (command : AgentCommand)
    (h : (a.apply command).1.state.behavior.profile ≠ a.state.behavior.profile) :
    ∃ from_, .emit (.profileChanged from_ (a.apply command).1.state.behavior.reference.display) ∈
      (a.apply command).2 := by
  obtain ⟨m, hm, hdeeds⟩ := a.deeds_apply (B := fun _ _ => True) command fun _ _ _ => trivial
  refine hdeeds.heralded.resolve_left fun hsame => h (hsame.trans ?_)
  rw [hm]
  rfl

end

namespace Sample

section

/-- The libraries again, with the head of a profile's encoding, where the profiles below differ. -/
local instance encoding : Externals :=
  { externals with
    encodeProfile := fun profile =>
      ("\x7b\"schema_version\":1,\"id\":\"" ++ profile.id ++ "\",").toList.map (·.toNat.toUInt8) }

def namedDefinition (id : ProfileId) : BehaviorProfile where
  schemaVersion := behaviorSchemaVersion
  id := id
  revision := 1
  name := "Sample"

def author : CompiledProfile :=
  ⟨namedDefinition "author", contentHash (namedDefinition "author"), by decide, rfl⟩

def reviewer : CompiledProfile :=
  ⟨namedDefinition "reviewer", contentHash (namedDefinition "reviewer"), by decide, rfl⟩

def awaiting : Agent :=
  ((Agent.new ⟨7⟩ ⟨1⟩ none 0 "You are helpful." (capabilities .allow)).withBehavior
    (BehaviorState.new author)).withPendingProfile (some (reviewer, .new))

set_option maxRecDepth 4096 in
theorem profile_changes_announced_at_start : (awaiting.apply prompt).1.state.behavior.reference.display = "reviewer@1" ∧
    ∃ from_, .emit (.profileChanged from_ (awaiting.apply prompt).1.state.behavior.reference.display) ∈
      (awaiting.apply prompt).2 :=
  ⟨by decide, profile_changes_announced awaiting prompt fun h =>
    absurd (congrArg (·.profile.id) h) (by decide)⟩

end

end Sample

section

open Sample

theorem usage_counts_effects_of_prompt : (agent .allow gated).Fresh ∧
    (Agent.machine.run (agent .allow gated) [prompt, answer]).usage.runs =
      min (finishCount (Agent.machine.output (agent .allow gated) [prompt, answer])) maxU64 :=
  ⟨fresh_agent .allow gated,
    (usage_counts_effects (agent .allow gated) (fresh_agent .allow gated) [prompt, answer]).1⟩

end

end RustyCore
