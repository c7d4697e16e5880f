import RustyCore.Agent.State
import Mathlib.Algebra.BigOperators.Group.List.Basic

/-! Usage up a tree of agents: the inclusive summary of the root against the sum over all agents. What each level
    adds up is the children's inclusive usage, so nobody is counted twice; the own usage of a parent that recorded no
    request is not added at all. -/

namespace RustyCore

open List

/-- What is counted, each a `u64` that saturates. -/
inductive Counted where
  | runs
  | requests
  | toolCalls

inductive TokenKind where
  | total
  | input
  | output
  | cacheRead
  | cacheWrite
  | reasoning

def AgentUsageMetrics.count (m : AgentUsageMetrics) : Counted → Nat
  | .runs => m.totalRuns
  | .requests => m.totalRequests
  | .toolCalls => m.totalToolCalls

def AgentUsageMetrics.tokens (m : AgentUsageMetrics) : TokenKind → UsageValue
  | .total => m.totalTokens
  | .input => m.inputTokens
  | .output => m.outputTokens
  | .cacheRead => m.cacheReadTokens
  | .cacheWrite => m.cacheWriteTokens
  | .reasoning => m.reasoningTokens

def ModelUsage.tokens (u : ModelUsage) : TokenKind → UsageValue
  | .total => u.totalTokens
  | .input => u.inputTokens
  | .output => u.outputTokens
  | .cacheRead => u.cacheReadTokens
  | .cacheWrite => u.cacheWriteTokens
  | .reasoning => u.reasoningTokens

structure AgentUsage where
  ledger : UsageLedger
  counts_le : ∀ c, ledger.selfMetrics.count c ≤ maxU64
  tokens_le : ∀ record ∈ ledger.records, ∀ k n, record.modelUsage.tokens k = some n → n ≤ maxU64

inductive AgentTree where
  | node (usage : AgentUsage) (children : List AgentTree)

namespace AgentTree

def summary : AgentTree → AgentUsageSummary
  | .node usage children =>
    UsageLedger.computeAgentUsageSummary usage.ledger.selfMetrics (children.map fun child => child.summary)

def agents : AgentTree → List AgentUsage
  | .node usage children => usage :: children.flatMap fun child => child.agents

def silentParents : AgentTree → List AgentUsage
  | .node usage children =>
    (if children ≠ [] ∧ usage.ledger.records = [] then [usage] else []) ++ children.flatMap fun child => child.silentParents

def addedUp : AgentTree → List AgentUsage
  | .node usage children =>
    (if children ≠ [] ∧ usage.ledger.records = [] then [] else [usage]) ++ children.flatMap fun child => child.addedUp

def sumCount (c : Counted) (agents : List AgentUsage) : Nat := (agents.map (·.ledger.selfMetrics.count c)).sum

def sumTokens (k : TokenKind) (agents : List AgentUsage) : Nat :=
  (agents.map fun a => (a.ledger.selfMetrics.tokens k).getD 0).sum

def Known (k : TokenKind) (agents : List AgentUsage) : Prop := ∀ a ∈ agents, (a.ledger.selfMetrics.tokens k).isSome = true

structure CountedOnce (t : AgentTree) : Prop where
  counts : ∀ c, t.summary.inclusiveUsage.count c = sumCount c t.agents
  tokens : ∀ k, Known k t.agents → t.summary.inclusiveUsage.tokens k = some (sumTokens k t.agents)

/-- Parents without a request have nothing else to count, and the sums are in the range of a `u64`. -/
structure Countable (t : AgentTree) : Prop where
  silent : ∀ a ∈ t.silentParents, a.ledger.runs = 0 ∧ a.ledger.toolCalls = 0
  counts_le : ∀ c, sumCount c t.agents ≤ maxU64
  tokens_le : ∀ k, Known k t.agents → sumTokens k t.agents ≤ maxU64

@[elab_as_elim] theorem rec_children {P : AgentTree → Prop}
    (node : ∀ usage children, (∀ child ∈ children, P child) → P (.node usage children)) : ∀ t, P t
  | .node usage children => node usage children fun child _ => rec_children node child

end AgentTree

theorem foldl_map_sum {β : Type} {op : β → β → β} {h : Nat → β} (hop : ∀ a b, op (h a) (h b) = h (a + b)) (a : Nat)
    (l : List Nat) : (l.map h).foldl op (h a) = h (a + l.sum) := by
  induction l generalizing a with
  | nil => rfl
  | cons b l ih => rw [map_cons, foldl_cons, hop, ih, sum_cons, Nat.add_assoc]

theorem saturatingAdd_min (a b : Nat) : saturatingAdd (min a maxU64) (min b maxU64) = min (a + b) maxU64 := by
  unfold saturatingAdd
  omega

def inRange (n : Nat) : UsageValue := if n ≤ maxU64 then some n else none

theorem checkedAdd_inRange (a b : Nat) : UsageValue.checkedAdd (inRange a) (inRange b) = inRange (a + b) := by
  unfold inRange UsageValue.checkedAdd
  by_cases ha : a ≤ maxU64
  · by_cases hb : b ≤ maxU64
    · simp only [if_pos ha, if_pos hb]
    · have hsum : ¬a + b ≤ maxU64 := by omega
      simp only [if_pos ha, if_neg hb, if_neg hsum]
  · have hsum : ¬a + b ≤ maxU64 := by omega
    simp only [if_neg ha, if_neg hsum]

theorem inRange_eq_some {n : Nat} : inRange n = some n ↔ n ≤ maxU64 := by
  unfold inRange
  split <;> simp_all

namespace UsageLedger

@[simp] theorem count_addMetrics (left right : AgentUsageMetrics) (c : Counted) :
    (addMetrics left right).count c = saturatingAdd (left.count c) (right.count c) := by
  cases c <;> rfl

@[simp] theorem tokens_addMetrics (left right : AgentUsageMetrics) (k : TokenKind) :
    (addMetrics left right).tokens k = UsageValue.checkedAdd (left.tokens k) (right.tokens k) := by
  cases k <;> rfl

@[simp] theorem tokens_addModelUsage (total usage : ModelUsage) (k : TokenKind) :
    (addModelUsage total usage).tokens k = UsageValue.checkedAdd (total.tokens k) (usage.tokens k) := by
  cases k <;> rfl

theorem aggregateMetrics_cons {β : Type} (read : AgentUsageMetrics → β) {op : β → β → β}
    (hread : ∀ left right, read (addMetrics left right) = op (read left) (read right)) (first : AgentUsageMetrics)
    (rest : List AgentUsageMetrics) :
    read (aggregateMetrics (first :: rest)) = (rest.map read).foldl op (read first) := by
  rw [aggregateMetrics, foldl_map]
  exact (foldl_hom read fun left right => (hread left right).symm).symm

theorem count_aggregateMetrics {α : Type} {c : Counted} {l : List α} (metrics : α → AgentUsageMetrics) (total : α → Nat)
    (h : ∀ x ∈ l, (metrics x).count c = min (total x) maxU64) :
    (aggregateMetrics (l.map metrics)).count c = min (l.map total).sum maxU64 := by
  cases l with
  | nil => cases c <;> rfl
  | cons first rest =>
    obtain ⟨hfirst, hrest⟩ := forall_mem_cons.mp h
    have hmap : (rest.map metrics).map (·.count c) = (rest.map total).map (min · maxU64) := by
      rw [map_map, map_map]
      exact map_congr_left hrest
    rw [map_cons, map_cons, sum_cons,
      aggregateMetrics_cons (·.count c) (fun left right => count_addMetrics left right c), hmap, hfirst,
      foldl_map_sum saturatingAdd_min]

theorem tokens_aggregateMetrics {α : Type} {k : TokenKind} {l : List α} (metrics : α → AgentUsageMetrics)
    (total : α → Nat) (hne : l ≠ []) (h : ∀ x ∈ l, (metrics x).tokens k = inRange (total x)) :
    (aggregateMetrics (l.map metrics)).tokens k = inRange (l.map total).sum := by
  cases l with
  | nil => exact absurd rfl hne
  | cons first rest =>
    obtain ⟨hfirst, hrest⟩ := forall_mem_cons.mp h
    have hmap : (rest.map metrics).map (·.tokens k) = (rest.map total).map inRange := by
      rw [map_map, map_map]
      exact map_congr_left hrest
    rw [map_cons, map_cons, sum_cons,
      aggregateMetrics_cons (·.tokens k) (fun left right => tokens_addMetrics left right k), hmap, hfirst,
      foldl_map_sum checkedAdd_inRange]

theorem tokens_selfMetrics (ledger : UsageLedger) (k : TokenKind) :
    ledger.selfMetrics.tokens k = (aggregateModelUsage (ledger.records.map (·.modelUsage))).tokens k := by
  cases k <;> rfl

theorem checkedAdd_le {a b : UsageValue} {n : Nat} (h : UsageValue.checkedAdd a b = some n) : n ≤ maxU64 := by
  unfold UsageValue.checkedAdd at h
  split at h
  · split at h
    · obtain rfl := Option.some.inj h
      assumption
    · cases h
  · cases h

theorem aggregateModelUsage_le {k : TokenKind} {usages : List ModelUsage}
    (h : ∀ u ∈ usages, ∀ n, u.tokens k = some n → n ≤ maxU64) {n : Nat}
    (hsum : (aggregateModelUsage usages).tokens k = some n) : n ≤ maxU64 := by
  cases usages with
  | nil => cases k <;> cases hsum
  | cons first rest =>
    obtain ⟨hfirst, -⟩ := forall_mem_cons.mp h
    rcases eq_nil_or_concat rest with rfl | ⟨init, last, rfl⟩
    · exact hfirst n hsum
    · rw [aggregateModelUsage, concat_eq_append, foldl_concat, tokens_addModelUsage] at hsum
      exact checkedAdd_le hsum

end UsageLedger

theorem AgentUsage.tokens_inRange (a : AgentUsage) {k : TokenKind} (h : (a.ledger.selfMetrics.tokens k).isSome = true) :
    a.ledger.selfMetrics.tokens k = inRange ((a.ledger.selfMetrics.tokens k).getD 0) := by
  obtain ⟨n, hn⟩ := Option.isSome_iff_exists.mp h
  rw [hn, Option.getD_some, eq_comm, inRange_eq_some]
  rw [UsageLedger.tokens_selfMetrics] at hn
  refine UsageLedger.aggregateModelUsage_le (fun u hu n hread => ?_) hn
  obtain ⟨record, hrecord, rfl⟩ := mem_map.mp hu
  exact a.tokens_le record hrecord k n hread

theorem AgentUsage.records_ne_nil (a : AgentUsage) {k : TokenKind}
    (h : (a.ledger.selfMetrics.tokens k).isSome = true) : a.ledger.records ≠ [] := by
  intro hnil
  rw [UsageLedger.tokens_selfMetrics, hnil] at h
  cases k <;> cases h

namespace AgentTree

variable {c : Counted} {k : TokenKind}

theorem sumCount_append (c : Counted) (as bs : List AgentUsage) : sumCount c (as ++ bs) = sumCount c as + sumCount c bs := by
  simp [sumCount]

theorem sumCount_flatMap (c : Counted) {α : Type} (l : List α) (f : α → List AgentUsage) :
    sumCount c (l.flatMap f) = (l.map fun x => sumCount c (f x)).sum := by
  induction l with
  | nil => rfl
  | cons x l ih => rw [flatMap_cons, sumCount_append, ih, map_cons, sum_cons]

theorem sumTokens_flatMap (k : TokenKind) {α : Type} (l : List α) (f : α → List AgentUsage) :
    sumTokens k (l.flatMap f) = (l.map fun x => sumTokens k (f x)).sum := by
  induction l with
  | nil => rfl
  | cons x l ih =>
    rw [flatMap_cons, sumTokens, map_append, sum_append, ← sumTokens, ← sumTokens, ih, map_cons,
      sum_cons]

theorem sumCount_agents (c : Counted) (t : AgentTree) :
    sumCount c t.agents = sumCount c t.addedUp + sumCount c t.silentParents := by
  induction t using rec_children with
  | node usage children ih =>
    have hchildren : (children.map fun child => sumCount c child.agents).sum =
        (children.map fun child => sumCount c child.addedUp).sum +
          (children.map fun child => sumCount c child.silentParents).sum := by
      rw [map_congr_left ih]
      exact sum_map_add
    have hcons : sumCount c (usage :: children.flatMap fun child => child.agents) =
        sumCount c [usage] + sumCount c (children.flatMap fun child => child.agents) := sumCount_append c [usage] _
    rw [agents, addedUp, silentParents, hcons, sumCount_append, sumCount_append, sumCount_flatMap, sumCount_flatMap,
      sumCount_flatMap, hchildren]
    split
    · have hnil : sumCount c [] = 0 := rfl
      omega
    · have hnil : sumCount c [] = 0 := rfl
      omega

theorem records_silentParents {t : AgentTree} : ∀ a ∈ t.silentParents, a.ledger.records = [] := by
  induction t using rec_children with
  | node usage children ih =>
    intro a ha
    rw [silentParents, mem_append] at ha
    rcases ha with ha | ha
    · split at ha
      · rename_i hsilent
        rw [mem_singleton.mp ha]
        exact hsilent.2
      · cases ha
    · obtain ⟨child, hchild, ha⟩ := mem_flatMap.mp ha
      exact ih child hchild a ha

section

variable {usage : AgentUsage} {children : List AgentTree}

theorem inclusive_leaf : (node usage []).summary.inclusiveUsage = usage.ledger.selfMetrics := by
  rw [summary]
  rfl

theorem inclusive_silent (hne : children ≠ []) (hsilent : usage.ledger.records = []) :
    (node usage children).summary.inclusiveUsage =
      UsageLedger.aggregateMetrics (children.map fun child => child.summary.inclusiveUsage) := by
  have hrequests : usage.ledger.selfMetrics.totalRequests = 0 := congrArg List.length hsilent
  rw [summary, UsageLedger.computeAgentUsageSummary, map_map]
  simp only [List.isEmpty_map, List.isEmpty_iff, if_neg hne, if_pos hrequests]
  rfl

theorem inclusive_added (hne : children ≠ []) (hrecords : usage.ledger.records ≠ []) :
    (node usage children).summary.inclusiveUsage = UsageLedger.addMetrics usage.ledger.selfMetrics
      (UsageLedger.aggregateMetrics (children.map fun child => child.summary.inclusiveUsage)) := by
  have hrequests : usage.ledger.selfMetrics.totalRequests ≠ 0 := fun h => hrecords (List.length_eq_zero_iff.mp h)
  rw [summary, UsageLedger.computeAgentUsageSummary, List.map_map]
  simp only [List.isEmpty_map, List.isEmpty_iff, if_neg hne, if_neg hrequests]
  rfl

end

theorem count_summary (c : Counted) (t : AgentTree) :
    t.summary.inclusiveUsage.count c = min (sumCount c t.addedUp) maxU64 := by
  induction t using rec_children with
  | node usage children ih =>
    have hown : sumCount c [usage] = usage.ledger.selfMetrics.count c := by simp [sumCount]
    have hle : sumCount c [usage] ≤ maxU64 := hown.trans_le (usage.counts_le c)
    have hbelow : (UsageLedger.aggregateMetrics (children.map fun child => child.summary.inclusiveUsage)).count c =
        min (sumCount c (children.flatMap fun child => child.addedUp)) maxU64 := by
      rw [sumCount_flatMap]
      exact UsageLedger.count_aggregateMetrics _ _ ih
    rw [addedUp, sumCount_append]
    by_cases hne : children = []
    · subst hne
      rw [inclusive_leaf, if_neg fun h => h.1 rfl, ← hown]
      exact (min_eq_left hle).symm
    · by_cases hsilent : usage.ledger.records = []
      · rw [inclusive_silent hne hsilent, if_pos ⟨hne, hsilent⟩, hbelow]
        exact congrArg (min · maxU64) (Nat.zero_add _).symm
      · rw [inclusive_added hne hsilent, if_neg fun h => hsilent h.2, UsageLedger.count_addMetrics, hbelow, ← hown,
          ← saturatingAdd_min, min_eq_left hle]

theorem tokens_summary {t : AgentTree} (h : Known k t.agents) :
    t.summary.inclusiveUsage.tokens k = inRange (sumTokens k t.agents) := by
  induction t using rec_children with
  | node usage children ih =>
    have hown : (usage.ledger.selfMetrics.tokens k).isSome = true := h usage (by simp [agents])
    have hknown : ∀ child ∈ children, Known k child.agents := by
      intro child hchild a ha
      refine h a ?_
      rw [agents]
      exact mem_cons_of_mem _ (mem_flatMap.mpr ⟨child, hchild, ha⟩)
    have hself := usage.tokens_inRange hown
    have hsum : sumTokens k (node usage children).agents = (usage.ledger.selfMetrics.tokens k).getD 0 +
        sumTokens k (children.flatMap fun child => child.agents) := by
      rw [agents, sumTokens, map_cons, sum_cons]
      rfl
    by_cases hne : children = []
    · subst hne
      rw [inclusive_leaf, hself, hsum]
      rfl
    · have hbelow := UsageLedger.tokens_aggregateMetrics (fun child : AgentTree => child.summary.inclusiveUsage)
        (fun child => sumTokens k child.agents) hne fun child hchild => ih child hchild (hknown child hchild)
      rw [inclusive_added hne (usage.records_ne_nil hown), UsageLedger.tokens_addMetrics, hself, hbelow, checkedAdd_inRange,
        hsum, sumTokens_flatMap]

/-- Usage is counted once up the tree exactly when no parent that recorded no request ran or called a tool, and the
    sums are in the range of their type. -/
theorem countedOnce_iff (t : AgentTree) : CountedOnce t ↔ Countable t := by
  have hlast (c : Counted) : t.summary.inclusiveUsage.count c = sumCount c t.agents ↔
      sumCount c t.silentParents = 0 ∧ sumCount c t.agents ≤ maxU64 := by
    rw [count_summary, sumCount_agents]
    omega
  constructor
  · rintro ⟨hcounts, htokens⟩
    refine ⟨fun a ha => ?_, fun c => ((hlast c).mp (hcounts c)).2, fun k hknown => ?_⟩
    · have hzero (c : Counted) : a.ledger.selfMetrics.count c = 0 :=
        List.sum_eq_zero_iff_forall_eq_nat.mp ((hlast c).mp (hcounts c)).1 _ (List.mem_map.mpr ⟨a, ha, rfl⟩)
      exact ⟨hzero .runs, hzero .toolCalls⟩
    · rw [← inRange_eq_some, ← tokens_summary hknown]
      exact htokens k hknown
  · rintro ⟨hsilent, hcounts, htokens⟩
    refine ⟨fun c => (hlast c).mpr ⟨sum_eq_zero fun n hn => ?_, hcounts c⟩, fun k hknown => ?_⟩
    · obtain ⟨a, ha, rfl⟩ := mem_map.mp hn
      obtain ⟨hruns, htools⟩ := hsilent a ha
      cases c with
      | runs => exact hruns
      | requests => exact congrArg List.length (records_silentParents a ha)
      | toolCalls => exact htools
    · rw [tokens_summary hknown, inRange_eq_some]
      exact htokens k hknown

namespace Sample

def silentParent : AgentUsage where
  ledger := { runs := 1, toolCalls := 1 }
  counts_le c := by cases c <;> decide
  tokens_le _ hrecord := absurd hrecord not_mem_nil

def idleChild : AgentUsage where
  ledger := {}
  counts_le c := by cases c <;> decide
  tokens_le _ hrecord := absurd hrecord not_mem_nil

end Sample

open AgentTree.Sample in
/-- The run of the parent is in no summary. -/
theorem silent_parent_uncounted : ¬CountedOnce (.node silentParent [.node idleChild []]) := by
  intro h
  have hruns := h.counts .runs
  rw [inclusive_silent (cons_ne_nil _ _) rfl, map_singleton, inclusive_leaf] at hruns
  simp [agents, sumCount, UsageLedger.aggregateMetrics, AgentUsageMetrics.count, UsageLedger.selfMetrics, silentParent,
    idleChild] at hruns

end AgentTree

end RustyCore
