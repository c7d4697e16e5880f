import RustyCore.Lib.Except
import RustyCore.Theorems.Stores

/-! What pruning costs a restore. Sequences are stored as signed numbers, so those from `2 ^ 63` on come before all
    others, and a prune below that reaches them although they lie above the snapshot that was checked. -/

namespace RustyCore

open List

section

variable {α : Type} {r : α → α → Prop} [DecidableRel r]

theorem filter_orderedInsert [IsTrans α r] (p : α → Bool) (a : α) {l : List α} (hl : l.Pairwise r) :
    (l.orderedInsert r a).filter p = if p a then (l.filter p).orderedInsert r a else l.filter p := by
  induction l with
  | nil => simp [filter_cons]
  | cons b rest ih =>
    obtain ⟨hb, hrest⟩ := pairwise_cons.mp hl
    by_cases hab : r a b
    · rw [orderedInsert_cons_of_le r rest hab, filter_cons]
      split_ifs
      · cases hkept : (b :: rest).filter p with
        | nil => rfl
        | cons c kept =>
          -- what is kept comes after `a` too
          have hc : c ∈ b :: rest := mem_of_mem_filter (hkept ▸ mem_cons_self)
          have hac : r a c := by
            rcases mem_cons.mp hc with rfl | hmem
            · exact hab
            · exact IsTrans.trans a b c hab (hb c hmem)
          rw [orderedInsert_cons_of_le r kept hac]
      · rfl
    · rw [orderedInsert_of_not_le r rest hab, filter_cons, ih hrest, filter_cons]
      split_ifs
      · rw [orderedInsert_of_not_le r _ hab]
      · rfl
      · rfl
      · rfl

theorem filter_insertionSort [IsTrans α r] [Std.Total r] (p : α → Bool) (l : List α) :
    (l.insertionSort r).filter p = (l.filter p).insertionSort r := by
  induction l with
  | nil => rfl
  | cons a rest ih =>
    rw [insertionSort_cons, filter_orderedInsert p a (pairwise_insertionSort r rest), ih, filter_cons]
    split_ifs
    · rw [insertionSort_cons]
    · rfl

end

/-- What an `i64` holds. -/
def InI64 (i : Int) : Prop := -2 ^ 63 ≤ i ∧ i < 2 ^ 63

theorem inI64_toI64 (n : Nat) : InI64 (toI64 n) := by
  unfold InI64 toI64
  rw [Int.bmod_def]
  omega

theorem toU64_le (i : Int) : toU64 i ≤ maxU64 := by
  unfold toU64 maxU64
  omega

section

variable {i : Int} {anchor sequence : Nat}

theorem toI64_lt_of_above (hi : InI64 i) (hsequence : sequence ≤ anchor) (habove : anchor < toU64 i)
    (h : 2 ^ 63 ≤ sequence ∨ toU64 i < 2 ^ 63) : toI64 sequence < i := by
  unfold InI64 at hi
  unfold toU64 at habove h
  unfold toI64
  rw [Int.bmod_def]
  omega

theorem le_toI64_of_high (hi : InI64 i) (hsequence : sequence < 2 ^ 63) (h : 2 ^ 63 ≤ toU64 i) : i ≤ toI64 sequence := by
  rw [toI64_small hsequence]
  unfold InI64 at hi
  unfold toU64 at h
  omega

end

namespace SqliteSessionStore

variable {s : SqliteSessionStore} {id : SessionId} {sequence : Nat} {row : EventRow}

def anchor (s : SqliteSessionStore) (id : SessionId) : Nat := (s.snapshots id).elim 0 fun row => toU64 row.sessionSequence

def Signed (s : SqliteSessionStore) : Prop := ∀ row ∈ s.durableEvents, InI64 row.sessionSequence

theorem mem_pruneEvents : row ∈ (s.pruneEvents id sequence).2.durableEvents ↔
    row ∈ s.durableEvents ∧ (row.sessionId = id → toI64 sequence < row.sessionSequence) := by
  simp [pruneEvents, pruned, mem_filter, imp_iff_not_or]

theorem append_rows {debug : AgentEvent → String} {event : DurableSessionEvent} {s' : SqliteSessionStore}
    (h : s.append debug event = .ok s') : ∃ eventId sessionId n envelope,
      s'.durableEvents = s.durableEvents ++ [⟨eventId, sessionId, toI64 n, envelope⟩] := by
  unfold append at h
  dsimp only at h
  split at h
  · cases h
  · split at h
    · cases h
    · split at h
      · cases h
      · cases h
        exact ⟨_, _, _, _, rfl⟩

theorem signed_execute (debug : AgentEvent → String) (h : s.Signed) (command : WriteCommand) : (s.execute debug command).Signed := by
  cases command with
  | append event =>
    show ((s.append debug event).toOption.getD s).Signed
    cases happend : s.append debug event with
    | error e => exact h
    | ok s' =>
      obtain ⟨eventId, sessionId, n, envelope, hrows⟩ := append_rows happend
      intro row hrow
      rcases mem_append.mp (hrows ▸ hrow) with hold | hnew
      · exact h row hold
      · rw [mem_singleton.mp hnew]
        dsimp only
        exact inI64_toI64 n
  | saveSnapshot snapshot => exact h
  | prune id sequence => exact fun row hrow => h row (mem_pruneEvents.mp hrow).1

theorem signed_runWriter (debug : AgentEvent → String) (commands : List WriteCommand) : (runWriter debug commands).Signed := by
  induction commands using List.reverseRecOn with
  | nil => exact fun row hrow => absurd hrow not_mem_nil
  | append_singleton commands command ih =>
    rw [runWriter, foldl_append]
    exact signed_execute debug ih command

theorem allEvents_after (s : SqliteSessionStore) (id : SessionId) (since : Nat) : (s.allEvents id).filter (·.after since) =
    s.queryEvents id fun row => decide (since < toU64 row.sessionSequence) := by
  have htotal : Std.Total fun a b : EventRow => a.sessionSequence ≤ b.sessionSequence := ⟨fun a b => le_total _ _⟩
  have htrans : IsTrans EventRow fun a b => a.sessionSequence ≤ b.sessionSequence := ⟨fun _ _ _ => le_trans⟩
  rw [allEvents, queryEvents, queryEvents, filter_map, filter_insertionSort, filter_filter]
  congr 2
  refine filter_congr fun row _ => ?_
  simp [DurableSessionEvent.after, decodeEvent, Bool.and_comm]

theorem queryEvents_congr {s' : SqliteSessionStore} {p : EventRow → Bool}
    (h : (s'.durableEvents.filter fun row => decide (row.sessionId = id) && p row) =
      s.durableEvents.filter fun row => decide (row.sessionId = id) && p row) : s'.queryEvents id p = s.queryEvents id p := by
  rw [queryEvents, queryEvents, h]

structure Unharmed (s : SqliteSessionStore) (id : SessionId) (sequence : Nat) : Prop where
  restored : (s.pruneEvents id sequence).2.loadSession id = s.loadSession id
  current : (s.pruneEvents id sequence).2.currentSequence id = s.currentSequence id
  kept : ∀ row ∈ s.durableEvents, (row.sessionId = id → s.anchor id < toU64 row.sessionSequence) →
    row ∈ (s.pruneEvents id sequence).2.durableEvents

def Spared (s : SqliteSessionStore) (id : SessionId) (sequence : Nat) : Prop :=
  ∀ row ∈ s.durableEvents, row.sessionId = id → s.anchor id < toU64 row.sessionSequence → toI64 sequence < row.sessionSequence

theorem restored_of_spared (hanchor : (s.snapshots id).isSome) (h : s.Spared id sequence) :
    (s.pruneEvents id sequence).2.loadSession id = s.loadSession id := by
  obtain ⟨row, hrow⟩ := Option.isSome_iff_exists.mp hanchor
  have hevents : (s.pruneEvents id sequence).2.queryEvents id (fun other => decide (toU64 row.sessionSequence < toU64 other.sessionSequence)) =
      s.queryEvents id fun other => decide (toU64 row.sessionSequence < toU64 other.sessionSequence) := by
    refine queryEvents_congr ?_
    rw [pruneEvents, filter_filter]
    refine filter_congr fun other hother => ?_
    rw [Bool.and_eq_left_iff_imp, Bool.and_eq_true, decide_eq_true_eq, decide_eq_true_eq]
    rintro ⟨hid, habove⟩
    have hspared := h other hother hid (by rw [anchor, hrow]; exact habove)
    simp [pruned, hid, hspared]
  have hsame : (s.pruneEvents id sequence).2.snapshots id = some row := hrow
  simp only [loadSession, hsame, hrow, Option.map_some, decodeSnapshot, allEvents_after, hevents]

theorem current_of_spared (h : s.Spared id sequence) :
    (s.pruneEvents id sequence).2.currentSequence id = s.currentSequence id := by
  generalize hrows : (s.durableEvents.filter fun row => decide (row.sessionId = id)) = rows
  have hhighest : s.highest id = (rows.map (·.sessionSequence)).max? := by rw [highest, hrows]
  have hpruned : (s.pruneEvents id sequence).2.highest id =
      ((rows.filter fun row => decide (toI64 sequence < row.sessionSequence)).map (·.sessionSequence)).max? := by
    rw [highest, ← hrows, filter_filter, pruneEvents, filter_filter]
    congr 2
    refine filter_congr fun row _ => ?_
    rw [Bool.eq_iff_iff]
    by_cases hid : row.sessionId = id <;> simp [pruned, hid]
  show max (((s.pruneEvents id sequence).2.highest id).elim 0 toU64) (s.anchor id) = max ((s.highest id).elim 0 toU64) (s.anchor id)
  rw [hhighest, hpruned]
  cases hmax : (rows.map (·.sessionSequence)).max? with
  | none =>
    have hnil : rows = [] := by simpa using hmax
    rw [hnil]
    rfl
  | some highest =>
    obtain ⟨hmem, hle⟩ := List.max?_eq_some_iff.mp hmax
    obtain ⟨row, hrow, rfl⟩ := mem_map.mp hmem
    by_cases hkept : toI64 sequence < row.sessionSequence
    · -- the highest row stays the highest
      have hsame : ((rows.filter fun row => decide (toI64 sequence < row.sessionSequence)).map (·.sessionSequence)).max? =
          some row.sessionSequence := by
        refine List.max?_eq_some_iff.mpr ⟨mem_map_of_mem (mem_filter.mpr ⟨hrow, decide_eq_true hkept⟩), fun i hi => ?_⟩
        obtain ⟨other, hother, rfl⟩ := mem_map.mp hi
        exact hle _ (mem_map_of_mem (mem_of_mem_filter hother))
      rw [hsame]
    · -- every row is pruned, and the snapshot covers them
      have hnone : (rows.filter fun row => decide (toI64 sequence < row.sessionSequence)) = [] := by
        rw [filter_eq_nil_iff]
        intro other hother hlt
        have hother' := hle _ (mem_map_of_mem hother)
        have hlt' := of_decide_eq_true hlt
        omega
      have hcovered : toU64 row.sessionSequence ≤ s.anchor id := by
        by_contra hnot
        have hmem' := mem_filter.mp (hrows ▸ hrow)
        exact hkept (h row hmem'.1 (by simpa using hmem'.2) (by omega))
      rw [hnone]
      simp only [map_nil, List.max?_nil, Option.elim_none, Option.elim_some]
      omega

theorem unharmed_iff_spared (hanchor : (s.snapshots id).isSome) : s.Unharmed id sequence ↔ s.Spared id sequence := by
  constructor
  · intro h row hrow hid habove
    exact (mem_pruneEvents.mp (h.kept row hrow fun _ => habove)).2 hid
  · intro h
    exact ⟨restored_of_spared hanchor h, current_of_spared h, fun row hrow habove =>
      mem_pruneEvents.mpr ⟨hrow, fun hid => h row hrow hid (habove hid)⟩⟩

theorem spared_iff (h : s.Signed) (hsequence : sequence ≤ s.anchor id) : s.Spared id sequence ↔ 2 ^ 63 ≤ sequence ∨
    ∀ row ∈ s.durableEvents, row.sessionId = id → s.anchor id < toU64 row.sessionSequence → toU64 row.sessionSequence < 2 ^ 63 := by
  constructor
  · intro hspared
    by_cases hhigh : 2 ^ 63 ≤ sequence
    · exact .inl hhigh
    · refine .inr fun row hrow hid habove => ?_
      by_contra hnot
      have hreached := le_toI64_of_high (h row hrow) (Nat.lt_of_not_le hhigh) (Nat.le_of_not_lt hnot)
      have hspared' := hspared row hrow hid habove
      omega
  · intro hcond row hrow hid habove
    exact toI64_lt_of_above (h row hrow) hsequence habove (hcond.imp_right fun hall => hall row hrow hid habove)

variable {stored : StoredSession} {policy : RetentionPolicy} {compactionGeneration : DurableSessionSnapshot → Nat}

def Prunable (compactionGeneration : DurableSessionSnapshot → Nat) (stored : StoredSession) (policy : RetentionPolicy)
    (sequence : Nat) : Prop :=
  (∃ next, prunePlan stored sequence = .ok next) ∨
    (sequence ≠ 0 ∧ sequence = (planCompaction compactionGeneration stored policy).pruneThrough)

theorem covered_of_prunable (h : Prunable compactionGeneration stored policy sequence) :
    ∃ snapshot, stored.snapshot = some snapshot ∧ sequence ≤ snapshot.sessionSequence := by
  rcases h with ⟨next, hnext⟩ | ⟨hne, hsequence⟩
  · unfold prunePlan at hnext
    split at hnext
    · cases hnext
    · rename_i snapshot hsnapshot
      split_ifs at hnext with hless
      exact ⟨snapshot, hsnapshot, Nat.le_of_not_lt hless⟩
  · unfold planCompaction at hsequence
    dsimp only at hsequence
    split_ifs at hsequence
    · exact absurd hsequence hne
    · exact absurd hsequence hne
    · cases hsnapshot : stored.snapshot with
      | none =>
        rw [hsnapshot] at hsequence
        exact absurd hsequence hne
      | some snapshot =>
        rw [hsnapshot] at hsequence
        exact ⟨snapshot, rfl, hsequence.le⟩

theorem loadSession_ok (h : s.loadSession id = .ok stored) : stored.sessionId = id ∧
    stored.snapshot = (s.snapshots id).map (decodeSnapshot id) ∧ ∀ event ∈ stored.events, ∃ n, event.sessionSequence = some n ∧
      n ≤ maxU64 ∧ ∀ snapshot, stored.snapshot = some snapshot → snapshot.sessionSequence < n := by
  have hdecoded : ∀ event ∈ s.allEvents id, ∃ n, event.sessionSequence = some n ∧ n ≤ maxU64 := by
    intro event hevent
    obtain ⟨row, -, rfl⟩ := mem_map.mp hevent
    exact ⟨_, rfl, toU64_le _⟩
  unfold loadSession at h
  dsimp only at h
  split_ifs at h
  cases h
  refine ⟨rfl, rfl, fun event hevent => ?_⟩
  cases hsnapshot : (s.snapshots id).map (decodeSnapshot id) with
  | none =>
    simp only [hsnapshot] at hevent
    obtain ⟨n, hn, hbound⟩ := hdecoded event hevent
    exact ⟨n, hn, hbound, nofun⟩
  | some snapshot =>
    simp only [hsnapshot] at hevent
    obtain ⟨hmem, hafter⟩ := mem_filter.mp hevent
    obtain ⟨n, hn, hbound⟩ := hdecoded event hmem
    refine ⟨n, hn, hbound, fun other hother => ?_⟩
    cases hother
    simpa [DurableSessionEvent.after, hn] using hafter

theorem planned_sequence (h : (planCompaction compactionGeneration stored policy).shouldCompact = true) :
    (planCompaction compactionGeneration stored policy).sessionId = stored.sessionId ∧ ∃ event ∈ stored.events,
      event.sessionSequence = some (planCompaction compactionGeneration stored policy).snapshotSequence := by
  by_cases hidle : (decide (policy.maxTrailingEvents = 0) ||
      decide ((stored.events.filterMap (·.sessionSequence)).length ≤ policy.maxTrailingEvents)) = true
  · simp only [planCompaction] at h
    rw [if_pos hidle] at h
    cases h
  · simp only [planCompaction]
    rw [if_neg hidle]
    simp only [Bool.or_eq_true, decide_eq_true_eq, not_or, not_le] at hidle
    have hne : (stored.events.filterMap (·.sessionSequence)) ≠ [] := ne_nil_of_length_pos (by omega)
    refine ⟨rfl, ?_⟩
    dsimp only
    rw [List.getLast?_eq_some_getLast hne, Option.getD_some]
    exact mem_filterMap.mp (getLast_mem hne)

theorem anchor_saveSnapshot (s : SqliteSessionStore) (snapshot : DurableSessionSnapshot)
    (h : snapshot.sessionSequence ≤ maxU64) :
    ((s.saveSnapshot snapshot).snapshots snapshot.sessionId).isSome ∧
      (s.saveSnapshot snapshot).anchor snapshot.sessionId = snapshot.sessionSequence := by
  have hrow : (s.saveSnapshot snapshot).snapshots snapshot.sessionId = some (snapshotRow snapshot) := Function.update_self ..
  have hsequence : (snapshotRow snapshot).sessionSequence = toI64 snapshot.sessionSequence := by rw [snapshotRow]
  rw [anchor, hrow, Option.elim_some, hsequence, toU64_toI64 h]
  exact ⟨rfl, rfl⟩

theorem anchored_compact (snapshot : DurableSessionSnapshot) (hload : s.loadSession id = .ok stored)
    (h : Prunable compactionGeneration stored policy sequence) :
    ((s.compact (planCompaction compactionGeneration stored policy) snapshot).snapshots id).isSome ∧
      sequence ≤ (s.compact (planCompaction compactionGeneration stored policy) snapshot).anchor id := by
  obtain ⟨covering, hcovering, hsequence⟩ := covered_of_prunable h
  obtain ⟨hid, hsnapshot, hevents⟩ := loadSession_ok hload
  rw [compact]
  split_ifs with hplan
  · obtain ⟨hsession, event, hevent, hlast⟩ := planned_sequence hplan
    obtain ⟨n, hn, hbound, hafter⟩ := hevents event hevent
    rw [hn, Option.some.injEq] at hlast
    have hless := hafter covering hcovering
    obtain ⟨hsaved, hanchor⟩ := s.anchor_saveSnapshot { snapshot with
      sessionId := (planCompaction compactionGeneration stored policy).sessionId
      sessionSequence := (planCompaction compactionGeneration stored policy).snapshotSequence } (hlast ▸ hbound)
    rw [hsession, hid] at hsaved hanchor
    rw [hsession, hid]
    refine ⟨hsaved, ?_⟩
    rw [hanchor]
    exact (hsequence.trans hless.le).trans hlast.le
  · rw [hsnapshot] at hcovering
    obtain ⟨row, hrow, rfl⟩ := Option.map_eq_some_iff.mp hcovering
    simp only [decodeSnapshot] at hsequence
    simp only [anchor, hrow, Option.isSome_some, Option.elim_some, hsequence, and_self]

theorem durableEvents_compact (plan : CompactionPlan) (snapshot : DurableSessionSnapshot) :
    (s.compact plan snapshot).durableEvents = s.durableEvents := by
  rw [compact]
  split_ifs <;> rfl

/-- Over every history of a store, a prune that was planned or verified costs nothing when no event above the anchor has a
    sequence that its sign puts below, and only then. -/
theorem pruning_unharmed_iff (debug : AgentEvent → String) (commands : List WriteCommand)
    (compactionGeneration : DurableSessionSnapshot → Nat) (id : SessionId) (stored : StoredSession) (policy : RetentionPolicy)
    (snapshot : DurableSessionSnapshot) (sequence : Nat) (hload : (runWriter debug commands).loadSession id = .ok stored)
    (h : Prunable compactionGeneration stored policy sequence) :
    ((runWriter debug commands).compact (planCompaction compactionGeneration stored policy) snapshot).Unharmed id sequence ↔
      2 ^ 63 ≤ sequence ∨ ∀ row ∈ (runWriter debug commands).durableEvents, row.sessionId = id →
        ((runWriter debug commands).compact (planCompaction compactionGeneration stored policy) snapshot).anchor id <
          toU64 row.sessionSequence → toU64 row.sessionSequence < 2 ^ 63 := by
  obtain ⟨hanchor, hcovered⟩ := anchored_compact snapshot hload h
  have hsigned : ((runWriter debug commands).compact (planCompaction compactionGeneration stored policy) snapshot).Signed := by
    intro row hrow
    rw [durableEvents_compact] at hrow
    exact signed_runWriter debug commands row hrow
  rw [unharmed_iff_spared hanchor, spared_iff hsigned hcovered, durableEvents_compact]

namespace Pruned

def session : SessionId := ⟨2⟩

def started (id : Uuid) (sequence : Nat) : DurableSessionEvent where
  envelope := {
    eventId := ⟨id⟩
    sessionId := session
    agentId := ⟨3⟩
    parentAgentId := none
    runId := none
    agentSequence := 0
    sessionSequence := some sequence
    timestamp := .fromSequence 0
    visibility := .user
    event := .runStarted ⟨4⟩ }
  sessionSequence := some sequence

def checkpoint : DurableSessionSnapshot where
  sessionId := session
  rootAgentId := ⟨3⟩
  agents := []
  sessionSequence := 1
  timestamp := .fromSequence 0
  schemaVersion := 1

def history (next : Nat) : List WriteCommand :=
  [.append (started 5 1), .saveSnapshot checkpoint, .append (started 6 next)]

def store (next : Nat) : SqliteSessionStore := runWriter (fun _ => "RunStarted") (history next)

def trailing (s : SqliteSessionStore) : Option (List (Option Nat)) :=
  (s.loadSession session).toOption.map fun loaded => loaded.events.map (·.sessionSequence)

def verified (s : SqliteSessionStore) : Option (Option Nat) :=
  (s.loadSession session).toOption.map fun stored => (prunePlan stored 1).toOption

theorem exists_verified {s : SqliteSessionStore} (h : verified s = some (some 2)) :
    ∃ stored, s.loadSession session = .ok stored ∧ prunePlan stored 1 = .ok 2 := by
  obtain ⟨stored, hload, hplan⟩ := Option.map_eq_some_iff.mp h
  exact ⟨stored, Except.toOption_eq_some.mp hload, Except.toOption_eq_some.mp hplan⟩

theorem pruning_unharmed_iff_second : ∃ stored, (store 2).loadSession session = .ok stored ∧
    (((store 2).compact (planCompaction (fun _ => 0) stored {}) checkpoint).Unharmed session 1 ↔
      2 ^ 63 ≤ 1 ∨ ∀ row ∈ (store 2).durableEvents, row.sessionId = session →
        ((store 2).compact (planCompaction (fun _ => 0) stored {}) checkpoint).anchor session < toU64 row.sessionSequence →
          toU64 row.sessionSequence < 2 ^ 63) := by
  obtain ⟨stored, hload, hplan⟩ := exists_verified (s := store 2) (by decide)
  exact ⟨stored, hload, pruning_unharmed_iff (fun _ => "RunStarted") (history 2) (fun _ => 0) session stored {} checkpoint 1 hload
    (.inl ⟨2, hplan⟩)⟩

/-- A prune through the snapshot takes an event away that comes long after it. -/
theorem high_event_pruned : trailing (store (2 ^ 63)) = some [some (2 ^ 63)] ∧
    verified (store (2 ^ 63)) = some (some 2) ∧
    trailing ((store (2 ^ 63)).pruneEvents session 1).2 = some [] ∧ ¬(store (2 ^ 63)).Unharmed session 1 := by
  have hbefore : trailing (store (2 ^ 63)) = some [some (2 ^ 63)] := by decide
  have hafter : trailing ((store (2 ^ 63)).pruneEvents session 1).2 = some [] := by decide
  refine ⟨hbefore, by decide, hafter, fun h => ?_⟩
  rw [trailing, h.restored, ← trailing, hbefore] at hafter
  cases hafter

end Pruned

end SqliteSessionStore

end RustyCore
