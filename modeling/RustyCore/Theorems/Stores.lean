import RustyCore.Store.Stores
import RustyCore.Theorems.SessionFile

/-! The session stores answer alike: where events are appended in the order of their sequences, each store holds of a
    session what the records written to it add up to, and its answers are those of the records. -/

namespace RustyCore

open List

namespace JsonlRecord

def sessionId : JsonlRecord → SessionId
  | .event written => written.envelope.sessionId
  | .snapshot saved => saved.sessionId

def event? : JsonlRecord → Option DurableSessionEvent
  | .event written => some written
  | .snapshot _ => none

end JsonlRecord

def recordsIn (id : SessionId) (written : List JsonlRecord) : List JsonlRecord :=
  written.filter fun record => decide (record.sessionId = id)

def heldOf (id : SessionId) (written : List JsonlRecord) : SessionRecords :=
  (recordsIn id written).foldl SessionRecords.push {}

def eventsIn (written : List JsonlRecord) : List DurableSessionEvent := written.filterMap JsonlRecord.event?

section

variable {written : List JsonlRecord} {record : JsonlRecord} {id : SessionId}

theorem recordsIn_snoc : recordsIn id (written ++ [record]) =
    recordsIn id written ++ if record.sessionId = id then [record] else [] := by
  by_cases h : record.sessionId = id <;> simp [recordsIn, h]

theorem heldOf_snoc : heldOf id (written ++ [record]) =
    if record.sessionId = id then (heldOf id written).push record else heldOf id written := by
  unfold heldOf
  rw [recordsIn_snoc]
  split <;> simp

theorem eventsIn_snoc : eventsIn (written ++ [record]) = eventsIn written ++ record.event?.toList := by
  cases record <;> simp [eventsIn, JsonlRecord.event?]

theorem heldOf_events : (heldOf id written).events =
    (eventsIn written).filter fun event => decide (event.envelope.sessionId = id) := by
  induction written using List.reverseRecOn with
  | nil => rfl
  | append_singleton written record ih =>
    rw [heldOf_snoc, eventsIn_snoc, filter_append, ← ih]
    cases record with
    | event event =>
      by_cases h : event.envelope.sessionId = id <;>
        simp [JsonlRecord.sessionId, JsonlRecord.event?, SessionRecords.push, h]
    | snapshot snapshot =>
      by_cases h : snapshot.sessionId = id <;>
        simp [JsonlRecord.sessionId, JsonlRecord.event?, SessionRecords.push, h]

theorem heldOf_empty : ((heldOf id written).snapshot = none ∧ (heldOf id written).events = []) ↔ recordsIn id written = [] := by
  induction written using List.reverseRecOn with
  | nil => exact ⟨fun _ => rfl, fun _ => ⟨rfl, rfl⟩⟩
  | append_singleton written record ih =>
    rw [heldOf_snoc, recordsIn_snoc]
    split
    · cases record <;> simp [SessionRecords.push]
    · rw [ih, append_nil]

end

/-- The next write: an event that is durable, with a new id, and with a sequence below `2 ^ 63` that its envelope has too
    and that comes after those of its session; or a snapshot, whose numbers are `u64`. -/
def Follows (written : List JsonlRecord) : JsonlRecord → Prop
  | .event event => isDurable event.envelope.event = true ∧
    (∀ earlier ∈ eventsIn written, earlier.envelope.eventId ≠ event.envelope.eventId) ∧
    ∃ n, event.sessionSequence = some n ∧ event.envelope.sessionSequence = some n ∧ n < 2 ^ 63 ∧
      ∀ earlier ∈ (heldOf event.envelope.sessionId written).events, earlier.sessionSequence.any (· < n) = true
  | .snapshot snapshot => snapshot.sessionSequence ≤ maxU64 ∧ snapshot.schemaVersion ≤ maxU64

inductive InOrder : List JsonlRecord → Prop
  | nil : InOrder []
  | snoc {written : List JsonlRecord} {record : JsonlRecord} (h : InOrder written) (h' : Follows written record) :
    InOrder (written ++ [record])

def DurableSessionEvent.number (event : DurableSessionEvent) : Nat := event.sessionSequence.getD 0

structure DurableSessionEvent.Plain (event : DurableSessionEvent) : Prop where
  sequence : event.sessionSequence = some event.number
  envelope : event.envelope.sessionSequence = some event.number
  small : event.number < 2 ^ 63

theorem InOrder.plain {written : List JsonlRecord} (h : InOrder written) : ∀ event ∈ eventsIn written, event.Plain := by
  induction h with
  | nil => exact fun _ hevent => absurd hevent not_mem_nil
  | @snoc written record _ h' ih =>
    intro event hevent
    rw [eventsIn_snoc] at hevent
    rcases mem_append.mp hevent with hold | hnew
    · exact ih event hold
    · cases record with
      | snapshot => cases hnew
      | event new =>
        obtain rfl : event = new := by simpa [JsonlRecord.event?] using hnew
        obtain ⟨-, -, n, hsequence, henvelope, hsmall, -⟩ := h'
        have hnumber : event.number = n := by rw [DurableSessionEvent.number, hsequence]; rfl
        exact ⟨by rw [hnumber, hsequence], by rw [hnumber, henvelope], by rw [hnumber]; exact hsmall⟩

theorem InOrder.ascending {written : List JsonlRecord} (h : InOrder written) (id : SessionId) :
    (heldOf id written).events.Pairwise (·.number < ·.number) := by
  induction h with
  | nil => exact .nil
  | @snoc written record _ h' ih =>
    rw [heldOf_snoc]
    split
    · rename_i hid
      cases record with
      | snapshot => exact ih
      | event event =>
        obtain ⟨-, -, n, hsequence, -, -, hlast⟩ := h'
        refine pairwise_append.mpr ⟨ih, pairwise_singleton _ _, fun earlier hearlier new hnew => ?_⟩
        obtain rfl := mem_singleton.mp hnew
        subst hid
        have hless := hlast earlier hearlier
        cases hearlierSequence : earlier.sessionSequence with
        | none => simp [hearlierSequence] at hless
        | some m => simpa [DurableSessionEvent.number, hearlierSequence, hsequence] using hless
    · exact ih

theorem InOrder.snapshot {written : List JsonlRecord} (h : InOrder written) {id : SessionId}
    {snapshot : DurableSessionSnapshot} (hsnapshot : (heldOf id written).snapshot = some snapshot) :
    snapshot.sessionId = id ∧ snapshot.sessionSequence ≤ maxU64 ∧ snapshot.schemaVersion ≤ maxU64 := by
  induction h with
  | nil => cases hsnapshot
  | @snoc written record _ h' ih =>
    rw [heldOf_snoc] at hsnapshot
    split at hsnapshot
    · rename_i hid
      cases record with
      | event => exact ih hsnapshot
      | snapshot saved =>
        cases hsnapshot
        exact ⟨hid, h'⟩
    · exact ih hsnapshot

def loadedOf (id : SessionId) (held : SessionRecords) : Except StoreError StoredSession :=
  if held.snapshot.isNone && held.events.isEmpty then .error .notFound
  else .ok ⟨id, held.snapshot, match held.snapshot with
    | some snapshot => held.events.filter (·.after snapshot.sessionSequence)
    | none => held.events⟩

/-- A store answers for a session as what is held of it says, cursors from `2 ^ 63` on apart, and the history of a
    session of which nothing is held. -/
structure Answers {σ : Type} (store : SessionStore σ) (s : σ) (id : SessionId) (held : SessionRecords) : Prop where
  load : store.loadSession s id = loadedOf id held
  since : (held.snapshot.isNone && held.events.isEmpty) = false → ∀ since, since < 2 ^ 63 →
    store.eventsSince s id since = .ok (held.events.filter (·.after since))
  current : store.currentSequence s id = .ok held.currentSequence

theorem SessionStore.writes_snoc {σ : Type} (store : SessionStore σ) (s : σ) (written : List JsonlRecord)
    (record : JsonlRecord) : store.writes s (written ++ [record]) = store.write (store.writes s written) record :=
  foldl_append

structure MemoryStore.Holds (s : MemoryStore) (written : List JsonlRecord) : Prop where
  appends : s.failAppends = false
  saves : s.failSnapshots = false
  events : ∀ id, s.events id = (heldOf id written).events
  snapshots : ∀ id, s.snapshots id = (heldOf id written).snapshot

theorem MemoryStore.holds {written : List JsonlRecord} (h : InOrder written) :
    (MemoryStore.store.writes {} written).Holds written := by
  induction h with
  | nil => exact ⟨rfl, rfl, fun _ => rfl, fun _ => rfl⟩
  | @snoc written record _ h' ih =>
    rw [SessionStore.writes_snoc]
    generalize MemoryStore.store.writes {} written = s at ih
    cases record with
    | event event =>
      obtain ⟨-, -, n, hsequence, -, -, hlast⟩ := h'
      have hfresh : (event.sessionSequence.isSome &&
          (s.events event.envelope.sessionId).any (·.sessionSequence == event.sessionSequence)) = false := by
        rw [ih.events, hsequence, Option.isSome_some, Bool.true_and, any_eq_false]
        intro earlier hearlier hsame
        have hless := hlast earlier hearlier
        rw [beq_iff_eq.mp hsame] at hless
        simp at hless
      have hwrite : MemoryStore.store.write s (.event event) = { s with
          events := Function.update s.events event.envelope.sessionId (s.events event.envelope.sessionId ++ [event]) } := by
        simp [SessionStore.write, MemoryStore.store, MemoryStore.append, ih.appends, hfresh, Except.toOption]
      rw [hwrite]
      refine ⟨ih.appends, ih.saves, fun id => ?_, fun id => ?_⟩
      · rw [heldOf_snoc]
        by_cases hid : event.envelope.sessionId = id
        · subst hid
          simp [JsonlRecord.sessionId, SessionRecords.push, ih.events]
        · simp [JsonlRecord.sessionId, hid, ih.events, Function.update_of_ne (Ne.symm hid)]
      · rw [heldOf_snoc]
        split
        · exact ih.snapshots id
        · exact ih.snapshots id
    | snapshot snapshot =>
      have hwrite : MemoryStore.store.write s (.snapshot snapshot) = { s with
          snapshots := Function.update s.snapshots snapshot.sessionId (some snapshot) } := by
        simp [SessionStore.write, MemoryStore.store, MemoryStore.saveSnapshot, ih.saves, Except.toOption]
      rw [hwrite]
      refine ⟨ih.appends, ih.saves, fun id => ?_, fun id => ?_⟩
      · rw [heldOf_snoc]
        split
        · exact ih.events id
        · exact ih.events id
      · rw [heldOf_snoc]
        by_cases hid : snapshot.sessionId = id
        · subst hid
          simp [JsonlRecord.sessionId, SessionRecords.push]
        · simp [JsonlRecord.sessionId, hid, ih.snapshots, Function.update_of_ne (Ne.symm hid)]

theorem MemoryStore.answers {written : List JsonlRecord} (h : InOrder written) (id : SessionId) :
    Answers MemoryStore.store (MemoryStore.store.writes {} written) id (heldOf id written) := by
  have hholds := MemoryStore.holds h
  generalize MemoryStore.store.writes {} written = s at hholds
  refine ⟨?_, fun _ since _ => ?_, ?_⟩
  · simp only [MemoryStore.store, MemoryStore.loadSession, hholds.events, hholds.snapshots]
    rfl
  · simp only [MemoryStore.store, hholds.events]
  · simp only [MemoryStore.store, MemoryStore.currentSequence, hholds.events, hholds.snapshots]

section

variable [JsonlExternals] (debug : AgentEvent → String) (path : SessionId → String)

open JsonlExternals

theorem JsonlSessionStore.files_written {written : List JsonlRecord} (h : InOrder written) (id : SessionId) :
    ((JsonlSessionStore.store debug path).writes {} written).files id =
      (recordsIn id written).foldl Jsonl.writeRecord none := by
  induction h with
  | nil => rfl
  | @snoc written record _ h' ih =>
    rw [SessionStore.writes_snoc]
    generalize (JsonlSessionStore.store debug path).writes {} written = s at ih
    have hwrite : (JsonlSessionStore.store debug path).write s record = s.writeThrough record.sessionId record := by
      cases record with
      | event event => simp [SessionStore.write, JsonlSessionStore.store, h'.1, Except.toOption, JsonlRecord.sessionId]
      | snapshot snapshot => rfl
    rw [hwrite, recordsIn_snoc]
    unfold JsonlSessionStore.writeThrough
    by_cases hid : record.sessionId = id
    · subst hid
      simp [ih]
    · simp [hid, ih, Function.update_of_ne (Ne.symm hid)]

theorem JsonlSessionStore.read_written (laws : Jsonl.JsonlLaws) {written : List JsonlRecord} (h : InOrder written)
    (hread : ∀ record ∈ written, decode (encode record) = .ok record) (id : SessionId) :
    ((JsonlSessionStore.store debug path).writes {} written).read path id =
      if recordsIn id written = [] then .error .notFound else .ok (heldOf id written) := by
  have hsorted : (heldOf id written).sorted = heldOf id written := by
    have hascending : (heldOf id written).events.Pairwise
        fun a b => a.sessionSequence.getD maxU64 ≤ b.sessionSequence.getD maxU64 := by
      refine (h.ascending id).imp_of_mem fun {a b} ha hb hless => ?_
      rw [heldOf_events] at ha hb
      rw [(h.plain a (mem_of_mem_filter ha)).sequence, (h.plain b (mem_of_mem_filter hb)).sequence]
      exact Nat.le_of_lt hless
    rw [SessionRecords.sorted, hascending.insertionSort_eq]
  have hrecords : ∀ record ∈ recordsIn id written, decode (encode record) = .ok record :=
    fun record hrecord => hread record (mem_of_mem_filter hrecord)
  rw [JsonlSessionStore.read, JsonlSessionStore.files_written debug path h]
  cases hwritten : recordsIn id written with
  | nil => rfl
  | cons record rest =>
    rw [foldl_cons, Jsonl.writeRecord, Jsonl.foldl_writeRecord, Option.getD_none, nil_append,
      show Jsonl.line record ++ Jsonl.log rest = Jsonl.log (record :: rest) from rfl,
      Jsonl.readRecords_log laws (hwritten ▸ hrecords), if_neg (cons_ne_nil _ _), if_neg (cons_ne_nil _ _),
      Jsonl.recordsOf, ← hwritten]
    exact congrArg Except.ok hsorted

theorem JsonlSessionStore.answers (laws : Jsonl.JsonlLaws) {written : List JsonlRecord} (h : InOrder written)
    (hread : ∀ record ∈ written, decode (encode record) = .ok record) (id : SessionId) :
    Answers (JsonlSessionStore.store debug path) ((JsonlSessionStore.store debug path).writes {} written) id
      (heldOf id written) := by
  have hfile := JsonlSessionStore.read_written debug path laws h hread id
  generalize (JsonlSessionStore.store debug path).writes {} written = s at hfile
  by_cases hwritten : recordsIn id written = []
  · rw [if_pos hwritten] at hfile
    obtain ⟨hsnapshot, hevents⟩ := heldOf_empty.mpr hwritten
    refine ⟨?_, fun hheld => ?_, ?_⟩
    · simp only [JsonlSessionStore.store, JsonlSessionStore.loadSession, hfile, loadedOf, hsnapshot, hevents]
      rfl
    · simp [hsnapshot, hevents] at hheld
    · simp only [JsonlSessionStore.store, JsonlSessionStore.currentSequence, hfile, SessionRecords.currentSequence,
        SessionRecords.eventMax, hsnapshot, hevents]
      rfl
  · rw [if_neg hwritten] at hfile
    have hheld : ((heldOf id written).snapshot.isNone && (heldOf id written).events.isEmpty) = false := by
      rw [Bool.eq_false_iff, ne_eq, Bool.and_eq_true, Option.isNone_iff_eq_none, List.isEmpty_iff, heldOf_empty]
      exact hwritten
    have htrailing (since : Nat) : (heldOf id written).events.filter (·.unsequencedOrAfter since) =
        (heldOf id written).events.filter (·.after since) := by
      refine filter_congr fun event hevent => ?_
      rw [heldOf_events] at hevent
      have hplain := h.plain event (mem_of_mem_filter hevent)
      rw [DurableSessionEvent.unsequencedOrAfter, DurableSessionEvent.after, hplain.sequence]
      rfl
    refine ⟨?_, fun _ since _ => ?_, ?_⟩
    · simp only [JsonlSessionStore.store, JsonlSessionStore.loadSession, hfile, loadedOf, hheld, bind, Except.bind, pure,
        Except.pure, Bool.false_eq_true, if_false]
      cases (heldOf id written).snapshot with
      | none => rfl
      | some snapshot => simp only [htrailing]
    · simp only [JsonlSessionStore.store, JsonlSessionStore.eventsSince, hfile]
      rfl
    · simp only [JsonlSessionStore.store, JsonlSessionStore.currentSequence, hfile]

end

theorem toI64_small {n : Nat} (h : n < 2 ^ 63) : toI64 n = n := by
  unfold toI64
  rw [Int.bmod_def]
  omega

theorem toU64_toI64 {n : Nat} (h : n ≤ maxU64) : toU64 (toI64 n) = n := by
  unfold toU64 toI64
  rw [Int.bmod_def]
  unfold maxU64 at h
  omega

namespace SqliteSessionStore

def rowOf (event : DurableSessionEvent) : EventRow :=
  ⟨event.envelope.eventId, event.envelope.sessionId, toI64 event.number, event.envelope⟩

theorem rowOf_sequence (event : DurableSessionEvent) : (rowOf event).sessionSequence = toI64 event.number := by
  rw [rowOf]

theorem decode_rowOf {event : DurableSessionEvent} (h : event.Plain) : decodeEvent (rowOf event) = event := by
  have hbound : event.number ≤ maxU64 := by
    have hsmall := h.small
    unfold maxU64
    omega
  obtain ⟨envelope, sequence⟩ := event
  simp only [decodeEvent, rowOf, toU64_toI64 hbound, ← h.envelope]
  exact congrArg (DurableSessionEvent.mk envelope) (h.envelope.trans h.sequence.symm)

theorem decode_snapshotRow {snapshot : DurableSessionSnapshot} (hsequence : snapshot.sessionSequence ≤ maxU64)
    (hversion : snapshot.schemaVersion ≤ maxU64) :
    decodeSnapshot snapshot.sessionId (snapshotRow snapshot) = snapshot := by
  simp only [decodeSnapshot, snapshotRow, toU64_toI64 hsequence, toU64_toI64 hversion]

end SqliteSessionStore

structure SqliteSessionStore.Holds (s : SqliteSessionStore) (written : List JsonlRecord) : Prop where
  rows : s.durableEvents = (eventsIn written).map SqliteSessionStore.rowOf
  snapshots : ∀ id, s.snapshots id = (heldOf id written).snapshot.map SqliteSessionStore.snapshotRow

theorem SqliteSessionStore.Holds.write_event (debug : AgentEvent → String) {s : SqliteSessionStore}
    {written : List JsonlRecord} (h : s.Holds written) (horder : InOrder written) {event : DurableSessionEvent}
    (hnext : Follows written (.event event)) : (SqliteSessionStore.store debug).write s (.event event) =
      { s with durableEvents := s.durableEvents ++ [rowOf event] } := by
  obtain ⟨hdurable, hnew, n, hsequence, -, hsmall, hlast⟩ := hnext
  have hnumber : event.number = n := by rw [DurableSessionEvent.number, hsequence]; rfl
  have hid : s.durableEvents.any (fun row => decide (row.eventId = event.envelope.eventId)) = false := by
    rw [h.rows, any_map, any_eq_false]
    intro earlier hearlier hsame
    exact hnew earlier hearlier (of_decide_eq_true hsame)
  have hunique : s.durableEvents.any (fun row => decide (row.sessionId = event.envelope.sessionId) &&
      row.sessionSequence == toI64 n) = false := by
    rw [h.rows, any_map, any_eq_false]
    intro earlier hearlier hsame
    obtain ⟨hsession, hsame⟩ := Bool.and_eq_true_iff.mp hsame
    have hless : earlier.number < n := by
      have hbefore := hlast earlier (by
        rw [heldOf_events]
        exact mem_filter.mpr ⟨hearlier, hsession⟩)
      rw [(horder.plain earlier hearlier).sequence] at hbefore
      exact of_decide_eq_true hbefore
    have hequal := beq_iff_eq.mp hsame
    rw [rowOf_sequence, toI64_small (by omega), toI64_small hsmall] at hequal
    omega
  simp [SessionStore.write, SqliteSessionStore.store, SqliteSessionStore.append, hdurable, hid, hunique, hsequence,
    Except.toOption, rowOf, hnumber]

theorem SqliteSessionStore.holds (debug : AgentEvent → String) {written : List JsonlRecord} (h : InOrder written) :
    ((SqliteSessionStore.store debug).writes {} written).Holds written := by
  induction h with
  | nil => exact ⟨rfl, fun _ => rfl⟩
  | @snoc written record h h' ih =>
    rw [SessionStore.writes_snoc]
    generalize (SqliteSessionStore.store debug).writes {} written = s at ih
    cases record with
    | event event =>
      rw [ih.write_event debug h h']
      refine ⟨?_, fun id => ?_⟩
      · rw [eventsIn_snoc, map_append, ← ih.rows]
        rfl
      · rw [heldOf_snoc]
        split
        · exact ih.snapshots id
        · exact ih.snapshots id
    | snapshot snapshot =>
      refine ⟨?_, fun id => ?_⟩
      · rw [eventsIn_snoc, map_append, ← ih.rows]
        exact (append_nil _).symm
      · rw [heldOf_snoc]
        by_cases hid : snapshot.sessionId = id
        · subst hid
          simp [SessionStore.write, SqliteSessionStore.store, SqliteSessionStore.saveSnapshot, Except.toOption,
            JsonlRecord.sessionId, SessionRecords.push]
        · simp [SessionStore.write, SqliteSessionStore.store, SqliteSessionStore.saveSnapshot, Except.toOption,
            JsonlRecord.sessionId, hid, ih.snapshots, Function.update_of_ne (Ne.symm hid)]

namespace SqliteSessionStore

variable {s : SqliteSessionStore} {written : List JsonlRecord}

theorem Holds.queryEvents (h : s.Holds written) (horder : InOrder written) (id : SessionId) (p : EventRow → Bool) :
    s.queryEvents id p = (heldOf id written).events.filter fun event => p (rowOf event) := by
  have hplain : ∀ event ∈ (heldOf id written).events, event.Plain := fun event hevent =>
    horder.plain event (mem_of_mem_filter (heldOf_events ▸ hevent))
  have hrows : (s.durableEvents.filter fun row => decide (row.sessionId = id) && p row) =
      ((heldOf id written).events.filter fun event => p (rowOf event)).map rowOf := by
    rw [h.rows, filter_map, heldOf_events, filter_filter]
    exact congrArg (List.map rowOf) (filter_congr fun event _ => Bool.and_comm _ _)
  have hsorted : (((heldOf id written).events.filter fun event => p (rowOf event)).map rowOf).Pairwise
      fun a b => a.sessionSequence ≤ b.sessionSequence := by
    refine pairwise_map.mpr (((horder.ascending id).sublist filter_sublist).imp_of_mem ?_)
    intro a b ha hb hless
    have hsmall := (hplain a (mem_of_mem_filter ha)).small
    have hsmall' := (hplain b (mem_of_mem_filter hb)).small
    rw [rowOf_sequence, rowOf_sequence, toI64_small hsmall, toI64_small hsmall']
    exact Int.ofNat_le.mpr (Nat.le_of_lt hless)
  rw [SqliteSessionStore.queryEvents, hrows, hsorted.insertionSort_eq, map_map]
  refine (map_congr_left fun event hevent => ?_).trans (map_id _)
  exact decode_rowOf (hplain event (mem_of_mem_filter hevent))

theorem max_stored (ns : List Nat) (h : ∀ n ∈ ns, n < 2 ^ 63) :
    ((ns.map toI64).max?).elim 0 toU64 = ns.foldr max 0 := by
  have hback {n : Nat} (hsmall : n < 2 ^ 63) : toU64 (toI64 n) = n := toU64_toI64 (by unfold maxU64; omega)
  induction ns with
  | nil => rfl
  | cons n ns ih =>
    obtain ⟨hn, hns⟩ := forall_mem_cons.mp h
    rw [map_cons, List.max?_cons, Option.elim_some, foldr_cons, ← ih hns]
    cases hmax : (ns.map toI64).max? with
    | none => rw [Option.elim_none, Option.elim_none, hback hn, Nat.max_zero]
    | some m =>
      obtain ⟨k, hk, rfl⟩ := mem_map.mp (List.max?_mem hmax)
      rw [Option.elim_some, Option.elim_some, hback (hns k hk)]
      rcases Nat.le_total n k with hle | hle
      · have hstored : toI64 n ≤ toI64 k := by
          rw [toI64_small hn, toI64_small (hns k hk)]
          exact Int.ofNat_le.mpr hle
        rw [max_eq_right hstored, max_eq_right hle, hback (hns k hk)]
      · have hstored : toI64 k ≤ toI64 n := by
          rw [toI64_small hn, toI64_small (hns k hk)]
          exact Int.ofNat_le.mpr hle
        rw [max_eq_left hstored, max_eq_left hle, hback hn]

theorem Holds.highest (h : s.Holds written) (horder : InOrder written) (id : SessionId) :
    (s.highest id).elim 0 toU64 = (heldOf id written).eventMax := by
  have hplain : ∀ event ∈ (heldOf id written).events, event.Plain := fun event hevent =>
    horder.plain event (mem_of_mem_filter (heldOf_events ▸ hevent))
  have hrows : (s.durableEvents.filter fun row => decide (row.sessionId = id)).map (·.sessionSequence) =
      ((heldOf id written).events.map (·.number)).map toI64 := by
    rw [h.rows, filter_map, heldOf_events, map_map, map_map]
    refine map_congr_left fun event _ => ?_
    rw [Function.comp_apply, Function.comp_apply, rowOf_sequence]
  have hnumbers : (heldOf id written).events.filterMap (·.sessionSequence) = (heldOf id written).events.map (·.number) := by
    rw [← filterMap_eq_map]
    exact filterMap_congr fun event hevent => (hplain event hevent).sequence
  rw [SqliteSessionStore.highest, hrows, SessionRecords.eventMax, hnumbers]
  refine max_stored _ fun n hn => ?_
  obtain ⟨event, hevent, rfl⟩ := mem_map.mp hn
  exact (hplain event hevent).small

theorem answers (debug : AgentEvent → String) (horder : InOrder written) (id : SessionId) :
    Answers (store debug) ((store debug).writes {} written) id (heldOf id written) := by
  have hholds := SqliteSessionStore.holds debug horder
  generalize (store debug).writes {} written = s at hholds
  have hall : s.allEvents id = (heldOf id written).events := by
    rw [allEvents, hholds.queryEvents horder]
    exact filter_eq_self.mpr fun _ _ => rfl
  have hsnapshot : (s.snapshots id).map (decodeSnapshot id) = (heldOf id written).snapshot := by
    rw [hholds.snapshots]
    cases hsaved : (heldOf id written).snapshot with
    | none => rfl
    | some snapshot =>
      obtain ⟨rfl, hsequence, hversion⟩ := horder.snapshot hsaved
      exact congrArg some (decode_snapshotRow hsequence hversion)
  refine ⟨?_, fun _ since hsince => ?_, ?_⟩
  · simp only [store, loadSession, hall, hsnapshot, loadedOf]
    cases (heldOf id written).snapshot <;> rfl
  · refine congrArg Except.ok ((hholds.queryEvents horder id _).trans (filter_congr fun event hevent => ?_))
    have hplain := horder.plain event (mem_of_mem_filter (heldOf_events ▸ hevent))
    rw [DurableSessionEvent.after, hplain.sequence, rowOf_sequence, toI64_small hplain.small, toI64_small hsince]
    simp
  · have hsaved : (s.snapshots id).elim 0 (fun row => toU64 row.sessionSequence) =
        ((heldOf id written).snapshot.map (·.sessionSequence)).getD 0 := by
      rw [← hsnapshot]
      cases s.snapshots id <;> rfl
    rw [SessionRecords.currentSequence, ← hholds.highest horder, ← hsaved]
    exact congrArg Except.ok (Nat.max_comm _ _)

end SqliteSessionStore

section

variable [JsonlExternals] (debug : AgentEvent → String) (path : SessionId → String)

open JsonlExternals

/-- The three stores, after the same writes, answer alike for a session; the history after a cursor is asked of a session
    in which something is stored, and with a cursor below `2 ^ 63`. -/
structure StoresAgree (written : List JsonlRecord) (id : SessionId) : Prop where
  jsonlLoad : (JsonlSessionStore.store debug path).loadSession ((JsonlSessionStore.store debug path).writes {} written) id =
    MemoryStore.store.loadSession (MemoryStore.store.writes {} written) id
  sqliteLoad : (SqliteSessionStore.store debug).loadSession ((SqliteSessionStore.store debug).writes {} written) id =
    MemoryStore.store.loadSession (MemoryStore.store.writes {} written) id
  jsonlSince : recordsIn id written ≠ [] → ∀ since, since < 2 ^ 63 →
    (JsonlSessionStore.store debug path).eventsSince ((JsonlSessionStore.store debug path).writes {} written) id since =
      MemoryStore.store.eventsSince (MemoryStore.store.writes {} written) id since
  sqliteSince : recordsIn id written ≠ [] → ∀ since, since < 2 ^ 63 →
    (SqliteSessionStore.store debug).eventsSince ((SqliteSessionStore.store debug).writes {} written) id since =
      MemoryStore.store.eventsSince (MemoryStore.store.writes {} written) id since
  jsonlCurrent : (JsonlSessionStore.store debug path).currentSequence
      ((JsonlSessionStore.store debug path).writes {} written) id =
    MemoryStore.store.currentSequence (MemoryStore.store.writes {} written) id
  sqliteCurrent : (SqliteSessionStore.store debug).currentSequence
      ((SqliteSessionStore.store debug).writes {} written) id =
    MemoryStore.store.currentSequence (MemoryStore.store.writes {} written) id

/-- Writes in order leave the stores in agreement about every session. -/
theorem stores_agree (laws : Jsonl.JsonlLaws) {written : List JsonlRecord} (h : InOrder written)
    (hread : ∀ record ∈ written, decode (encode record) = .ok record) (id : SessionId) :
    StoresAgree debug path written id := by
  have hmemory := MemoryStore.answers h id
  have hjsonl := JsonlSessionStore.answers debug path laws h hread id
  have hsqlite := SqliteSessionStore.answers debug h id
  have hheld (hwritten : recordsIn id written ≠ []) :
      ((heldOf id written).snapshot.isNone && (heldOf id written).events.isEmpty) = false := by
    rw [Bool.eq_false_iff, ne_eq, Bool.and_eq_true, Option.isNone_iff_eq_none, List.isEmpty_iff, heldOf_empty]
    exact hwritten
  refine ⟨hjsonl.load.trans hmemory.load.symm, hsqlite.load.trans hmemory.load.symm, ?_, ?_,
    hjsonl.current.trans hmemory.current.symm, hsqlite.current.trans hmemory.current.symm⟩
  · intro hwritten since hsince
    exact (hjsonl.since (hheld hwritten) since hsince).trans (hmemory.since (hheld hwritten) since hsince).symm
  · intro hwritten since hsince
    exact (hsqlite.since (hheld hwritten) since hsince).trans (hmemory.since (hheld hwritten) since hsince).symm

end

namespace Jsonl.Sample

def late : List JsonlRecord := [startedAt 5 2, startedAt 6 1]

theorem inOrder_written : InOrder [started, saved, again] := by
  have hfirst : InOrder [started] := .snoc .nil ⟨rfl, fun _ h => absurd h not_mem_nil, 1, rfl, rfl, by decide,
    fun _ h => absurd h not_mem_nil⟩
  have hsaved : InOrder ([started] ++ [saved]) := .snoc hfirst ⟨by decide, by decide⟩
  refine InOrder.snoc hsaved ⟨rfl, fun earlier h => ?_, 2, rfl, rfl, by decide, fun earlier h => ?_⟩
  · rw [mem_singleton.mp h]
    decide
  · rw [mem_singleton.mp h]
    rfl

theorem read_written (r : JsonlRecord) (h : r ∈ [started, saved, again]) :
    JsonlExternals.decode (JsonlExternals.encode r) = .ok r := by
  simp only [mem_cons, not_mem_nil, or_false] at h
  rcases h with rfl | rfl | rfl
  · exact read_started
  · exact read_saved
  · exact read_again

end Jsonl.Sample

section

open Jsonl.Sample

/-- A snapshot is saved between two events, and the second one is what trails it. -/
theorem stores_agree_saved : StoresAgree (fun _ => "RunStarted") (fun _ => "session.jsonl") [started, saved, again] ⟨2⟩ :=
  stores_agree (fun _ => "RunStarted") (fun _ => "session.jsonl") sample_laws inOrder_written
    read_written ⟨2⟩

/-- The memory gives the events back in the order they were appended, the tables in the order of their sequences. -/
theorem memory_keeps_append_order : (eventsIn late).map (·.sessionSequence) = [some 2, some 1] ∧
    ¬ StoresAgree (fun _ => "RunStarted") (fun _ => "session.jsonl") late ⟨2⟩ := by
  refine ⟨rfl, fun h => ?_⟩
  have hevents := congrArg (fun loaded => loaded.toOption.map (·.events.map (·.sessionSequence))) h.sqliteLoad
  exact absurd hevents (by decide)

end

end RustyCore
