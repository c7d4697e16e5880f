import RustyCore.Workflow.Store

/-! The log of a run on disk: a log of whole events is read as them, and one whose last write was cut short cannot
    be read or shows events that no snapshot knows of. -/

namespace RustyCore

open StoreExternals List

/-- What the store relies on of the JSON it writes: an event is a line of its own that starts with a brace and that
    no part of it can be taken for, and what is written can be read again (up to the rounding of floats). -/
structure StoreLaws [StoreExternals] : Prop where
  event_line : ∀ event, '\n' ∉ encodeEvent event ∧ '\r' ∉ encodeEvent event
  event_brace : ∀ event, (encodeEvent event).head? = some '\x7b'
  event_part : ∀ event part, part <+: encodeEvent event → part ≠ encodeEvent event → part ≠ [] →
    ∃ message, decodeEvent part = .error message
  event_read : ∀ event, ∃ event', decodeEvent (encodeEvent event) = .ok event' ∧ event'.sequence = event.sequence
  snapshot_read : ∀ snapshot, ∃ snapshot', decodeSnapshot (encodeSnapshot snapshot) = .ok snapshot' ∧
    snapshot'.lastSequence = snapshot.lastSequence

section

variable [StoreExternals] {dir : RunDir} {events more : List OrchestrationEventEnvelope} {n : Nat}

theorem eventsBuffer_eq : eventsBuffer events = Utf8.encode ((events.map encodeEvent).flatMap (· ++ ['\n'])) := by
  induction events with
  | nil => rfl
  | cons event events ih =>
    rw [map_cons, flatMap_cons, Utf8.encode_append, ← ih, Utf8.encode_append]
    rfl

theorem eventsBuffer_append : eventsBuffer (events ++ more) = eventsBuffer events ++ eventsBuffer more :=
  flatMap_append

def readLines (lines : List (List Char)) : Except OrchestrationStoreError (List OrchestrationEventEnvelope) :=
  (lines.filter fun line => !Text.isBlank (String.ofList line)).mapM fun line => (decodeEvent line).mapError .encoding

theorem readEvents_eq {contents : List Char} (h : Utf8.decode (dir.events.getD []) = some contents) :
    readEvents dir = readLines (Text.lines contents) := by
  unfold readEvents
  cases hevents : dir.events with
  | none =>
    rw [hevents, Option.getD_none] at h
    obtain rfl : contents = [] := by
      have hnil := Utf8.decode_eq_some.mp h
      have hsome := Utf8.decode_eq_some.mpr (show ([] : List UInt8) = Utf8.encode [] from rfl)
      rw [hsome] at h
      exact (Option.some.inj h).symm
    rfl
  | some bytes =>
    rw [hevents, Option.getD_some] at h
    simp only [h]
    rfl

omit [StoreExternals] in
theorem isBlank_brace {line : List Char} (h : line.head? = some '\x7b') : Text.isBlank (String.ofList line) = false := by
  by_contra hblank
  rw [Bool.not_eq_false, Text.isBlank_ofList] at hblank
  exact absurd (hblank '\x7b' (mem_of_mem_head? h)) (by decide)

theorem readLines_nonblank {lines : List (List Char)} (h : ∀ line ∈ lines, line.head? = some '\x7b') :
    readLines lines = lines.mapM fun line => (decodeEvent line).mapError .encoding := by
  rw [readLines, filter_eq_self.mpr fun line hline => ?_]
  rw [isBlank_brace (h line hline)]
  rfl

variable (laws : StoreLaws)

include laws

theorem readLines_events (events : List OrchestrationEventEnvelope) : ∃ events', readLines (events.map encodeEvent) = .ok events' ∧
    events'.map (·.sequence) = events.map (·.sequence) := by
  rw [readLines_nonblank fun line hline => ?_]
  · induction events with
    | nil => exact ⟨[], rfl, rfl⟩
    | cons event events ih =>
      obtain ⟨events', hread, hsame⟩ := ih
      obtain ⟨event', hevent, hsequence⟩ := laws.event_read event
      refine ⟨event' :: events', ?_, by rw [map_cons, map_cons, hsame, hsequence]⟩
      rw [map_cons, mapM_cons, hevent, hread]
      rfl
  · obtain ⟨event, -, rfl⟩ := mem_map.mp hline
    exact laws.event_brace event

theorem event_lines (events : List OrchestrationEventEnvelope) : ∀ line ∈ events.map encodeEvent, '\n' ∉ line ∧ '\r' ∉ line := by
  intro line hline
  obtain ⟨event, -, rfl⟩ := mem_map.mp hline
  exact laws.event_line event

/-- A whole log is read back. -/
theorem readEvents_stored (h : dir.events.getD [] = eventsBuffer events) :
    ∃ events', readEvents dir = .ok events' ∧ events'.map (·.sequence) = events.map (·.sequence) := by
  have hdecode := Utf8.decode_eq_some.mpr (h.trans eventsBuffer_eq)
  rw [readEvents_eq hdecode]
  have hlines := @Text.lines_ended _ [] (event_lines laws events)
  rw [append_nil, Text.lines_nil, append_nil] at hlines
  rw [hlines]
  exact readLines_events laws events

omit laws in
theorem readEvents_invalid (h : Utf8.decode (dir.events.getD []) = none) : ∃ e, readEvents dir = .error e := by
  unfold readEvents
  cases hevents : dir.events with
  | none =>
    rw [hevents, Option.getD_none, Utf8.decode_eq_some.mpr (show ([] : List UInt8) = Utf8.encode [] from rfl)] at h
    cases h
  | some bytes =>
    rw [hevents, Option.getD_some] at h
    simp only [h]
    exact ⟨_, rfl⟩

/-- A log that was cut in the middle of an append is invalid, or shows some of what was appended. -/
theorem readEvents_torn {k : Nat} (h : dir.events.getD [] = eventsBuffer events ++ (eventsBuffer more).take k)
    (hcut : (eventsBuffer more).take k ≠ []) : (∃ e, readEvents dir = .error e) ∨
      ∃ shown, shown <+: more ∧ shown ≠ [] ∧ ∃ events', readEvents dir = .ok events' ∧
        events'.map (·.sequence) = (events ++ shown).map (·.sequence) := by
  cases hdecode : Utf8.decode (dir.events.getD []) with
  | none => exact Or.inl (readEvents_invalid hdecode)
  | some contents =>
    rw [readEvents_eq hdecode]
    -- What was read is the text of the log and a part of the text that was being written.
    obtain ⟨part, rfl, hpart⟩ : ∃ part, contents = (events.map encodeEvent).flatMap (· ++ ['\n']) ++ part ∧
        Utf8.encode part = (eventsBuffer more).take k := by
      have hbytes := h.symm.trans (Utf8.decode_eq_some.mp hdecode)
      rw [eventsBuffer_eq] at hbytes
      obtain ⟨part, rfl⟩ := Utf8.prefix_of_encode ⟨_, hbytes⟩
      rw [Utf8.encode_append] at hbytes
      exact ⟨part, rfl, (append_cancel_left hbytes).symm⟩
    have hne : part ≠ [] := fun hnil => hcut (by rw [← hpart, hnil]; rfl)
    rw [eventsBuffer_eq] at hpart
    obtain ⟨whole, rest, after, hmore, rfl, hlast⟩ :=
      Text.prefix_ended (Utf8.decode_take (Utf8.decode_eq_some.mpr hpart.symm))
    obtain ⟨shown, left, rfl, rfl, rfl⟩ := map_eq_append_iff.mp hmore
    rw [Text.lines_ended (event_lines laws _), Text.lines_ended (event_lines laws _), ← append_assoc, ← map_append]
    rcases hlast with rfl | ⟨line, hhead, hstart, hrest⟩
    · have hshown : shown ≠ [] := by
        rintro rfl
        exact hne rfl
      rw [Text.lines_nil, append_nil]
      exact Or.inr ⟨shown, prefix_append _ _, hshown, readLines_events laws _⟩
    · obtain ⟨event, left, rfl⟩ : ∃ event left', left = event :: left' := by
        cases left with
        | nil => cases hhead
        | cons event left => exact ⟨event, left, rfl⟩
      obtain rfl : encodeEvent event = line := Option.some.inj hhead
      have hnewline : '\n' ∉ rest := fun hmem => (laws.event_line event).1 (hstart.subset hmem)
      rw [Text.lines_last hnewline hrest]
      by_cases hwhole : rest = encodeEvent event
      · -- Only the end of the line is missing.
        subst hwhole
        refine Or.inr ⟨shown ++ [event], ⟨left, by simp⟩, by simp, ?_⟩
        rw [show [encodeEvent event] = [event].map encodeEvent from rfl, ← map_append, append_assoc]
        exact readLines_events laws _
      · obtain ⟨message, herror⟩ := laws.event_part event rest hstart hwhole hrest
        obtain ⟨read, hread, -⟩ := readLines_events laws (events ++ shown)
        refine Or.inl ⟨.encoding message, ?_⟩
        have hbrace : ∀ line ∈ (events ++ shown).map encodeEvent, line.head? = some '\x7b' := by
          intro line hline
          obtain ⟨event, -, rfl⟩ := mem_map.mp hline
          exact laws.event_brace event
        have hrestBrace : rest.head? = some '\x7b' := by
          obtain ⟨tail, htail⟩ := hstart
          obtain ⟨c, cs, rfl⟩ := exists_cons_of_ne_nil hrest
          have hhead := laws.event_brace event
          rw [← htail] at hhead
          exact hhead
        rw [readLines_nonblank hbrace] at hread
        have hall : ∀ line ∈ (events ++ shown).map encodeEvent ++ [rest], line.head? = some '\x7b' := by
          intro line hline
          rcases mem_append.mp hline with hline | hline
          · exact hbrace line hline
          · rw [mem_singleton.mp hline]
            exact hrestBrace
        rw [readLines_nonblank hall, mapM_append, hread, mapM_cons, herror]
        rfl

omit laws

omit [StoreExternals] in
/-- The check accepts the events that are numbered on from `n`, without a gap. -/
theorem checkSequence_eq_ok {runId : OrchestrationRunId} :
    checkSequence runId n events = .ok () ↔ events.map (·.sequence) = List.range' (n + 1) events.length := by
  have hloop : ∀ (events : List OrchestrationEventEnvelope) (k : Nat),
      forM (events.zipIdx k) (checkEvent runId n) = .ok () ↔
        events.map (·.sequence) = List.range' (n + 1 + k) events.length := by
    intro events
    induction events with
    | nil => exact fun k => iff_of_true rfl rfl
    | cons event events ih =>
      intro k
      rw [zipIdx_cons, forM_cons, map_cons, length_cons, range'_succ, List.cons.injEq]
      by_cases heq : event.sequence = n + 1 + k
      · rw [checkEvent, if_pos heq, and_iff_right heq]
        exact ih (k + 1)
      · rw [checkEvent, if_neg heq]
        exact iff_of_false (by rintro ⟨⟩) fun h => heq h.1
  exact hloop events 0

omit [StoreExternals] in
theorem lastSequenceOr_numbered {k : Nat} (h : events.map (·.sequence) = List.range' (n + 1) k) :
    lastSequenceOr n events = n + k := by
  have hlast := congrArg List.getLast? h
  rw [List.getLast?_map, List.getLast?_range'] at hlast
  rw [lastSequenceOr, hlast]
  split
  · rename_i hk
    rw [hk]
    rfl
  · simp only [Option.getD_some]
    omega

omit [StoreExternals] in
theorem run_events {ops : List DiskOp} (h : ∀ byte, .append byte ∉ ops) :
    (dir.run ops).events.getD [] = dir.events.getD [] := by
  induction ops generalizing dir with
  | nil => rfl
  | cons op ops ih =>
    have hop : (dir.apply op).events.getD [] = dir.events.getD [] := by
      cases op with
      | append byte => exact absurd mem_cons_self (h byte)
      | openLog | createDir | createTemp | writeTemp | rename => rfl
    exact (ih fun byte hmem => h byte (mem_cons_of_mem _ hmem)).trans hop

omit [StoreExternals] in
theorem run_snapshot {ops : List DiskOp} (h : .rename ∉ ops) : (dir.run ops).snapshot = dir.snapshot := by
  induction ops generalizing dir with
  | nil => rfl
  | cons op ops ih =>
    have hop : (dir.apply op).snapshot = dir.snapshot := by
      cases op with
      | rename => exact absurd mem_cons_self h
      | createDir | openLog | append | createTemp | writeTemp => rfl
    exact (ih fun hmem => h (mem_cons_of_mem _ hmem)).trans hop

omit [StoreExternals] in
theorem run_append_bytes {log : List UInt8} (bytes : List UInt8) (h : dir.events = some log) :
    (dir.run (bytes.map .append)).events = some (log ++ bytes) := by
  induction bytes generalizing dir log with
  | nil => simpa [RunDir.run] using h
  | cons byte bytes ih =>
    have hone : (dir.apply (.append byte)).events = some (log ++ [byte]) := by simp [RunDir.apply, h]
    simpa [RunDir.run] using ih hone

omit [StoreExternals] in
theorem run_temp_bytes {temp : List UInt8} (bytes : List UInt8) (h : dir.temp = some temp) :
    (dir.run (bytes.map .writeTemp)).temp = some (temp ++ bytes) := by
  induction bytes generalizing dir temp with
  | nil => simpa [RunDir.run] using h
  | cons byte bytes ih =>
    have hone : (dir.apply (.writeTemp byte)).temp = some (temp ++ [byte]) := by simp [RunDir.apply, h]
    simpa [RunDir.run] using ih hone

theorem run_appendOps (dir : RunDir) (j : Nat) : (dir.run ((appendOps events).take j)).events.getD [] =
    dir.events.getD [] ++ (eventsBuffer events).take (j - 1) := by
  cases events with
  | nil => simp [appendOps, eventsBuffer, RunDir.run]
  | cons event events =>
    cases j with
    | zero => simp [RunDir.run]
    | succ j =>
      rw [appendOps, if_neg (by simp), take_succ_cons, ← map_take]
      have hopen : (dir.apply .openLog).events = some (dir.events.getD []) := rfl
      rw [RunDir.run, foldl_cons, ← RunDir.run, run_append_bytes _ hopen]
      rfl

theorem append_mem_appendOps {j : Nat} :
    (∃ byte, .append byte ∈ (appendOps events).take j) ↔ (eventsBuffer events).take (j - 1) ≠ [] := by
  cases events with
  | nil => simp [appendOps, eventsBuffer]
  | cons event events =>
    cases j with
    | zero => simp
    | succ j =>
      rw [appendOps, if_neg (by simp), take_succ_cons, ← map_take, Nat.add_sub_cancel, ne_eq,
        eq_nil_iff_forall_not_mem]
      simp only [mem_cons, mem_map, reduceCtorEq, false_or, DiskOp.append.injEq, exists_eq_right, not_forall,
        not_not]

variable {snapshot : OrchestrationSnapshot}

theorem append_not_mem_snapshotOps (byte : UInt8) : .append byte ∉ snapshotOps snapshot := by
  simp [snapshotOps]

theorem rename_not_mem_appendOps : .rename ∉ appendOps events := by
  unfold appendOps
  split <;> simp

theorem run_snapshotOps : (dir.run (snapshotOps snapshot)).snapshot = some (encodeSnapshot snapshot) := by
  have hopen : (dir.apply .createTemp).temp = some [] := rfl
  rw [snapshotOps, RunDir.run_append]
  exact run_temp_bytes (encodeSnapshot snapshot) hopen

/-- A commit that is not cut short appends its events and puts its snapshot in place. -/
theorem run_commitOps (dir : RunDir) (events : List OrchestrationEventEnvelope) (snapshot : OrchestrationSnapshot) :
    (dir.run (commitOps events snapshot)).events.getD [] =
      dir.events.getD [] ++ eventsBuffer events ∧
    (dir.run (commitOps events snapshot)).snapshot = some (encodeSnapshot snapshot) := by
  rw [commitOps, RunDir.run_append]
  refine ⟨?_, run_snapshotOps⟩
  rw [run_events append_not_mem_snapshotOps]
  have hrun := @run_appendOps _ events (dir.apply .createDir) ((eventsBuffer events).length + 1)
  have hall : (appendOps events).take ((eventsBuffer events).length + 1) = appendOps events := by
    refine take_of_length_le ?_
    unfold appendOps
    split <;> simp
  rw [hall, Nat.add_sub_cancel, take_length] at hrun
  exact hrun

theorem commitOps_eq : commitOps events snapshot =
    (.createDir :: appendOps events ++ .createTemp :: (encodeSnapshot snapshot).map .writeTemp) ++ [.rename] := by
  rw [commitOps, snapshotOps, append_assoc]

theorem take_commitOps {cut : Nat} (h : .rename ∈ (commitOps events snapshot).take cut) :
    (commitOps events snapshot).take cut = commitOps events snapshot := by
  refine take_of_length_le ?_
  by_contra hlt
  rw [commitOps_eq, length_append, length_singleton, not_le, Nat.lt_succ_iff] at hlt
  rw [commitOps_eq, take_append_of_le_length hlt] at h
  rcases mem_append.mp (mem_of_mem_take h) with h | h
  · rcases mem_cons.mp h with h | h
    · cases h
    · exact rename_not_mem_appendOps h
  · simp at h

/-- A commit that is cut once it has begun to append leaves a part of its events. -/
theorem run_commitOps_torn {cut : Nat} (happend : ∃ byte, .append byte ∈ (commitOps events snapshot).take cut) :
    ∃ k, (dir.run ((commitOps events snapshot).take cut)).events.getD [] =
      dir.events.getD [] ++ (eventsBuffer events).take k ∧ (eventsBuffer events).take k ≠ [] := by
  obtain ⟨byte, hmem⟩ := happend
  cases cut with
  | zero => simp at hmem
  | succ j =>
    rw [commitOps, cons_append, take_succ_cons, take_append] at hmem ⊢
    have hfirst : .append byte ∈ (appendOps events).take j := by
      rcases mem_cons.mp hmem with h | h
      · cases h
      · rcases mem_append.mp h with h | h
        · exact h
        · exact absurd (mem_of_mem_take h) (append_not_mem_snapshotOps byte)
    refine ⟨j - 1, ?_, append_mem_appendOps.mp ⟨byte, hfirst⟩⟩
    rw [← cons_append, RunDir.run_append, run_events fun byte h =>
      append_not_mem_snapshotOps byte (mem_of_mem_take h)]
    exact run_appendOps (dir.apply .createDir) j

end

end RustyCore
