import RustyCore.Store.Jsonl

/-! Reading a session file after a crash: whole lines are read as their records, a torn tail is dropped where it is
    text, and what is appended after a torn tail makes one line with it that is no record. -/

namespace RustyCore

namespace Jsonl

open JsonlExternals

/-- What the reader relies on of JSON: a record is one line in braces; no part of it is a record, and no record is
    followed on its line by another one. -/
structure JsonlLaws [JsonlExternals] : Prop where
  record_line : ∀ record, '\n' ∉ encode record
  record_braces : ∀ record, (encode record).head? = some '\x7b' ∧ (encode record).getLast? = some '\x7d'
  record_part : ∀ record part, part <+: encode record → part ≠ encode record → ∃ e, decode part = .error e
  record_glued : ∀ record next part, part <+: encode record → part ≠ [] → ∃ e, decode (part ++ encode next) = .error e

def recordsOf (records : List JsonlRecord) : SessionRecords := (records.foldl SessionRecords.push {}).sorted

section

variable [JsonlExternals] {path : String} {records : SessionRecords} {n : Nat} {r : JsonlRecord}

def log (acked : List JsonlRecord) : List UInt8 := acked.flatMap line

theorem foldl_writeRecord (bytes : List UInt8) (acked : List JsonlRecord) :
    acked.foldl writeRecord (some bytes) = some (bytes ++ log acked) := by
  induction acked generalizing bytes with
  | nil => exact congrArg some (List.append_nil _).symm
  | cons r acked ih =>
    rw [List.foldl_cons, writeRecord, ih, Option.getD_some, log, log, List.flatMap_cons, List.append_assoc]

theorem getD_foldl_writeRecord (acked : List JsonlRecord) : (acked.foldl writeRecord none).getD [] = log acked := by
  cases acked with
  | nil => rfl
  | cons r acked =>
    rw [List.foldl_cons, writeRecord, foldl_writeRecord]
    rfl

theorem line_eq (r : JsonlRecord) : line r = Utf8.encode (encode r ++ ['\n']) := by
  rw [line, Utf8.encode_append]
  rfl

omit [JsonlExternals] in
theorem no_newline {cs : List Char} (h : '\n' ∉ cs) : ∀ b ∈ Utf8.encode cs, (b == 10) = false := by
  intro b hb
  rw [beq_eq_false_iff_ne]
  rintro rfl
  exact h (Utf8.ascii_mem (a := '\n') (by decide) hb)

variable (laws : JsonlLaws)

include laws

theorem splitInclusive_log (acked : List JsonlRecord) (rest : List UInt8) :
    Text.splitInclusive (· == 10) (log acked ++ rest) = acked.map line ++ Text.splitInclusive (· == 10) rest := by
  induction acked with
  | nil => rfl
  | cons r acked ih =>
    have hcut : log (r :: acked) ++ rest = Utf8.encode (encode r) ++ 10 :: (log acked ++ rest) := by
      rw [log, List.flatMap_cons, line]
      simp [log]
    rw [hcut, Text.splitInclusive_cons (no_newline (laws.record_line r)) rfl, ih]
    rfl

omit [JsonlExternals] laws in
theorem newline_blank : ∀ c ∈ ['\n'], Text.isWhitespace c = true := by
  intro c hc
  obtain rfl := List.mem_singleton.mp hc
  decide

theorem trimEnd_encode (r : JsonlRecord) : Text.trimEnd (encode r ++ ['\n']) = encode r ∧
    Text.trimEnd (encode r) = encode r := by
  have hend : ∀ c, (encode r).getLast? = some c → Text.isWhitespace c = false := by
    intro c hc
    rw [(laws.record_braces r).2] at hc
    obtain rfl := Option.some.inj hc
    decide
  refine ⟨Text.trimEnd_append hend newline_blank, ?_⟩
  have htrim := Text.trimEnd_append hend (nofun : ∀ c ∈ ([] : List Char), Text.isWhitespace c = true)
  rwa [List.append_nil] at htrim

theorem encode_ne_nil (r : JsonlRecord) : encode r ≠ [] := by
  intro hnil
  have hhead := (laws.record_braces r).1
  rw [hnil] at hhead
  cases hhead

theorem readLines_line (hread : decode (encode r) = .ok r) (rest : List (List UInt8)) :
    readLines path records n (line r :: rest) = readLines path (records.push r) (n + 1) rest := by
  have hdecode := Utf8.decode_eq_some.mpr (line_eq r)
  have htrim := (trimEnd_encode laws r).1
  have hblank : (encode r).isEmpty = false := List.isEmpty_eq_false_iff.mpr (encode_ne_nil laws r)
  simp only [readLines, hdecode, htrim, hblank, parseLine, hread, Bool.false_eq_true, if_false]

theorem readLines_log {acked : List JsonlRecord} (hread : ∀ r ∈ acked, decode (encode r) = .ok r)
    (rest : List (List UInt8)) : readLines path records n (acked.map line ++ rest) =
      readLines path (acked.foldl SessionRecords.push records) (n + acked.length) rest := by
  induction acked generalizing records n with
  | nil => rfl
  | cons r acked ih =>
    obtain ⟨hr, hread⟩ := List.forall_mem_cons.mp hread
    rw [List.map_cons, List.cons_append, readLines_line laws hr, ih hread, List.foldl_cons, List.length_cons,
      Nat.add_assoc, Nat.add_comm 1]

theorem readRecords_log {acked : List JsonlRecord} (hread : ∀ r ∈ acked, decode (encode r) = .ok r) :
    readRecords path (some (log acked)) = if acked = [] then .error .notFound else .ok (recordsOf acked) := by
  have hlines := splitInclusive_log laws acked []
  rw [List.append_nil] at hlines
  rw [readRecords, hlines, readLines_log laws hread]
  cases acked with
  | nil => rfl
  | cons r acked =>
    simp only [Text.splitInclusive, readLines, List.length_cons, reduceCtorEq, if_false]
    rfl

omit laws in
theorem torn_part {cut : Nat} (hcut : cut < (line r).length) : (line r).take cut <+: Utf8.encode (encode r) := by
  have hline : (line r).length = (Utf8.encode (encode r)).length + 1 := by
    rw [line, List.length_append, List.length_singleton]
  rw [line, List.take_append_of_le_length (by omega)]
  exact List.take_prefix _ _

theorem torn_no_newline {cut : Nat} (hcut : cut < (line r).length) : ∀ b ∈ (line r).take cut, (b == 10) = false :=
  fun b hb => no_newline (laws.record_line r) b ((torn_part hcut).mem hb)

theorem torn_text {cut : Nat} (hcut : cut < (line r).length) (hpos : 0 < cut) {part : List Char}
    (hpart : Utf8.decode ((line r).take cut) = some part) : part <+: encode r ∧ part ≠ [] ∧ part.head? = some '\x7b' := by
  have hbytes := Utf8.decode_eq_some.mp hpart
  have hstart : part <+: encode r := Utf8.prefix_of_encode (hbytes ▸ torn_part hcut)
  have hne : part ≠ [] := by
    rintro rfl
    have hlength := congrArg List.length hbytes
    rw [List.length_take, Utf8.encode_nil, List.length_nil] at hlength
    omega
  refine ⟨hstart, hne, ?_⟩
  obtain ⟨c, cs, rfl⟩ := List.exists_cons_of_ne_nil hne
  obtain ⟨rest, hrest⟩ := hstart
  have hhead := (laws.record_braces r).1
  rw [← hrest, List.cons_append, List.head?_cons] at hhead
  exact hhead

theorem readLines_torn {cut : Nat} (hread : decode (encode r) = .ok r) (hcut : cut < (line r).length) (hpos : 0 < cut) :
    readLines path records n [(line r).take cut] =
      match Utf8.decode ((line r).take cut) with
      | none => .error (.io "stream did not contain valid UTF-8")
      | some part => .ok (if part = encode r then records.push r else records, n + 1) := by
  cases hpart : Utf8.decode ((line r).take cut) with
  | none => simp only [readLines, hpart]
  | some part =>
    obtain ⟨hstart, hne, hbrace⟩ := torn_text laws hcut hpos hpart
    have hsolid : (Text.trimEnd part).isEmpty = false :=
      List.isEmpty_eq_false_iff.mpr (Text.trimEnd_ne_nil (List.mem_of_mem_head? hbrace) (by decide))
    have hnewline : part.getLast? ≠ some '\n' := by
      intro hlast
      exact laws.record_line r (hstart.mem (List.mem_of_getLast? hlast))
    by_cases hwhole : part = encode r
    · subst hwhole
      have htrim := (trimEnd_encode laws r).2
      rw [htrim] at hsolid
      simp only [readLines, hpart, htrim, hsolid, parseLine, hread, Bool.false_eq_true, if_false, if_true]
    · have hshort : Text.trimEnd part ≠ encode r := by
        intro heq
        have hle := (Text.trimEnd_prefix part).length_le
        rw [heq] at hle
        exact hwhole (hstart.eq_of_length_le hle)
      obtain ⟨e, hbad⟩ := laws.record_part r _ ((Text.trimEnd_prefix part).trans hstart) hshort
      simp only [readLines, hpart, hsolid, parseLine, hbad, Bool.false_eq_true, if_false, hnewline, if_true, hwhole,
        ne_eq, not_false_eq_true]

theorem readLines_glued {cut : Nat} (hcut : cut < (line r).length) (hpos : 0 < cut) (next : JsonlRecord)
    (rest : List (List UInt8)) : ∃ e, readLines path records n (((line r).take cut ++ line next) :: rest) = .error e := by
  cases hwhole : Utf8.decode ((line r).take cut ++ line next) with
  | none => exact ⟨_, by simp only [readLines, hwhole]; rfl⟩
  | some text =>
    obtain ⟨cs, hcs⟩ : ∃ cs, encode next = '\x7b' :: cs := by
      obtain ⟨c, cs, heq⟩ := List.exists_cons_of_ne_nil (encode_ne_nil laws next)
      have hhead := (laws.record_braces next).1
      rw [heq, List.head?_cons] at hhead
      exact ⟨cs, by rw [heq, Option.some.inj hhead]⟩
    -- The text is that of the torn part, then that of the next record.
    obtain ⟨part, hpart, rfl⟩ : ∃ part, (line r).take cut = Utf8.encode part ∧ text = part ++ (encode next ++ ['\n']) := by
      have hbytes := (Utf8.decode_eq_some.mp hwhole).symm
      rw [line_eq next, hcs, List.cons_append] at hbytes
      obtain ⟨part, hpart, htext⟩ := Utf8.encode_split (by decide) hbytes
      exact ⟨part, hpart, by rw [htext, hcs]; rfl⟩
    obtain ⟨hstart, hne, -⟩ := torn_text laws hcut hpos (Utf8.decode_eq_some.mpr hpart)
    obtain ⟨e, hbad⟩ := laws.record_glued r next part hstart hne
    have htrim : Text.trimEnd (part ++ (encode next ++ ['\n'])) = part ++ encode next := by
      rw [← List.append_assoc]
      refine Text.trimEnd_append (fun c hc => ?_) newline_blank
      rw [List.getLast?_append_of_ne_nil _ (encode_ne_nil laws next), (laws.record_braces next).2] at hc
      obtain rfl := Option.some.inj hc
      decide
    have hsolid : (part ++ encode next).isEmpty = false :=
      List.isEmpty_eq_false_iff.mpr fun hnil => hne (List.append_eq_nil_iff.mp hnil).1
    have hnewline : (part ++ (encode next ++ ['\n'])).getLast? = some '\n' := by simp
    exact ⟨_, by simp only [readLines, hwhole, htrim, hsolid, parseLine, hbad, hnewline, Bool.false_eq_true, if_false,
      ne_eq, not_true_eq_false]; rfl⟩

omit laws in
theorem crashed_file (acked more : List JsonlRecord) (torn : JsonlRecord) (cut : Nat) :
    more.foldl writeRecord (tearRecord (acked.foldl writeRecord none) torn cut) =
      some (log acked ++ ((line torn).take cut ++ log more)) := by
  rw [tearRecord, getD_foldl_writeRecord, foldl_writeRecord, List.append_assoc]

end

def Recovers [JsonlExternals] (path : String) (acked : List JsonlRecord) (torn : JsonlRecord) (cut : Nat)
    (more : List JsonlRecord) : Prop :=
  ∃ kept, (kept = acked ++ more ∨ kept = acked ++ torn :: more) ∧
    readRecords path (more.foldl writeRecord (tearRecord (acked.foldl writeRecord none) torn cut)) = .ok (recordsOf kept)

section

variable [JsonlExternals] {acked more : List JsonlRecord} {torn : JsonlRecord} {cut : Nat}

theorem recovers_torn (laws : JsonlLaws) (path : String)
    (hread : ∀ r ∈ acked ++ [torn], decode (encode r) = .ok r) (hcut : cut < (line torn).length) (hpos : 0 < cut) :
    Recovers path acked torn cut [] ↔ (Utf8.decode ((line torn).take cut)).isSome = true := by
  obtain ⟨hacked, htorn⟩ := List.forall_mem_append.mp hread
  have hlast := Text.splitInclusive_last (torn_no_newline laws hcut) (List.ne_nil_of_length_pos (by
    rw [List.length_take]
    omega))
  have hfile : readRecords path (some (log acked ++ ((line torn).take cut ++ log []))) =
      match Utf8.decode ((line torn).take cut) with
      | none => .error (.io "stream did not contain valid UTF-8")
      | some part => .ok (recordsOf (if part = encode torn then acked ++ [torn] else acked)) := by
    rw [show log ([] : List JsonlRecord) = [] from rfl, List.append_nil, readRecords, splitInclusive_log laws, hlast,
      readLines_log laws hacked, readLines_torn laws (htorn torn (List.mem_singleton.mpr rfl)) hcut hpos]
    cases Utf8.decode ((line torn).take cut) with
    | none => rfl
    | some part =>
      dsimp only
      rw [if_neg (by omega)]
      by_cases hwhole : part = encode torn
      · rw [if_pos hwhole, if_pos hwhole, recordsOf, List.foldl_append]
        rfl
      · rw [if_neg hwhole, if_neg hwhole]
        rfl
  unfold Recovers
  rw [crashed_file, hfile]
  cases Utf8.decode ((line torn).take cut) with
  | none => exact iff_of_false (by rintro ⟨kept, -, h⟩; cases h) Bool.false_ne_true
  | some part =>
    refine iff_of_true ⟨if part = encode torn then acked ++ [torn] else acked, ?_, rfl⟩ rfl
    split
    · exact .inr rfl
    · exact .inl (List.append_nil _).symm

theorem not_recovers_glued (laws : JsonlLaws) (path : String) (hread : ∀ r ∈ acked, decode (encode r) = .ok r)
    (hcut : cut < (line torn).length) (hpos : 0 < cut) (next : JsonlRecord) :
    ¬ Recovers path acked torn cut (next :: more) := by
  have hglued : (line torn).take cut ++ log (next :: more) =
      ((line torn).take cut ++ Utf8.encode (encode next)) ++ 10 :: log more := by
    rw [log, List.flatMap_cons, line]
    simp [log, line]
  have hpiece : ∀ b ∈ (line torn).take cut ++ Utf8.encode (encode next), (b == 10) = false := by
    intro b hb
    rcases List.mem_append.mp hb with hb | hb
    · exact torn_no_newline laws hcut b hb
    · exact no_newline (laws.record_line next) b hb
  rintro ⟨kept, -, h⟩
  obtain ⟨e, hbad⟩ := @readLines_glued _ path (acked.foldl SessionRecords.push {}) (0 + acked.length) torn laws cut
    hcut hpos next (Text.splitInclusive (· == 10) (log more))
  rw [show line next = Utf8.encode (encode next) ++ [10] from rfl, ← List.append_assoc] at hbad
  rw [crashed_file, readRecords, splitInclusive_log laws, hglued, Text.splitInclusive_cons hpiece rfl,
    readLines_log laws hread, hbad] at h
  cases h

/-- After a crash in the middle of an append, the acknowledged records are read exactly if nothing of the torn line
    was written and there is something to read, or nothing was appended after it and it was not cut within a
    character. -/
theorem recovers_iff (laws : JsonlLaws) (path : String)
    (hread : ∀ r ∈ acked ++ torn :: more, decode (encode r) = .ok r) (hcut : cut < (line torn).length) :
    Recovers path acked torn cut more ↔ (cut = 0 ∧ acked ++ more ≠ []) ∨
      (0 < cut ∧ more = [] ∧ (Utf8.decode ((line torn).take cut)).isSome = true) := by
  obtain ⟨hacked, hrest⟩ := List.forall_mem_append.mp hread
  obtain ⟨htorn, hmore⟩ := List.forall_mem_cons.mp hrest
  by_cases hpos : 0 < cut
  · cases more with
    | nil =>
      rw [recovers_torn laws path hread hcut hpos]
      constructor
      · exact fun h => .inr ⟨hpos, rfl, h⟩
      · rintro (⟨hzero, -⟩ | ⟨-, -, h⟩)
        · omega
        · exact h
    | cons next more =>
      refine iff_of_false (not_recovers_glued laws path hacked hcut hpos next) ?_
      rintro (⟨hzero, -⟩ | ⟨-, hnil, -⟩)
      · omega
      · cases hnil
  · obtain rfl : cut = 0 := by omega
    have hfile : more.foldl writeRecord (tearRecord (acked.foldl writeRecord none) torn 0) = some (log (acked ++ more)) := by
      rw [crashed_file, List.take_zero, List.nil_append, log, log, log, List.flatMap_append]
    have hall : ∀ r ∈ acked ++ more, decode (encode r) = .ok r := List.forall_mem_append.mpr ⟨hacked, hmore⟩
    unfold Recovers
    rw [hfile, readRecords_log laws hall]
    by_cases hnil : acked ++ more = []
    · rw [if_pos hnil]
      refine iff_of_false (by rintro ⟨kept, -, h⟩; cases h) ?_
      rintro (⟨-, hne⟩ | ⟨hzero, -⟩)
      · exact hne hnil
      · omega
    · rw [if_neg hnil]
      exact iff_of_true ⟨acked ++ more, .inl rfl, rfl⟩ (.inl ⟨rfl, hnil⟩)

end

namespace Sample

def startedAt (id : Uuid) (sequence : Nat) : JsonlRecord := .event {
  envelope := {
    eventId := ⟨id⟩
    sessionId := ⟨2⟩
    agentId := ⟨3⟩
    parentAgentId := none
    runId := none
    agentSequence := 0
    sessionSequence := some sequence
    timestamp := .fromSequence 0
    visibility := .user
    event := .runStarted ⟨4⟩ }
  sessionSequence := some sequence }

def started : JsonlRecord := startedAt 1 1

def again : JsonlRecord := startedAt 5 2

def saved : JsonlRecord := .snapshot ⟨⟨2⟩, ⟨3⟩, [], 1, .fromSequence 0, 1⟩

def eventJson (id sequence : String) : List Char :=
  [
    "\x7b\"kind\":\"event\",\"envelope\":\x7b",
    "\"event_id\":\"00000000-0000-0000-0000-00000000000", id, "\",",
    "\"session_id\":\"00000000-0000-0000-0000-000000000002\",",
    "\"agent_id\":\"00000000-0000-0000-0000-000000000003\",",
    "\"parent_agent_id\":null,\"run_id\":null,",
    "\"agent_sequence\":0,\"session_sequence\":", sequence, ",",
    "\"timestamp\":\"1970-01-01T00:00:00Z\",",
    "\"visibility\":\"User\",\"event\":\x7b\"RunStarted\":\x7b",
    "\"run_id\":\"00000000-0000-0000-0000-000000000004\"\x7d\x7d\x7d,",
    "\"session_sequence\":", sequence, "\x7d"].flatMap String.toList

def startedJson : List Char := eventJson "1" "1"

def againJson : List Char := eventJson "5" "2"

def savedJson : List Char :=
  [
    "\x7b\"kind\":\"snapshot\",",
    "\"session_id\":\"00000000-0000-0000-0000-000000000002\",",
    "\"root_agent_id\":\"00000000-0000-0000-0000-000000000003\",",
    "\"agents\":[],\"session_sequence\":1,",
    "\"timestamp\":\"1970-01-01T00:00:00Z\",",
    "\"schema_version\":1,\"metadata\":\x7b\"workspace_identity\":null,",
    "\"integration_references\":[],\"credential_profiles\":[],\"tool_policy_ids\":[],",
    "\"compacted\":false,\"compaction_generation\":0\x7d\x7d"].flatMap String.toList

/-- A JSON library that knows two events of the session and a snapshot. -/
instance : JsonlExternals where
  encode
    | .snapshot _ => savedJson
    | .event event => if event.sessionSequence = some 2 then againJson else startedJson
  decode text :=
    if text = startedJson then .ok started
    else if text = againJson then .ok again
    else if text = savedJson then .ok saved
    else .error "expected value at line 1 column 1"

def known : List (List Char) := [startedJson, againJson, savedJson]

theorem encode_known (r : JsonlRecord) : encode r ∈ known := by
  cases r with
  | snapshot => exact .tail _ (.tail _ (.head _))
  | event event =>
    unfold encode
    simp only [instJsonlExternals]
    split
    · exact .tail _ (.head _)
    · exact .head _

theorem decode_other {text : List Char} (h : text ∉ known) : ∃ e, decode text = .error e := by
  simp only [known, List.mem_cons, List.not_mem_nil, or_false, not_or] at h
  exact ⟨_, (if_neg h.1).trans ((if_neg h.2.1).trans (if_neg h.2.2))⟩

theorem known_shape : ∀ text ∈ known, '\n' ∉ text ∧ text.head? = some '\x7b' ∧ text.getLast? = some '\x7d' := by
  decide +kernel

/-- No text begins or ends with another one. -/
theorem known_apart : ∀ a ∈ known, ∀ b ∈ known, (a <+: b → a = b) ∧ (a <:+ b → a = b) := by decide +kernel

theorem sample_laws : JsonlLaws where
  record_line r := (known_shape _ (encode_known r)).1
  record_braces r := (known_shape _ (encode_known r)).2
  record_part r part hpart hne := decode_other fun hknown => hne ((known_apart part hknown _ (encode_known r)).1 hpart)
  record_glued r next part _ hne := by
    refine decode_other fun hknown => hne ?_
    have hsame := (known_apart _ (encode_known next) _ hknown).2 (List.suffix_append part _)
    exact List.self_eq_append_left.mp hsame

theorem read_started : decode (encode started) = .ok started := by
  have hencode : encode started = startedJson := if_neg (by decide)
  rw [hencode]
  exact if_pos rfl

theorem read_again : decode (encode again) = .ok again := by
  have hencode : encode again = againJson := if_pos rfl
  have hother : againJson ≠ startedJson := by decide
  rw [hencode]
  exact (if_neg hother).trans (if_pos rfl)

theorem read_saved : decode (encode saved) = .ok saved := by
  have hencode : encode saved = savedJson := rfl
  have hother : savedJson ≠ startedJson ∧ savedJson ≠ againJson := by decide
  rw [hencode]
  exact (if_neg hother.1).trans ((if_neg hother.2).trans (if_pos rfl))

theorem sample_read (r : JsonlRecord) (h : r ∈ [started, started]) : decode (encode r) = .ok r := by
  obtain rfl : r = started := by simpa using h
  exact read_started

theorem sample_cut : 1 < (line started).length := by
  have hlength : 1 < (Utf8.encode startedJson ++ [10]).length := by decide +kernel
  exact hlength

end Sample

section

open Jsonl.Sample

/-- One byte of the second record is in the file. -/
theorem recovers_iff_started : Recovers "session.jsonl" [started] started 1 [] ↔
    (1 = 0 ∧ [started] ++ [] ≠ []) ∨ (0 < 1 ∧ ([] : List JsonlRecord) = [] ∧
      (Utf8.decode ((line started).take 1)).isSome = true) :=
  recovers_iff sample_laws "session.jsonl" sample_read sample_cut

/-- Another append follows the byte. -/
theorem append_after_torn_tail : (∀ r ∈ [started, started], decode (encode r) = .ok r) ∧ 1 < (line started).length ∧
    ¬ Recovers "session.jsonl" [started] started 1 [started] := by
  have hacked : ∀ r ∈ [started], decode (encode r) = .ok r := fun r hr => sample_read r (.tail _ hr)
  exact ⟨sample_read, sample_cut, not_recovers_glued sample_laws "session.jsonl" hacked sample_cut (by decide) started⟩

end

end Jsonl

end RustyCore
