import RustyCore.Lib.Except
import RustyCore.Provider.AnthropicStream
import RustyCore.Theorems.Provider.Calls

/-! What the frames of a Chat Completions stream say against what the parser delivers of it. -/

namespace RustyCore.OpenAi

open ModelBackend Sse List OrdMap Utf8

section

variable [StreamExternals] {p : Parser} {frames : List Frame}

/-! ### The end of the stream -/

def inputOf (tool : ToolBuffer) : Value := (parsedArguments tool.json).toOption.getD .null

theorem parsed_inputOf {tool : ToolBuffer} {input : Value} (h : parsedArguments tool.json = .ok input) :
    inputOf tool = input := by
  unfold inputOf
  rw [h]
  rfl

theorem toolInput_ok {tool : ToolBuffer} {event : ModelEvent} (h : Parser.toolInput tool = .ok event) :
    parsedArguments tool.json = .ok (inputOf tool) ∧ event = .toolCallCompleted tool.id tool.name (inputOf tool) := by
  have hparsed : ∃ input, parsedArguments tool.json = .ok input ∧ event = .toolCallCompleted tool.id tool.name input := by
    unfold Parser.toolInput at h
    unfold parsedArguments
    split at h
    · cases h
    · rename_i input hinput
      cases h
      exact ⟨input, hinput, rfl⟩
  obtain ⟨input, hinput, hevent⟩ := hparsed
  rw [parsed_inputOf hinput]
  exact ⟨hinput, hevent⟩

theorem toolInput_of_parsed {tool : ToolBuffer} {input : Value} (h : parsedArguments tool.json = .ok input) :
    Parser.toolInput tool = .ok (.toolCallCompleted tool.id tool.name input) := by
  unfold Parser.toolInput
  unfold parsedArguments at h
  rw [h]

theorem completions_ok {tools : List ToolBuffer} {events : List ModelEvent}
    (h : tools.mapM Parser.toolInput = .ok events) : (∀ tool ∈ tools, parsedArguments tool.json = .ok (inputOf tool)) ∧
      events = tools.map fun tool => .toolCallCompleted tool.id tool.name (inputOf tool) := by
  induction tools generalizing events with
  | nil =>
    cases h
    exact ⟨by simp, rfl⟩
  | cons tool tools ih =>
    rw [mapM_cons] at h
    obtain ⟨event, hevent, h⟩ := Except.ok_of_bind h
    obtain ⟨rest, hrest, h⟩ := Except.ok_of_bind h
    cases h
    obtain ⟨hparsed, rfl⟩ := toolInput_ok hevent
    obtain ⟨hall, rfl⟩ := ih hrest
    exact ⟨forall_mem_cons.mpr ⟨hparsed, hall⟩, rfl⟩

theorem completions_of_parsed {tools : List ToolBuffer}
    (h : ∀ tool ∈ tools, ∃ input, parsedArguments tool.json = .ok input) :
    ∃ events, tools.mapM Parser.toolInput = .ok events := by
  induction tools with
  | nil => exact ⟨[], rfl⟩
  | cons tool tools ih =>
    obtain ⟨⟨input, hinput⟩, hall⟩ := forall_mem_cons.mp h
    obtain ⟨events, hevents⟩ := ih hall
    refine ⟨.toolCallCompleted tool.id tool.name input :: events, ?_⟩
    rw [mapM_cons, toolInput_of_parsed hinput, hevents]
    rfl

def lastEvents (p : Parser) (calls : List ModelEvent) : List ModelEvent :=
  (if p.hasUsage && !p.usageEventSent then [ModelEvent.usageUpdate p.usage] else []) ++ calls ++
    [.completed ⟨p.stopReason, p.usage, calculateCost p.usage p.model⟩]

theorem finished_done (hresult : p.result = none) (hdone : p.sawDone = true) : p.finished [] =
    (p.tools.values.mapM Parser.toolInput).map fun calls =>
      (lastEvents p calls, ⟨p.stopReason, p.usage, calculateCost p.usage p.model⟩) := by
  unfold Parser.finished Parser.finish lastEvents
  rcases hcalls : p.tools.values.mapM Parser.toolInput with e | calls
  · simp [hresult, hdone, hcalls, bind, Except.bind, Except.map]
  · simp [hresult, hdone, hcalls, bind, Except.bind, pure, Except.pure, Except.map]

theorem finished_trailing (hresult : p.result = none) :
    p.finished (Utf8.encode (onWire "[DONE]" true)) = ({ p with sawDone := true } : Parser).finished [] := by
  have hblank : (Utf8.encode (onWire "[DONE]" true)).all isAsciiWhitespace = false := by decide
  have hparse : p.parseBlock (Utf8.encode (onWire "[DONE]" true)) = .ok ({ p with sawDone := true }, none) := by
    have hdata : dataLines (onWire "[DONE]" true) = "[DONE]" := by decide
    unfold Parser.parseBlock
    rw [decode_eq_some.mpr rfl]
    simp only [hdata]
    rfl
  unfold Parser.finished Parser.finish
  simp only [hresult, hblank, hparse]
  rfl

theorem feed_lineFeeds (hlf : ∀ f ∈ frames, f.crlf = false) (doneCrlf : Bool) : ∃ events p,
    Ran frames [] [] events p ∧ ∀ cs : List (List UInt8), cs.flatten = stream frames doneCrlf →
      feed cs = (events ++ (Framing.ending (({ p with sawDone := true } : Parser).finished [])).1,
        (Framing.ending (({ p with sawDone := true } : Parser).finished [])).2) := by
  obtain ⟨events, p, hsteps, hran⟩ := steps_frames frames seen_start
  refine ⟨events, p, hran, fun cs hcs => ?_⟩
  have hstream : stream frames doneCrlf =
      Utf8.encode (frames.flatMap fun f => onWire f.text f.crlf) ++ Utf8.encode (onWire "[DONE]" doneCrlf) :=
    encode_append
  obtain ⟨hblocks, hrest⟩ := blocks_frames hlf (Utf8.encode (onWire "[DONE]" doneCrlf))
  rw [← hstream] at hblocks hrest
  unfold feed
  cases doneCrlf with
  | false =>
    have hdone := @blocks_onWire _ "[DONE]" (by decide) []
    have hnil := Framing.blocks_none (F := framing) Framing.boundary_nil
    rw [append_nil, hnil.1, hnil.2] at hdone
    rw [hdone.1] at hblocks
    rw [hdone.2] at hrest
    have hall : framing.steps {} (framing.blocks ([] ++ cs.flatten)) = (events, .ok { p with sawDone := true }) := by
      rw [nil_append, hcs, hblocks, Framing.steps_append, hsteps]
      simp only [Framing.steps, block_done]
      simp
    rw [Framing.feed_ok Framing.boundary_nil hall, nil_append, hcs, hrest]
  | true =>
    have hnone : framing.boundary (Utf8.encode (onWire "[DONE]" true)) = none := by
      have hnowhere : findSseBoundary (Utf8.encode (onWire "[DONE]" true)) = none := by decide
      simp only [framing, hnowhere, Option.map_none]
    rw [(Framing.blocks_none hnone).1, append_nil] at hblocks
    rw [(Framing.blocks_none hnone).2] at hrest
    have hall : framing.steps {} (framing.blocks ([] ++ cs.flatten)) = (events, .ok p) := by
      rw [nil_append, hcs, hblocks, hsteps]
    rw [Framing.feed_ok Framing.boundary_nil hall, nil_append, hcs, hrest, finished_trailing hran.seen.running]

end

/-- The JSON reader refuses what goes on after a value, as `serde_json` does. -/
def TrailingRefused [StreamExternals] : Prop :=
  ∀ t v rest, StreamExternals.parseJson t = .ok v → Text.isBlank rest = false →
    ∃ e, StreamExternals.parseJson (t ++ "\n" ++ rest) = .error e

section

variable [StreamExternals] {frames : List Frame}

theorem parseBlock_joined (htrailing : TrailingRefused) (f : Frame) {s : String} (hs : '\n' ∉ s.toList)
    (hsolid : Text.isBlank s = false) (more : List UInt8) (p : Parser) :
    ∃ e, p.parseBlock (dataLine f.text ++ returns ++ dataLine s ++ more) = .error e := by
  unfold Parser.parseBlock
  rcases hdecode : Utf8.decode (dataLine f.text ++ returns ++ dataLine s ++ more) with _ | text
  · exact ⟨_, rfl⟩
  · have hbytes := decode_eq_some.mp hdecode
    have hhead : dataLine f.text ++ returns ++ dataLine s = Utf8.encode ("data: ".toList ++ f.text.toList ++
        ['\r', '\n', '\r', '\n'] ++ ("data: ".toList ++ s.toList)) := by
      rw [encode_append, encode_append, encode_returns]
      rfl
    obtain ⟨b, rfl⟩ := prefix_of_encode (hhead ▸ hbytes ▸ prefix_append _ more)
    obtain ⟨rest, hdata, hrest⟩ := dataLines_joined b f.oneLine f.trimmed hs hsolid
    obtain ⟨e, he⟩ := htrailing f.text f.value rest f.parsed hrest
    have hnewline : '\n' ∈ (f.text ++ "\n" ++ rest).toList := by simp
    have hnonempty : (f.text ++ "\n" ++ rest).isEmpty = false := by
      rw [← Bool.not_eq_true, String.isEmpty_iff]
      intro hempty
      rw [hempty] at hnewline
      simp at hnewline
    have hdone : f.text ++ "\n" ++ rest ≠ "[DONE]" := by
      intro hdone
      rw [hdone] at hnewline
      simp at hnewline
    refine ⟨.protocol ("invalid chunk: " ++ e), ?_⟩
    simp only [hdata, hnonempty, Bool.false_eq_true, if_false, hdone, he]

theorem next_line (post : List Frame) (doneCrlf : Bool) : ∃ s tail, '\n' ∉ s.toList ∧ Text.isBlank s = false ∧
    Utf8.encode ((post.flatMap fun f => onWire f.text f.crlf) ++ onWire "[DONE]" doneCrlf) = dataLine s ++ tail := by
  cases post with
  | nil =>
    refine ⟨"[DONE]", Utf8.encode (lineEnd doneCrlf ++ lineEnd doneCrlf), by decide, by decide, ?_⟩
    rw [flatMap_nil, nil_append, encode_onWire]
  | cons f post =>
    refine ⟨f.text, Utf8.encode (lineEnd f.crlf ++ lineEnd f.crlf) ++
      Utf8.encode ((post.flatMap fun f => onWire f.text f.crlf) ++ onWire "[DONE]" doneCrlf), f.oneLine.1, f.solid, ?_⟩
    rw [flatMap_cons, append_assoc, encode_append, encode_onWire, append_assoc]

theorem split_at_return (h : ∃ f ∈ frames, f.crlf = true) : ∃ pre f post, frames = pre ++ f :: post ∧
    (∀ f ∈ pre, f.crlf = false) ∧ f.crlf = true := by
  have hsome : (frames.find? (·.crlf)).isSome := by
    rw [List.find?_isSome]
    exact h
  obtain ⟨f, hf⟩ := Option.isSome_iff_exists.mp hsome
  obtain ⟨hcrlf, pre, post, hsplit, hpre⟩ := List.find?_eq_some_iff_append.mp hf
  exact ⟨pre, f, post, hsplit, fun f' hf' => by simpa using hpre f' hf', hcrlf⟩

theorem feed_crlf (htrailing : TrailingRefused) (doneCrlf : Bool) (h : ∃ f ∈ frames, f.crlf = true) :
    ∀ result, (feed [stream frames doneCrlf]).2 ≠ .ok result := by
  obtain ⟨pre, f, post, rfl, hpre, hcrlf⟩ := split_at_return h
  obtain ⟨s, tail, hs, hsolid, htail⟩ := next_line post doneCrlf
  obtain ⟨events, p, hsteps, hran⟩ := steps_frames pre seen_start
  have hends : Utf8.encode (lineEnd true ++ lineEnd true) = returns := by decide
  have hstream : stream (pre ++ f :: post) doneCrlf = Utf8.encode (pre.flatMap fun f => onWire f.text f.crlf) ++
      (dataLine f.text ++ returns ++ dataLine s ++ tail) := by
    unfold stream
    rw [flatMap_append, flatMap_cons, append_assoc, append_assoc, encode_append,
      encode_append, htail, hcrlf, encode_onWire, hends]
    simp only [append_assoc]
  obtain ⟨hblocks, hrest⟩ := blocks_frames hpre (dataLine f.text ++ returns ++ dataLine s ++ tail)
  rw [← hstream] at hblocks hrest
  have hposition := position_joined f.oneLine.1 hs tail
  have hblank : ∀ more, (dataLine f.text ++ returns ++ dataLine s ++ more).all isAsciiWhitespace = false := by
    intro more
    rw [append_assoc, append_assoc]
    exact not_blank f.text _
  unfold feed
  rcases hfound : Framing.position [10, 10] tail with _ | n
  · have hnone : framing.boundary (dataLine f.text ++ returns ++ dataLine s ++ tail) = none := by
      simp only [framing, findSseBoundary, hposition, hfound, Option.map_none]
    rw [(Framing.blocks_none hnone).1, append_nil] at hblocks
    rw [(Framing.blocks_none hnone).2] at hrest
    have hall : framing.steps {} (framing.blocks ([] ++ [stream (pre ++ f :: post) doneCrlf].flatten)) =
        (events, .ok p) := by
      rw [nil_append, flatten_singleton, hblocks, hsteps]
    obtain ⟨e, he⟩ := parseBlock_joined htrailing f hs hsolid tail p
    have hfinished : p.finished (dataLine f.text ++ returns ++ dataLine s ++ tail) = .error e := by
      unfold Parser.finished Parser.finish
      simp only [hran.seen.running, hblank, he]
      rfl
    rw [Framing.feed_ok Framing.boundary_nil hall, nil_append, flatten_singleton, hrest, hfinished]
    intro result h
    cases h
  · have hsome : framing.boundary (dataLine f.text ++ returns ++ dataLine s ++ tail) =
        some (n + (dataLine f.text ++ returns ++ dataLine s).length, 2) := by
      simp only [framing, findSseBoundary, hposition, hfound, Option.map_some]
    have htake : (dataLine f.text ++ returns ++ dataLine s ++ tail).take
        (n + (dataLine f.text ++ returns ++ dataLine s).length) =
        dataLine f.text ++ returns ++ dataLine s ++ tail.take n := by
      rw [Nat.add_comm, take_length_add_append]
    rw [(Framing.blocks_some hsome).1, htake] at hblocks
    obtain ⟨e, he⟩ := parseBlock_joined htrailing f hs hsolid (tail.take n) p
    have hbad : framing.block p (dataLine f.text ++ returns ++ dataLine s ++ tail.take n) = .error e := by
      simp only [framing, hblank, Bool.false_eq_true, if_false, he]
    have hall : framing.steps {} (framing.blocks ([] ++ [stream (pre ++ f :: post) doneCrlf].flatten)) =
        (events, .error e) := by
      rw [nil_append, flatten_singleton, hblocks, Framing.steps_bad hsteps hbad]
    rw [(Framing.feed_error Framing.boundary_nil hall).2]
    intro result h
    cases h

omit [StreamExternals] in
theorem readOf_subset (value : Value) : ∀ g ∈ readOf value, g ∈ fragments value := by
  intro g hg
  unfold readOf at hg
  split at hg
  · exact mem_of_mem_take hg
  · cases hg

theorem read_subset {i : Nat} (h : ∃ g ∈ frames.flatMap fun f => readOf f.value, g.index = i) :
    ∃ g ∈ frames.flatMap fun f => fragments f.value, g.index = i := by
  obtain ⟨g, hg, hi⟩ := h
  obtain ⟨f, hf, hg⟩ := mem_flatMap.mp hg
  exact ⟨g, mem_flatMap.mpr ⟨f, hf, readOf_subset f.value g hg⟩, hi⟩

omit [StreamExternals] in
theorem length_flatMap_le {α β : Type} {g h : α → List β} {l : List α} (hle : ∀ x ∈ l, (g x).length ≤ (h x).length) :
    (l.flatMap g).length ≤ (l.flatMap h).length := by
  induction l with
  | nil => exact Nat.le_refl _
  | cons x l ih =>
    obtain ⟨hx, hl⟩ := forall_mem_cons.mp hle
    simp only [flatMap_cons, length_append]
    exact Nat.add_le_add hx (ih hl)

omit [StreamExternals] in
theorem length_eq_of_flatMap {α β : Type} {g h : α → List β} {l : List α}
    (hle : ∀ x ∈ l, (g x).length ≤ (h x).length) (heq : l.flatMap g = l.flatMap h) :
    ∀ x ∈ l, (g x).length = (h x).length := by
  have hlength := congrArg List.length heq
  clear heq
  induction l with
  | nil => simp
  | cons x l ih =>
    obtain ⟨hx, hl⟩ := forall_mem_cons.mp hle
    have hrest := length_flatMap_le hl
    simp only [flatMap_cons, length_append] at hlength
    exact forall_mem_cons.mpr ⟨by omega, ih hl (by omega)⟩

variable {tools : List ToolBuffer} {p : Parser}

theorem lastEvents_spoken :
    (lastEvents p (tools.map fun tool => .toolCallCompleted tool.id tool.name (inputOf tool))).flatMap spoken = [] := by
  unfold lastEvents
  rw [flatMap_append, flatMap_append, flatMap_map]
  split <;> simp [spoken]

theorem lastEvents_thought :
    (lastEvents p (tools.map fun tool => .toolCallCompleted tool.id tool.name (inputOf tool))).flatMap thought = [] := by
  unfold lastEvents
  rw [flatMap_append, flatMap_append, flatMap_map]
  split <;> simp [thought]

theorem lastEvents_started :
    (lastEvents p (tools.map fun tool => .toolCallCompleted tool.id tool.name (inputOf tool))).filterMap started =
      [] := by
  unfold lastEvents
  rw [filterMap_append, filterMap_append, filterMap_map]
  split <;> simp [started, Function.comp_def]

theorem lastEvents_completed :
    (lastEvents p (tools.map fun tool => .toolCallCompleted tool.id tool.name (inputOf tool))).filterMap completedCall =
      tools.map fun tool => (tool.id, tool.name, inputOf tool) := by
  unfold lastEvents
  rw [filterMap_append, filterMap_append, filterMap_map]
  have husage : [ModelEvent.usageUpdate p.usage].filterMap completedCall = [] := rfl
  have hend : ∀ result, [ModelEvent.completed result].filterMap completedCall = [] := fun _ => rfl
  split <;> simp [completedCall, Function.comp_def, husage, hend]

def callsOf (p : Parser) : List Call := p.tools.entries.map fun e => ⟨e.1, e.2.id, e.2.name, inputOf e.2⟩

theorem callsOf_index (p : Parser) : (callsOf p).map (·.index) = p.tools.keys := by
  unfold callsOf OrdMap.keys
  rw [map_map]
  rfl

theorem callsOf_completed (p : Parser) : (callsOf p).map (fun c => (c.id, c.name, c.input)) =
    p.tools.values.map fun tool => (tool.id, tool.name, inputOf tool) := by
  unfold callsOf OrdMap.values
  rw [map_map, map_map]
  rfl

theorem mem_callsOf {c : Call} (h : c ∈ callsOf p) :
    ∃ buffer, p.tools.get? c.index = some buffer ∧ c.id = buffer.id ∧ c.name = buffer.name ∧
      c.input = inputOf buffer := by
  obtain ⟨e, he, rfl⟩ := mem_map.mp h
  exact ⟨e.2, mem_entries.mp he, rfl, rfl, rfl⟩

section

variable {read all : List Fragment} {events : List ModelEvent} {q : Parser}

theorem delivered_calls (hseen : Seen q read (events.filterMap started)) (hnone : events.filterMap completedCall = [])
    (hsubset : ∀ i, (∃ g ∈ read, g.index = i) → ∃ g ∈ all, g.index = i)
    (hall : ∀ i, (∃ g ∈ all, g.index = i) → (∃ g ∈ read, g.index = i) ∧ headName read i = firstName all i ∧
      ∃ input, parsedArguments (joined read i) = .ok input ∧ parsedArguments (joined all i) = .ok input) :
    CallsDelivered all (events ++ lastEvents q (q.tools.values.map fun tool =>
      .toolCallCompleted tool.id tool.name (inputOf tool))) (callsOf q) := by
  have hindex : ∀ i, i ∈ q.tools.keys ↔ ∃ g ∈ all, g.index = i := by
    intro i
    rw [hseen.keys]
    exact ⟨hsubset i, fun h => (hall i h).1⟩
  constructor
  · rw [callsOf_index]
    exact q.tools.sorted
  · intro i
    rw [callsOf_index]
    exact hindex i
  · intro hlength
    have hids : (callsOf q).map (·.id) = q.tools.entries.map fun e => e.2.id := by
      unfold callsOf
      rw [map_map]
      rfl
    rw [hids]
    refine nodup_ids hseen ?_
    simpa [callsOf, OrdMap.size] using hlength
  · intro c hc
    obtain ⟨buffer, hbuffer, -, hname, -⟩ := mem_callsOf hc
    rw [hname, hseen.name _ _ hbuffer]
    exact (hall _ ((hindex _).mp (mem_keys_of_get? hbuffer))).2.1
  · intro c hc
    obtain ⟨buffer, hbuffer, -, -, hinput⟩ := mem_callsOf hc
    obtain ⟨-, -, input, hread, hfragments⟩ := hall _ ((hindex _).mp (mem_keys_of_get? hbuffer))
    rw [hinput, hfragments, parsed_inputOf (by rw [hseen.json _ _ hbuffer, hread])]
  · rw [filterMap_append, lastEvents_started, append_nil]
    have hstarts : (callsOf q).map (fun c => (c.id, c.name)) = q.tools.entries.map fun e => (e.2.id, e.2.name) := by
      unfold callsOf
      rw [map_map]
      rfl
    rw [hstarts]
    exact hseen.told
  · rw [filterMap_append, lastEvents_completed, hnone, nil_append, callsOf_completed]

theorem read_of_delivered {calls : List Call} (hseen : Seen q read (events.filterMap started))
    (hnone : events.filterMap completedCall = [])
    (hsubset : ∀ i, (∃ g ∈ read, g.index = i) → ∃ g ∈ all, g.index = i)
    (hparsed : ∀ tool ∈ q.tools.values, parsedArguments tool.json = .ok (inputOf tool))
    (h : CallsDelivered all (events ++ lastEvents q (q.tools.values.map fun tool =>
      .toolCallCompleted tool.id tool.name (inputOf tool))) calls) :
    ∀ i, (∃ g ∈ all, g.index = i) → (∃ g ∈ read, g.index = i) ∧ headName read i = firstName all i ∧
      ∃ input, parsedArguments (joined read i) = .ok input ∧ parsedArguments (joined all i) = .ok input := by
  have hcompleted := h.completions
  rw [filterMap_append, lastEvents_completed, hnone, nil_append, ← callsOf_completed] at hcompleted
  have hlength : (callsOf q).length = calls.length := by simpa using congrArg List.length hcompleted
  have hkeys : q.tools.keys = calls.map (·.index) := by
    refine sorted_eq q.tools.sorted h.sorted (fun i hi => ?_) ?_
    · rw [h.indexes]
      exact hsubset i ((hseen.keys i).mp hi)
    · rw [← callsOf_index, length_map, length_map, hlength]
  intro i hi
  have hcall : i ∈ calls.map (·.index) := (h.indexes i).mpr hi
  obtain ⟨k, hk, hki⟩ := getElem_of_mem hcall
  simp only [length_map] at hk
  rw [getElem_map] at hki
  have hk' : k < (callsOf q).length := by omega
  -- the same call at the same place
  have hindex : (callsOf q)[k].index = calls[k].index := by
    have hmaps := (callsOf_index q).trans hkeys
    have hget := congrArg (fun l => l[k]?) hmaps
    simpa [hk, hk'] using hget
  have hfields : ((callsOf q)[k].id, (callsOf q)[k].name, (callsOf q)[k].input) =
      (calls[k].id, calls[k].name, calls[k].input) := by
    have hget := congrArg (fun l => l[k]?) hcompleted
    simpa [hk, hk'] using hget
  simp only [Prod.mk.injEq] at hfields
  obtain ⟨buffer, hbuffer, -, hname, hinput⟩ := mem_callsOf (getElem_mem hk')
  rw [hindex, hki] at hbuffer
  have hmem : buffer ∈ q.tools.values := mem_values.mpr ⟨i, hbuffer⟩
  refine ⟨(hseen.keys i).mp (mem_keys_of_get? hbuffer), ?_, inputOf buffer, ?_, ?_⟩
  · rw [← hseen.name i buffer hbuffer, ← hname, hfields.2.1, h.names _ (getElem_mem hk), hki]
  · rw [← hseen.json i buffer hbuffer]
    exact hparsed buffer hmem
  · rw [← hinput, hfields.2.2, ← hki]
    exact h.inputs _ (getElem_mem hk)

end

theorem complete_of_lossless {doneCrlf : Bool} (h : Lossless frames) (cs : List (List UInt8))
    (hcs : cs.flatten = stream frames doneCrlf) : Complete frames (feed cs) := by
  obtain ⟨events, p, hran, hfeed⟩ := feed_lineFeeds h.lineFeeds doneCrlf
  have hseen : Seen { p with sawDone := true } ([] ++ frames.flatMap fun f => readOf f.value)
      ([] ++ events.filterMap started) := hran.seen.congr rfl rfl rfl
  have hdone : ({ p with sawDone := true } : Parser).sawDone = true := rfl
  rw [nil_append, nil_append] at hseen
  rw [hfeed cs hcs]
  generalize ({ p with sawDone := true } : Parser) = q at hseen hdone
  have hparsed : ∀ tool ∈ q.tools.values, ∃ input, parsedArguments tool.json = .ok input := by
    intro tool htool
    obtain ⟨i, hget⟩ := mem_values.mp htool
    obtain ⟨-, -, input, hread, -⟩ := h.calls i (read_subset ((hseen.keys i).mp (mem_keys_of_get? hget)))
    exact ⟨input, by rw [hseen.json i tool hget, hread]⟩
  obtain ⟨calls, hcalls⟩ := completions_of_parsed hparsed
  obtain ⟨-, rfl⟩ := completions_ok hcalls
  rw [finished_done hseen.running hdone, hcalls]
  refine ⟨⟨_, rfl⟩, ?_, ?_, callsOf q, ?_⟩
  · show (events ++ lastEvents q _).flatMap spoken = _
    rw [flatMap_append, lastEvents_spoken, append_nil, hran.texts]
    refine flatMap_congr fun f hf => ?_
    split
    · rfl
    · rename_i hr
      rw [(h.oneText f hf).resolve_left hr]
      rfl
  · show (events ++ lastEvents q _).flatMap thought = _
    rw [flatMap_append, lastEvents_thought, append_nil, hran.thoughts]
  · exact delivered_calls hseen hran.completions (fun i => read_subset) h.calls

theorem lossless_of_complete {doneCrlf : Bool} (htrailing : TrailingRefused)
    (h : ∀ cs : List (List UInt8), cs.flatten = stream frames doneCrlf → Complete frames (feed cs)) :
    Lossless frames := by
  have hlf : ∀ f ∈ frames, f.crlf = false := by
    by_contra hcrlf
    push Not at hcrlf
    obtain ⟨result, hresult⟩ := (h [stream frames doneCrlf] (by simp)).ended
    refine feed_crlf htrailing doneCrlf ?_ result hresult
    obtain ⟨f, hf, hcrlf⟩ := hcrlf
    exact ⟨f, hf, by simpa using hcrlf⟩
  obtain ⟨events, p, hran, hfeed⟩ := feed_lineFeeds hlf doneCrlf
  have hseen : Seen { p with sawDone := true } ([] ++ frames.flatMap fun f => readOf f.value)
      ([] ++ events.filterMap started) := hran.seen.congr rfl rfl rfl
  have hdone : ({ p with sawDone := true } : Parser).sawDone = true := rfl
  rw [nil_append, nil_append] at hseen
  have hcomplete := h [stream frames doneCrlf] (by simp)
  rw [hfeed [stream frames doneCrlf] (by simp)] at hcomplete
  generalize ({ p with sawDone := true } : Parser) = q at hseen hdone hcomplete
  rw [finished_done hseen.running hdone] at hcomplete
  rcases hmap : q.tools.values.mapM Parser.toolInput with e | calls
  · rw [hmap] at hcomplete
    obtain ⟨result, hresult⟩ := hcomplete.ended
    cases hresult
  · obtain ⟨hparsed, rfl⟩ := completions_ok hmap
    rw [hmap] at hcomplete
    obtain ⟨-, htexts, -, calls, hcalls⟩ := hcomplete
    refine ⟨hlf, fun f hf => ?_, read_of_delivered hseen hran.completions (fun i => read_subset) hparsed hcalls⟩
    have hspoken : events.flatMap spoken = frames.flatMap fun f => (content f.value).toList := by
      rw [← htexts]
      show _ = (events ++ lastEvents q _).flatMap spoken
      rw [flatMap_append, lastEvents_spoken, append_nil]
    rw [hran.texts] at hspoken
    have hlength := length_eq_of_flatMap (fun f _ => by split <;> simp) hspoken f hf
    by_contra hboth
    rw [not_or] at hboth
    rw [if_neg hboth.1, length_nil] at hlength
    exact hboth.2 (String.toList_eq_nil_iff.mp (length_eq_zero_iff.mp hlength.symm))

/-- Everything the frames say is delivered exactly where their line ends are line feeds and no frame says more than
    the parser reads of it. -/
theorem complete_iff_lossless (htrailing : TrailingRefused) (frames : List Frame) (doneCrlf : Bool) :
    (∀ cs : List (List UInt8), cs.flatten = stream frames doneCrlf → Complete frames (feed cs)) ↔ Lossless frames :=
  ⟨lossless_of_complete htrailing, fun h cs hcs => complete_of_lossless h cs hcs⟩

end

namespace Sample

def bothText : String := "\x7b\"choices\":[\x7b\"delta\":\x7b\"content\":\"Hi\",\"reasoning\":\"Greet\"\x7d\x7d]\x7d"

def helloText : String := "\x7b\"choices\":[\x7b\"delta\":\x7b\"content\":\"Hi\"\x7d\x7d]\x7d"

def callText : String :=
  "\x7b\"choices\":[\x7b\"delta\":\x7b\"tool_calls\":[\x7b\"index\":0," ++
    "\"function\":\x7b\"name\":\"run\",\"arguments\":\"\x7b\x7d\"\x7d\x7d]\x7d\x7d]\x7d"

def chunk (fields : List (String × Value)) : Value :=
  .object [("choices", .array [.object [("delta", .object fields)]])]

def callChunk : Value := chunk [("tool_calls", .array [.object [("index", .number (.posInt 0)),
  ("function", .object [("name", .string "run"), ("arguments", .string "\x7b\x7d")])]])]

@[reducible] def chatLibraries : StreamExternals where
  utf8Error _ := ""
  parseJson text :=
    if text = bothText then .ok (chunk [("content", .string "Hi"), ("reasoning", .string "Greet")])
    else if text = helloText then .ok (chunk [("content", .string "Hi")])
    else if text = callText then .ok callChunk
    else if text = "\x7b\x7d" then .ok (.object [])
    else .error "trailing characters"
  parseJsonBytes _ := none
  decodeAnthropicUsage _ := none
  decodeOpenAiUsage _ := none

theorem trailing_refused : @TrailingRefused chatLibraries := by
  intro t v rest _ _
  have hnewline : ∀ s : String, '\n' ∉ s.toList → t ++ "\n" ++ rest ≠ s := by
    rintro s hs rfl
    exact hs (by simp)
  refine ⟨"trailing characters", ?_⟩
  show (if _ then _ else if _ then _ else if _ then _ else if _ then _ else _) = _
  rw [if_neg (hnewline bothText (by decide)), if_neg (hnewline helloText (by decide)),
    if_neg (hnewline callText (by decide)), if_neg (hnewline "\x7b\x7d" (by decide))]

def both : @Frame chatLibraries :=
  @Frame.mk chatLibraries bothText (chunk [("content", .string "Hi"), ("reasoning", .string "Greet")]) false
    (if_pos rfl) (by decide) (by decide) (by decide) (by decide) rfl

def hello : @Frame chatLibraries :=
  @Frame.mk chatLibraries helloText (chunk [("content", .string "Hi")]) false
    ((if_neg (by decide)).trans (if_pos rfl)) (by decide) (by decide) (by decide)
    (by decide) rfl

def called : @Frame chatLibraries :=
  @Frame.mk chatLibraries callText callChunk false
    ((if_neg (by decide)).trans ((if_neg (by decide)).trans (if_pos rfl))) (by decide)
    (by decide) (by decide) (by decide) rfl

theorem hello_lossless : @Lossless chatLibraries [hello, called] := by
  have hfragments : ([hello, called].flatMap fun f => fragments (@Frame.value chatLibraries f)) =
      [⟨0, some "run", "\x7b\x7d"⟩] := rfl
  have hread : ([hello, called].flatMap fun f => readOf (@Frame.value chatLibraries f)) =
      [⟨0, some "run", "\x7b\x7d"⟩] := rfl
  refine @Lossless.mk chatLibraries [hello, called] ?_ ?_ ?_
  · intro f hf
    rcases mem_pair.mp hf with rfl | rfl <;> rfl
  · intro f hf
    rcases mem_pair.mp hf with rfl | rfl
    · exact Or.inl rfl
    · exact Or.inl rfl
  · rw [hfragments, hread]
    rintro i ⟨g, hg, rfl⟩
    obtain rfl := mem_singleton.mp hg
    have hparsed : @parsedArguments chatLibraries (joined [⟨0, some "run", "\x7b\x7d"⟩] 0) = .ok (.object []) := rfl
    exact ⟨⟨_, hg, rfl⟩, rfl, _, hparsed, hparsed⟩

theorem complete_hello : ((∀ cs : List (List UInt8), cs.flatten = @stream chatLibraries [hello, called] true →
    @Complete chatLibraries [hello, called] (@feed chatLibraries cs)) ↔ @Lossless chatLibraries [hello, called]) ∧
    @Lossless chatLibraries [hello, called] :=
  ⟨@complete_iff_lossless chatLibraries trailing_refused [hello, called] true, hello_lossless⟩

/-- The text of a frame that carries a thought too is lost. -/
theorem text_lost : ¬ ∀ (libraries : StreamExternals), @TrailingRefused libraries →
    ∀ (frames : List (@Frame libraries)) (doneCrlf : Bool) (cs : List (List UInt8)),
      cs.flatten = @stream libraries frames doneCrlf → @Complete libraries frames (@feed libraries cs) := by
  intro h
  have hlossless := @lossless_of_complete chatLibraries [both] false trailing_refused
    (h chatLibraries trailing_refused [both] false)
  rcases @Lossless.oneText chatLibraries [both] hlossless both (mem_singleton_self _) with hthought | htext
  · exact absurd hthought (by decide)
  · exact absurd htext (by decide)

end Sample

end RustyCore.OpenAi

/-! What a parser of an event stream delivers and how the cutting of the stream into chunks bears on it. -/

namespace RustyCore

open ModelBackend Sse

section

variable [StreamExternals]

/-- The cutting into chunks cannot be seen exactly where no block that fails comes after one that yields an event:
    a failing block takes the events with it that arrived in its own chunk. -/
theorem cutting_unseen_iff (bytes : List UInt8) :
    ((∀ cs ds : List (List UInt8), cs.flatten = bytes → ds.flatten = bytes →
        Anthropic.feed cs = Anthropic.feed ds ∧ OpenAi.feed cs = OpenAi.feed ds) ↔
      Anthropic.framing.Quiet {} (Anthropic.framing.blocks bytes) ∧
        OpenAi.framing.Quiet {} (OpenAi.framing.blocks bytes)) := by
  have hanthropic := Anthropic.framing.feed_eq_iff Anthropic.Parser.finished {} bytes
  have hopenAi := OpenAi.framing.feed_eq_iff OpenAi.Parser.finished {} bytes
  rw [← hanthropic, ← hopenAi]
  constructor
  · exact fun h => ⟨fun cs ds hcs hds => (h cs ds hcs hds).1, fun cs ds hcs hds => (h cs ds hcs hds).2⟩
  · exact fun h cs ds hcs hds => ⟨h.1 cs ds hcs hds, h.2 cs ds hcs hds⟩

end

namespace Sample

def spokenFrame : String := "\x7b\"choices\":[\x7b\"delta\":\x7b\"content\":\"Hi\"\x7d\x7d]\x7d"

instance streamLibraries : StreamExternals where
  utf8Error _ := ""
  parseJson text :=
    if text = spokenFrame then
      .ok (.object [("choices", .array [.object [("delta", .object [("content", .string "Hi")])]])])
    else .error "expected value at line 1 column 1"
  parseJsonBytes _ := none
  decodeAnthropicUsage _ := none
  decodeOpenAiUsage _ := none

def frames : List (List UInt8) :=
  [Utf8.encode ("data:" ++ spokenFrame).toList, Utf8.encode "data:-".toList]

def spoken : List UInt8 := Utf8.encode ("data:" ++ spokenFrame ++ "\n\ndata:-\n\n").toList

theorem blocks_spoken : OpenAi.framing.blocks spoken = frames := by decide

theorem dataLines_spoken : dataLines ("data:" ++ spokenFrame).toList = spokenFrame := by decide

theorem dataLines_broken : dataLines "data:-".toList = "-" := by decide

theorem parseBlock_spoken : ({} : OpenAi.Parser).parseBlock (Utf8.encode ("data:" ++ spokenFrame).toList) =
    .ok ({}, some (.textDelta "Hi")) := by
  unfold OpenAi.Parser.parseBlock
  rw [Utf8.decode_eq_some.mpr rfl]
  simp only [dataLines_spoken]
  rfl

theorem parseBlock_broken : ({} : OpenAi.Parser).parseBlock (Utf8.encode "data:-".toList) =
    .error (.protocol "invalid chunk: expected value at line 1 column 1") := by
  unfold OpenAi.Parser.parseBlock
  rw [Utf8.decode_eq_some.mpr rfl]
  simp only [dataLines_broken]
  rfl

/-- In one chunk with the broken frame the text is lost, in a chunk of its own it is delivered. -/
theorem cutting_seen : ¬ ∀ (bytes : List UInt8) (cs ds : List (List UInt8)), cs.flatten = bytes → ds.flatten = bytes →
    Anthropic.feed cs = Anthropic.feed ds ∧ OpenAi.feed cs = OpenAi.feed ds := by
  intro h
  have hquiet := (OpenAi.framing.feed_eq_iff OpenAi.Parser.finished {} spoken).mp
    fun cs ds hcs hds => (h spoken cs ds hcs hds).2
  have htext : (Utf8.encode ("data:" ++ spokenFrame).toList).all isAsciiWhitespace = false := by decide
  have hdash : (Utf8.encode "data:-".toList).all isAsciiWhitespace = false := by decide
  have hfirst : OpenAi.framing.block {} (Utf8.encode ("data:" ++ spokenFrame).toList) =
      .ok ({}, some (.textDelta "Hi")) := by
    simp only [OpenAi.framing, htext, Bool.false_eq_true, if_false, parseBlock_spoken]
  have hsecond : OpenAi.framing.block {} (Utf8.encode "data:-".toList) =
      .error (.protocol "invalid chunk: expected value at line 1 column 1") := by
    simp only [OpenAi.framing, hdash, Bool.false_eq_true, if_false, parseBlock_broken]
  have hbefore : OpenAi.framing.steps {} [Utf8.encode ("data:" ++ spokenFrame).toList] =
      ([.textDelta "Hi"], .ok {}) := by
    rw [Framing.steps, hfirst]
    rfl
  cases hquiet [_] _ [] _ _ _ blocks_spoken hbefore hsecond

end Sample

end RustyCore
