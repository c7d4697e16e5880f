import RustyCore.Theorems.Provider.Frames

/-! What the parser has seen of the tool calls after some frames: one buffer for each index that was read, and one
    start told for each buffer. -/

namespace RustyCore.OpenAi

open ModelBackend Sse List Option OrdMap

/-- The metadata of a frame changes nothing about its calls. -/
theorem noteMetadata_ok [StreamExternals] {p : Parser} {value : Value} (h : value.get "error" = none) :
    ∃ p', p.noteMetadata value = .ok p' ∧ p'.tools = p.tools ∧ p'.minted = p.minted ∧ p'.result = p.result := by
  unfold Parser.noteMetadata
  simp only [h]
  split <;> refine ⟨_, rfl, ?_⟩ <;> (repeat' split) <;> exact ⟨rfl, rfl, rfl⟩

theorem reasoningEvent_eq (value : Value) : reasoningEvent (delta value) =
    if reasoning value = "" then none else some (.reasoningDelta (reasoning value)) := by
  unfold reasoningEvent reasoning
  rcases ((delta value).index "reasoning_content").asStr.or ((delta value).index "reasoning").asStr with _ | text
  · simp
  · simp [String.isEmpty_iff]

theorem textEvent_eq (value : Value) : textEvent (delta value) =
    if content value = "" then none else some (.textDelta (content value)) := by
  unfold textEvent content Sse.textOf
  rcases ((delta value).index "content").asStr with _ | text
  · simp
  · simp [String.isEmpty_iff]

section

variable {p p' : Parser} {read : List Fragment} {starts : List (ToolCallId × String)}

theorem fragmentsOf_append (i : Nat) (all : List Fragment) (g : Fragment) :
    fragmentsOf i (all ++ [g]) = fragmentsOf i all ++ if g.index = i then [g] else [] := by
  unfold fragmentsOf
  rw [filter_append, filter_cons]
  split <;> simp_all

theorem joined_append (i : Nat) (all : List Fragment) (g : Fragment) :
    joined (all ++ [g]) i = if g.index = i then joined all i ++ g.arguments else joined all i := by
  unfold joined
  rw [fragmentsOf_append]
  split <;> simp [foldl_append]

theorem headName_append_of_mem {i : Nat} {all : List Fragment} (g : Fragment) (h : ∃ g' ∈ all, g'.index = i) :
    headName (all ++ [g]) i = headName all i := by
  obtain ⟨g', hg', hi⟩ := h
  have hmem : g' ∈ fragmentsOf i all := mem_filter.mpr ⟨hg', by simpa using hi⟩
  obtain ⟨first, rest, hcons⟩ := exists_cons_of_ne_nil (ne_nil_of_mem hmem)
  unfold headName
  rw [fragmentsOf_append, hcons]
  rfl

theorem fragmentsOf_eq_nil {i : Nat} {all : List Fragment} (h : ¬ ∃ g ∈ all, g.index = i) : fragmentsOf i all = [] := by
  refine filter_eq_nil_iff.mpr fun g hg hi => h ⟨g, hg, by simpa using hi⟩

/-- What the parser holds of the fragments read so far, and the calls it has announced. -/
structure Seen (p : Parser) (read : List Fragment) (starts : List (ToolCallId × String)) : Prop where
  running : p.result = none
  keys : ∀ i, i ∈ p.tools.keys ↔ ∃ g ∈ read, g.index = i
  name : ∀ i buffer, p.tools.get? i = some buffer → buffer.name = headName read i
  json : ∀ i buffer, p.tools.get? i = some buffer → buffer.json = joined read i
  counted : p.minted = p.tools.size
  ids : ∃ place : Nat → Nat, (∀ i buffer, p.tools.get? i = some buffer → buffer.id = ⟨place i⟩ ∧ place i < p.minted) ∧
    ∀ i ∈ p.tools.keys, ∀ j ∈ p.tools.keys, place i = place j → i = j
  told : starts.Perm (p.tools.entries.map fun e => (e.2.id, e.2.name))

theorem Seen.congr (h : Seen p read starts) (htools : p'.tools = p.tools) (hminted : p'.minted = p.minted)
    (hresult : p'.result = p.result) : Seen p' read starts := by
  obtain ⟨running, keys, name, json, counted, ids, told⟩ := h
  rw [← htools] at keys name json counted ids told
  rw [← hminted] at counted ids
  exact ⟨hresult.trans running, keys, name, json, counted, ids, told⟩

theorem seen_start : Seen {} [] [] := by
  refine ⟨rfl, by simp [OrdMap.keys, OrdMap.empty], by simp [OrdMap.empty, OrdMap.get?],
    by simp [OrdMap.empty, OrdMap.get?], rfl, ⟨id, by simp [OrdMap.empty, OrdMap.get?], ?_⟩, List.Perm.refl _⟩
  simp [OrdMap.keys, OrdMap.empty]

theorem seen_keys (h : Seen p read starts) (g : Fragment) (i : Nat) :
    (i = g.index ∨ i ∈ p.tools.keys) ↔ ∃ g' ∈ read ++ [g], g'.index = i := by
  rw [h.keys]
  constructor
  · rintro (rfl | ⟨g', hg', hi⟩)
    · exact ⟨g, by simp, rfl⟩
    · exact ⟨g', mem_append_left _ hg', hi⟩
  · rintro ⟨g', hg', hi⟩
    rcases mem_append.mp hg' with hg' | hg'
    · exact Or.inr ⟨g', hg', hi⟩
    · rw [mem_singleton.mp hg'] at hi
      exact Or.inl hi.symm

/-- A fragment of a call that is known is added to its arguments. -/
theorem Seen.more (h : Seen p read starts) {g : Fragment} {buffer : ToolBuffer}
    (hbuffer : p.tools.get? g.index = some buffer) :
    Seen { p with tools := p.tools.insert g.index { buffer with json := buffer.json ++ g.arguments } } (read ++ [g])
      starts := by
  have hkey := mem_keys_of_get? hbuffer
  have hget : ∀ i b, (p.tools.insert g.index { buffer with json := buffer.json ++ g.arguments }).get? i = some b →
      (i = g.index ∧ b = { buffer with json := buffer.json ++ g.arguments }) ∨
        (i ≠ g.index ∧ p.tools.get? i = some b) := by
    intro i b hb
    rw [OrdMap.get?_insert] at hb
    split at hb
    · rename_i hi
      exact Or.inl ⟨hi, (Option.some.inj hb).symm⟩
    · rename_i hi
      exact Or.inr ⟨hi, hb⟩
  -- an entry of the new map has the id and the name of one of the old map
  have hold : ∀ i b, (p.tools.insert g.index { buffer with json := buffer.json ++ g.arguments }).get? i = some b →
      ∃ b', p.tools.get? i = some b' ∧ b'.id = b.id ∧ b'.name = b.name := by
    intro i b hb
    rcases hget i b hb with ⟨rfl, rfl⟩ | ⟨-, hb⟩
    · exact ⟨buffer, hbuffer, rfl, rfl⟩
    · exact ⟨b, hb, rfl, rfl⟩
  obtain ⟨place, hplace, hinj⟩ := h.ids
  refine ⟨h.running, fun i => ?_, fun i b hb => ?_, fun i b hb => ?_, ?_, ⟨place, fun i b hb => ?_, ?_⟩, ?_⟩
  · rw [mem_keys_insert]
    exact seen_keys h g i
  · obtain ⟨b', hb', -, hname⟩ := hold i b hb
    rw [← hname, h.name i b' hb', headName_append_of_mem]
    exact (h.keys i).mp (mem_keys_of_get? hb')
  · rw [joined_append]
    rcases hget i b hb with ⟨rfl, rfl⟩ | ⟨hne, hb⟩
    · rw [if_pos rfl, h.json _ _ hbuffer]
    · rw [if_neg (Ne.symm hne), h.json i b hb]
  · rw [h.counted, ← size_keys, ← size_keys, keys_insert hkey]
  · obtain ⟨b', hb', hid, -⟩ := hold i b hb
    rw [← hid]
    exact hplace i b' hb'
  · rw [keys_insert hkey]
    exact hinj
  · have hsame := @map_insert Nat ToolBuffer _ _ p.tools g.index buffer
      { buffer with json := buffer.json ++ g.arguments } (fun e => (e.2.id, e.2.name)) hbuffer rfl
    show starts.Perm ((p.tools.insert g.index _).entries.map _)
    rw [hsame]
    exact h.told

/-- The first fragment of an index starts a call under a fresh id. -/
theorem Seen.first (h : Seen p read starts) {g : Fragment} (hnone : p.tools.get? g.index = none)
    (toolIds : ProviderToolIds) :
    Seen { p with
        toolIds := toolIds
        minted := p.minted + 1
        tools := p.tools.insert g.index ⟨⟨p.minted⟩, g.name.getD "", g.arguments⟩ } (read ++ [g])
      (starts ++ [(⟨p.minted⟩, g.name.getD "")]) := by
  have hkey : g.index ∉ p.tools.keys := by
    rw [← isSome_get?, hnone]
    simp
  have hread : ¬ ∃ g' ∈ read, g'.index = g.index := by rwa [← h.keys]
  have hget : ∀ i b, (p.tools.insert g.index ⟨⟨p.minted⟩, g.name.getD "", g.arguments⟩).get? i = some b →
      (i = g.index ∧ b = ⟨⟨p.minted⟩, g.name.getD "", g.arguments⟩) ∨ (i ≠ g.index ∧ p.tools.get? i = some b) := by
    intro i b hb
    rw [OrdMap.get?_insert] at hb
    split at hb
    · rename_i hi
      exact Or.inl ⟨hi, (Option.some.inj hb).symm⟩
    · rename_i hi
      exact Or.inr ⟨hi, hb⟩
  obtain ⟨place, hplace, hinj⟩ := h.ids
  -- the places given so far are below the new one
  have hbelow : ∀ i ∈ p.tools.keys, place i < p.minted := by
    intro i hi
    obtain ⟨b, hb⟩ := exists_get? hi
    exact (hplace i b hb).2
  refine ⟨h.running, fun i => ?_, fun i b hb => ?_, fun i b hb => ?_, ?_,
    ⟨fun i => if i = g.index then p.minted else place i, fun i b hb => ?_, fun i hi j hj hij => ?_⟩, ?_⟩
  · rw [mem_keys_insert]
    exact seen_keys h g i
  · rcases hget i b hb with ⟨rfl, rfl⟩ | ⟨-, hb⟩
    · unfold headName
      rw [fragmentsOf_append, fragmentsOf_eq_nil hread, if_pos rfl]
      rfl
    · rw [h.name i b hb, headName_append_of_mem]
      exact (h.keys i).mp (mem_keys_of_get? hb)
  · rw [joined_append]
    rcases hget i b hb with ⟨rfl, rfl⟩ | ⟨hne, hb⟩
    · unfold joined
      rw [if_pos rfl, fragmentsOf_eq_nil hread]
      simp
    · rw [if_neg (Ne.symm hne), h.json i b hb]
  · rw [size_insert hkey, h.counted]
  · rcases hget i b hb with ⟨rfl, rfl⟩ | ⟨hne, hb⟩
    · simp only [if_true]
      exact ⟨trivial, Nat.lt_succ_self _⟩
    · simp only [hne, if_false]
      exact ⟨(hplace i b hb).1, Nat.lt_succ_of_lt (hplace i b hb).2⟩
  · rw [mem_keys_insert] at hi hj
    simp only at hij
    split at hij <;> split at hij
    · rename_i hi' hj'
      rw [hi', hj']
    · rename_i hi' hj'
      have hlt := hbelow j (hj.resolve_left hj')
      omega
    · rename_i hi' hj'
      have hlt := hbelow i (hi.resolve_left hi')
      omega
    · rename_i hi' hj'
      exact hinj i (hi.resolve_left hi') j (hj.resolve_left hj') hij
  · refine ((h.told.append_right _).trans (perm_append_comm)).trans ?_
    have hperm := @perm_insert Nat ToolBuffer _ p.tools g.index ⟨⟨p.minted⟩, g.name.getD "", g.arguments⟩ hkey
    exact (hperm.map fun e => (e.2.id, e.2.name)).symm

end

section

variable [StreamExternals] {p : Parser} {value : Value} {read : List Fragment} {starts : List (ToolCallId × String)}

structure Stepped (value : Value) (read : List Fragment) (starts : List (ToolCallId × String)) (p : Parser)
    (event : Option ModelEvent) : Prop where
  texts : event.toList.flatMap spoken = if reasoning value = "" then (content value).toList else []
  thoughts : event.toList.flatMap thought = (reasoning value).toList
  completions : event.toList.filterMap completedCall = []
  seen : Seen p (read ++ readOf value) (starts ++ event.toList.filterMap started)

omit [StreamExternals] in
theorem readOf_text (h : reasoning value ≠ "" ∨ content value ≠ "") : readOf value = [] := by
  unfold readOf
  rw [if_neg]
  rintro ⟨hr, hc⟩
  exact h.elim (· hr) (· hc)

omit [StreamExternals] in
theorem toolCallEvent_stepped (h : Seen p read starts) (hr : reasoning value = "") (hc : content value = "") :
    Stepped value read starts (p.toolCallEvent (delta value)).1 (p.toolCallEvent (delta value)).2 := by
  have hread : readOf value = (fragments value).take 1 := by
    unfold readOf
    rw [if_pos ⟨hr, hc⟩]
  unfold Parser.toolCallEvent
  rcases hcalls : ((delta value).index "tool_calls").asArray.bind List.head? with _ | call
  · have hnone : (fragments value).take 1 = [] := by
      unfold fragments
      rcases harray : ((delta value).index "tool_calls").asArray with _ | calls
      · rfl
      · rw [harray, bind_some, List.head?_eq_none_iff] at hcalls
        rw [hcalls]
        rfl
    rw [hnone] at hread
    refine ⟨?_, ?_, rfl, ?_⟩
    · simp [hr, hc]
    · simp [hr]
    · simpa [hread] using h
  · have hsome : (fragments value).take 1 = [fragment call] := by
      unfold fragments
      rcases harray : ((delta value).index "tool_calls").asArray with _ | calls
      · rw [harray] at hcalls
        cases hcalls
      · rw [harray, bind_some] at hcalls
        obtain ⟨rest, rfl⟩ := List.head?_eq_some_iff.mp hcalls
        rfl
    rw [hsome] at hread
    simp only
    rcases hbuffer : p.tools.get? ((call.index "index").asU64.getD 0) with _ | buffer
    · have hfirst := h.first (g := fragment call) hbuffer (fun i =>
        if i = (⟨p.minted⟩ : ToolCallId) ∧ (call.index "id").asStr.isSome then (call.index "id").asStr else p.toolIds i)
      refine ⟨?_, ?_, rfl, ?_⟩
      · simp [hr, hc, spoken]
      · simp [hr, thought]
      · rw [hread]
        exact hfirst
    · have hmore := h.more (g := fragment call) hbuffer
      simp only
      refine ⟨?_, ?_, ?_, ?_⟩
      · split <;> simp [hc, spoken]
      · split <;> simp [hr, thought]
      · split <;> rfl
      · rw [hread]
        split
        · show Seen _ _ (starts ++ [])
          rw [append_nil]
          exact hmore
        · show Seen _ _ (starts ++ [])
          rw [append_nil]
          exact hmore

omit [StreamExternals] in
theorem choiceEvent_stepped (h : Seen p read starts) {c : Value} (hchoice : choice value = some c) :
    Stepped value read starts (p.choiceEvent c).1 (p.choiceEvent c).2 := by
  have hdelta : c.index "delta" = delta value := by simp [delta, hchoice]
  have hseen : Seen { p with stopReason := (c.index "finish_reason").asStr.getD p.stopReason } read starts :=
    h.congr rfl rfl rfl
  unfold Parser.choiceEvent
  simp only [hdelta, reasoningEvent_eq, textEvent_eq]
  by_cases hr : reasoning value = ""
  · by_cases hc : content value = ""
    · simp only [hr, hc, if_true, none_or]
      exact toolCallEvent_stepped hseen hr hc
    · simp only [hr, hc, if_true, if_false, none_or]
      refine ⟨?_, ?_, rfl, ?_⟩
      · simp [hr, spoken]
      · simp [hr, thought]
      · rw [readOf_text (Or.inr hc)]
        show Seen _ (read ++ []) (starts ++ [])
        rw [append_nil, append_nil]
        exact hseen
  · simp only [hr, if_false, some_or]
    refine ⟨?_, ?_, rfl, ?_⟩
    · simp [hr, spoken]
    · simp [thought]
    · rw [readOf_text (Or.inl hr)]
      show Seen _ (read ++ []) (starts ++ [])
      rw [append_nil, append_nil]
      exact hseen

omit [StreamExternals] in
theorem usageOnlyEvent_stepped (h : Seen p read starts) (hchoice : choice value = none) :
    Stepped value read starts (p.usageOnlyEvent value).1 (p.usageOnlyEvent value).2 := by
  have hdelta : delta value = .null := by simp [delta, hchoice]
  have hr : reasoning value = "" := by simp [reasoning, hdelta, Value.index, Value.get, Value.asStr]
  have hc : content value = "" := by simp [content, hdelta, Value.index, Value.get, Value.asStr, Sse.textOf]
  have hread : readOf value = [] := by
    simp [readOf, fragments, hdelta, Value.index, Value.get, Value.asArray]
  unfold Parser.usageOnlyEvent
  simp only
  split
  · refine ⟨by simp [hr, hc, spoken], by simp [hr, thought], rfl, ?_⟩
    rw [hread]
    show Seen _ (read ++ []) (starts ++ [])
    rw [append_nil, append_nil]
    exact h.congr rfl rfl rfl
  · refine ⟨by simp [hr, hc], by simp [hr], rfl, ?_⟩
    rw [hread]
    simpa using h

/-- One frame of any kind, as long as it is not an error. -/
theorem onFrame_stepped (h : Seen p read starts) (herror : value.get "error" = none) :
    ∃ p' event, p.onFrame value = .ok (p', event) ∧ Stepped value read starts p' event := by
  obtain ⟨noted, hnoted, htools, hminted, hresult⟩ := noteMetadata_ok (p := p) herror
  have hseen := h.congr htools hminted hresult
  unfold Parser.onFrame
  rw [hnoted]
  simp only
  rcases hchoice : choice value with _ | c
  · have hnone : (value.index "choices").asArray.bind List.head? = none := hchoice
    simp only [hnone]
    exact ⟨_, _, rfl, usageOnlyEvent_stepped hseen hchoice⟩
  · have hsome : (value.index "choices").asArray.bind List.head? = some c := hchoice
    simp only [hsome]
    exact ⟨_, _, rfl, choiceEvent_stepped hseen hchoice⟩

structure Ran (frames : List Frame) (read : List Fragment) (starts : List (ToolCallId × String))
    (events : List ModelEvent) (p : Parser) : Prop where
  texts : events.flatMap spoken =
    frames.flatMap fun f => if reasoning f.value = "" then (content f.value).toList else []
  thoughts : events.flatMap thought = frames.flatMap fun f => (reasoning f.value).toList
  completions : events.filterMap completedCall = []
  seen : Seen p (read ++ frames.flatMap fun f => readOf f.value) (starts ++ events.filterMap started)

/-- A run over frames, by induction on them. -/
theorem steps_frames (frames : List Frame) (h : Seen p read starts) : ∃ events p',
    framing.steps p (frames.map fun f => dataLine f.text) = (events, .ok p') ∧ Ran frames read starts events p' := by
  induction frames generalizing p read starts with
  | nil => exact ⟨[], p, rfl, rfl, rfl, rfl, by simpa using h⟩
  | cons f frames ih =>
    obtain ⟨p', event, hframe, hstep⟩ := onFrame_stepped h f.noError
    obtain ⟨events, last, hsteps, hran⟩ := ih hstep.seen
    refine ⟨event.toList ++ events, last, ?_, ?_, ?_, ?_, ?_⟩
    · rw [map_cons, Framing.steps, block_frame, hframe]
      simp only [hsteps]
    · rw [flatMap_append, hstep.texts, hran.texts, flatMap_cons]
    · rw [flatMap_append, hstep.thoughts, hran.thoughts, flatMap_cons]
    · rw [filterMap_append, hstep.completions, hran.completions, append_nil]
    · rw [filterMap_append, flatMap_cons, ← append_assoc, ← append_assoc]
      exact hran.seen

end

theorem sorted_eq {xs ys : List Nat} (hxs : xs.Pairwise (· < ·)) (hys : ys.Pairwise (· < ·)) (hsubset : xs ⊆ ys)
    (hlength : xs.length = ys.length) : xs = ys := by
  have hnodup : xs.Nodup := hxs.imp fun h => Nat.ne_of_lt h
  have hperm := (subperm_of_subset hnodup hsubset).perm_of_length_le (by omega)
  exact hperm.eq_of_pairwise (fun a b _ _ hab hba => absurd hab (Nat.lt_asymm hba)) hxs hys

/-- As many calls as there are ids to give out have ids of their own. -/
theorem nodup_ids {p : Parser} {read : List Fragment} {starts : List (ToolCallId × String)} (h : Seen p read starts)
    (hsize : p.tools.size ≤ 2 ^ 128) : (p.tools.entries.map fun e => e.2.id).Nodup := by
  obtain ⟨place, hplace, hinj⟩ := h.ids
  have hsorted := pairwise_map.mp p.tools.sorted
  refine pairwise_map.mpr (hsorted.imp_of_mem fun {e e'} he he' hlt hid => ?_)
  have hget := mem_entries.mp he
  have hget' := mem_entries.mp he'
  obtain ⟨hide, hbelow⟩ := hplace e.1 e.2 hget
  obtain ⟨hide', hbelow'⟩ := hplace e'.1 e'.2 hget'
  rw [h.counted] at hbelow hbelow'
  rw [hide, hide'] at hid
  have hplaces : place e.1 = place e'.1 := by
    have hnat := congrArg (fun i : ToolCallId => i.uuid.toNat) hid
    simp only [BitVec.natCast_eq_ofNat, BitVec.toNat_ofNat] at hnat
    rwa [Nat.mod_eq_of_lt (by omega), Nat.mod_eq_of_lt (by omega)] at hnat
  have hsame := hinj e.1 (mem_keys_of_get? hget) e'.1 (mem_keys_of_get? hget') hplaces
  rw [hsame] at hlt
  exact Nat.lt_irrefl _ hlt

end RustyCore.OpenAi
