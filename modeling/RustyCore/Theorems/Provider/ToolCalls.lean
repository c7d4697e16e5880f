import RustyCore.Lib.Except
import RustyCore.Provider.AnthropicStream

/-! The tool calls of a Messages stream: which ones its blocks begin, what belongs to each and how it ends, against
    what the parser tells of them. Ids are as many as there are: two calls have two ids up to that number. -/

namespace RustyCore.Anthropic

open ModelBackend Sse List Option Table Framing

inductive Fate where
  | running
  | stopped
  | displaced
deriving DecidableEq

/-- A tool call of the stream. What is kept of its text are the fragments that arrive while no structured-output block
    has its index. -/
structure Call where
  index : Nat
  name : String
  text : String
  kept : String
  fate : Fate

structure Ledger where
  calls : List Call := []
  structured : Finset Nat := ∅

def Call.RunsAt (call : Call) (index : Nat) : Prop := call.index = index ∧ call.fate = .running

instance (call : Call) (index : Nat) : Decidable (call.RunsAt index) := inferInstanceAs (Decidable (_ ∧ _))

namespace Ledger

def atIndex (ledger : Ledger) (index : Nat) (change : Call → Call) : Ledger :=
  { ledger with calls := ledger.calls.map fun call => if call.RunsAt index then change call else call }

def start (ledger : Ledger) (value : Value) : Ledger :=
  let index := blockIndex value
  let content := value.index "content_block"
  let initial := (initialInput content).getD ""
  if (content.index "type").asStr ≠ some "tool_use" then ledger
  else if (content.index "name").asStr = some structuredOutputTool then
    { ledger with structured := insert index ledger.structured }
  else
    let ledger := ledger.atIndex index fun call => { call with fate := .displaced }
    { ledger with calls := ledger.calls ++ [⟨index, textOf (content.index "name"), initial, initial, .running⟩] }

def fragment (ledger : Ledger) (value : Value) : Ledger :=
  let index := blockIndex value
  let delta := value.index "delta"
  let text := textOf (delta.index "partial_json")
  if (delta.index "type").asStr = some "input_json_delta" then
    ledger.atIndex index fun call => { call with
      text := call.text ++ text
      kept := if index ∈ ledger.structured then call.kept else call.kept ++ text }
  else ledger

def stop (ledger : Ledger) (value : Value) : Ledger :=
  let index := blockIndex value
  if index ∈ ledger.structured then { ledger with structured := ledger.structured.erase index }
  else ledger.atIndex index fun call => { call with fate := .stopped }

def read (ledger : Ledger) : String × Value → Ledger
  | ("content_block_start", value) => ledger.start value
  | ("content_block_delta", value) => ledger.fragment value
  | ("content_block_stop", value) => ledger.stop value
  | _ => ledger

end Ledger

def callId (k : Nat) : ToolCallId := ⟨k⟩

def callTold : ModelEvent → Option ToolCallId
  | .toolCallStarted id _ => some id
  | .toolCallCompleted id _ _ => some id
  | _ => none

def about (k : Nat) (events : List ModelEvent) : List ModelEvent := events.filter (callTold · = some (callId k))

def messageCall (block : Value) : Option (String × Value) :=
  if textOf (block.index "type") = "tool_use" ∧ textOf (block.index "name") ≠ structuredOutputTool then
    some (textOf (block.index "name"), (block.get "input").getD (.object []))
  else none

def messageCalls (value : Value) : List (String × Value) :=
  ((value.index "content").asArray.getD []).filterMap messageCall

/-- Each call is started and then completed, once each, by its name and with the input that belongs to it, and no
    other call is. -/
structure AllCompleted (calls : List (String × Except String Value)) (events : List ModelEvent) : Prop where
  completed : ∀ k name reading, calls[k]? = some (name, reading) → ∃ input, reading = .ok input ∧
    about k events = [.toolCallStarted (callId k) name, .toolCallCompleted (callId k) name input]
  started : ∀ id name, .toolCallStarted id name ∈ events → ∃ k < calls.length, id = callId k

variable {ledger : Ledger} {events : List ModelEvent} {i j k : Nat}

theorem callId_inj (hj : j < 2 ^ 128) (hk : k < 2 ^ 128) : callId j = callId k ↔ j = k := by
  constructor
  · intro h
    have hnat := congrArg (fun id : ToolCallId => id.uuid.toNat) h
    simp only [callId, BitVec.natCast_eq_ofNat, BitVec.toNat_ofNat] at hnat
    rwa [Nat.mod_eq_of_lt hj, Nat.mod_eq_of_lt hk] at hnat
  · rintro rfl
    rfl

theorem about_append {more : List ModelEvent} : about k (events ++ more) = about k events ++ about k more :=
  filter_append ..

theorem about_quiet {more : List ModelEvent} (h : ∀ e ∈ more, callTold e = none) : about k more = [] := by
  refine filter_eq_nil_iff.mpr fun e he => ?_
  rw [h e he]
  simp

theorem getElem?_atIndex {change : Call → Call} : (ledger.atIndex i change).calls[k]? =
    ledger.calls[k]?.map fun call => if call.RunsAt i then change call else call := List.getElem?_map ..

theorem getElem?_concat {α : Type} {xs : List α} {x y : α} : (xs ++ [x])[k]? = some y ↔
    xs[k]? = some y ∨ k = xs.length ∧ x = y := by
  rcases Nat.lt_trichotomy k xs.length with hlt | rfl | hgt
  · rw [List.getElem?_append_left hlt]
    exact ⟨Or.inl, fun h => h.resolve_right fun h => by omega⟩
  · simp
  · rw [List.getElem?_eq_none (by simp; omega), List.getElem?_eq_none (by omega)]
    simp
    omega

theorem atIndex_of_none {change : Call → Call} (h : ∀ (k : Nat) (call : Call), ledger.calls[k]? = some call → ¬call.RunsAt i) :
    ledger.atIndex i change = ledger := by
  have hcalls : (ledger.calls.map fun call => if call.RunsAt i then change call else call) = ledger.calls := by
    conv_rhs => rw [← map_id ledger.calls]
    refine map_congr_left fun call hcall => ?_
    obtain ⟨k, hk⟩ := mem_iff_getElem?.mp hcall
    exact if_neg (h k call hk)
  rw [Ledger.atIndex, hcalls]

section

variable [StreamExternals]

def said (block : List UInt8) : Option (String × Value) :=
  if block.all isAsciiWhitespace then none
  else
    (Utf8.decode block).bind fun text =>
      let event := (Text.lines text).findSome? (field "event:")
      let data := dataLines text
      if event = some "message_stop" ∨ Text.trim data = "[DONE]" ∨ Text.isBlank data then none
      else
        (StreamExternals.parseJson data).toOption.map fun value =>
          ((event.or (value.index "type").asStr).getD "", value)

def inputOf (text : String) : Except String Value :=
  if text.isEmpty then .ok (.object []) else StreamExternals.parseJson text

def lastMessage (rest : List UInt8) : Option Value :=
  if rest.all isAsciiWhitespace then none
  else (StreamExternals.parseJsonBytes rest).filter fun value => (value.get "type").bind Value.asStr == some "message"

def ledgerOf (bytes : List UInt8) : Ledger := ((framing.blocks bytes).filterMap said).foldl Ledger.read {}

def callsOf (bytes : List UInt8) : List (String × Except String Value) :=
  (ledgerOf bytes).calls.map (fun call => (call.name, inputOf call.text)) ++
    ((lastMessage (framing.rest bytes)).elim [] messageCalls).map fun (name, input) => (name, .ok input)

/-- Every call of the stream is stopped before another begins at its index, and what is kept of its text reads as the
    whole of it does. -/
def AllStopped (bytes : List UInt8) : Prop :=
  ∀ call ∈ (ledgerOf bytes).calls, call.fate = .stopped ∧ inputOf call.kept = inputOf call.text

def Call.Told (call : Call) (k : Nat) (told : List ModelEvent) : Prop :=
  match call.fate with
  | .stopped => ∃ input, inputOf call.kept = .ok input ∧
      told = [.toolCallStarted (callId k) call.name, .toolCallCompleted (callId k) call.name input]
  | _ => told = [.toolCallStarted (callId k) call.name]

/-- The parser and the ledger agree: a running call has its buffer at its index, and each was told what its fate
    says. -/
structure Traced (p : Parser) (ledger : Ledger) (events : List ModelEvent) : Prop where
  structured : p.structuredOutputBlocks = ledger.structured
  minted : p.minted = ledger.calls.length
  pending : p.pendingNonStreamingEvents = []
  tools : ∀ i buffer, p.tools.lookup i = some buffer ↔
    ∃ k call, ledger.calls[k]? = some call ∧ call.RunsAt i ∧ buffer = ⟨callId k, call.name, call.kept⟩
  single : ∀ (i k k' : Nat) (call call' : Call), ledger.calls[k]? = some call → ledger.calls[k']? = some call' →
    call.RunsAt i → call'.RunsAt i → k = k'
  told : ∀ (k : Nat) (call : Call), ledger.calls[k]? = some call → call.Told k (about k events)
  silent : ∀ k, ledger.calls.length ≤ k → k < 2 ^ 128 → about k events = []

variable {p p' : Parser} {event : Option ModelEvent} {value : Value} {kind : String} {n : Nat}

theorem Traced.quiet (h : Traced p ledger events) (htools : p'.tools = p.tools)
    (hstructured : p'.structuredOutputBlocks = p.structuredOutputBlocks) (hminted : p'.minted = p.minted)
    (hpending : p'.pendingNonStreamingEvents = p.pendingNonStreamingEvents)
    (hevent : ∀ e ∈ event.toList, callTold e = none) : Traced p' ledger (events ++ event.toList) where
  structured := hstructured.trans h.structured
  minted := hminted.trans h.minted
  pending := hpending.trans h.pending
  tools := by
    rw [htools]
    exact h.tools
  single := h.single
  told k call hk := by
    rw [about_append, about_quiet hevent, append_nil]
    exact h.told k call hk
  silent k hle hlt := by
    rw [about_append, about_quiet hevent, append_nil]
    exact h.silent k hle hlt

/-- Text for a running call goes to its buffer and to its entry alike. -/
theorem Traced.push (h : Traced p ledger events) {change : Call → Call} {tools : Table.Map Nat ToolBuffer}
    (hsame : ∀ call, (change call).index = call.index ∧ (change call).name = call.name ∧ (change call).fate = call.fate)
    (htools : ∀ j buffer, tools.lookup j = some buffer ↔ ∃ k call, ledger.calls[k]? = some call ∧ call.RunsAt j ∧
      buffer = ⟨callId k, call.name, if j = i then (change call).kept else call.kept⟩)
    (hevent : ∀ e ∈ event.toList, callTold e = none) :
    Traced { p with tools } (ledger.atIndex i change) (events ++ event.toList) := by
  have hruns : ∀ (call : Call) (j : Nat), (if call.RunsAt i then change call else call).RunsAt j ↔ call.RunsAt j := by
    intro call j
    split
    · unfold Call.RunsAt
      rw [(hsame call).1, (hsame call).2.2]
    · rfl
  refine ⟨h.structured, ?_, h.pending, ?_, ?_, ?_, ?_⟩
  · rw [h.minted, Ledger.atIndex, length_map]
  · intro j buffer
    rw [htools]
    constructor
    · rintro ⟨k, call, hk, hj, rfl⟩
      refine ⟨k, _, getElem?_atIndex.trans (by rw [hk]; rfl), (hruns call j).mpr hj, ?_⟩
      by_cases hji : j = i
      · subst hji
        simp only [if_pos hj, if_true, (hsame call).2.1]
      · have hi : ¬call.RunsAt i := fun hi => hji (hj.1.symm.trans hi.1)
        simp only [if_neg hi, if_neg hji]
    · rintro ⟨k, call', hk, hj, rfl⟩
      rw [getElem?_atIndex, map_eq_some_iff] at hk
      obtain ⟨call, hk, rfl⟩ := hk
      rw [hruns] at hj
      refine ⟨k, call, hk, hj, ?_⟩
      by_cases hji : j = i
      · subst hji
        simp only [if_pos hj, if_true, (hsame call).2.1]
      · have hi : ¬call.RunsAt i := fun hi => hji (hj.1.symm.trans hi.1)
        simp only [if_neg hi, if_neg hji]
  · intro j k k' call call' hk hk' hj hj'
    rw [getElem?_atIndex, map_eq_some_iff] at hk hk'
    obtain ⟨c, hk, rfl⟩ := hk
    obtain ⟨c', hk', rfl⟩ := hk'
    exact h.single j k k' c c' hk hk' ((hruns c j).mp hj) ((hruns c' j).mp hj')
  · intro k call hk
    rw [getElem?_atIndex, map_eq_some_iff] at hk
    obtain ⟨c, hk, rfl⟩ := hk
    rw [about_append, about_quiet hevent, append_nil]
    have htold := h.told k c hk
    split
    · rename_i hi
      unfold Call.Told at htold ⊢
      rw [(hsame c).2.2, (hsame c).2.1, hi.2]
      rwa [hi.2] at htold
    · exact htold
  · intro k hle hlt
    rw [about_append, about_quiet hevent, append_nil]
    refine h.silent k ?_ hlt
    rwa [Ledger.atIndex, length_map] at hle

theorem Traced.onContentBlockDelta (h : Traced p ledger events) (value : Value) :
    Traced (p.onContentBlockDelta value).1 (ledger.fragment value)
      (events ++ (p.onContentBlockDelta value).2.toList) := by
  unfold Parser.onContentBlockDelta Ledger.fragment
  dsimp only
  split
  · rename_i htype
    rw [htype, if_neg (by decide)]
    exact h.quiet rfl rfl rfl rfl (by simp [callTold])
  · rename_i htype
    rw [htype, if_neg (by decide)]
    exact h.quiet rfl rfl rfl rfl (by simp [callTold])
  · rename_i htype
    rw [if_pos htype]
    by_cases hin : blockIndex value ∈ ledger.structured
    · rw [if_pos (h.structured ▸ hin)]
      refine @Traced.push _ _ _ _ _ _ h _ p.tools (fun _ => ⟨rfl, rfl, rfl⟩) (fun j buffer => ?_) (by simp [callTold])
      rw [h.tools]
      simp [hin]
    rw [if_neg (h.structured ▸ hin)]
    rcases hlookup : p.tools.lookup (blockIndex value) with _ | tool
    · rw [atIndex_of_none fun k call hk hruns => ?_]
      · exact h.quiet rfl rfl rfl rfl (by simp)
      · rw [(h.tools _ _).mpr ⟨k, call, hk, hruns, rfl⟩] at hlookup
        cases hlookup
    · obtain ⟨k, call, hk, hruns, rfl⟩ := (h.tools _ _).mp hlookup
      refine h.push (fun _ => ⟨rfl, rfl, rfl⟩) (fun j buffer => ?_) (by simp [callTold])
      by_cases hj : j = blockIndex value
      · subst hj
        rw [lookup_insert_self]
        constructor
        · intro hbuffer
          exact ⟨k, call, hk, hruns, by simpa [hin] using hbuffer.symm⟩
        · rintro ⟨k', call', hk', hruns', rfl⟩
          obtain rfl := h.single _ k k' call call' hk hk' hruns hruns'
          obtain rfl := Option.some.inj (hk.symm.trans hk')
          simp [hin]
      · rw [lookup_insert_ne hj, h.tools]
        simp [hj]
  · rename_i htype
    rw [if_neg htype]
    exact h.quiet rfl rfl rfl rfl (by simp)

/-- A stop completes the call with the input its text reads as. -/
theorem Traced.complete (h : Traced p ledger events) (hlength : ledger.calls.length ≤ 2 ^ 128) {call : Call}
    {input : Value} (hk : ledger.calls[k]? = some call) (hruns : call.RunsAt i) (hinput : inputOf call.kept = .ok input) :
    Traced { p with tools := p.tools.erase i } (ledger.atIndex i fun call => { call with fate := .stopped })
      (events ++ [ModelEvent.toolCallCompleted (callId k) call.name input]) := by
  have hlt : ∀ (j : Nat) (c : Call), ledger.calls[j]? = some c → j < 2 ^ 128 := by
    intro j c hj
    obtain ⟨hj, -⟩ := List.getElem?_eq_some_iff.mp hj
    omega
  have hother : ∀ j, j < 2 ^ 128 → j ≠ k → about j [ModelEvent.toolCallCompleted (callId k) call.name input] = [] := by
    intro j hj hne
    refine filter_eq_nil_iff.mpr fun e he => ?_
    obtain rfl := mem_singleton.mp he
    simpa [callTold, callId_inj (hlt k call hk) hj] using Ne.symm hne
  have hruns' : ∀ (c : Call) (j : Nat), (if c.RunsAt i then { c with fate := .stopped } else c).RunsAt j →
      j ≠ i ∧ c.RunsAt j := by
    intro c j hj
    split at hj
    · cases hj.2
    · rename_i hnot
      exact ⟨fun heq => hnot (heq ▸ hj), hj⟩
  refine ⟨h.structured, ?_, h.pending, ?_, ?_, ?_, ?_⟩
  · rw [Ledger.atIndex, length_map]
    exact h.minted
  · intro j buffer
    constructor
    · intro hlookup
      obtain ⟨hj, hlookup⟩ := lookup_of_erase hlookup
      obtain ⟨k', c, hk', hc, rfl⟩ := (h.tools _ _).mp hlookup
      have hnot : ¬c.RunsAt i := fun hi => hj (hc.1.symm.trans hi.1)
      exact ⟨k', c, getElem?_atIndex.trans (by rw [hk', map_some, if_neg hnot]), hc, rfl⟩
    · rintro ⟨k', c', hk', hc', rfl⟩
      rw [getElem?_atIndex, map_eq_some_iff] at hk'
      obtain ⟨c, hk', rfl⟩ := hk'
      obtain ⟨hj, hc⟩ := hruns' c j hc'
      have hnot : ¬c.RunsAt i := fun hi => hj (hc.1.symm.trans hi.1)
      rw [lookup_erase_ne hj, if_neg hnot]
      exact (h.tools _ _).mpr ⟨k', c, hk', hc, rfl⟩
  · intro j a b c c' ha hb hc hc'
    rw [getElem?_atIndex, map_eq_some_iff] at ha hb
    obtain ⟨ca, ha, rfl⟩ := ha
    obtain ⟨cb, hb, rfl⟩ := hb
    exact h.single j a b ca cb ha hb (hruns' ca j hc).2 (hruns' cb j hc').2
  · intro k' c' hk'
    rw [getElem?_atIndex, map_eq_some_iff] at hk'
    obtain ⟨c, hk', rfl⟩ := hk'
    have htold := h.told k' c hk'
    rw [about_append]
    split
    · rename_i hc
      obtain rfl := h.single i k k' call c hk hk' hruns hc
      obtain rfl := Option.some.inj (hk.symm.trans hk')
      unfold Call.Told at htold
      rw [hc.2] at htold
      refine ⟨input, hinput, ?_⟩
      rw [htold, about, filter_singleton]
      simp [callTold]
    · rename_i hc
      have hne : k' ≠ k := by
        rintro rfl
        obtain rfl := Option.some.inj (hk.symm.trans hk')
        exact hc hruns
      rw [hother k' (hlt k' c hk') hne, append_nil]
      exact htold
  · intro k' hle hk'
    rw [Ledger.atIndex, length_map] at hle
    have hne : k' ≠ k := by
      rintro rfl
      rw [List.getElem?_eq_none hle] at hk
      cases hk
    rw [about_append, hother k' hk' hne, h.silent k' hle hk', append_nil]

theorem Traced.onContentBlockStop (h : Traced p ledger events)
    (hlength : ledger.calls.length ≤ 2 ^ 128) (hstop : p.onContentBlockStop value = .ok (p', event)) :
    Traced p' (ledger.stop value) (events ++ event.toList) := by
  unfold Parser.onContentBlockStop at hstop
  unfold Ledger.stop
  dsimp only at hstop ⊢
  by_cases hin : blockIndex value ∈ ledger.structured
  · rw [if_pos (h.structured ▸ hin)] at hstop
    rw [if_pos hin]
    cases hstop
    have hquiet : Traced p ledger (events ++ (none : Option ModelEvent).toList) := h.quiet rfl rfl rfl rfl (by simp)
    exact ⟨by rw [h.structured], hquiet.minted, hquiet.pending, hquiet.tools, hquiet.single, hquiet.told, hquiet.silent⟩
  rw [if_neg (h.structured ▸ hin)] at hstop
  rw [if_neg hin]
  rcases hlookup : p.tools.lookup (blockIndex value) with _ | tool
  · rw [hlookup] at hstop
    cases hstop
    rw [atIndex_of_none fun k call hk hruns => ?_]
    · exact h.quiet rfl rfl rfl rfl (by simp)
    · rw [(h.tools _ _).mpr ⟨k, call, hk, hruns, rfl⟩] at hlookup
      cases hlookup
  · obtain ⟨k, call, hk, hruns, rfl⟩ := (h.tools _ _).mp hlookup
    rw [hlookup] at hstop
    dsimp only at hstop
    rw [← inputOf] at hstop
    rcases hinput : inputOf call.kept with error | input
    · rw [hinput] at hstop
      cases hstop
    · rw [hinput] at hstop
      cases hstop
      exact h.complete hlength hk hruns hinput

/-- The call that ran at the index before, if there was one, is left behind unfinished. -/
theorem Traced.begin (h : Traced p ledger events) (hlength : ledger.calls.length < 2 ^ 128) (i : Nat)
    (name initial : String) (toolIds : ProviderToolIds) :
    Traced { p with
        minted := p.minted + 1
        toolIds
        tools := p.tools.insert i ⟨callId p.minted, name, initial⟩ }
      { ledger with
        calls := (ledger.atIndex i fun call => { call with fate := .displaced }).calls ++
          [⟨i, name, initial, initial, .running⟩] }
      (events ++ [ModelEvent.toolCallStarted (callId p.minted) name]) := by
  have hlt : ∀ (j : Nat) (c : Call), ledger.calls[j]? = some c → j < ledger.calls.length := by
    intro j c hj
    exact (List.getElem?_eq_some_iff.mp hj).1
  have hother : ∀ j, j < 2 ^ 128 → j ≠ ledger.calls.length →
      about j [ModelEvent.toolCallStarted (callId p.minted) name] = [] := by
    intro j hj hne
    refine filter_eq_nil_iff.mpr fun e he => ?_
    obtain rfl := mem_singleton.mp he
    rw [h.minted]
    simpa [callTold, callId_inj hlength hj] using Ne.symm hne
  have hcalls : ∀ (j : Nat) (c' : Call), ((ledger.atIndex i fun call => { call with fate := .displaced }).calls ++
      [⟨i, name, initial, initial, .running⟩])[j]? = some c' ↔
      (∃ c, ledger.calls[j]? = some c ∧ c' = if c.RunsAt i then { c with fate := .displaced } else c) ∨
        j = ledger.calls.length ∧ c' = ⟨i, name, initial, initial, .running⟩ := by
    intro j c'
    rw [getElem?_concat, getElem?_atIndex, map_eq_some_iff, Ledger.atIndex, length_map]
    simp only [eq_comm]
  have hruns : ∀ (c : Call) (j : Nat), (if c.RunsAt i then { c with fate := .displaced } else c).RunsAt j →
      j ≠ i ∧ c.RunsAt j := by
    intro c j hj
    split at hj
    · cases hj.2
    · rename_i hnot
      exact ⟨fun heq => hnot (heq ▸ hj), hj⟩
  refine ⟨h.structured, ?_, h.pending, ?_, ?_, ?_, ?_⟩
  · rw [length_append, Ledger.atIndex, length_map, h.minted]
    rfl
  · intro j buffer
    simp only [hcalls]
    by_cases hj : j = i
    · subst hj
      rw [lookup_insert_self]
      constructor
      · intro hbuffer
        exact ⟨_, _, Or.inr ⟨rfl, rfl⟩, ⟨rfl, rfl⟩, by simpa [h.minted] using hbuffer.symm⟩
      · rintro ⟨k, c', ⟨c, -, rfl⟩ | ⟨rfl, rfl⟩, hc, rfl⟩
        · exact absurd rfl (hruns c j hc).1
        · rw [h.minted]
    · rw [lookup_insert_ne hj, h.tools]
      constructor
      · rintro ⟨k, c, hk, hc, rfl⟩
        have hnot : ¬c.RunsAt i := fun hi => hj (hc.1.symm.trans hi.1)
        exact ⟨k, c, Or.inl ⟨c, hk, (if_neg hnot).symm⟩, hc, rfl⟩
      · rintro ⟨k, c', ⟨c, hk, rfl⟩ | ⟨rfl, rfl⟩, hc, rfl⟩
        · obtain ⟨-, hc⟩ := hruns c j hc
          have hnot : ¬c.RunsAt i := fun hi => hj (hc.1.symm.trans hi.1)
          exact ⟨k, c, hk, hc, by rw [if_neg hnot]⟩
        · exact absurd hc.1.symm hj
  · intro j a b ca cb ha hb hca hcb
    rw [hcalls] at ha hb
    rcases ha with ⟨ca, ha, rfl⟩ | ⟨rfl, rfl⟩
    · rcases hb with ⟨cb, hb, rfl⟩ | ⟨rfl, rfl⟩
      · exact h.single j a b ca cb ha hb (hruns ca j hca).2 (hruns cb j hcb).2
      · exact absurd hcb.1.symm (hruns ca j hca).1
    · rcases hb with ⟨cb, hb, rfl⟩ | ⟨rfl, rfl⟩
      · exact absurd hca.1.symm (hruns cb j hcb).1
      · rfl
  · intro k c' hk
    rw [hcalls] at hk
    rw [about_append]
    rcases hk with ⟨c, hk, rfl⟩ | ⟨rfl, rfl⟩
    · have hk' := hlt k c hk
      have htold := h.told k c hk
      rw [hother k (by omega) (by omega), append_nil]
      split
      · rename_i hc
        unfold Call.Told at htold ⊢
        rwa [hc.2] at htold
      · exact htold
    · rw [h.silent _ le_rfl hlength, h.minted]
      simp [Call.Told, about, callTold]
  · intro k hle hlt'
    rw [length_append, Ledger.atIndex, length_map, length_singleton] at hle
    rw [about_append, hother k hlt' (by omega), h.silent k (by omega) hlt', append_nil]

theorem Traced.onContentBlockStart (h : Traced p ledger events)
    (hlength : (ledger.start value).calls.length ≤ 2 ^ 128) :
    Traced (p.onContentBlockStart value).1 (ledger.start value) (events ++ (p.onContentBlockStart value).2.toList) := by
  unfold Parser.onContentBlockStart
  unfold Ledger.start at hlength ⊢
  dsimp only at hlength ⊢
  by_cases htype : ((value.index "content_block").index "type").asStr = some "tool_use"
  · rw [if_neg (not_not.mpr htype)] at hlength ⊢
    rw [if_neg (not_not.mpr htype)]
    by_cases hname : ((value.index "content_block").index "name").asStr = some structuredOutputTool
    · rw [if_pos hname, if_pos hname]
      have hquiet : Traced p ledger (events ++ ((initialInput (value.index "content_block")).map ModelEvent.textDelta).toList) :=
        h.quiet rfl rfl rfl rfl (by cases initialInput (value.index "content_block") <;> simp [callTold])
      exact ⟨by rw [h.structured], hquiet.minted, hquiet.pending, hquiet.tools, hquiet.single, hquiet.told,
        hquiet.silent⟩
    · rw [if_neg hname, if_neg hname]
      rw [if_neg hname, length_append, Ledger.atIndex, length_map, length_singleton] at hlength
      exact h.begin (by omega) _ _ _ _
  · rw [if_pos htype, if_pos htype]
    exact h.quiet rfl rfl rfl rfl (by simp)

theorem Traced.onEvent (h : Traced p ledger events) (hlength : (ledger.read (kind, value)).calls.length ≤ 2 ^ 128)
    (hevent : p.onEvent kind value = .ok (p', event)) :
    Traced p' (ledger.read (kind, value)) (events ++ event.toList) := by
  unfold Parser.onEvent at hevent
  split at hevent
  · obtain ⟨rfl, rfl⟩ := Prod.ext_iff.mp (Except.ok.inj hevent)
    unfold Parser.onMessageStart
    dsimp only
    split
    · exact h.quiet rfl rfl rfl rfl (by simp)
    · exact h.quiet rfl rfl rfl rfl (by simp [callTold])
  · obtain ⟨rfl, rfl⟩ := Prod.ext_iff.mp (Except.ok.inj hevent)
    exact h.onContentBlockStart hlength
  · obtain ⟨rfl, rfl⟩ := Prod.ext_iff.mp (Except.ok.inj hevent)
    exact h.onContentBlockDelta value
  · refine h.onContentBlockStop ?_ hevent
    change (ledger.stop value).calls.length ≤ 2 ^ 128 at hlength
    unfold Ledger.stop at hlength
    dsimp only at hlength
    split at hlength
    · exact hlength
    · rwa [Ledger.atIndex, length_map] at hlength
  · obtain ⟨rfl, rfl⟩ := Prod.ext_iff.mp (Except.ok.inj hevent)
    unfold Parser.onMessageDelta
    dsimp only
    split
    · split <;> exact h.quiet rfl rfl rfl rfl (by simp)
    · split <;> exact h.quiet rfl rfl rfl rfl (by simp [callTold])
  · cases hevent
    exact h.quiet rfl rfl rfl rfl (by simp)
  · cases hevent
  · rename_i hstart hdelta hstop _ _ _
    cases hevent
    have hread : ledger.read (kind, value) = ledger := by
      unfold Ledger.read
      split
      · rename_i heq
        cases heq
        exact absurd rfl hstart
      · rename_i heq
        cases heq
        exact absurd rfl hdelta
      · rename_i heq
        cases heq
        exact absurd rfl hstop
      · rfl
    rw [hread]
    exact h.quiet rfl rfl rfl rfl (by simp)

theorem parseBlock_said {block : List UInt8} (hblank : block.all isAsciiWhitespace = false)
    (h : p.parseBlock block = .ok (p', event)) :
    (said block = none ∧ event = none ∧ (p' = p ∨ p' = { p with sawMessageStop := true })) ∨
      ∃ kind value, said block = some (kind, value) ∧ p.onEvent kind value = .ok (p', event) := by
  unfold Parser.parseBlock at h
  unfold said
  rw [hblank]
  rcases hdecode : Utf8.decode block with _ | text
  · rw [hdecode] at h
    cases h
  rw [hdecode] at h
  dsimp only at h
  simp only [Bool.false_eq_true, if_false, bind_some]
  split at h
  · rename_i hend
    cases h
    exact Or.inl ⟨if_pos (hend.imp_right Or.inl), rfl, Or.inr rfl⟩
  rename_i hend
  split at h
  · rename_i hdata
    cases h
    exact Or.inl ⟨if_pos (Or.inr (Or.inr hdata)), rfl, Or.inl rfl⟩
  rename_i hdata
  split at h
  · cases h
  · rename_i value hvalue
    refine Or.inr ⟨_, value, ?_, h⟩
    rw [if_neg (by simp_all), hvalue]
    rfl

theorem Traced.parseBlock {block : List UInt8} (h : Traced p ledger events) (hblank : block.all isAsciiWhitespace = false)
    (hlength : (((said block).toList).foldl Ledger.read ledger).calls.length ≤ 2 ^ 128)
    (hblock : p.parseBlock block = .ok (p', event)) :
    Traced p' (((said block).toList).foldl Ledger.read ledger) (events ++ event.toList) := by
  rcases parseBlock_said hblank hblock with ⟨hsaid, rfl, hp⟩ | ⟨kind, value, hsaid, hevent⟩
  · rw [hsaid]
    rcases hp with rfl | rfl
    · exact h.quiet rfl rfl rfl rfl (by simp)
    · exact h.quiet rfl rfl rfl rfl (by simp)
  · rw [hsaid] at hlength ⊢
    exact h.onEvent hlength hevent

omit [StreamExternals] in
theorem length_le_read (ledger : Ledger) (event : String × Value) :
    ledger.calls.length ≤ (ledger.read event).calls.length := by
  have hindex : ∀ i change, (ledger.atIndex i change).calls.length = ledger.calls.length := fun i change =>
    length_map ..
  unfold Ledger.read
  split
  · unfold Ledger.start
    dsimp only
    split
    · exact le_rfl
    · split
      · exact le_rfl
      · rw [length_append, hindex]
        exact Nat.le_add_right _ _
  · unfold Ledger.fragment
    dsimp only
    split
    · exact (hindex _ _).ge
    · exact le_rfl
  · unfold Ledger.stop
    dsimp only
    split
    · exact le_rfl
    · exact (hindex _ _).ge
  · exact le_rfl

omit [StreamExternals] in
theorem length_le_reads (ledger : Ledger) (said : List (String × Value)) :
    ledger.calls.length ≤ (said.foldl Ledger.read ledger).calls.length := by
  induction said generalizing ledger with
  | nil => exact le_rfl
  | cons event said ih => exact (length_le_read ledger event).trans (ih _)

/-- Block by block, while there are ids enough. -/
theorem Traced.steps {blocks : List (List UInt8)} {told : List ModelEvent} (h : Traced p ledger events)
    (hlength : ((blocks.filterMap said).foldl Ledger.read ledger).calls.length ≤ 2 ^ 128)
    (hsteps : framing.steps p blocks = (told, .ok p')) :
    Traced p' ((blocks.filterMap said).foldl Ledger.read ledger) (events ++ told) := by
  induction blocks generalizing p ledger events told with
  | nil =>
    cases hsteps
    simpa using h
  | cons block blocks ih =>
    have hreads : (block :: blocks).filterMap said = (said block).toList ++ blocks.filterMap said := by
      cases hsaid : said block with
      | none => rw [filterMap_cons_none hsaid]; rfl
      | some event => rw [filterMap_cons_some hsaid]; rfl
    rw [hreads, foldl_append] at hlength ⊢
    rw [Framing.steps] at hsteps
    rcases hblock : framing.block p block with e | ⟨q, event⟩
    · rw [hblock] at hsteps
      cases hsteps
    rw [hblock] at hsteps
    obtain ⟨rfl, hrest⟩ := Prod.mk.inj hsteps
    have hq : Traced q ((said block).toList.foldl Ledger.read ledger) (events ++ event.toList) := by
      change (if block.all isAsciiWhitespace then .ok (p, none) else p.parseBlock block) = Except.ok (q, event) at hblock
      by_cases hblank : block.all isAsciiWhitespace = true
      · rw [if_pos hblank] at hblock
        cases hblock
        rw [said, if_pos hblank]
        exact h.quiet rfl rfl rfl rfl (by simp)
      · rw [if_neg hblank] at hblock
        exact h.parseBlock (Bool.not_eq_true _ ▸ hblank) ((length_le_reads _ _).trans hlength) hblock
    rw [← append_assoc]
    exact ih hq hlength (Prod.ext rfl hrest)

theorem traced_start : Traced {} {} [] where
  structured := rfl
  minted := rfl
  pending := rfl
  tools := by simp
  single := by simp
  told := by simp
  silent _ _ _ := rfl

def messageTold (calls : List (String × Value)) (n k : Nat) : List ModelEvent :=
  if n ≤ k then
    (calls[k - n]?).elim [] fun (name, input) =>
      [.toolCallStarted (callId k) name, .toolCallCompleted (callId k) name input]
  else []

omit [StreamExternals] in
theorem blockEvents_none {block : Value} (h : messageCall block = none) :
    (p.blockEvents block).1 = p ∧ ∀ e ∈ (p.blockEvents block).2, callTold e = none := by
  unfold Parser.blockEvents
  split
  · exact ⟨rfl, by simp [callTold]⟩
  · exact ⟨rfl, by simp [callTold]⟩
  · rename_i htype
    have hname : textOf (block.index "name") = structuredOutputTool := by
      by_contra hname
      rw [messageCall, if_pos ⟨htype, hname⟩] at h
      cases h
    unfold Parser.toolUseEvents
    dsimp only
    rw [if_pos hname]
    exact ⟨rfl, by simp [callTold]⟩
  · exact ⟨rfl, by simp⟩

omit [StreamExternals] in
theorem blockEvents_some {block : Value} {name : String} {input : Value} (h : messageCall block = some (name, input)) :
    (p.blockEvents block).1.minted = p.minted + 1 ∧
      (p.blockEvents block).1.pendingNonStreamingEvents = p.pendingNonStreamingEvents ∧
      (p.blockEvents block).2 =
        [.toolCallStarted (callId p.minted) name, .toolCallCompleted (callId p.minted) name input] := by
  unfold messageCall at h
  split at h
  · rename_i hcall
    cases h
    unfold Parser.blockEvents
    rw [hcall.1]
    unfold Parser.toolUseEvents
    dsimp only
    rw [if_neg hcall.2]
    exact ⟨rfl, rfl, rfl⟩
  · cases h

omit [StreamExternals] in
theorem about_call {name : String} {input : Value} (hn : n < 2 ^ 128) (hk : k < 2 ^ 128) :
    about k [ModelEvent.toolCallStarted (callId n) name, ModelEvent.toolCallCompleted (callId n) name input] =
      if k = n then [.toolCallStarted (callId n) name, .toolCallCompleted (callId n) name input] else [] := by
  unfold about
  by_cases h : k = n
  · subst h
    simp [callTold]
  · simp [callTold, callId_inj hn hk, h, Ne.symm h]

omit [StreamExternals] in
theorem foldl_blockEvents (blocks : List Value) (p : Parser) (told : List ModelEvent)
    (hlength : p.minted + (blocks.filterMap messageCall).length ≤ 2 ^ 128) :
    (blocks.foldl (fun (parser, events) block => ((parser.blockEvents block).1, events ++ (parser.blockEvents block).2))
      (p, told)).1.pendingNonStreamingEvents = p.pendingNonStreamingEvents ∧
    ∀ k < 2 ^ 128, about k (blocks.foldl (fun (parser, events) block =>
      ((parser.blockEvents block).1, events ++ (parser.blockEvents block).2)) (p, told)).2 =
        about k told ++ messageTold (blocks.filterMap messageCall) p.minted k := by
  induction blocks generalizing p told with
  | nil => exact ⟨rfl, fun k _ => by simp [messageTold]⟩
  | cons block blocks ih =>
    rw [foldl_cons]
    rcases hcall : messageCall block with _ | ⟨name, input⟩
    · obtain ⟨hsame, hquiet⟩ := blockEvents_none (p := p) hcall
      rw [filterMap_cons_none hcall] at hlength ⊢
      obtain ⟨hpending, htold⟩ := ih (p.blockEvents block).1 (told ++ (p.blockEvents block).2) (by rwa [hsame])
      refine ⟨hpending.trans (by rw [hsame]), fun k hk => ?_⟩
      rw [htold k hk, about_append, about_quiet hquiet, append_nil, hsame]
    · obtain ⟨hminted, hpending', hevents⟩ := blockEvents_some (p := p) hcall
      rw [filterMap_cons_some hcall, length_cons] at hlength
      rw [filterMap_cons_some hcall]
      obtain ⟨hpending, htold⟩ := ih (p.blockEvents block).1 (told ++ (p.blockEvents block).2) (by
        rw [hminted]
        omega)
      refine ⟨hpending.trans hpending', fun k hk => ?_⟩
      rw [htold k hk, about_append, hevents, about_call (by omega) hk, append_assoc, hminted]
      congr 1
      unfold messageTold
      rcases Nat.lt_trichotomy k p.minted with hlt | rfl | hgt
      · rw [if_neg (by omega), if_neg (by omega), if_neg (by omega), nil_append]
      · rw [if_pos rfl, if_neg (by omega), if_pos le_rfl, Nat.sub_self]
        rfl
      · rw [if_neg (by omega), if_pos (by omega), if_pos (by omega), nil_append]
        have hsub : k - p.minted = k - (p.minted + 1) + 1 := by omega
        rw [hsub, List.getElem?_cons_succ]

theorem onEvent_pending (h : p.onEvent kind value = .ok (p', event)) :
    p'.pendingNonStreamingEvents = p.pendingNonStreamingEvents := by
  unfold Parser.onEvent at h
  split at h
  · obtain ⟨rfl, -⟩ := Prod.ext_iff.mp (Except.ok.inj h)
    unfold Parser.onMessageStart
    dsimp only
    split <;> rfl
  · obtain ⟨rfl, -⟩ := Prod.ext_iff.mp (Except.ok.inj h)
    unfold Parser.onContentBlockStart
    dsimp only
    split
    · rfl
    · split <;> rfl
  · obtain ⟨rfl, -⟩ := Prod.ext_iff.mp (Except.ok.inj h)
    unfold Parser.onContentBlockDelta
    dsimp only
    split
    · rfl
    · rfl
    · split
      · rfl
      · split <;> rfl
    · rfl
  · unfold Parser.onContentBlockStop at h
    dsimp only at h
    split at h
    · cases h
      rfl
    · split at h
      · cases h
        rfl
      · split at h
        · cases h
        · cases h
          rfl
  · obtain ⟨rfl, -⟩ := Prod.ext_iff.mp (Except.ok.inj h)
    unfold Parser.onMessageDelta
    dsimp only
    split
    · split <;> rfl
    · split <;> rfl
  · cases h
    rfl
  · cases h
  · cases h
    rfl

theorem parseBlock_pending {block : List UInt8} (hblank : block.all isAsciiWhitespace = false)
    (h : p.parseBlock block = .ok (p', event)) : p'.pendingNonStreamingEvents = p.pendingNonStreamingEvents := by
  rcases parseBlock_said hblank h with ⟨-, -, rfl | rfl⟩ | ⟨kind, value, -, hevent⟩
  · rfl
  · rfl
  · exact onEvent_pending hevent

theorem parseNonStreamingJson_told (value : Value) (hlength : p.minted + (messageCalls value).length ≤ 2 ^ 128) :
    (p.parseNonStreamingJson value).1.pendingNonStreamingEvents = p.pendingNonStreamingEvents ∧
      ∀ k < 2 ^ 128, about k (p.parseNonStreamingJson value).2 = messageTold (messageCalls value) p.minted k := by
  unfold Parser.parseNonStreamingJson
  dsimp only
  split
  · exact foldl_blockEvents _ _ [] hlength
  · rename_i usage _
    obtain ⟨hpending, htold⟩ := foldl_blockEvents ((value.index "content").asArray.getD []) { p with
      model := (value.index "model").asStr.getD p.model
      stopReason := (value.index "stop_reason").asStr.getD p.stopReason
      usage := mapUsage usage } [.usageUpdate (mapUsage usage)] hlength
    refine ⟨hpending, fun k hk => (htold k hk).trans ?_⟩
    rw [about_quiet (by simp [callTold]), nil_append]
    rfl

theorem trailing_told {rest : List UInt8} (hpending : p.pendingNonStreamingEvents = [])
    (hblank : rest.all isAsciiWhitespace = false)
    (hlength : p.minted + ((lastMessage rest).elim [] messageCalls).length ≤ 2 ^ 128) (h : p.trailing rest = .ok p')
    (hk : k < 2 ^ 128) : about k p'.pendingNonStreamingEvents =
      messageTold ((lastMessage rest).elim [] messageCalls) p.minted k := by
  have hnone : ∀ n k, messageTold [] n k = [] := fun n k => by simp [messageTold]
  unfold Parser.trailing at h
  extract_lets q at h
  have hkept : p'.pendingNonStreamingEvents = q.pendingNonStreamingEvents := by
    split at h
    · rw [Except.ok.inj h]
    · split at h
      · cases h
      · rename_i hparse
        rw [← Except.ok.inj h]
        exact parseBlock_pending hblank hparse
      · rename_i hparse
        rw [← Except.ok.inj h]
        exact parseBlock_pending hblank hparse
      · cases h
  have hsilent : q = p → about k p'.pendingNonStreamingEvents = messageTold [] p.minted k := by
    intro hq
    rw [hkept, hq, hpending, hnone]
    rfl
  unfold lastMessage at hlength ⊢
  rw [if_neg (ne_true_of_eq_false hblank)] at hlength ⊢
  rcases hjson : StreamExternals.parseJsonBytes rest with _ | value
  · exact hsilent (by simp only [q, hjson])
  · rw [hjson] at hlength
    by_cases htype : (value.get "type").bind Value.asStr = some "message"
    · rw [filter_some, if_pos (by simpa using htype)] at hlength ⊢
      obtain ⟨hsame, htold⟩ := parseNonStreamingJson_told (p := p) value hlength
      rw [hkept]
      simp only [q, hjson, if_pos htype]
      rw [hsame, hpending, nil_append, htold k hk]
      rfl
    · rw [filter_some, if_neg (by simpa using htype)]
      exact hsilent (by simp only [q, hjson, if_neg htype])

theorem finish_ok {q : Parser} {rest : List UInt8} {last : List ModelEvent} {result : ModelResult}
    (h : p.finish rest = .ok (q, last, result)) :
    ∃ r, (if rest.all isAsciiWhitespace then .ok p else p.trailing rest) = Except.ok r ∧
      last = r.pendingNonStreamingEvents ++ [ModelEvent.completed result] := by
  have hlast : ∀ r : Parser, (do
      if !r.sawMessageStop then .error (ModelError.streamInterrupted "SSE stream ended without message_stop")
      let result : ModelResult := ⟨r.stopReason, r.usage, calculateCost r.usage r.model⟩
      return (({ r with result := some result, pendingNonStreamingEvents := [] } : Parser),
        r.pendingNonStreamingEvents ++ [ModelEvent.completed result], result)) = Except.ok (q, last, result) →
      last = r.pendingNonStreamingEvents ++ [ModelEvent.completed result] := by
    intro r h
    split at h
    · cases h
    · cases h
      rfl
  unfold Parser.finish at h
  dsimp only at h
  split at h
  · cases h
  split at h
  · rename_i hblank
    exact ⟨p, if_pos hblank, hlast p h⟩
  · rename_i hblank
    obtain ⟨r, hr, h⟩ := Except.ok_of_bind h
    exact ⟨r, (if_neg hblank).trans hr, hlast r h⟩

theorem finished_told {rest : List UInt8} {last : List ModelEvent} {result : ModelResult}
    (hpending : p.pendingNonStreamingEvents = [])
    (hlength : p.minted + ((lastMessage rest).elim [] messageCalls).length ≤ 2 ^ 128)
    (h : p.finished rest = .ok (last, result)) (hk : k < 2 ^ 128) :
    about k last = messageTold ((lastMessage rest).elim [] messageCalls) p.minted k := by
  obtain ⟨⟨q, last', result'⟩, hfinish, heq⟩ := Except.ok_of_map h
  obtain ⟨rfl, rfl⟩ := Prod.mk.inj heq
  obtain ⟨r, hr, rfl⟩ := finish_ok hfinish
  have hcompleted : about k [ModelEvent.completed result'] = [] := about_quiet (by simp [callTold])
  rw [about_append, hcompleted, append_nil]
  by_cases hblank : rest.all isAsciiWhitespace = true
  · rw [if_pos hblank] at hr
    cases hr
    rw [hpending, lastMessage, if_pos hblank]
    simp [messageTold, about]
  · rw [if_neg hblank] at hr
    exact trailing_told hpending (Bool.not_eq_true _ ▸ hblank) hlength hr hk

theorem callsOf_length (bytes : List UInt8) : (callsOf bytes).length =
    (ledgerOf bytes).calls.length + ((lastMessage (framing.rest bytes)).elim [] messageCalls).length := by
  rw [callsOf, length_append, length_map, length_map]

theorem feed_told {cs : List (List UInt8)} {events : List ModelEvent} {result : ModelResult}
    (h : feed cs = (events, .ok result)) (hlength : (callsOf cs.flatten).length ≤ 2 ^ 128) :
    (∀ (k : Nat) (call : Call), (ledgerOf cs.flatten).calls[k]? = some call → call.Told k (about k events)) ∧
      ∀ k < 2 ^ 128, (ledgerOf cs.flatten).calls.length ≤ k → about k events =
        messageTold ((lastMessage (framing.rest cs.flatten)).elim [] messageCalls) (ledgerOf cs.flatten).calls.length k := by
  rw [callsOf_length] at hlength
  rcases hsteps : framing.steps ({} : Parser) (framing.blocks ([] ++ cs.flatten)) with ⟨told, e | p⟩
  · have herror : (framing.feed Parser.finished {} [] cs).2 = .error e :=
      (feed_error boundary_nil hsteps).2
    rw [← Anthropic.feed, h] at herror
    cases herror
  have hfeed : framing.feed Parser.finished {} [] cs = _ := feed_ok boundary_nil hsteps
  rw [← Anthropic.feed, h, nil_append] at hfeed
  rw [nil_append] at hsteps
  have htraced : Traced p (ledgerOf cs.flatten) told := by
    refine traced_start.steps ?_ hsteps
    unfold ledgerOf at hlength
    omega
  rcases hfinished : p.finished (framing.rest cs.flatten) with e | ⟨last, result'⟩
  · rw [hfinished] at hfeed
    cases hfeed
  rw [hfinished] at hfeed
  obtain ⟨rfl, -⟩ := Prod.mk.inj hfeed
  have hlast := fun k => finished_told (k := k) htraced.pending (by rw [htraced.minted]; exact hlength) hfinished
  rw [htraced.minted] at hlast
  constructor
  · intro k call hk
    obtain ⟨hlt, -⟩ := List.getElem?_eq_some_iff.mp hk
    have hquiet : about k last = [] := (hlast k (by omega)).trans (if_neg (by omega))
    rw [Framing.ending, about_append, hquiet, append_nil]
    exact htraced.told k call hk
  · intro k hk hle
    rw [Framing.ending, about_append, htraced.silent k hle hk, hlast k hk, nil_append]

theorem callsOf_ledger {bytes : List UInt8} {call : Call} (h : (ledgerOf bytes).calls[k]? = some call) :
    (callsOf bytes)[k]? = some (call.name, inputOf call.text) := by
  obtain ⟨hlt, -⟩ := List.getElem?_eq_some_iff.mp h
  rw [callsOf, List.getElem?_append_left (by simpa using hlt), List.getElem?_map, h]
  rfl

theorem callsOf_message {bytes : List UInt8} (h : (ledgerOf bytes).calls.length ≤ k) : (callsOf bytes)[k]? =
    (((lastMessage (framing.rest bytes)).elim [] messageCalls)[k - (ledgerOf bytes).calls.length]?).map
      fun (name, input) => (name, .ok input) := by
  rw [callsOf, List.getElem?_append_right (by simpa using h), List.getElem?_map, length_map]

/-- A stream that is read to its end tells every call that it begins as started and then as completed with its own
    input, exactly where every call is stopped before another takes its index and nothing of its text is lost to a
    structured-output block. -/
theorem completed_iff_stopped {cs : List (List UInt8)} {events : List ModelEvent} {result : ModelResult}
    (h : feed cs = (events, .ok result)) (hlength : (callsOf cs.flatten).length ≤ 2 ^ 128) :
    AllCompleted (callsOf cs.flatten) events ↔ AllStopped cs.flatten := by
  obtain ⟨htold, hmessage⟩ := feed_told h hlength
  constructor
  · intro hall call hcall
    obtain ⟨k, hk⟩ := mem_iff_getElem?.mp hcall
    obtain ⟨input, hinput, hevents⟩ := hall.completed k _ _ (callsOf_ledger hk)
    have hcallTold := htold k call hk
    rw [hevents] at hcallTold
    unfold Call.Told at hcallTold
    split at hcallTold
    · rename_i hfate
      obtain ⟨input', hkept, hsame⟩ := hcallTold
      simp only [List.cons.injEq, ModelEvent.toolCallCompleted.injEq, true_and, and_true] at hsame
      exact ⟨hfate, by rw [hkept, hinput, hsame]⟩
    · simp at hcallTold
  · intro hall
    refine ⟨fun k name reading hk => ?_, fun id name hid => ?_⟩
    · obtain ⟨hlt, -⟩ := List.getElem?_eq_some_iff.mp hk
      by_cases hledger : k < (ledgerOf cs.flatten).calls.length
      · have hcall := List.getElem?_eq_getElem hledger
        rw [callsOf_ledger hcall] at hk
        obtain ⟨rfl, rfl⟩ := Prod.mk.inj (Option.some.inj hk)
        obtain ⟨hfate, hsame⟩ := hall _ (mem_of_getElem? hcall)
        have hcallTold := htold k _ hcall
        unfold Call.Told at hcallTold
        rw [hfate] at hcallTold
        rwa [← hsame]
      · rw [callsOf_message (by omega), map_eq_some_iff] at hk
        obtain ⟨⟨name', input⟩, hk, heq⟩ := hk
        obtain ⟨rfl, rfl⟩ := Prod.mk.inj heq
        refine ⟨input, rfl, ?_⟩
        rw [hmessage k (by omega) (by omega), messageTold, if_pos (by omega), hk]
        rfl
    · obtain ⟨k, hk, rfl⟩ : ∃ k < 2 ^ 128, id = callId k := ⟨id.uuid.toNat, id.uuid.isLt, by simp [callId]⟩
      refine ⟨k, ?_, rfl⟩
      by_contra hle
      have hlengths := callsOf_length cs.flatten
      have hnone := hmessage k hk (by omega)
      rw [messageTold, if_pos (by omega), List.getElem?_eq_none (by omega)] at hnone
      have hin : ModelEvent.toolCallStarted (callId k) name ∈ about k events :=
        mem_filter.mpr ⟨hid, by simp [callTold]⟩
      rw [hnone] at hin
      cases hin

end

namespace Sample

def startText : String :=
  "\x7b\"type\":\"content_block_start\",\"content_block\":\x7b\"type\":\"tool_use\"\x7d\x7d"

def stopText : String := "\x7b\"type\":\"content_block_stop\"\x7d"

@[reducible] def callLibraries : StreamExternals where
  utf8Error _ := ""
  parseJson text :=
    if text = startText then
      .ok (.object [("content_block", .object [("type", .string "tool_use")]), ("type", .string "content_block_start")])
    else if text = stopText then .ok (.object [("type", .string "content_block_stop")])
    else .error "expected value at line 1 column 1"
  parseJsonBytes _ := none
  decodeAnthropicUsage _ := none
  decodeOpenAiUsage _ := none

def finishedCall : List UInt8 :=
  Utf8.encode ("data:" ++ startText ++ "\n\ndata:" ++ stopText ++ "\n\nevent:message_stop\n\n").toList

def unfinishedCall : List UInt8 := Utf8.encode ("data:" ++ startText ++ "\n\nevent:message_stop\n\n").toList

theorem finishedCall_read : (@feed callLibraries [finishedCall]).2.isOk = true ∧
    (@callsOf callLibraries [finishedCall].flatten).length = 1 := by decide +kernel

theorem unfinishedCall_read : (@feed callLibraries [unfinishedCall]).2.isOk = true ∧
    (@callsOf callLibraries [unfinishedCall].flatten).length = 1 ∧
    (about 0 (@feed callLibraries [unfinishedCall]).1).length = 1 := by decide +kernel

theorem feed_of_isOk {cs : List (List UInt8)} (h : (@feed callLibraries cs).2.isOk = true) :
    ∃ result, @feed callLibraries cs = ((@feed callLibraries cs).1, .ok result) := by
  rcases hfeed : @feed callLibraries cs with ⟨events, e | result⟩
  · rw [hfeed] at h
    cases h
  · exact ⟨result, rfl⟩

theorem finished_call_completed : ∃ events result, @feed callLibraries [finishedCall] = (events, .ok result) ∧
    (AllCompleted (@callsOf callLibraries [finishedCall].flatten) events ↔
      @AllStopped callLibraries [finishedCall].flatten) := by
  obtain ⟨hok, hlength⟩ := finishedCall_read
  obtain ⟨result, hfeed⟩ := feed_of_isOk hok
  exact ⟨_, result, hfeed, @completed_iff_stopped callLibraries [finishedCall] _ result hfeed (by rw [hlength]; decide)⟩

/-- The stream ends well, and the call that it began is never completed. -/
theorem unfinished_call_dropped : ∃ events result, @feed callLibraries [unfinishedCall] = (events, .ok result) ∧
    ¬AllCompleted (@callsOf callLibraries [unfinishedCall].flatten) events := by
  obtain ⟨hok, hlength, hcount⟩ := unfinishedCall_read
  obtain ⟨result, hfeed⟩ := feed_of_isOk hok
  refine ⟨_, result, hfeed, fun h => ?_⟩
  obtain ⟨⟨name, reading⟩, hcalls⟩ := length_eq_one_iff.mp hlength
  obtain ⟨input, -, htold⟩ := h.completed 0 name reading (by rw [hcalls]; rfl)
  rw [htold] at hcount
  cases hcount

end Sample

end RustyCore.Anthropic
