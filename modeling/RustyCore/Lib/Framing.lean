import Mathlib.Data.List.Basic
import Mathlib.Data.List.Flatten
import Mathlib.Data.List.Infix

/-! A stream of items that arrives in chunks and is read in blocks: what is left over of a chunk is kept until the
    block it begins is complete, and each complete block is handled as it is found. What a failing block does to
    the outputs of the blocks before it decides whether the cutting into chunks can be seen. -/

/-- Where the first block of a buffer ends and how long the delimiter after it is, and what one block does. -/
structure Framing (α σ ω ε : Type) where
  boundary : List α → Option (Nat × Nat)
  block : σ → List α → Except ε (σ × Option ω)
  boundary_le : ∀ {buffer n k}, boundary buffer = some (n, k) → 0 < k ∧ n + k ≤ buffer.length
  boundary_append : ∀ {buffer found} (rest), boundary buffer = some found → boundary (buffer ++ rest) = some found
  boundary_take : ∀ {buffer n k}, boundary buffer = some (n, k) → boundary (buffer.take (n + k)) = some (n, k)

namespace Framing

open List

variable {α σ ω ε ρ : Type} (F : Framing α σ ω ε)

/-- The loop over the complete blocks of the buffer. A failing block ends it, and the outputs so far are lost. -/
def drain : Nat → σ → List α → List ω → Except ε (σ × List α × List ω)
  | 0, state, buffer, outputs => .ok (state, buffer, outputs)
  | fuel + 1, state, buffer, outputs =>
    match F.boundary buffer with
    | none => .ok (state, buffer, outputs)
    | some (n, k) =>
      match F.block state (buffer.take n) with
      | .error e => .error e
      | .ok (state, output) => drain fuel state (buffer.drop (n + k)) (outputs ++ output.toList)

/-- A chunk goes to the end of the buffer. Every block takes some of the buffer, so its length bounds the loop. -/
def push (state : σ) (buffer chunk : List α) : Except ε (σ × List α × List ω) :=
  F.drain (buffer ++ chunk).length state (buffer ++ chunk) []

def ending : Except ε (List ω × ρ) → List ω × Except ε ρ
  | .error e => ([], .error e)
  | .ok (outputs, result) => (outputs, .ok result)

/-- The chunks in turn, up to the first that fails, and then the end: the outputs delivered and the result. -/
def feed (finish : σ → List α → Except ε (List ω × ρ)) : σ → List α → List (List α) → List ω × Except ε ρ
  | state, buffer, [] => ending (finish state buffer)
  | state, buffer, chunk :: chunks =>
    match F.push state buffer chunk with
    | .error e => ([], .error e)
    | .ok (state, buffer, outputs) =>
      (outputs ++ (feed finish state buffer chunks).1, (feed finish state buffer chunks).2)

def cut : Nat → List α → List (List α) × List α
  | 0, buffer => ([], buffer)
  | fuel + 1, buffer =>
    match F.boundary buffer with
    | none => ([], buffer)
    | some (n, k) => (buffer.take n :: (cut fuel (buffer.drop (n + k))).1, (cut fuel (buffer.drop (n + k))).2)

def blocks (buffer : List α) : List (List α) := (F.cut buffer.length buffer).1

def rest (buffer : List α) : List α := (F.cut buffer.length buffer).2

/-- The blocks in turn: the outputs before the first failing one, and the state after the last. -/
def steps : σ → List (List α) → List ω × Except ε σ
  | state, [] => ([], .ok state)
  | state, block :: blocks =>
    match F.block state block with
    | .error e => ([], .error e)
    | .ok (state, output) => (output.toList ++ (steps state blocks).1, (steps state blocks).2)

variable {F} {state state' : σ} {buffer c : List α} {outputs : List ω} {e : ε} {n k fuel : Nat}

theorem cut_fuel : ∀ {fuel : Nat} {buffer : List α}, buffer.length ≤ fuel →
    F.cut fuel buffer = F.cut buffer.length buffer := by
  intro fuel buffer h
  induction hlength : buffer.length using Nat.strongRecOn generalizing fuel buffer with
  | _ length ih =>
    subst hlength
    rcases hboundary : F.boundary buffer with _ | ⟨n, k⟩
    · cases fuel <;> cases hl : buffer.length <;> simp_all [cut]
    · obtain ⟨hpos, hle⟩ := F.boundary_le hboundary
      obtain ⟨fuel, rfl⟩ : ∃ f, fuel = f + 1 := ⟨fuel - 1, by omega⟩
      obtain ⟨l, hl⟩ : ∃ l, buffer.length = l + 1 := ⟨buffer.length - 1, by omega⟩
      have hdrop : (buffer.drop (n + k)).length < buffer.length := by rw [length_drop]; omega
      have hfuel := @ih _ hdrop fuel (buffer.drop (n + k)) (by omega) rfl
      have hself := @ih _ hdrop l (buffer.drop (n + k)) (by omega) rfl
      rw [hl, cut, cut, hboundary]
      simp only [hfuel, hself]

theorem blocks_none (h : F.boundary buffer = none) : F.blocks buffer = [] ∧ F.rest buffer = buffer := by
  unfold blocks rest
  cases hl : buffer.length <;> simp [cut, h]

theorem blocks_some (h : F.boundary buffer = some (n, k)) :
    F.blocks buffer = buffer.take n :: F.blocks (buffer.drop (n + k)) ∧
      F.rest buffer = F.rest (buffer.drop (n + k)) := by
  obtain ⟨hpos, hle⟩ := F.boundary_le h
  obtain ⟨l, hl⟩ : ∃ l, buffer.length = l + 1 := ⟨buffer.length - 1, by omega⟩
  have hdrop := @cut_fuel _ _ _ _ F l (buffer.drop (n + k)) (by rw [length_drop]; omega)
  unfold blocks rest
  rw [hl, cut, h]
  simp only [hdrop, and_self]

theorem drop_lt (h : F.boundary buffer = some (n, k)) : (buffer.drop (n + k)).length < buffer.length := by
  obtain ⟨hpos, hle⟩ := F.boundary_le h
  rw [length_drop]
  omega

theorem boundary_rest (buffer : List α) : F.boundary (F.rest buffer) = none := by
  induction hlength : buffer.length using Nat.strongRecOn generalizing buffer with
  | _ length ih =>
    subst hlength
    rcases hboundary : F.boundary buffer with _ | ⟨n, k⟩
    · rw [(blocks_none hboundary).2, hboundary]
    · rw [(blocks_some hboundary).2]
      exact ih _ (drop_lt hboundary) _ rfl

theorem blocks_append (buffer c : List α) :
    F.blocks (buffer ++ c) = F.blocks buffer ++ F.blocks (F.rest buffer ++ c) ∧
      F.rest (buffer ++ c) = F.rest (F.rest buffer ++ c) := by
  induction hlength : buffer.length using Nat.strongRecOn generalizing buffer with
  | _ length ih =>
    subst hlength
    rcases hboundary : F.boundary buffer with _ | ⟨n, k⟩
    · obtain ⟨hblocks, hrest⟩ := blocks_none hboundary
      simp [hblocks, hrest]
    · obtain ⟨hpos, hle⟩ := F.boundary_le hboundary
      obtain ⟨hblocks, hrest⟩ := blocks_some hboundary
      obtain ⟨hblocks', hrest'⟩ := blocks_some (F.boundary_append c hboundary)
      obtain ⟨hih, hihrest⟩ := ih _ (drop_lt hboundary) _ rfl
      have hdrop : (buffer ++ c).drop (n + k) = buffer.drop (n + k) ++ c := drop_append_of_le_length hle
      have htake : (buffer ++ c).take n = buffer.take n := take_append_of_le_length (by omega)
      rw [hblocks', hrest', hblocks, hrest, hdrop, htake, hih, hihrest]
      exact ⟨rfl, rfl⟩

theorem blocks_split {before after : List (List α)} (h : F.blocks buffer = before ++ after) :
    ∃ head tail, buffer = head ++ tail ∧ F.blocks head = before ∧ F.rest head = [] ∧ F.blocks tail = after := by
  induction before generalizing buffer with
  | nil =>
    have hnone : F.boundary [] = none := by
      rcases hboundary : F.boundary [] with _ | ⟨n, k⟩
      · rfl
      · obtain ⟨hpos, hle⟩ := F.boundary_le hboundary
        simp only [length_nil] at hle
        omega
    exact ⟨[], buffer, rfl, (blocks_none hnone).1, (blocks_none hnone).2, h⟩
  | cons block before ih =>
    rcases hboundary : F.boundary buffer with _ | ⟨n, k⟩
    · rw [(blocks_none hboundary).1] at h
      simp at h
    · obtain ⟨hpos, hle⟩ := F.boundary_le hboundary
      rw [(blocks_some hboundary).1, cons_append, List.cons.injEq] at h
      obtain ⟨rfl, h⟩ := h
      obtain ⟨head, tail, hbuffer, hhead, hrest, htail⟩ := ih h
      have hboundary' := F.boundary_append head (F.boundary_take hboundary)
      have hlength : (buffer.take (n + k)).length = n + k := by rw [length_take]; omega
      have hdrop : (buffer.take (n + k) ++ head).drop (n + k) = head := drop_left' hlength
      have htake : (buffer.take (n + k) ++ head).take n = buffer.take n := by
        rw [take_append_of_le_length (by omega), take_take, Nat.min_eq_left (by omega)]
      refine ⟨buffer.take (n + k) ++ head, tail, ?_, ?_, ?_, htail⟩
      · rw [append_assoc, ← hbuffer, take_append_drop]
      · rw [(blocks_some hboundary').1, hdrop, htake, hhead]
      · rw [(blocks_some hboundary').2, hdrop, hrest]

theorem steps_append {before after : List (List α)} {state : σ} :
    F.steps state (before ++ after) =
      match F.steps state before with
      | (outputs, .ok state') => (outputs ++ (F.steps state' after).1, (F.steps state' after).2)
      | (outputs, .error e) => (outputs, .error e) := by
  induction before generalizing state with
  | nil => rfl
  | cons block before ih =>
    rw [cons_append, steps, steps]
    rcases F.block state block with e | ⟨state', output⟩
    · rfl
    · simp only [ih]
      rcases hsteps : F.steps state' before with ⟨outputs, e | state''⟩ <;> simp [append_assoc]

def delivered (buffer : List α) (outputs : List ω) : List ω × Except ε σ → Except ε (σ × List α × List ω)
  | (more, .ok state) => .ok (state, buffer, outputs ++ more)
  | (_, .error e) => .error e

theorem drain_eq (h : buffer.length ≤ fuel) :
    F.drain fuel state buffer outputs = delivered (F.rest buffer) outputs (F.steps state (F.blocks buffer)) := by
  induction fuel generalizing state buffer outputs with
  | zero =>
    obtain rfl : buffer = [] := eq_nil_of_length_eq_zero (by omega)
    simp [drain, blocks, rest, cut, steps, delivered]
  | succ fuel ih =>
    rw [drain]
    rcases hboundary : F.boundary buffer with _ | ⟨n, k⟩
    · simp [(blocks_none hboundary).1, (blocks_none hboundary).2, steps, delivered]
    · have hlt := drop_lt hboundary
      rw [(blocks_some hboundary).1, (blocks_some hboundary).2, steps]
      simp only
      rcases F.block state (buffer.take n) with e | ⟨state', output⟩
      · rfl
      · simp only
        rw [ih (by omega)]
        rcases F.steps state' (F.blocks (buffer.drop (n + k))) with ⟨more, e | state''⟩
        · rfl
        · simp [delivered, append_assoc]

theorem push_eq : F.push state buffer c =
    delivered (F.rest (buffer ++ c)) [] (F.steps state (F.blocks (buffer ++ c))) := drain_eq (Nat.le_refl _)

variable {finish : σ → List α → Except ε (List ω × ρ)} {chunks : List (List α)}

theorem feed_ok (hbuffer : F.boundary buffer = none)
    (h : F.steps state (F.blocks (buffer ++ chunks.flatten)) = (outputs, .ok state')) :
    F.feed finish state buffer chunks =
      (outputs ++ (ending (finish state' (F.rest (buffer ++ chunks.flatten)))).1,
        (ending (finish state' (F.rest (buffer ++ chunks.flatten)))).2) := by
  induction chunks generalizing state buffer outputs with
  | nil =>
    rw [flatten_nil, append_nil] at h ⊢
    rw [(blocks_none hbuffer).1, steps] at h
    cases h
    rw [(blocks_none hbuffer).2]
    rfl
  | cons chunk chunks ih =>
    rw [flatten_cons, ← append_assoc] at h ⊢
    obtain ⟨hblocks, hrest⟩ := blocks_append (F := F) (buffer ++ chunk) chunks.flatten
    rw [hblocks, steps_append] at h
    rw [feed, push_eq, hrest]
    rcases hsteps : F.steps state (F.blocks (buffer ++ chunk)) with ⟨first, e | middle⟩
    · rw [hsteps] at h
      cases h
    · rw [hsteps] at h
      simp only [Prod.mk.injEq] at h
      obtain ⟨rfl, hlast⟩ := h
      have hmiddle := ih (boundary_rest (buffer ++ chunk)) (Prod.ext rfl hlast)
      simp only [delivered, hmiddle, nil_append, append_assoc]

theorem feed_error (hbuffer : F.boundary buffer = none)
    (h : F.steps state (F.blocks (buffer ++ chunks.flatten)) = (outputs, .error e)) :
    (F.feed finish state buffer chunks).1 <+: outputs ∧ (F.feed finish state buffer chunks).2 = .error e := by
  induction chunks generalizing state buffer outputs with
  | nil =>
    rw [flatten_nil, append_nil, (blocks_none hbuffer).1, steps] at h
    cases h
  | cons chunk chunks ih =>
    rw [flatten_cons, ← append_assoc] at h
    rw [(blocks_append (F := F) (buffer ++ chunk) chunks.flatten).1, steps_append] at h
    rw [feed, push_eq]
    rcases hsteps : F.steps state (F.blocks (buffer ++ chunk)) with ⟨first, e' | middle⟩
    · rw [hsteps] at h
      cases h
      exact ⟨List.nil_prefix, rfl⟩
    · rw [hsteps] at h
      simp only [Prod.mk.injEq] at h
      obtain ⟨rfl, hlast⟩ := h
      obtain ⟨hhead, hresult⟩ := ih (boundary_rest (buffer ++ chunk)) (Prod.ext rfl hlast)
      exact ⟨(prefix_append_right_inj first).mpr hhead, hresult⟩

theorem boundary_nil : F.boundary [] = none := by
  rcases hboundary : F.boundary [] with _ | ⟨n, k⟩
  · rfl
  · obtain ⟨hpos, hle⟩ := F.boundary_le hboundary
    simp only [length_nil] at hle
    omega

variable (F) in
/-- No block that fails comes after one that put something out. -/
def Quiet (state : σ) (blocks : List (List α)) : Prop :=
  ∀ before bad after outputs middle e, blocks = before ++ bad :: after →
    F.steps state before = (outputs, .ok middle) → F.block middle bad = .error e → outputs = []

theorem steps_error {blocks : List (List α)} (h : F.steps state blocks = (outputs, .error e)) :
    ∃ before bad after middle, blocks = before ++ bad :: after ∧ F.steps state before = (outputs, .ok middle) ∧
      F.block middle bad = .error e := by
  induction blocks generalizing state outputs with
  | nil => cases h
  | cons block blocks ih =>
    rw [steps] at h
    rcases hblock : F.block state block with e' | ⟨state', output⟩
    · rw [hblock] at h
      cases h
      exact ⟨[], block, blocks, state, rfl, rfl, hblock⟩
    · rw [hblock] at h
      simp only [Prod.mk.injEq] at h
      obtain ⟨rfl, herror⟩ := h
      obtain ⟨before, bad, after, middle, rfl, hbefore, hbad⟩ := ih (Prod.ext rfl herror)
      exact ⟨block :: before, bad, after, middle, rfl, by rw [steps, hblock]; simp [hbefore], hbad⟩

theorem steps_bad {before after : List (List α)} {bad : List α}
    (hbefore : F.steps state before = (outputs, .ok state')) (hbad : F.block state' bad = .error e) :
    F.steps state (before ++ bad :: after) = (outputs, .error e) := by
  rw [steps_append, hbefore]
  simp [steps, hbad]

theorem feed_eq_iff (finish : σ → List α → Except ε (List ω × ρ)) (state : σ) (stream : List α) :
    (∀ cs ds : List (List α), cs.flatten = stream → ds.flatten = stream →
      F.feed finish state [] cs = F.feed finish state [] ds) ↔ F.Quiet state (F.blocks stream) := by
  constructor
  · intro h before bad after outputs middle e hblocks hbefore hbad
    obtain ⟨head, tail, rfl, hhead, hrest, htail⟩ := blocks_split hblocks
    have hwhole := h [head ++ tail] [head, tail] (by simp) (by simp)
    have hfirst : F.feed finish state [] [head ++ tail] = ([], .error e) := by
      rw [feed, push_eq, nil_append, hblocks, steps_bad hbefore hbad]
      rfl
    have hsecond : F.feed finish state [] [head, tail] = (outputs, .error e) := by
      rw [feed, push_eq, nil_append, hhead, hbefore]
      simp only [delivered, nil_append, hrest]
      rw [feed, push_eq, nil_append, htail, steps, hbad]
      simp [delivered]
    rw [hfirst, hsecond] at hwhole
    exact (Prod.mk.inj hwhole).1.symm
  · rintro hquiet cs ds hcs hds
    rcases hsteps : F.steps state (F.blocks stream) with ⟨outputs, e | final⟩
    · obtain ⟨before, bad, after, middle, hblocks, hbefore, hbad⟩ := steps_error hsteps
      obtain rfl := hquiet before bad after outputs middle e hblocks hbefore hbad
      have hfeed : ∀ chunks : List (List α), chunks.flatten = stream →
          F.feed finish state [] chunks = ([], .error e) := by
        rintro chunks rfl
        obtain ⟨hhead, hresult⟩ := @feed_error _ _ _ _ _ F _ _ _ _ finish chunks boundary_nil hsteps
        exact Prod.ext (prefix_nil.mp hhead) hresult
      rw [hfeed cs hcs, hfeed ds hds]
    · subst hcs
      have hsteps' : F.steps state (F.blocks ([] ++ ds.flatten)) = (outputs, .ok final) := by
        rw [hds]
        exact hsteps
      rw [feed_ok boundary_nil hsteps, feed_ok boundary_nil hsteps', hds]

section

variable [BEq α]

/-- `windows(n).position(..)`: where a pattern first occurs. -/
def position (needle : List α) : List α → Option Nat
  | [] => none
  | b :: bs => if needle.isPrefixOf (b :: bs) then some 0 else (position needle bs).map (· + 1)

variable [LawfulBEq α] {needle bytes more : List α} {i j : Nat}

theorem position_eq_some : position needle bytes = some i ↔
    i < bytes.length ∧ needle <+: bytes.drop i ∧ ∀ j < i, ¬ needle <+: bytes.drop j := by
  induction bytes generalizing i with
  | nil => simp [position]
  | cons b bs ih =>
    rw [position]
    split
    · rename_i hhere
      rw [List.isPrefixOf_iff_prefix] at hhere
      cases i with
      | zero => simp [hhere]
      | succ i =>
        simp only [Option.some.injEq, reduceCtorEq, false_iff]
        rintro ⟨-, -, hbefore⟩
        exact hbefore 0 (by omega) hhere
    · rename_i hhere
      rw [List.isPrefixOf_iff_prefix] at hhere
      cases i with
      | zero => simp [hhere]
      | succ i =>
        rw [Option.map_eq_some_iff]
        simp only [Nat.add_right_cancel_iff, exists_eq_right, ih, length_cons, drop_succ_cons,
          Nat.add_lt_add_iff_right]
        refine and_congr_right fun _ => and_congr_right fun _ => ⟨fun h j hj => ?_, fun h j hj => ?_⟩
        · cases j with
          | zero => exact hhere
          | succ j => exact h j (by omega)
        · exact h (j + 1) (by omega)

omit [BEq α] [LawfulBEq α] in
theorem occurs_append (hneedle : needle ≠ []) :
    needle <+: bytes.drop i ↔ needle <+: (bytes ++ more).drop i ∧ i + needle.length ≤ bytes.length := by
  have hpos := length_pos_iff.mpr hneedle
  constructor
  · intro h
    have hle := h.length_le
    rw [length_drop] at hle
    rw [drop_append_of_le_length (by omega)]
    exact ⟨h.trans (prefix_append _ _), by omega⟩
  · rintro ⟨h, hle⟩
    rw [drop_append_of_le_length (by omega)] at h
    exact prefix_of_prefix_length_le h (prefix_append _ _) (by rw [length_drop]; omega)

theorem position_le (h : position needle bytes = some i) : i + needle.length ≤ bytes.length := by
  obtain ⟨hlt, hhere, -⟩ := position_eq_some.mp h
  have hle := hhere.length_le
  rw [length_drop] at hle
  omega

theorem position_append (hneedle : needle ≠ []) : position needle bytes = some i ↔
    position needle (bytes ++ more) = some i ∧ i + needle.length ≤ bytes.length := by
  have hpos := length_pos_iff.mpr hneedle
  constructor
  · intro h
    have hle := position_le h
    obtain ⟨hlt, hhere, hbefore⟩ := position_eq_some.mp h
    refine ⟨position_eq_some.mpr ⟨by rw [length_append]; omega, ((occurs_append hneedle).mp hhere).1, ?_⟩, hle⟩
    exact fun j hj hj' => hbefore j hj ((occurs_append hneedle).mpr ⟨hj', by omega⟩)
  · rintro ⟨h, hle⟩
    obtain ⟨-, hhere, hbefore⟩ := position_eq_some.mp h
    refine position_eq_some.mpr ⟨by omega, (occurs_append hneedle).mpr ⟨hhere, hle⟩, fun j hj hj' => ?_⟩
    exact hbefore j hj ((occurs_append hneedle).mp hj').1

theorem position_take (hneedle : needle ≠ []) {m : Nat} : position needle (bytes.take m) = some i ↔
    position needle bytes = some i ∧ i + needle.length ≤ (bytes.take m).length := by
  have happend := @position_append α _ _ needle (bytes.take m) (bytes.drop m) i hneedle
  rwa [take_append_drop] at happend

theorem getElem?_of_position (h : position needle bytes = some i) (hj : j < needle.length) :
    bytes[i + j]? = needle[j]? := by
  obtain ⟨-, ⟨rest, hrest⟩, -⟩ := position_eq_some.mp h
  rw [← List.getElem?_drop, ← hrest, List.getElem?_append_left hj]

end

end Framing

/-! A stream of frames, each a length in a fixed number of items and then as many items: which frames a cut of the
    stream still holds, and where in the next frame the cut falls. -/

/-- A code of the lengths below a bound, of the same width for every length. -/
structure LengthCode (α : Type) where
  width : Nat
  bound : Nat
  encode : Nat → List α
  decode : List α → Nat
  width_pos : 0 < width
  length_encode (n : Nat) : (encode n).length = width
  decode_encode {n : Nat} : n < bound → decode (encode n) = n

namespace LengthCode

open List

inductive Ending where
  | boundary | inLength | inPayload
  deriving Repr, DecidableEq

variable {α : Type} (C : LengthCode α)

def frame (payload : List α) : List α := C.encode payload.length ++ payload

def stream (payloads : List (List α)) : List α := payloads.flatMap C.frame

def whole : List (List α) → Nat → List (List α)
  | [], _ => []
  | payload :: payloads, n =>
    if C.width + payload.length ≤ n then payload :: whole payloads (n - (C.width + payload.length)) else []

def surplus (payloads : List (List α)) (n : Nat) : Nat := n - (C.stream (C.whole payloads n)).length

def ending (surplus : Nat) : Ending :=
  if surplus = 0 then .boundary else if surplus < C.width then .inLength else .inPayload

/-- The frames at the head of the items, and where the items stop. Every frame takes an item, so their number bounds
    the loop. -/
def split : Nat → List α → List (List α) × Ending
  | 0, _ => ([], .boundary)
  | fuel + 1, items =>
    if items.isEmpty then ([], .boundary)
    else if items.length < C.width then ([], .inLength)
    else
      let n := C.decode (items.take C.width)
      let rest := items.drop C.width
      if rest.length < n then ([], .inPayload)
      else (rest.take n :: (split fuel (rest.drop n)).1, (split fuel (rest.drop n)).2)

variable {C} {payload : List α} {payloads : List (List α)} {items : List α} {n fuel : Nat}

@[simp] theorem length_frame : (C.frame payload).length = C.width + payload.length := by
  simp [frame, C.length_encode]

@[simp] theorem stream_nil : C.stream [] = [] := rfl

@[simp] theorem stream_cons : C.stream (payload :: payloads) = C.frame payload ++ C.stream payloads := rfl

theorem whole_stream : C.whole payloads (C.stream payloads).length = payloads := by
  induction payloads with
  | nil => rfl
  | cons payload payloads ih => simp [whole, ih]

theorem surplus_stream : C.surplus payloads (C.stream payloads).length = 0 := by simp [surplus, whole_stream]

theorem surplus_within (h : C.width + payload.length ≤ n) :
    C.surplus (payload :: payloads) n = C.surplus payloads (n - (C.width + payload.length)) := by
  simp only [surplus, whole, if_pos h, stream_cons, length_append, length_frame]
  omega

theorem surplus_past (h : n < C.width + payload.length) : C.surplus (payload :: payloads) n = n := by
  simp [surplus, whole, Nat.not_le_of_lt h]

theorem drop_frame : (C.frame payload ++ items).drop C.width = payload ++ items := by
  rw [frame, append_assoc, drop_left' (C.length_encode _)]

theorem decode_frame (h : payload.length < C.bound) :
    C.decode ((C.frame payload ++ items).take C.width) = payload.length := by
  rw [frame, append_assoc, take_left' (C.length_encode _), C.decode_encode h]

theorem split_frame (h : payload.length < C.bound) : C.split (fuel + 1) (C.frame payload ++ items) =
    (payload :: (C.split fuel items).1, (C.split fuel items).2) := by
  have hwidth := C.width_pos
  have hne : (C.frame payload ++ items).isEmpty = false := by
    rw [isEmpty_eq_false_iff, ← length_pos_iff, length_append, length_frame]
    omega
  have hlength : ¬(C.frame payload ++ items).length < C.width := by
    simp only [length_append, length_frame]
    omega
  have hrest : ¬(payload ++ items).length < payload.length := by simp
  simp only [split, hne, hlength, hrest, decode_frame h, drop_frame, Bool.false_eq_true, if_false, take_left,
    drop_left]

theorem split_cut (h : payload.length < C.bound) (hn : n < C.width + payload.length) :
    C.split (fuel + 1) ((C.frame payload ++ items).take n) = ([], C.ending n) := by
  have hlength : ((C.frame payload ++ items).take n).length = n := by
    simp only [length_take, length_append, length_frame]
    omega
  rcases Nat.eq_zero_or_pos n with rfl | hpos
  · simp [split, ending]
  have hne : ((C.frame payload ++ items).take n).isEmpty = false := by
    rw [isEmpty_eq_false_iff, ← length_pos_iff, hlength]
    exact hpos
  by_cases hwidth : n < C.width
  · simp [split, ending, hne, hlength, hwidth, hpos.ne']
  · have htake : ((C.frame payload ++ items).take n).take C.width = (C.frame payload ++ items).take C.width := by
      rw [take_take, Nat.min_eq_left (by omega)]
    simp only [split, hne, hlength, hwidth, htake, decode_frame h, ending, hpos.ne', Bool.false_eq_true, if_false,
      length_drop]
    rw [if_pos (by omega)]

theorem split_take (h : ∀ payload ∈ payloads, payload.length < C.bound) (hn : n ≤ (C.stream payloads).length)
    (hfuel : n < fuel) :
    C.split fuel ((C.stream payloads).take n) = (C.whole payloads n, C.ending (C.surplus payloads n)) := by
  induction payloads generalizing n fuel with
  | nil =>
    obtain ⟨fuel, rfl⟩ := Nat.exists_eq_succ_of_ne_zero (by omega : fuel ≠ 0)
    simp [split, whole, surplus, ending, Nat.le_zero.mp hn]
  | cons payload payloads ih =>
    obtain ⟨fuel, rfl⟩ := Nat.exists_eq_succ_of_ne_zero (by omega : fuel ≠ 0)
    have hpayload := h payload mem_cons_self
    have hwidth := C.width_pos
    by_cases hle : C.width + payload.length ≤ n
    · have htake : (C.frame payload ++ C.stream payloads).take n =
          C.frame payload ++ (C.stream payloads).take (n - (C.width + payload.length)) := by
        rw [take_append, length_frame, take_of_length_le (by simpa using hle)]
      simp only [stream_cons, length_append, length_frame] at hn
      rw [stream_cons, htake, split_frame hpayload,
        ih (fun p hp => h p (mem_cons_of_mem _ hp)) (by omega) (by omega), surplus_within hle, whole, if_pos hle]
    · rw [stream_cons, split_cut hpayload (by omega), surplus_past (by omega), whole, if_neg hle]

end LengthCode
