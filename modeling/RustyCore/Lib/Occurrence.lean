import Mathlib.Data.List.Range
import RustyCore.Lib.Search

/-! Whether a pattern occurs in a text, and what is split off at a prefix and at a character. -/

namespace Text

open List

theorem before_isSome {needle cs : List Char} : (before needle cs).isSome = true ↔ needle <:+: cs := by
  rw [← not_iff_not, ← before_eq_none, Bool.not_eq_true, Option.isSome_eq_false_iff, Option.isNone_iff_eq_none]

theorem stripPrefix_eq_some {head cs rest : List Char} : stripPrefix head cs = some rest ↔ cs = head ++ rest := by
  rw [stripPrefix, Option.ite_none_right_eq_some, isPrefixOf_iff_prefix, Option.some.injEq]
  constructor
  · rintro ⟨⟨tail, rfl⟩, rfl⟩
    rw [drop_left]
  · rintro rfl
    exact ⟨prefix_append head rest, drop_left⟩

theorem before_char {c : Char} {cs head : List Char} :
    before [c] cs = some head ↔ ∃ rest, cs = head ++ c :: rest ∧ c ∉ head := by
  induction cs generalizing head with
  | nil => simp [before]
  | cons d cs ih =>
    rw [before]
    split
    · rename_i hprefix
      obtain ⟨rest, hrest⟩ := isPrefixOf_iff_prefix.mp hprefix
      obtain ⟨rfl, rfl⟩ := List.cons.inj hrest
      constructor
      · rintro ⟨⟩
        exact ⟨_, rfl, not_mem_nil⟩
      · rintro ⟨rest, hrest, hnot⟩
        cases head with
        | nil => rfl
        | cons e head => exact absurd (List.cons.inj hrest).1 fun h => hnot (by simp [h])
    · rename_i hprefix
      have hne : c ≠ d := by
        rintro rfl
        exact hprefix (List.isPrefixOf_iff_prefix.mpr ⟨cs, rfl⟩)
      rw [Option.map_eq_some_iff]
      constructor
      · rintro ⟨found, hfound, rfl⟩
        obtain ⟨rest, rfl, hnot⟩ := ih.mp hfound
        exact ⟨rest, rfl, by simp [hne, hnot]⟩
      · rintro ⟨rest, hrest, hnot⟩
        cases head with
        | nil => exact absurd (List.cons.inj hrest).1.symm hne
        | cons e head =>
          obtain ⟨rfl, rfl⟩ := List.cons.inj hrest
          exact ⟨head, ih.mpr ⟨rest, rfl, fun h => hnot (mem_cons_of_mem _ h)⟩, rfl⟩

theorem splitOnce_char {c : Char} {cs head rest : List Char} :
    splitOnce [c] cs = some (head, rest) ↔ cs = head ++ c :: rest ∧ c ∉ head := by
  rw [splitOnce, Option.map_eq_some_iff]
  constructor
  · rintro ⟨found, hfound, heq⟩
    obtain ⟨tail, rfl, hnot⟩ := before_char.mp hfound
    obtain ⟨rfl, rfl⟩ := Prod.mk.inj heq
    exact ⟨by simp, hnot⟩
  · rintro ⟨rfl, hnot⟩
    exact ⟨head, before_char.mpr ⟨rest, rfl, hnot⟩, by simp⟩

end Text

/-! The places at which a pattern occurs in a text, and the matches a search from the left counts: after a match it goes
    on behind it, so it passes over the occurrences that overlap it. -/

namespace Text

open List

def positions (needle cs : List Char) : List Nat :=
  (List.range (cs.length + 1)).filter fun i => needle.isPrefixOf (cs.drop i)

def countMatches (needle : List Char) : Nat → List Char → Nat
  | 0, [] => if needle = [] then 1 else 0
  | _ + 1, [] => 0
  | 0, c :: cs =>
    if needle.isPrefixOf (c :: cs) then 1 + countMatches needle (needle.length - 1) cs else countMatches needle 0 cs
  | skip + 1, _ :: cs => countMatches needle skip cs

/-- `str::matches(..).count()`. An empty pattern matches before every character and at the end. -/
def matchCount (needle cs : List Char) : Nat := countMatches needle 0 cs

/-- `str::replacen` with a count of one. -/
def replaceFirst (needle new cs : List Char) : List Char :=
  match before needle cs with
  | none => cs
  | some head => head ++ new ++ cs.drop (head.length + needle.length)

variable {needle new cs : List Char} {c : Char} {i j skip : Nat}

theorem mem_positions : i ∈ positions needle cs ↔ i ≤ cs.length ∧ needle <+: cs.drop i := by
  unfold positions
  rw [mem_filter, mem_range, isPrefixOf_iff_prefix, Nat.lt_succ_iff]

theorem zero_mem_positions : 0 ∈ positions needle cs ↔ needle <+: cs := by simp [mem_positions]

theorem succ_mem_positions : i + 1 ∈ positions needle (c :: cs) ↔ i ∈ positions needle cs := by simp [mem_positions]

theorem positions_nil_text : i ∈ positions needle [] ↔ i = 0 ∧ needle = [] := by
  rw [mem_positions, drop_nil, prefix_nil]
  simp

theorem countMatches_eq_zero : countMatches needle skip cs = 0 ↔ ∀ j ∈ positions needle cs, j < skip := by
  induction cs generalizing skip with
  | nil =>
    simp only [positions_nil_text]
    cases skip with
    | zero | succ => simp [countMatches]
  | cons c cs ih =>
    cases skip with
    | succ skip =>
      rw [countMatches, ih]
      constructor
      · intro h j hj
        cases j with
        | zero => omega
        | succ j => exact Nat.succ_lt_succ (h j (succ_mem_positions.mp hj))
      · exact fun h j hj => Nat.lt_of_succ_lt_succ (h (j + 1) (succ_mem_positions.mpr hj))
    | zero =>
      rw [countMatches]
      by_cases hprefix : needle.isPrefixOf (c :: cs) = true
      · rw [if_pos hprefix]
        constructor
        · intro h
          omega
        · intro h
          exact absurd (h 0 (zero_mem_positions.mpr (List.isPrefixOf_iff_prefix.mp hprefix))) (lt_irrefl 0)
      · rw [if_neg hprefix, ih]
        constructor
        · intro h j hj
          cases j with
          | zero => exact absurd (List.isPrefixOf_iff_prefix.mpr (zero_mem_positions.mp hj)) hprefix
          | succ j => exact absurd (h j (succ_mem_positions.mp hj)) (Nat.not_lt_zero j)
        · exact fun h j hj => absurd (h (j + 1) (succ_mem_positions.mpr hj)) (Nat.not_lt_zero _)

theorem matchCount_eq_one : matchCount needle cs = 1 ↔
    ∃ i ∈ positions needle cs, ∀ j ∈ positions needle cs, j = i ∨ (i < j ∧ j < i + needle.length) := by
  rw [matchCount]
  induction cs with
  | nil =>
    simp only [positions_nil_text, countMatches]
    by_cases hnil : needle = []
    · simp [hnil]
    · simp [hnil]
  | cons c cs ih =>
    rw [countMatches]
    by_cases hprefix : needle.isPrefixOf (c :: cs) = true
    · have hzero : 0 ∈ positions needle (c :: cs) := zero_mem_positions.mpr (List.isPrefixOf_iff_prefix.mp hprefix)
      rw [if_pos hprefix, Nat.add_eq_left, countMatches_eq_zero]
      constructor
      · intro h
        refine ⟨0, hzero, fun j hj => ?_⟩
        cases j with
        | zero => exact Or.inl rfl
        | succ j =>
          have := h j (succ_mem_positions.mp hj)
          exact Or.inr ⟨Nat.succ_pos j, by omega⟩
      · rintro ⟨i, -, h⟩ j hj
        obtain rfl : i = 0 := by
          have := h 0 hzero
          omega
        have := h (j + 1) (succ_mem_positions.mpr hj)
        omega
    · have hnot : 0 ∉ positions needle (c :: cs) := fun hzero =>
        hprefix (List.isPrefixOf_iff_prefix.mpr (zero_mem_positions.mp hzero))
      rw [if_neg hprefix, ih]
      constructor
      · rintro ⟨i, hi, h⟩
        refine ⟨i + 1, succ_mem_positions.mpr hi, fun j hj => ?_⟩
        cases j with
        | zero => exact absurd hj hnot
        | succ j =>
          have := h j (succ_mem_positions.mp hj)
          omega
      · rintro ⟨i, hi, h⟩
        cases i with
        | zero => exact absurd hi hnot
        | succ i =>
          refine ⟨i, succ_mem_positions.mp hi, fun j hj => ?_⟩
          have := h (j + 1) (succ_mem_positions.mpr hj)
          omega

theorem before_first (hi : i ∈ positions needle cs) (hfirst : ∀ j ∈ positions needle cs, i ≤ j) :
    before needle cs = some (cs.take i) := by
  induction cs generalizing i with
  | nil =>
    obtain ⟨rfl, rfl⟩ := positions_nil_text.mp hi
    rfl
  | cons c cs ih =>
    rw [before]
    cases i with
    | zero => exact if_pos (List.isPrefixOf_iff_prefix.mpr (zero_mem_positions.mp hi))
    | succ i =>
      have hprefix : ¬needle.isPrefixOf (c :: cs) = true := fun h =>
        absurd (hfirst 0 (zero_mem_positions.mpr (List.isPrefixOf_iff_prefix.mp h))) (Nat.not_succ_le_zero i)
      have htake := ih (succ_mem_positions.mp hi) fun j hj =>
        Nat.le_of_succ_le_succ (hfirst (j + 1) (succ_mem_positions.mpr hj))
      rw [if_neg hprefix, htake]
      rfl

theorem replaceFirst_eq (hi : i ∈ positions needle cs) (hfirst : ∀ j ∈ positions needle cs, i ≤ j) :
    replaceFirst needle new cs = cs.take i ++ new ++ cs.drop (i + needle.length) := by
  have hlength : (cs.take i).length = i := length_take_of_le (mem_positions.mp hi).1
  rw [replaceFirst, before_first hi hfirst]
  simp only [hlength]

end Text
