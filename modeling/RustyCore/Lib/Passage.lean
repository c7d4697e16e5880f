import Mathlib.Algebra.Order.Ring.Nat
import Mathlib.Data.List.Forall2
import Mathlib.Data.List.Infix

/-! Passages that stand one after another in a text. -/

namespace Passage

variable {α : Type}

/-- The passages occur in the text, each after the end of the one before. -/
def InOrder : List (List α) → List α → Prop
  | [], _ => True
  | passage :: passages, text => ∃ before after, text = before ++ passage ++ after ∧ InOrder passages after

theorem InOrder.length_le {passages : List (List α)} {text : List α} (h : InOrder passages text) :
    (passages.map List.length).sum ≤ text.length := by
  induction passages generalizing text with
  | nil => exact Nat.zero_le _
  | cons passage passages ih =>
    obtain ⟨before, after, rfl, hrest⟩ := h
    have := ih hrest
    simp only [List.map_cons, List.sum_cons, List.length_append]
    omega

theorem inOrder_flatten (passages : List (List α)) : InOrder passages passages.flatten := by
  induction passages with
  | nil => trivial
  | cons passage passages ih => exact ⟨[], passages.flatten, by simp, ih⟩

theorem flatten_filter_not_isEmpty (passages : List (List α)) :
    (passages.filter fun passage => !passage.isEmpty).flatten = passages.flatten := by
  induction passages with
  | nil => rfl
  | cons passage passages ih =>
    cases passage with
    | nil => simpa using ih
    | cons a passage => simp [ih]

theorem length_le_of_flatten {β : Type} {f g : β → List α} {l : List β} (hle : ∀ b ∈ l, (g b).length ≤ (f b).length) :
    ((l.map g).flatten).length ≤ ((l.map f).flatten).length ∧
      (((l.map f).flatten).length ≤ ((l.map g).flatten).length → ∀ b ∈ l, (f b).length ≤ (g b).length) := by
  induction l with
  | nil => simp
  | cons b l ih =>
    obtain ⟨hfirst, hrest⟩ := List.forall_mem_cons.mp hle
    obtain ⟨hsum, hall⟩ := ih hrest
    simp only [List.map_cons, List.flatten_cons, List.length_append]
    refine ⟨by omega, fun h b' hb' => ?_⟩
    rcases List.mem_cons.mp hb' with rfl | hb'
    · omega
    · exact hall (by omega) b' hb'

end Passage

/-! Splitting a text into pieces that a list of tokens stands for, one piece for each token. -/

namespace Text

/-- The text can be split into pieces, one for each token and each such that its token stands for it. -/
def Splits {τ α : Type} (stands : τ → List α → Prop) (tokens : List τ) (text : List α) : Prop :=
  ∃ pieces : List (List α), text = pieces.flatten ∧ List.Forall₂ stands tokens pieces

variable {τ α : Type} {stands stands' : τ → List α → Prop} {token : τ} {tokens : List τ} {text : List α} {p : α → Prop}

theorem splits_nil : Splits stands [] text ↔ text = [] := by
  constructor
  · rintro ⟨pieces, rfl, h⟩
    rw [List.forall₂_nil_left_iff.mp h]
    rfl
  · rintro rfl
    exact ⟨[], rfl, .nil⟩

theorem splits_cons : Splits stands (token :: tokens) text ↔
    ∃ piece tail, text = piece ++ tail ∧ stands token piece ∧ Splits stands tokens tail := by
  constructor
  · rintro ⟨pieces, rfl, h⟩
    obtain ⟨piece, rest, hpiece, hrest, rfl⟩ := List.forall₂_cons_left_iff.mp h
    exact ⟨piece, rest.flatten, rfl, hpiece, rest, rfl, hrest⟩
  · rintro ⟨piece, tail, rfl, hpiece, rest, rfl, hrest⟩
    exact ⟨piece :: rest, rfl, .cons hpiece hrest⟩

theorem Splits.mono (h : ∀ token piece, stands token piece → stands' token piece) (hsplits : Splits stands tokens text) :
    Splits stands' tokens text := by
  obtain ⟨pieces, htext, hpieces⟩ := hsplits
  exact ⟨pieces, htext, hpieces.imp fun token piece => h token piece⟩

theorem splits_cons_any (h : ∀ piece, stands token piece) :
    Splits stands (token :: tokens) text ↔ ∃ tail, tail <:+ text ∧ Splits stands tokens tail := by
  rw [splits_cons]
  constructor
  · rintro ⟨piece, tail, rfl, -, htail⟩
    exact ⟨tail, List.suffix_append piece tail, htail⟩
  · rintro ⟨tail, ⟨piece, rfl⟩, htail⟩
    exact ⟨piece, tail, rfl, h piece, htail⟩

theorem splits_cons_one (h : ∀ piece, stands token piece ↔ ∃ c, piece = [c] ∧ p c) :
    Splits stands (token :: tokens) text ↔ ∃ c tail, text = c :: tail ∧ p c ∧ Splits stands tokens tail := by
  rw [splits_cons]
  constructor
  · rintro ⟨piece, tail, rfl, hpiece, htail⟩
    obtain ⟨c, rfl, hc⟩ := (h piece).mp hpiece
    exact ⟨c, tail, rfl, hc, htail⟩
  · rintro ⟨c, tail, rfl, hc, htail⟩
    exact ⟨[c], tail, rfl, (h [c]).mpr ⟨c, rfl, hc⟩, htail⟩

end Text
