import RustyCore.Lib.Occurrence

/-! Reading back lines that were joined: they come back as they were, except that a carriage return at the end of one is
    lost when they are joined without. Which lines of a text end with a carriage return. -/

namespace Text

open List

variable {ls : List (List Char)} {text line : List Char}

/-- The line does not end with a carriage return. -/
def Bare (line : List Char) : Prop := line.getLast? ≠ some '\r'

theorem stripReturn_bare (h : Bare line) : stripReturn line = line := if_neg (by simpa [Bare] using h)

theorem stripReturn_append_return : stripReturn (line ++ ['\r']) = line := by simp [stripReturn]

theorem length_stripReturn_lt (h : ¬Bare line) : (stripReturn line).length < line.length := by
  have hlast : line.getLast? = some '\r' := not_not.mp h
  have hpos : 0 < line.length := by
    rw [length_pos_iff]
    rintro rfl
    cases hlast
  rw [stripReturn, if_pos (by simpa using hlast), length_dropLast]
  omega

theorem length_stripReturn_le (line : List Char) : (stripReturn line).length ≤ line.length := by
  by_cases h : Bare line
  · exact (congrArg List.length (stripReturn_bare h)).le
  · exact (length_stripReturn_lt h).le

theorem stripReturn_ne (h : ¬Bare line) : stripReturn line ≠ line := fun hsame =>
  (length_stripReturn_lt h).ne (congrArg List.length hsame)

theorem intercalate_append {sep : List Char} (h : ls ≠ []) :
    List.intercalate sep ls ++ sep = ls.flatMap (· ++ sep) := by
  induction ls with
  | nil => exact absurd rfl h
  | cons line ls ih =>
    cases ls with
    | nil => simp
    | cons next ls =>
      rw [intercalate_cons_cons, append_assoc, append_assoc, ih (cons_ne_nil _ _)]
      exact (append_assoc line sep _).symm

theorem lines_flatMap_newline (h : ∀ line ∈ ls, '\n' ∉ line) :
    lines (ls.flatMap (· ++ ['\n'])) = ls.map stripReturn := by
  induction ls with
  | nil => rfl
  | cons line ls ih =>
    obtain ⟨hline, hls⟩ := forall_mem_cons.mp h
    rw [flatMap_cons, append_assoc, singleton_append, lines_cons hline, ih hls, map_cons]

theorem lines_flatMap_return (h : ∀ line ∈ ls, '\n' ∉ line) : lines (ls.flatMap (· ++ ['\r', '\n'])) = ls := by
  have hflat : ls.flatMap (· ++ ['\r', '\n']) = (ls.map (· ++ ['\r'])).flatMap (· ++ ['\n']) := by
    simp [flatMap_map]
  rw [hflat, lines_flatMap_newline]
  · rw [map_map]
    conv_rhs => rw [← map_id ls]
    exact map_congr_left fun line _ => stripReturn_append_return
  · simpa using h

/-- A text without `\r\n`: only what follows the last line break can end with a carriage return. -/
theorem lines_bare (h : ¬['\r', '\n'] <:+: text) :
    (Bare text ∧ ∀ line ∈ lines text, Bare line) ∨
      (¬Bare text ∧ ∃ init last, lines text = init ++ [last] ∧ (∀ line ∈ init, Bare line) ∧ ¬Bare last) := by
  induction hlength : text.length using Nat.strong_induction_on generalizing text with
  | _ n ih =>
    subst hlength
    by_cases hmem : '\n' ∈ text
    · obtain ⟨line, rest, rfl, hline⟩ := eq_append_cons_of_mem hmem
      have hbare : Bare line := by
        intro hlast
        refine h ?_
        rw [eq_append_return hlast]
        exact ⟨line.dropLast, rest, by simp⟩
      have hrest : ¬['\r', '\n'] <:+: rest := fun hin =>
        h (hin.trans ((suffix_cons '\n' rest).trans (suffix_append line _)).isInfix)
      rw [lines_cons hline, stripReturn_bare hbare]
      have hlast : Bare (line ++ '\n' :: rest) ↔ Bare rest := by
        cases rest with
        | nil => simp [Bare]
        | cons c rest => simp [Bare, List.getLast?_append, List.getLast?_cons_cons]
      rw [hlast]
      rcases ih rest.length (by simp; omega) hrest rfl with ⟨htext, hall⟩ | ⟨htext, init, last, hlines, hinit, hlast⟩
      · exact Or.inl ⟨htext, forall_mem_cons.mpr ⟨hbare, hall⟩⟩
      · exact Or.inr ⟨htext, line :: init, last, by rw [hlines, cons_append],
          forall_mem_cons.mpr ⟨hbare, hinit⟩, hlast⟩
    · by_cases hnil : text = []
      · subst hnil
        exact Or.inl ⟨nofun, nofun⟩
      · rw [lines_last hmem hnil]
        by_cases hbare : Bare text
        · exact Or.inl ⟨hbare, by simpa using hbare⟩
        · exact Or.inr ⟨hbare, [], text, rfl, nofun, hbare⟩

theorem newline_not_mem_splitOn : ∀ {cs : List Char}, ∀ piece ∈ splitOn (· == '\n') cs, '\n' ∉ piece := by
  intro cs
  induction cs with
  | nil => simp [splitOn]
  | cons c cs ih =>
    obtain ⟨first, rest, hsplit⟩ := exists_cons_of_ne_nil (@splitOn_ne_nil (· == '\n') cs)
    rw [hsplit] at ih
    obtain ⟨hfirst, hrest⟩ := forall_mem_cons.mp ih
    by_cases hc : c = '\n'
    · simpa [splitOn, hsplit, hc] using ⟨hfirst, hrest⟩
    · simpa [splitOn, hsplit, hc, Ne.symm hc] using ⟨hfirst, hrest⟩

theorem newline_not_mem_stripReturn (h : '\n' ∉ line) : '\n' ∉ stripReturn line := by
  unfold stripReturn
  split
  · exact fun hmem => h (dropLast_subset _ hmem)
  · exact h

theorem lines_append_newline (line rest : List Char) :
    lines (line ++ '\n' :: rest) = (splitOn (· == '\n') line).map stripReturn ++ lines rest := by
  have hne : splitOn (· == '\n') rest ≠ [] := splitOn_ne_nil
  rw [lines, lines, splitOn_append_sep _ _ (by rfl), dropLast_append_of_ne_nil hne, map_append,
    List.getLast?_append_of_ne_nil _ hne]
  split
  · rfl
  · rfl
  · rw [append_assoc]
    rfl

theorem newline_not_mem_lines : ∀ line ∈ lines text, '\n' ∉ line := by
  have hpieces : ∀ piece ∈ splitOn (· == '\n') text, '\n' ∉ piece := newline_not_mem_splitOn
  have hended : ∀ line ∈ (splitOn (· == '\n') text).dropLast.map stripReturn, '\n' ∉ line := by
    intro line hline
    obtain ⟨piece, hpiece, rfl⟩ := mem_map.mp hline
    exact newline_not_mem_stripReturn (hpieces piece (dropLast_subset _ hpiece))
  intro line hline
  rw [lines] at hline
  split at hline
  · exact hended line hline
  · exact hended line hline
  · rename_i piece hne hlast
    rcases mem_append.mp hline with hline | hline
    · exact hended line hline
    · rw [mem_singleton.mp hline]
      exact hpieces piece (mem_of_getLast? hlast)

theorem trimMatches_stripReturn : trimMatches isWhitespace (stripReturn line) = trimMatches isWhitespace line := by
  unfold stripReturn
  split
  · rename_i hlast
    conv_rhs => rw [eq_append_return (beq_iff_eq.mp hlast), trimMatches_append_of_pos (by rfl)]
  · rfl

end Text
