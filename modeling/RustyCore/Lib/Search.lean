import RustyCore.Lib.Text
import Mathlib.Data.List.DropRight
import Mathlib.Data.List.Infix

/-! Searching a text for a pattern, and what the occurrences of a pattern in a text that is put together from
    pieces have to do with the pieces; the lines of such a text, and its first paragraph. -/

namespace Text

open List

/-- `str::split_once` with a string pattern: what stands before its first occurrence, and after it. -/
def splitOnce (needle cs : List Char) : Option (List Char × List Char) :=
  (before needle cs).map fun head => (head, cs.drop (head.length + needle.length))

def stripPrefix (head cs : List Char) : Option (List Char) :=
  if head.isPrefixOf cs then some (cs.drop head.length) else none

def isBlankLine (line : List Char) : Bool := (trimMatches isWhitespace line).isEmpty

/-- The lines after the blank ones at the start, up to the next blank one. -/
def paragraph (ls : List (List Char)) : List (List Char) :=
  (ls.dropWhile isBlankLine).takeWhile (!isBlankLine ·)

/-! ### Occurrences -/

section

variable {needle cs rest : List Char}

theorem before_eq_none : before needle cs = none ↔ ¬ needle <:+: cs := by
  induction cs with
  | nil => simp [before]
  | cons c cs ih =>
    rw [before, infix_cons_iff]
    split
    · rename_i hprefix
      simp [List.isPrefixOf_iff_prefix.mp hprefix]
    · rename_i hprefix
      rw [List.isPrefixOf_iff_prefix] at hprefix
      simp [ih, hprefix]

theorem splitOnce_eq_none (h : ¬ needle <:+: cs) : splitOnce needle cs = none := by
  rw [splitOnce, before_eq_none.mpr h]
  rfl

theorem splitOnce_isSome (h : needle <:+: cs) : (splitOnce needle cs).isSome = true := by
  rw [splitOnce, Option.isSome_map, Option.isSome_iff_ne_none, ne_eq, before_eq_none, not_not]
  exact h

theorem prefix_of_prefix_append (h : needle <+: cs ++ rest) (hlength : needle.length ≤ cs.length) : needle <+: cs :=
  prefix_of_prefix_length_le h (prefix_append cs rest) hlength

theorem before_append {head : List Char} (h : ¬ needle <:+: head ++ needle.dropLast) :
    before needle (head ++ (needle ++ rest)) = some head := by
  induction head with
  | nil =>
    cases needle with
    | nil => simp at h
    | cons c needle => simp [before]
  | cons c head ih =>
    rw [cons_append, infix_cons_iff, not_or] at h
    have hprefix : ¬ needle <+: c :: (head ++ (needle ++ rest)) := by
      intro hprefix
      obtain ⟨last, hlast⟩ := needle.dropLast_prefix
      have hwhole : c :: (head ++ (needle ++ rest)) = (c :: (head ++ needle.dropLast)) ++ (last ++ rest) := by
        conv_lhs => rw [← hlast]
        simp
      rw [hwhole] at hprefix
      refine h.1 (prefix_of_prefix_append hprefix ?_)
      simp only [length_append, length_cons, length_dropLast]
      omega
    rw [cons_append, before, if_neg (by rwa [List.isPrefixOf_iff_prefix]), ih h.2]
    rfl

theorem splitOnce_append {head : List Char} (h : ¬ needle <:+: head ++ needle.dropLast) :
    splitOnce needle (head ++ (needle ++ rest)) = some (head, rest) := by
  rw [splitOnce, before_append h, Option.map_some, ← append_assoc, ← length_append, drop_left]

theorem before_eq_some {head : List Char} (hne : needle ≠ []) (h : before needle cs = some head) :
    ∃ rest, cs = head ++ (needle ++ rest) ∧ ¬ needle <:+: head ++ needle.dropLast := by
  induction cs generalizing head with
  | nil => simp [before, hne] at h
  | cons c cs ih =>
    rw [before] at h
    split at h
    · rename_i hprefix
      obtain ⟨rest, hrest⟩ := isPrefixOf_iff_prefix.mp hprefix
      obtain rfl : [] = head := by simpa using h
      refine ⟨rest, hrest.symm, fun hin => ?_⟩
      have hlength := hin.length_le
      have hpos := length_pos_iff.mpr hne
      simp only [nil_append, length_dropLast] at hlength
      omega
    · rename_i hprefix
      obtain ⟨found, hfound, rfl⟩ := Option.map_eq_some_iff.mp h
      obtain ⟨rest, rfl, hnot⟩ := ih hfound
      refine ⟨rest, rfl, ?_⟩
      rw [cons_append, infix_cons_iff, not_or]
      refine ⟨fun hhere => hprefix (List.isPrefixOf_iff_prefix.mpr (hhere.trans ?_)), hnot⟩
      exact (prefix_cons_inj c).mpr
        ((prefix_append_right_inj found).mpr (needle.dropLast_prefix.trans (prefix_append needle rest)))

theorem splitOnce_eq_some {head : List Char} (hne : needle ≠ []) :
    splitOnce needle cs = some (head, rest) ↔
      cs = head ++ (needle ++ rest) ∧ ¬ needle <:+: head ++ needle.dropLast := by
  constructor
  · intro h
    rw [splitOnce, Option.map_eq_some_iff] at h
    obtain ⟨found, hfound, heq⟩ := h
    obtain ⟨tail, rfl, hnot⟩ := before_eq_some hne hfound
    obtain ⟨rfl, rfl⟩ := Prod.mk.inj heq
    refine ⟨?_, hnot⟩
    rw [← append_assoc, ← length_append, drop_left, append_assoc]
  · rintro ⟨rfl, hnot⟩
    exact splitOnce_append hnot

theorem splitOnce_append_of_some {head more : List Char} (hne : needle ≠ [])
    (h : splitOnce needle cs = some (head, rest)) : splitOnce needle (cs ++ more) = some (head, rest ++ more) := by
  obtain ⟨rfl, hnot⟩ := (splitOnce_eq_some hne).mp h
  exact (splitOnce_eq_some hne).mpr ⟨by simp, hnot⟩

end

/-! ### Pieces -/

/-- No occurrence of `needle` reaches into `sep`, whatever stands before and after it. -/
structure Separates (needle sep : List Char) : Prop where
  outside : ¬ needle <:+: sep
  across : ¬ sep <:+: needle
  ending : ∀ part ∈ sep.inits, part <:+ needle → part = []
  beginning : ∀ part ∈ sep.tails, part <+: needle → part = []

instance (needle sep : List Char) : Decidable (Separates needle sep) :=
  decidable_of_iff (¬ needle <:+: sep ∧ ¬ sep <:+: needle ∧ (∀ part ∈ sep.inits, part <:+ needle → part = []) ∧
      ∀ part ∈ sep.tails, part <+: needle → part = [])
    ⟨fun h => ⟨h.1, h.2.1, h.2.2.1, h.2.2.2⟩, fun h => ⟨h.outside, h.across, h.ending, h.beginning⟩⟩

section

variable {needle sep a b : List Char}

theorem Separates.occurs (h : Separates needle sep) (hin : needle <:+: a ++ (sep ++ b)) :
    needle <:+: a ∨ needle <:+: b := by
  obtain ⟨s, t, hst⟩ := hin
  rcases append_eq_append_iff.mp hst with ⟨more, rfl, -⟩ | ⟨c, hc, hsep⟩
  · exact .inl ⟨s, more, rfl⟩
  · rcases append_eq_append_iff.mp hc with ⟨u, rfl, hneedle⟩ | ⟨u, rfl, rfl⟩
    · rcases append_eq_append_iff.mp hsep with ⟨w, rfl, rfl⟩ | ⟨w, rfl, rfl⟩
      · exact absurd ⟨u, w, by simp [hneedle]⟩ h.across
      · have hnil := h.ending c (by simp) ⟨u, hneedle.symm⟩
        subst hnil
        exact .inl ⟨s, [], by simp [hneedle]⟩
    · rcases append_eq_append_iff.mp hsep with ⟨w, hw, rfl⟩ | ⟨w, rfl, rfl⟩
      · rcases append_eq_append_iff.mp hw with ⟨v, rfl, rfl⟩ | ⟨v, rfl, hv⟩
        · have hnil := h.beginning v (by simp) (prefix_append v w)
          subst hnil
          exact .inr ⟨[], t, by simp⟩
        · exact .inr ⟨v, t, by simp [hv]⟩
      · exact absurd ⟨u, w, by simp⟩ h.outside

end

theorem toList_join_cons (sep s : String) {rest : List String} (h : rest ≠ []) :
    (join sep (s :: rest)).toList = s.toList ++ (sep.toList ++ (join sep rest).toList) := by
  cases rest with
  | nil => exact absurd rfl h
  | cons t rest => simp [join]

theorem toList_join (sep s : String) (rest : List String) :
    (join sep (s :: rest)).toList = s.toList ++ rest.flatMap fun t => sep.toList ++ t.toList := by
  induction rest generalizing s with
  | nil => simp [join]
  | cons t rest ih =>
    rw [toList_join_cons sep s (cons_ne_nil t rest), ih, flatMap_cons, append_assoc]

/-! ### Words and texts in turn -/

/-- A message of texts, each with the words before it. -/
def weave (pieces : List (String × String)) : List Char := pieces.flatMap fun piece => piece.1.toList ++ piece.2.toList

/-- `splitOnce`, looking in the texts only: what stands before the pattern, and the rest of its text with the pieces
    after it. -/
def splitTexts (needle : List Char) (text : List Char) :
    List (String × String) → Option (List Char × List Char × List (String × String))
  | [] => (splitOnce needle text).map fun (head, tail) => (head, tail, [])
  | piece :: rest =>
    match splitOnce needle text with
    | some (head, tail) => some (head, tail, piece :: rest)
    | none => (splitTexts needle piece.2.toList rest).map (Prod.map (text ++ piece.1.toList ++ ·) id)

section

variable {needle sep text a b : List Char} {pieces more : List (String × String)}

theorem weave_cons (piece : String × String) (rest : List (String × String)) :
    weave (piece :: rest) = piece.1.toList ++ (piece.2.toList ++ weave rest) := by
  rw [weave, flatMap_cons, append_assoc, weave]

theorem weave_append : weave (pieces ++ more) = weave pieces ++ weave more := flatMap_append

theorem Separates.splitOnce (h : Separates needle sep) (hne : needle ≠ []) (hnot : ¬ needle <:+: a) :
    splitOnce needle (a ++ (sep ++ b)) = (splitOnce needle b).map (Prod.map (a ++ sep ++ ·) id) := by
  cases hb : Text.splitOnce needle b with
  | none =>
    refine splitOnce_eq_none fun hin => ?_
    rcases h.occurs hin with ha | hin
    · exact hnot ha
    · obtain ⟨before, after, hfound⟩ := hin
      have hsome : (Text.splitOnce needle b).isSome = true := splitOnce_isSome ⟨before, after, hfound⟩
      rw [hb] at hsome
      cases hsome
  | some found =>
    obtain ⟨head, tail⟩ := found
    obtain ⟨rfl, hfirst⟩ := (splitOnce_eq_some hne).mp hb
    rw [Option.map_some, Prod.map_apply, splitOnce_eq_some hne]
    refine ⟨by simp, fun hin => ?_⟩
    rw [append_assoc, append_assoc] at hin
    exact (h.occurs hin).elim hnot hfirst

theorem mem_of_splitTexts {found : List Char × List Char × List (String × String)} {piece : String × String}
    (h : splitTexts needle text pieces = some found) (hmem : piece ∈ found.2.2) : piece ∈ pieces := by
  induction pieces generalizing text found with
  | nil =>
    obtain ⟨_, -, rfl⟩ := Option.map_eq_some_iff.mp h
    cases hmem
  | cons first rest ih =>
    rw [splitTexts] at h
    split at h
    · rw [← Option.some.inj h] at hmem
      exact hmem
    · obtain ⟨found, hfound, rfl⟩ := Option.map_eq_some_iff.mp h
      exact mem_cons_of_mem first (ih hfound hmem)

/-- The first occurrence of a pattern that no words hide lies in a text. -/
theorem splitOnce_weave (text : List Char) (hne : needle ≠ []) (h : ∀ piece ∈ pieces, Separates needle piece.1.toList) :
    splitOnce needle (text ++ weave pieces) =
      (splitTexts needle text pieces).map fun found => (found.1, found.2.1 ++ weave found.2.2) := by
  induction pieces generalizing text with
  | nil => cases hsplit : splitOnce needle text <;> simp [splitTexts, weave, hsplit]
  | cons piece rest ih =>
    obtain ⟨hpiece, hrest⟩ := forall_mem_cons.mp h
    rw [splitTexts]
    cases hsplit : splitOnce needle text with
    | some found =>
      exact splitOnce_append_of_some hne hsplit
    | none =>
      have hnot : ¬ needle <:+: text := by
        intro hin
        have hsome := splitOnce_isSome hin
        rw [hsplit] at hsome
        cases hsome
      rw [weave_cons, hpiece.splitOnce hne hnot, ih _ hrest, Option.map_map, Option.map_map]
      rfl

end

/-! ### Trimming -/

section

variable {p : Char → Bool} {a b : List Char} {c d : Char}

theorem trimMatches_append_of_pos (h : p c = true) : trimMatches p (a ++ [c]) = trimMatches p a := by
  simp only [trimMatches, dropWhile_append]
  split
  · rename_i hnil
    rw [isEmpty_iff.mp hnil, dropWhile_cons_of_pos h]
    rfl
  · rw [reverse_append, reverse_singleton, singleton_append, dropWhile_cons_of_pos h]

theorem rdropWhile_cons_of_neg {α : Type} {p : α → Bool} {a : α} (h : p a = false) (as : List α) :
    (a :: as).rdropWhile p = a :: as.rdropWhile p := by
  induction as using List.reverseRecOn with
  | nil => rw [← nil_append [a], rdropWhile_concat_neg _ _ _ (by simp [h])]; rfl
  | append_singleton as b ih =>
    rw [← cons_append]
    by_cases hb : p b = true
    · rw [rdropWhile_concat_pos _ _ _ hb, rdropWhile_concat_pos _ _ _ hb, ih]
    · rw [rdropWhile_concat_neg _ _ _ hb, rdropWhile_concat_neg _ _ _ hb, cons_append]

theorem trimMatches_trimMatches (p : Char → Bool) (cs : List Char) :
    trimMatches p (trimMatches p cs) = trimMatches p cs := by
  have htrim : ∀ cs, trimMatches p cs = (cs.dropWhile p).rdropWhile p := fun _ => rfl
  have hend : (trimMatches p cs).rdropWhile p = trimMatches p cs := by
    rw [htrim]
    exact rdropWhile_idempotent _ _
  have hstart : (trimMatches p cs).dropWhile p = trimMatches p cs := by
    rw [htrim]
    cases hfirst : cs.dropWhile p with
    | nil => rfl
    | cons c rest =>
      have hc : p c = false := by
        have h := List.head?_dropWhile_not p cs
        rw [hfirst] at h
        simpa using h
      rw [rdropWhile_cons_of_neg hc, dropWhile_cons_of_neg (by rw [hc]; exact Bool.false_ne_true)]
  rw [htrim (trimMatches p cs), hstart, hend]

end

/-! ### Lines of pieces -/

section

variable {p : Char → Bool} {sep : Char} {a b head : List Char} {tail : List (List Char)}

theorem splitOn_append_sep (a b : List Char) (hsep : p sep = true) :
    splitOn p (a ++ sep :: b) = splitOn p a ++ splitOn p b := by
  induction a with
  | nil =>
    obtain ⟨first, pieces, hsplit⟩ := exists_cons_of_ne_nil (@splitOn_ne_nil p b)
    simp [splitOn, hsplit, hsep]
  | cons c a ih =>
    obtain ⟨first, pieces, hsplit⟩ := exists_cons_of_ne_nil (@splitOn_ne_nil p a)
    rw [cons_append, splitOn, ih, splitOn, hsplit]
    dsimp only [cons_append]
    split <;> rfl

theorem splitOn_append_head (ha : ∀ c ∈ a, p c = false) (hb : splitOn p b = head :: tail) :
    splitOn p (a ++ b) = (a ++ head) :: tail := by
  induction a with
  | nil => exact hb
  | cons c a ih =>
    obtain ⟨hc, ha⟩ := forall_mem_cons.mp ha
    simp [splitOn, ih ha, hc]

end

theorem splitOn_join {sep : Char} {p : Char → Bool} (hsep : p sep = true) {texts : List String} (h : texts ≠ []) :
    splitOn p (join (String.singleton sep) texts).toList = texts.flatMap fun text => splitOn p text.toList := by
  induction texts with
  | nil => exact absurd rfl h
  | cons s rest ih =>
    by_cases hrest : rest = []
    · subst hrest
      simp [join]
    · rw [toList_join_cons _ s hrest, String.toList_singleton, singleton_append, splitOn_append_sep _ _ hsep, ih hrest,
        flatMap_cons]

/-! ### Paragraphs -/

section

variable {ls more : List (List Char)} {line : List Char}

theorem isBlankLine_iff : isBlankLine line = true ↔ ∀ c ∈ line, isWhitespace c = true := by
  rw [isBlankLine, List.isEmpty_iff, trimMatches_eq_nil]

theorem paragraph_cons_blank (h : isBlankLine line = true) : paragraph (line :: ls) = paragraph ls := by
  rw [paragraph, List.dropWhile_cons_of_pos h, paragraph]

theorem paragraph_cons (h : isBlankLine line = false) :
    paragraph (line :: ls) = (line :: ls).takeWhile (!isBlankLine ·) := by
  rw [paragraph, dropWhile_cons_of_neg (by rw [h]; exact Bool.false_ne_true)]

theorem takeWhile_append_blank (h : isBlankLine line = true) :
    (ls ++ line :: more).takeWhile (!isBlankLine ·) = ls.takeWhile (!isBlankLine ·) := by
  induction ls with
  | nil => simp [h]
  | cons first ls ih => simp only [cons_append, takeWhile_cons, ih]

theorem paragraph_append_of_blank (h : ∀ line ∈ ls, isBlankLine line = true) : paragraph (ls ++ more) = paragraph more := by
  rw [paragraph, dropWhile_append_of_pos h, paragraph]

theorem paragraph_append_blank_of_solid (hsolid : ls.any (!isBlankLine ·) = true) (h : isBlankLine line = true) :
    paragraph (ls ++ line :: more) = paragraph ls := by
  induction ls with
  | nil => simp at hsolid
  | cons first ls ih =>
    cases hfirst : isBlankLine first with
    | true =>
      rw [cons_append, paragraph_cons_blank hfirst, paragraph_cons_blank hfirst, ih (by simpa [hfirst] using hsolid)]
    | false =>
      rw [cons_append, paragraph_cons hfirst, paragraph_cons hfirst, ← cons_append]
      exact takeWhile_append_blank h

theorem paragraph_append_blank (h : isBlankLine line = true) : paragraph (ls ++ [line]) = paragraph ls := by
  by_cases hsolid : ls.any (!isBlankLine ·) = true
  · exact paragraph_append_blank_of_solid hsolid h
  · have hblank : ∀ line ∈ ls, isBlankLine line = true := by simpa using hsolid
    have hnil : paragraph (_ ++ []) = paragraph [] := paragraph_append_of_blank hblank
    rw [append_nil] at hnil
    rw [paragraph_append_of_blank hblank, hnil, paragraph_cons_blank h]

theorem isBlankLine_append_return (line : List Char) : isBlankLine (line ++ ['\r']) = isBlankLine line := by
  rw [Bool.eq_iff_iff, isBlankLine_iff, isBlankLine_iff]
  simp only [forall_mem_append, forall_mem_singleton, and_iff_left_iff_imp]
  exact fun _ => rfl

theorem eq_append_return (h : line.getLast? = some '\r') : line = line.dropLast ++ ['\r'] :=
  (dropLast_append_getLast? _ h).symm

theorem isBlankLine_stripReturn (line : List Char) : isBlankLine (stripReturn line) = isBlankLine line := by
  unfold stripReturn
  split
  · rename_i hlast
    conv_rhs => rw [eq_append_return (beq_iff_eq.mp hlast), isBlankLine_append_return]
  · rfl

/-- What is read from the first paragraph of a text is read from its pieces, if carriage returns make no
    difference to it. -/
theorem filterMap_paragraph_lines {α : Type} {f : List Char → Option α} (hf : ∀ line, f (stripReturn line) = f line)
    (cs : List Char) :
    (paragraph (lines cs)).filterMap f = (paragraph (splitOn (· == '\n') cs)).filterMap f := by
  let view : List Char → Bool × Option α := fun line => (isBlankLine line, f line)
  have hview : ∀ ls, (paragraph ls).filterMap f =
      (((ls.map view).dropWhile (·.1)).takeWhile (!·.1)).filterMap (·.2) := by
    intro ls
    rw [dropWhile_map, takeWhile_map, filterMap_map]
    rfl
  have hsame : ∀ line, view (stripReturn line) = view line := fun line =>
    Prod.ext (isBlankLine_stripReturn line) (hf line)
  obtain ⟨pieces, last, hsplit⟩ := eq_nil_or_concat' (splitOn (· == '\n') cs) |>.resolve_left splitOn_ne_nil
  have hlines : lines cs = pieces.map stripReturn ++ (if last = [] then [] else [last]) := by
    simp only [lines, hsplit, dropLast_concat, List.getLast?_concat]
    cases last with
    | nil | cons => simp [stripReturn]
  rw [hlines, hsplit]
  by_cases hlast : last = []
  · have hblank : isBlankLine [] = true := rfl
    rw [if_pos hlast, hlast, paragraph_append_blank hblank, append_nil, hview, hview, map_map]
    exact congrArg _ (congrArg _ (congrArg _ (map_congr_left fun line _ => hsame line)))
  · rw [if_neg hlast, hview, hview, map_append, map_append, map_map]
    exact congrArg _ (congrArg _ (congrArg _ (congrArg (· ++ _) (map_congr_left fun line _ => hsame line))))

end

end Text
