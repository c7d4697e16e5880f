import RustyCore.Lib.Lines
import RustyCore.Specs.Merge
import Mathlib.Data.List.ModifyLast

/-! The spec of a capability, written and read again: the head, the blocks and their lines are the same, up to the blank
    lines at an end and the carriage returns that end a line. -/

namespace RustyCore.Specs

open List hiding map_map splitOn

open Text Option

def heading (line : Line) : Option Line :=
  (stripPrefix "### Requirement:".toList line).map (trimMatches isWhitespace)

def bare (line : Line) : Line := line.rdropWhile (· == '\r')

def pieces (ls : List Line) : List Line := ls.flatMap (splitOn (· == '\n'))

def settle (ls : List Line) : List Line := ((pieces ls).map bare).rdropWhile isBlankLine

def Block.settled (block : Block) : Block := ⟨block.name, settle block.lines⟩

def Document.settled (doc : Document) : Document := ⟨settle doc.head, doc.blocks.map Block.settled⟩

def Block.Headed (block : Block) : Prop :=
  ∃ first rest, block.lines = first :: rest ∧ '\n' ∉ first ∧ heading first = some block.name ∧
    ∀ line ∈ pieces rest, heading line = none

/-- No heading stands in the head, and every block stands under its own. -/
structure Document.WellFormed (doc : Document) : Prop where
  head : ∀ line ∈ pieces doc.head, heading line = none
  blocks : ∀ block ∈ doc.blocks, block.Headed

variable {line x : Line} {ls more : List Line} {text : List Char} {capability name : Line} {doc : Document}

theorem mem_of_mem_splitOn {p : Char → Bool} {c : Char} :
    ∀ {cs piece : List Char}, piece ∈ splitOn p cs → c ∈ piece → c ∈ cs := by
  intro cs
  induction cs with
  | nil =>
    intro piece hpiece hc
    rw [splitOn, mem_singleton] at hpiece
    exact absurd hc (by simp [hpiece])
  | cons d cs ih =>
    intro piece hpiece hc
    obtain ⟨first, rest, hsplit⟩ := exists_cons_of_ne_nil (@splitOn_ne_nil p cs)
    rw [hsplit] at ih
    simp only [splitOn, hsplit] at hpiece
    split at hpiece
    · rcases mem_cons.mp hpiece with rfl | hpiece
      · cases hc
      · exact mem_cons_of_mem _ (ih hpiece hc)
    · rcases mem_cons.mp hpiece with rfl | hpiece
      · rcases mem_cons.mp hc with rfl | hc
        · exact mem_cons_self
        · exact mem_cons_of_mem _ (ih mem_cons_self hc)
      · exact mem_cons_of_mem _ (ih (mem_cons_of_mem _ hpiece) hc)

theorem splitOn_newline (h : '\n' ∉ line) : splitOn (· == '\n') line = [line] := by
  refine splitOn_eq_singleton fun c hc => ?_
  simp only [beq_eq_false_iff_ne, ne_eq]
  rintro rfl
  exact h hc

theorem pieces_append (ls more : List Line) : pieces (ls ++ more) = pieces ls ++ pieces more := flatMap_append

theorem pieces_cons (line : Line) (ls : List Line) : pieces (line :: ls) = splitOn (· == '\n') line ++ pieces ls := rfl

theorem newline_not_mem_pieces : ∀ piece ∈ pieces ls, '\n' ∉ piece := by
  intro piece h
  obtain ⟨line, -, hpiece⟩ := mem_flatMap.mp h
  exact newline_not_mem_splitOn piece hpiece

theorem pieces_eq (h : ∀ line ∈ ls, '\n' ∉ line) : pieces ls = ls := by
  induction ls with
  | nil => rfl
  | cons line ls ih =>
    obtain ⟨hline, hls⟩ := forall_mem_cons.mp h
    rw [pieces_cons, splitOn_newline hline, ih hls, singleton_append]

theorem stripReturn_concat (line : Line) (c : Char) :
    stripReturn (line ++ [c]) = if c = '\r' then line else line ++ [c] := by
  simp [stripReturn]

theorem bare_stripReturn (line : Line) : bare (stripReturn line) = bare line := by
  induction line using reverseRecOn with
  | nil => rfl
  | append_singleton line c _ =>
    rw [stripReturn_concat]
    split
    · rename_i hc
      rw [bare, bare, rdropWhile_concat_pos _ _ _ (by rw [hc]; rfl)]
    · rfl

theorem isBlankLine_bare (line : Line) : isBlankLine (bare line) = isBlankLine line := by
  induction line using reverseRecOn with
  | nil => rfl
  | append_singleton line c ih =>
    by_cases hc : c = '\r'
    · rw [bare, rdropWhile_concat_pos _ _ _ (by rw [hc]; rfl), ← bare, ih, hc, isBlankLine_append_return]
    · rw [bare, rdropWhile_concat_neg _ _ _ (by simpa using hc)]

theorem heading_append_return (line : Line) : heading (line ++ ['\r']) = heading line := by
  have hprefix : ("### Requirement:".toList).isPrefixOf (line ++ ['\r']) =
      ("### Requirement:".toList).isPrefixOf line := by
    rw [Bool.eq_iff_iff, isPrefixOf_iff_prefix, isPrefixOf_iff_prefix, prefix_concat_iff]
    refine or_iff_right fun h => ?_
    have hlast := congrArg getLast? h
    rw [getLast?_concat] at hlast
    exact absurd hlast (by decide)
  rw [heading, heading, stripPrefix, stripPrefix, hprefix]
  split
  · rename_i h
    have hle : ("### Requirement:".toList).length ≤ line.length :=
      (List.isPrefixOf_iff_prefix.mp h).length_le
    rw [drop_append_of_le_length hle, map_some, map_some, trimMatches_append_of_pos (by rfl)]
  · rfl

theorem heading_stripReturn (line : Line) : heading (stripReturn line) = heading line := by
  induction line using reverseRecOn with
  | nil => rfl
  | append_singleton line c _ =>
    rw [stripReturn_concat]
    split
    · rename_i hc
      rw [hc, heading_append_return]
    · rfl

theorem isBlankLine_of_heading (h : heading line = some name) : isBlankLine line = false := by
  rw [heading, map_eq_some_iff] at h
  obtain ⟨rest, h, -⟩ := h
  unfold stripPrefix at h
  split at h
  · rename_i hprefix
    obtain ⟨tail, rfl⟩ := isPrefixOf_iff_prefix.mp hprefix
    rw [← Bool.not_eq_true, isBlankLine_iff]
    intro hall
    exact absurd (hall '#' (mem_append_left _ (by decide))) (by decide)
  · cases h

theorem rdropWhile_append_all {α : Type} {p : α → Bool} {a b : List α} (h : ∀ c ∈ b, p c = true) :
    (a ++ b).rdropWhile p = a.rdropWhile p := by
  rw [rdropWhile, rdropWhile, reverse_append, dropWhile_append_of_pos (by simpa using h)]

theorem isBlankLine_of_piece (hblank : isBlankLine line = true) :
    ∀ piece ∈ splitOn (· == '\n') line, isBlankLine piece = true := by
  intro piece hpiece
  rw [isBlankLine_iff] at hblank ⊢
  exact fun c hc => hblank c (mem_of_mem_splitOn hpiece hc)

theorem settle_append_blank (h : isBlankLine x = true) : settle (ls ++ [x]) = settle ls := by
  rw [settle, pieces_append, map_append, rdropWhile_append_all, ← settle]
  intro piece hpiece
  obtain ⟨piece, hmem, rfl⟩ := mem_map.mp hpiece
  rw [pieces_cons, pieces, flatMap_nil, append_nil] at hmem
  rw [isBlankLine_bare]
  exact isBlankLine_of_piece h piece hmem

theorem settle_rdropWhile (ls : List Line) : settle (ls.rdropWhile isBlankLine) = settle ls := by
  induction ls using reverseRecOn with
  | nil => rfl
  | append_singleton ls x ih =>
    by_cases hx : isBlankLine x = true
    · rw [rdropWhile_concat_pos _ _ _ hx, ih, settle_append_blank hx]
    · rw [rdropWhile_concat_neg _ _ _ hx]

theorem solid_of_settle (h : settle ls ≠ []) : ∃ line ∈ ls.rdropWhile isBlankLine, isBlankLine line = false := by
  by_contra hnone
  refine h ?_
  rw [← settle_rdropWhile, settle, rdropWhile_eq_nil_iff]
  intro piece hpiece
  obtain ⟨piece, hmem, rfl⟩ := mem_map.mp hpiece
  obtain ⟨line, hline, hmem⟩ := mem_flatMap.mp hmem
  rw [isBlankLine_bare]
  refine isBlankLine_of_piece ?_ piece hmem
  rw [← Bool.not_eq_false]
  exact fun hsolid => hnone ⟨line, hline, hsolid⟩

def reread (ls : List Line) : List Line := (pieces ls).map stripReturn

theorem reread_append (ls more : List Line) : reread (ls ++ more) = reread ls ++ reread more := by
  rw [reread, pieces_append, map_append, reread, reread]

theorem newline_not_mem_reread : ∀ line ∈ reread ls, '\n' ∉ line := by
  intro line h
  obtain ⟨piece, hpiece, rfl⟩ := mem_map.mp h
  exact newline_not_mem_stripReturn (newline_not_mem_pieces piece hpiece)

/-- Writing lines and reading them back settles nothing else. -/
theorem settle_reread (ls : List Line) : settle (reread ls) = settle ls := by
  rw [settle, pieces_eq newline_not_mem_reread, reread, List.map_map, settle]
  congr 1
  exact map_congr_left fun piece _ => bare_stripReturn piece

theorem heading_reread (h : ∀ piece ∈ pieces ls, heading piece = none) : ∀ line ∈ reread ls, heading line = none := by
  intro line hline
  obtain ⟨piece, hpiece, rfl⟩ := mem_map.mp hline
  rw [heading_stripReturn]
  exact h piece hpiece

theorem lines_written (ls : List Line) : lines (ls.flatMap (· ++ ['\n'])) = reread ls := by
  induction ls with
  | nil => rfl
  | cons line ls ih =>
    rw [flatMap_cons, append_assoc, singleton_append, lines_append_newline, ih, reread, reread,
      pieces_cons, map_append]

namespace Document

theorem push_heading (h : heading line = some name) :
    doc.push line = { doc with blocks := doc.blocks ++ [⟨name, [line]⟩] } := by
  rw [heading, map_eq_some_iff] at h
  obtain ⟨rest, hstrip, rfl⟩ := h
  rw [push, hstrip]

theorem push_plain (h : heading line = none) :
    doc.push line = if doc.blocks.isEmpty then { doc with head := doc.head ++ [line] }
      else { doc with blocks := doc.blocks.modifyLast fun block => { block with lines := block.lines ++ [line] } } := by
  rw [heading, map_eq_none_iff] at h
  rw [push, h]

theorem push_head (head : List Line) (h : heading line = none) : push ⟨head, []⟩ line = ⟨head ++ [line], []⟩ := by
  rw [push_plain h]
  rfl

theorem push_last (head : List Line) (blocks : List Block) (block : Block) (h : heading line = none) :
    push ⟨head, blocks ++ [block]⟩ line = ⟨head, blocks ++ [⟨block.name, block.lines ++ [line]⟩]⟩ := by
  rw [push_plain h, if_neg (by simp), modifyLast_append_of_right_ne_nil _ _ _ (by simp)]
  rfl

theorem foldl_push_head (head : List Line) (h : ∀ line ∈ ls, heading line = none) :
    ls.foldl push ⟨head, []⟩ = ⟨head ++ ls, []⟩ := by
  induction ls generalizing head with
  | nil => simp
  | cons line ls ih =>
    obtain ⟨hline, hls⟩ := forall_mem_cons.mp h
    rw [foldl_cons, push_head head hline, ih _ hls, append_assoc, singleton_append]

/-- Plain lines go to the last block. -/
theorem foldl_push_last (head : List Line) (blocks : List Block) (block : Block)
    (h : ∀ line ∈ ls, heading line = none) :
    ls.foldl push ⟨head, blocks ++ [block]⟩ = ⟨head, blocks ++ [⟨block.name, block.lines ++ ls⟩]⟩ := by
  induction ls generalizing block with
  | nil => simp
  | cons line ls ih =>
    obtain ⟨hline, hls⟩ := forall_mem_cons.mp h
    rw [foldl_cons, push_last head blocks block hline, ih _ hls, append_assoc, singleton_append]

theorem settled_push_nil (doc : Document) : (doc.push []).settled = doc.settled := by
  obtain ⟨head, blocks⟩ := doc
  rcases eq_nil_or_concat blocks with rfl | ⟨blocks, block, rfl⟩
  · rw [push_head head (by rfl), settled, settle_append_blank (by rfl)]
    rfl
  · rw [concat_eq_append, push_last head blocks block (by rfl), settled, settled, map_append, map_append,
      map_singleton, map_singleton, Block.settled, settle_append_blank (by rfl)]
    rfl

end Document

/-- A written block is read back as one block. -/
theorem Block.Headed.foldl_push {block : Block} (h : block.Headed) (doc : Document) :
    ∃ read, settle read = settle block.lines ∧
      (reread (block.lines.rdropWhile isBlankLine)).foldl Document.push doc =
        { doc with blocks := doc.blocks ++ [⟨block.name, read⟩] } := by
  obtain ⟨first, rest, hlines, hfirst, hname, hrest⟩ := h
  have htrimmed : block.lines.rdropWhile isBlankLine = first :: rest.rdropWhile isBlankLine := by
    rw [hlines, rdropWhile_cons_of_neg (isBlankLine_of_heading hname)]
  have hread : reread (block.lines.rdropWhile isBlankLine) =
      stripReturn first :: reread (rest.rdropWhile isBlankLine) := by
    rw [htrimmed, reread, pieces_cons, splitOn_newline hfirst]
    rfl
  have hquiet : ∀ line ∈ reread (rest.rdropWhile isBlankLine), heading line = none := by
    refine heading_reread fun piece hpiece => hrest piece ?_
    obtain ⟨line, hline, hpiece⟩ := mem_flatMap.mp hpiece
    exact mem_flatMap.mpr ⟨line, (List.rdropWhile_prefix _ _).subset hline, hpiece⟩
  refine ⟨reread (block.lines.rdropWhile isBlankLine), by rw [settle_reread, settle_rdropWhile], ?_⟩
  rw [hread, foldl_cons, Document.push_heading (by rw [heading_stripReturn, hname]),
    Document.foldl_push_last _ _ _ hquiet]
  rfl

namespace Document

theorem settled_foldl_blocks {blocks : List Block} (h : ∀ block ∈ blocks, block.Headed) (doc : Document) :
    ((reread (blocks.flatMap fun block => [] :: block.lines.rdropWhile isBlankLine)).foldl push doc).settled =
      ⟨settle doc.head, doc.blocks.map Block.settled ++ blocks.map Block.settled⟩ := by
  induction blocks generalizing doc with
  | nil => simp [reread, pieces, settled]
  | cons block blocks ih =>
    obtain ⟨hblock, hblocks⟩ := forall_mem_cons.mp h
    obtain ⟨read, hsettle, hread⟩ := hblock.foldl_push (doc.push [])
    have hnil := settled_push_nil doc
    rw [settled, settled, Document.mk.injEq] at hnil
    rw [flatMap_cons, ← singleton_append, append_assoc, reread_append, reread_append, foldl_append,
      foldl_append]
    rw [show reread [[]] = [[]] from rfl, foldl_cons, foldl_nil, hread, ih hblocks]
    simp only [map_append, map_cons, map_nil, Block.settled, hsettle, hnil.1, append_assoc,
      singleton_append, Document.mk.injEq, true_and]
    rw [← hnil.2]

theorem render_eq (h : doc.layOut ≠ []) : doc.render = doc.layOut.flatMap (· ++ ['\n']) := by
  rw [render]
  generalize doc.layOut = ls at h
  induction ls with
  | nil => exact absurd rfl h
  | cons line ls ih =>
    cases ls with
    | nil => simp [intercalate]
    | cons next ls =>
      rw [flatMap_cons, ← ih (by simp)]
      simp [intercalate]

def Solid (doc : Document) : Prop := settle doc.head ≠ [] ∨ ∃ block ∈ doc.blocks, settle block.lines ≠ []

theorem Solid.layOut (h : doc.Solid) : ∃ line ∈ doc.layOut, isBlankLine line = false := by
  rcases h with h | ⟨block, hblock, h⟩
  · obtain ⟨line, hline, hsolid⟩ := solid_of_settle h
    exact ⟨line, mem_append_left _ hline, hsolid⟩
  · obtain ⟨line, hline, hsolid⟩ := solid_of_settle h
    exact ⟨line, mem_append_right _ (mem_flatMap.mpr ⟨block, hblock, mem_cons_of_mem _ hline⟩), hsolid⟩

theorem Solid.render (h : doc.Solid) : isBlankLine doc.render = false := by
  obtain ⟨line, hline, hsolid⟩ := h.layOut
  rw [← Bool.not_eq_true, isBlankLine_iff] at hsolid ⊢
  rw [render_eq (ne_nil_of_mem hline)]
  exact fun hall => hsolid fun c hc => hall c (mem_flatMap.mpr ⟨line, hline, mem_append_left _ hc⟩)

/-- A document with anything in it is read back from its text, up to blank ends and carriage returns. -/
theorem parse_render (hdoc : doc.WellFormed) (hsolid : doc.Solid) (capability : Line) :
    (parse doc.render capability).settled = doc.settled := by
  obtain ⟨line, hline, -⟩ := hsolid.layOut
  have hrender := render_eq (ne_nil_of_mem hline)
  have hnot : ¬ isBlankLine doc.render = true := by
    rw [hsolid.render]
    exact Bool.false_ne_true
  have hhead : ∀ line ∈ reread (doc.head.rdropWhile isBlankLine), heading line = none := by
    refine heading_reread fun piece hpiece => hdoc.head piece ?_
    obtain ⟨line, hline, hpiece⟩ := mem_flatMap.mp hpiece
    exact mem_flatMap.mpr ⟨line, (List.rdropWhile_prefix _ _).subset hline, hpiece⟩
  rw [parse, if_neg hnot, hrender, lines_written, layOut, reread_append, foldl_append, foldl_push_head [] hhead,
    settled_foldl_blocks hdoc.blocks, nil_append, settle_reread, settle_rdropWhile]
  rfl

end Document

theorem mem_of_mem_intercalate {c : Char} {sep : List Char} (h : c ∈ intercalate sep ls) :
    c ∈ sep ∨ ∃ line ∈ ls, c ∈ line := by
  induction ls with
  | nil => cases h
  | cons line ls ih =>
    cases ls with
    | nil =>
      rw [intercalate_singleton] at h
      exact .inr ⟨line, mem_cons_self, h⟩
    | cons next ls =>
      rw [intercalate_cons_cons] at h
      rcases mem_append.mp h with h | h
      · rcases mem_append.mp h with h | h
        · exact .inr ⟨line, mem_cons_self, h⟩
        · exact .inl h
      · rcases ih h with h | ⟨line, hline, h⟩
        · exact .inl h
        · exact .inr ⟨line, mem_cons_of_mem _ hline, h⟩

theorem toUpper_eq_newline {c : Char} (h : c.toUpper = '\n') : c = '\n' := by
  unfold Char.toUpper at h
  split at h
  · rename_i hlower
    have hval := congrArg (fun d : Char => d.val.toNat) h
    dsimp only at hval
    obtain ⟨hlow, hhigh⟩ := hlower
    rw [UInt32.le_iff_toNat_le] at hlow hhigh
    rw [UInt32.toNat_add] at hval
    have ha : 'a'.val.toNat = 97 := rfl
    have hz : 'z'.val.toNat = 122 := rfl
    have hd : ('A'.val - 'a'.val).toNat = 4294967264 := by decide
    have hn : '\n'.val.toNat = 10 := rfl
    omega
  · exact h

theorem toLower_eq_newline {c : Char} (h : c.toLower = '\n') : c = '\n' := by
  unfold Char.toLower at h
  split at h
  · rename_i hupper
    have hval : (c.val + ('a'.val - 'A'.val)).toNat = 10 := congrArg (fun d : Char => d.val.toNat) h
    obtain ⟨hlow, hhigh⟩ := hupper
    rw [ge_iff_le, UInt32.le_iff_toNat_le] at hlow
    rw [UInt32.le_iff_toNat_le] at hhigh
    rw [UInt32.toNat_add] at hval
    have ha : 'A'.val.toNat = 65 := rfl
    have hz : 'Z'.val.toNat = 90 := rfl
    have hd : ('a'.val - 'A'.val).toNat = 32 := rfl
    omega
  · exact h

theorem newline_mem_of_capitalized (h : '\n' ∈ capitalized line) : '\n' ∈ line := by
  cases line with
  | nil => cases h
  | cons c cs =>
    rcases mem_cons.mp h with h | h
    · exact toUpper_eq_newline h.symm ▸ mem_cons_self
    · exact mem_cons_of_mem _ h

namespace Document

theorem wellFormed_push (h : doc.WellFormed) (hline : '\n' ∉ line) : (doc.push line).WellFormed := by
  obtain ⟨head, blocks⟩ := doc
  cases hheading : heading line with
  | some name =>
    rw [push_heading hheading]
    refine ⟨h.head, ?_⟩
    intro block hblock
    rcases mem_append.mp hblock with hblock | hblock
    · exact h.blocks block hblock
    · rw [mem_singleton.mp hblock]
      exact ⟨line, [], rfl, hline, hheading, fun _ hmem => absurd hmem not_mem_nil⟩
  | none =>
    have hpieces : ∀ piece ∈ pieces [line], heading piece = none := by
      rw [pieces_eq (by simpa using hline)]
      simpa using hheading
    rcases eq_nil_or_concat blocks with rfl | ⟨blocks, last, rfl⟩
    · rw [push_head head hheading]
      refine ⟨?_, h.blocks⟩
      rw [pieces_append]
      exact fun piece hpiece => (mem_append.mp hpiece).elim (h.head piece) (hpieces piece)
    · rw [concat_eq_append] at h ⊢
      rw [push_last head blocks last hheading]
      refine ⟨h.head, ?_⟩
      intro block hblock
      rcases mem_append.mp hblock with hblock | hblock
      · exact h.blocks block (mem_append_left _ hblock)
      · obtain ⟨first, rest, hlines, hfirst, hname, hrest⟩ := h.blocks last (mem_append_right _ mem_cons_self)
        rw [mem_singleton.mp hblock]
        refine ⟨first, rest ++ [line], by rw [hlines, cons_append], hfirst, hname, ?_⟩
        rw [pieces_append]
        exact fun piece hpiece => (mem_append.mp hpiece).elim (hrest piece) (hpieces piece)

theorem wellFormed_foldl (h : doc.WellFormed) (hls : ∀ line ∈ ls, '\n' ∉ line) : (ls.foldl push doc).WellFormed := by
  induction ls generalizing doc with
  | nil => exact h
  | cons line ls ih =>
    obtain ⟨hline, hls⟩ := forall_mem_cons.mp hls
    exact ih (wellFormed_push h hline) hls

theorem newline_not_mem_titleOf (h : '\n' ∉ capability) : '\n' ∉ titleOf capability := by
  intro hmem
  rcases mem_of_mem_intercalate hmem with hmem | ⟨word, hword, hmem⟩
  · exact absurd hmem (by decide)
  · obtain ⟨piece, hpiece, rfl⟩ := mem_map.mp hword
    exact h (mem_of_mem_splitOn (mem_of_mem_filter hpiece) (newline_mem_of_capitalized hmem))

theorem wellFormed_template (h : '\n' ∉ capability) : (template capability).WellFormed := by
  have htitle : '\n' ∉ "# ".toList ++ titleOf capability := by
    rw [mem_append]
    exact fun hmem => hmem.elim (by decide) (newline_not_mem_titleOf h)
  have hplain : ∀ line ∈ [[], "Purpose: ".toList, [], "## Requirements".toList, []], heading line = none := by decide
  have hwhole : ∀ line ∈ [[], "Purpose: ".toList, [], "## Requirements".toList, []], '\n' ∉ line := by decide
  refine ⟨?_, fun _ hblock => absurd hblock not_mem_nil⟩
  rw [template, pieces_eq (forall_mem_cons.mpr ⟨htitle, hwhole⟩)]
  exact forall_mem_cons.mpr ⟨rfl, hplain⟩

/-- Whatever is read is well formed. -/
theorem parse_wellFormed (h : '\n' ∉ capability) (text : List Char) : (parse text capability).WellFormed := by
  unfold parse
  split
  · exact wellFormed_template h
  · exact wellFormed_foldl ⟨fun _ hmem => absurd hmem not_mem_nil, fun _ hmem => absurd hmem not_mem_nil⟩
      newline_not_mem_lines

end Document

end RustyCore.Specs
