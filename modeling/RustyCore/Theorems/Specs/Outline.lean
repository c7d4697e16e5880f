import RustyCore.Theorems.Specs.Document

/-! The spec of a capability with the sections that stand after a requirement kept apart from it, and what a reference
    does to it: a requirement is appended, replaced or taken out, and everything else stays where it is. -/

namespace RustyCore.Specs

open Text List

/-- A requirement with the lines of its own, and the lines of the sections after it; `fresh` when it was written by
    a change. -/
structure Part where
  name : Line
  own : List Line
  tail : List Line
  fresh : Bool
deriving DecidableEq

structure Outline where
  head : List Line
  parts : List Part
deriving DecidableEq

def isSection (line : Line) : Bool := "## ".toList.isPrefixOf line

def Block.part (block : Block) : Part where
  name := block.name
  own := block.lines.takeWhile (!isSection ·)
  tail := block.lines.dropWhile (!isSection ·)
  fresh := false

def Part.block (part : Part) : Block := ⟨part.name, part.own ++ part.tail⟩

def Document.outline (doc : Document) : Outline := ⟨doc.head, doc.blocks.map Block.part⟩

def content (ls : List Line) : List Line := ((pieces ls).map bare).filter (!isBlankLine ·)

namespace Outline

def document (outline : Outline) : Document := ⟨outline.head, outline.parts.map Part.block⟩

def place (outline : Outline) (name : Line) : Option Nat :=
  outline.parts.findIdx? (eqIgnoreAsciiCase ·.name name)

def tailAt (outline : Outline) (place : Nat) : List Line := (outline.parts[place]?.map Part.tail).getD []

def edit (outline : Outline) (action : Action) (name : Line) (own : List Line) : Option Outline :=
  match action, outline.place name with
  | .adds, none => some { outline with parts := outline.parts ++ [⟨name, own, [], true⟩] }
  | .changes, some place =>
    some { outline with
      parts := outline.parts.modify place fun part => { part with name := name, own := own, fresh := true } }
  | .removes, some 0 => some ⟨outline.head ++ outline.tailAt 0, outline.parts.eraseIdx 0⟩
  | .removes, some (before + 1) =>
    some { outline with
      parts := (outline.parts.modify before fun part =>
        { part with tail := part.tail ++ outline.tailAt (before + 1) }).eraseIdx (before + 1) }
  | _, _ => none

def kept (outline : Outline) : List Line :=
  content outline.head ++ outline.parts.flatMap fun part =>
    (if part.fresh then [] else content part.own) ++ content part.tail

end Outline

variable {outline next : Outline} {doc : Document} {ls : List Line} {name : Line} {action : Action} {own : List Line}

theorem content_append (ls more : List Line) : content (ls ++ more) = content ls ++ content more := by
  rw [content, pieces_append, map_append, filter_append, content, content]

theorem content_flatMap {α : Type} (as : List α) (f : α → List Line) :
    content (as.flatMap f) = as.flatMap fun a => content (f a) := by
  induction as with
  | nil => rfl
  | cons a as ih => rw [flatMap_cons, content_append, ih, flatMap_cons]

theorem filter_rdropWhile {α : Type} {p q : α → Bool} (h : ∀ a, p a = true → q a = false) (as : List α) :
    (as.rdropWhile p).filter q = as.filter q := by
  induction as using List.reverseRecOn with
  | nil => rfl
  | append_singleton as a ih =>
    by_cases ha : p a = true
    · rw [rdropWhile_concat_pos _ _ _ ha, ih, filter_append]
      simp [h a ha]
    · rw [rdropWhile_concat_neg _ _ _ ha]

theorem content_eq (ls : List Line) : content ls = (settle ls).filter (!isBlankLine ·) :=
  (filter_rdropWhile (fun line hline => by rw [hline]; rfl) _).symm

theorem Block.part_block (block : Block) : block.part.block = block := by
  rw [Part.block, Block.part, takeWhile_append_dropWhile]

theorem Document.outline_document (doc : Document) : doc.outline.document = doc := by
  rw [Document.outline, Outline.document, map_map]
  simp only [Function.comp_def, Block.part_block, map_id']

namespace Document

def flat (doc : Document) : List Line := doc.head ++ doc.blocks.flatMap (·.lines)

theorem flat_push (doc : Document) (line : Line) : (doc.push line).flat = doc.flat ++ [line] := by
  obtain ⟨head, blocks⟩ := doc
  cases hheading : heading line with
  | some name =>
    rw [push_heading hheading]
    simp [flat]
  | none =>
    rcases eq_nil_or_concat blocks with rfl | ⟨blocks, last, rfl⟩
    · rw [push_head head hheading]
      simp [flat]
    · rw [concat_eq_append, push_last head blocks last hheading]
      simp [flat]

theorem flat_foldl (doc : Document) (ls : List Line) : (ls.foldl push doc).flat = doc.flat ++ ls := by
  induction ls generalizing doc with
  | nil => simp
  | cons line ls ih => rw [foldl_cons, ih, flat_push, append_assoc, singleton_append]

theorem flat_parse {text : List Char} (h : isBlankLine text = false) (capability : Line) :
    (parse text capability).flat = lines text := by
  rw [parse, if_neg (by rw [h]; exact Bool.false_ne_true), flat_foldl]
  rfl

theorem content_flat (doc : Document) : content doc.flat =
    (doc.settled.head ++ doc.settled.blocks.flatMap (·.lines)).filter (!isBlankLine ·) := by
  rw [flat, content_append, content_flatMap, settled, filter_append, content_eq, flatMap_map,
    filter_flatMap]
  simp only [content_eq, Block.settled]

end Document

theorem Outline.kept_sublist (outline : Outline) : outline.kept.Sublist (content outline.document.flat) := by
  rw [kept, Document.flat, content_append, content_flatMap, document, flatMap_map]
  refine List.Sublist.append (List.Sublist.refl _) ?_
  induction outline.parts with
  | nil => exact List.Sublist.refl _
  | cons part parts ih =>
    rw [flatMap_cons, flatMap_cons, Part.block, content_append]
    refine List.Sublist.append (List.Sublist.append ?_ (List.Sublist.refl _)) ih
    split
    · exact nil_sublist _
    · exact List.Sublist.refl _

theorem findIdx?_names (parts : List Part) (blocks : List Block) (h : parts.map (·.name) = blocks.map (·.name)) :
    parts.findIdx? (eqIgnoreAsciiCase ·.name name) = blocks.findIdx? (eqIgnoreAsciiCase ·.name name) := by
  have hparts : (parts.map (·.name)).findIdx? (eqIgnoreAsciiCase · name) =
      parts.findIdx? (eqIgnoreAsciiCase ·.name name) := by
    rw [List.findIdx?_map]
    rfl
  have hblocks : (blocks.map (·.name)).findIdx? (eqIgnoreAsciiCase · name) =
      blocks.findIdx? (eqIgnoreAsciiCase ·.name name) := by
    rw [List.findIdx?_map]
    rfl
  rw [← hparts, h, hblocks]

theorem Outline.place_eq (h : doc.settled = outline.document.settled) (name : Line) :
    outline.place name = doc.blocks.findIdx? (eqIgnoreAsciiCase ·.name name) := by
  refine findIdx?_names _ _ ?_
  have hblocks := congrArg (fun doc => doc.blocks.map Block.name) h
  simp only [Document.settled, Outline.document, map_map] at hblocks
  exact hblocks.symm

end RustyCore.Specs
