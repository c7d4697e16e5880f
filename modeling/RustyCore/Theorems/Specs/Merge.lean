import RustyCore.Theorems.Specs.Outline
import Mathlib.Data.List.InsertIdx

/-! The merge of a change: which changes leave in every capability spec what the references ask for, and all the rest. -/

namespace RustyCore.Specs

open Text List Outline

def Plain (name : Line) (block : Block) : Prop :=
  '\n' ∉ name ∧ trimMatches isWhitespace name = name ∧ ∀ line ∈ pieces block.lines.tail, heading line = none

/-- What is written is plain, no requirement with a section after it is replaced or taken out, and something is
    left. -/
structure Keeps (outline : Outline) (action : Action) (name : Line) (block : Block) : Prop where
  plain : action ≠ .removes → Plain name block
  untailed : action ≠ .adds → ∀ place, outline.place name = some place → outline.tailAt place = []
  solid : ∀ next, outline.edit action name block.lines = some next → next.document.Solid

def CapabilityRef.nameFor (reference : CapabilityRef) (requirement : Requirement) : Line :=
  reference.requirement.getD requirement.title

def editOf (capability : Line) (requirement : Requirement) : Option (CapabilityRef × Requirement) :=
  (requirement.capability.bind capabilityRef).bind fun reference =>
    if reference.capability = capability then some (reference, requirement) else none

def edits (capability : Line) (requirements : List Requirement) : List (CapabilityRef × Requirement) :=
  requirements.filterMap (editOf capability)

section

variable (dir date : Line)

def blockOf (edit : CapabilityRef × Requirement) : Block :=
  Block.fromRequirement (edit.1.nameFor edit.2) edit.2 dir date

def Outline.run : Outline → List (CapabilityRef × Requirement) → Option Outline
  | outline, [] => some outline
  | outline, edit :: rest =>
    (outline.edit edit.1.action (edit.1.nameFor edit.2) (blockOf dir date edit).lines).bind fun next => next.run rest

def KeepsAll : Outline → List (CapabilityRef × Requirement) → Prop
  | _, [] => True
  | outline, edit :: rest =>
    Keeps outline edit.1.action (edit.1.nameFor edit.2) (blockOf dir date edit) ∧
      ∀ next, outline.edit edit.1.action (edit.1.nameFor edit.2) (blockOf dir date edit).lines = some next →
        KeepsAll next rest

end

/-- A text that reads back as the outline: with its head, its requirements and their lines, one heading in each
    requirement of the change, and every line that no reference is about, in its order. -/
structure Outline.WrittenAs (outline : Outline) (text : List Char) (capability : Line) : Prop where
  reads : (Document.parse text capability).settled = outline.document.settled
  oneHeading : ∀ part ∈ outline.parts, part.fresh = true →
    ((pieces part.own).filter fun line => (heading line).isSome).length = 1
  kept : outline.kept.Sublist (content (lines text))

def original (read : Line → Option (List Char)) (layout : Layout) (capability : Line) : Outline :=
  (Document.parse ((read (layout.capabilitySpec capability)).getD []) capability).outline

def MergedExactly (read : Line → Option (List Char)) (layout : Layout) (dir date : Line)
    (requirements : List Requirement) (merges : Merges) : Prop :=
  ∀ capability, edits capability requirements ≠ [] →
    ∃ text next, merges.texts (layout.capabilitySpec capability) = some text ∧
      (original read layout capability).run dir date (edits capability requirements) = some next ∧
      next.WrittenAs text capability

variable {outline next : Outline} {doc : Document} {name dir date capability : Line} {action : Action} {own : List Line}
  {requirement : Requirement} {text : List Char} {current : Option (List Char)} {place : Nat}

theorem headed_fromRequirement (h : Plain name (Block.fromRequirement name requirement dir date)) :
    (Block.fromRequirement name requirement dir date).Headed := by
  obtain ⟨hline, htrim, hrest⟩ := h
  refine ⟨_, _, rfl, ?_, ?_, hrest⟩
  · rw [mem_append]
    exact fun hmem => hmem.elim (by decide) hline
  · have hname : heading ("### Requirement: ".toList ++ name) = some (trimMatches isWhitespace name) := rfl
    rw [hname, htrim]
    rfl

theorem Document.solid_settled {doc' : Document} (h : doc.settled = doc'.settled) (hsolid : doc'.Solid) : doc.Solid := by
  have hhead : settle doc.head = settle doc'.head := congrArg Document.head h
  have hblocks : doc.blocks.map Block.settled = doc'.blocks.map Block.settled := congrArg Document.blocks h
  rcases hsolid with hsolid | ⟨block, hblock, hsolid⟩
  · exact .inl (hhead ▸ hsolid)
  · have hmem : block.settled ∈ doc.blocks.map Block.settled := by
      rw [hblocks]
      exact mem_map_of_mem hblock
    obtain ⟨block', hblock', heq⟩ := mem_map.mp hmem
    refine .inr ⟨block', hblock', ?_⟩
    have hlines : settle block'.lines = settle block.lines := congrArg Block.lines heq
    rw [hlines]
    exact hsolid

theorem modify_eq {α : Type} {as : List α} {f : α → α} (h : ∀ a, f a = a) (place : Nat) : as.modify place f = as := by
  have hf : f = id := funext h
  rw [hf, modify_id]

theorem document_removes (h : outline.place name = some place) (htail : outline.tailAt place = []) :
    outline.edit .removes name own = some ⟨outline.head, outline.parts.eraseIdx place⟩ := by
  cases place with
  | zero => simp only [Outline.edit, h, htail, append_nil]
  | succ before =>
    simp only [Outline.edit, h, htail, append_nil]
    rw [modify_eq fun _ => rfl]

theorem modify_settled : ∀ {parts : List Part} {place : Nat}, (parts[place]?.map Part.tail).getD [] = [] →
    (parts.modify place fun part => { part with name := name, own := own, fresh := true }).map
      (fun part => part.block.settled) =
      (parts.map fun part => part.block.settled).set place ⟨name, settle own⟩ := by
  intro parts
  induction parts with
  | nil =>
    intro place _
    rw [modify_nil]
    rfl
  | cons part parts ih =>
    intro place htail
    cases place with
    | zero =>
      have htail : part.tail = [] := htail
      rw [modify_zero_cons, map_cons, map_cons, set_cons_zero]
      simp only [Part.block, Block.settled, htail, append_nil]
    | succ place => rw [modify_succ_cons, map_cons, map_cons, set_cons_succ, ih htail]

/-- The blocks that an action leaves of a document. -/
inductive Written (doc : Document) (name : Line) (block : Block) : Action → List Block → Prop
  | adds (hnew : doc.blocks.findIdx? (eqIgnoreAsciiCase ·.name name) = none) :
    Written doc name block .adds (doc.blocks ++ [block])
  | changes {place : Nat} (hfound : doc.blocks.findIdx? (eqIgnoreAsciiCase ·.name name) = some place) :
    Written doc name block .changes (doc.blocks.set place block)
  | removes {place : Nat} (hfound : doc.blocks.findIdx? (eqIgnoreAsciiCase ·.name name) = some place) :
    Written doc name block .removes (doc.blocks.eraseIdx place)

theorem apply_ok (h : apply current capability action name requirement dir date = .ok text) :
    ∃ blocks, Written (Document.parse (current.getD []) capability) name
        (Block.fromRequirement name requirement dir date) action blocks ∧
      (Document.mk (Document.parse (current.getD []) capability).head blocks).render = text := by
  unfold apply at h
  dsimp only at h
  split at h
  · cases h
  · rename_i hnew
    exact ⟨_, .adds hnew, Except.ok.inj h⟩
  · rename_i hfound
    exact ⟨_, .changes hfound, Except.ok.inj h⟩
  · rename_i hfound
    exact ⟨_, .removes hfound, Except.ok.inj h⟩
  · cases h
  · cases h

theorem Written.headed {blocks : List Block} (h : Written doc name block action blocks) (hwell : doc.WellFormed)
    (hblock : action ≠ .removes → block.Headed) : ∀ b ∈ blocks, b.Headed := by
  intro b hb
  cases h with
  | adds =>
    rcases mem_append.mp hb with hb | hb
    · exact hwell.blocks b hb
    · rw [mem_singleton.mp hb]
      exact hblock (by decide)
  | changes =>
    rcases mem_or_eq_of_mem_set hb with hb | rfl
    · exact hwell.blocks b hb
    · exact hblock (by decide)
  | removes => exact hwell.blocks b (mem_of_mem_eraseIdx hb)

/-- What an action leaves is the edit of the outline, when it keeps what the reference asks for. -/
theorem Written.edit {blocks : List Block} (h : Written doc name block action blocks)
    (hsettled : doc.settled = outline.document.settled) (hkeeps : Keeps outline action name block)
    (hname : block.name = name) : ∃ next, outline.edit action name block.lines = some next ∧
      (Document.mk doc.head blocks).settled = next.document.settled := by
  have hplace := place_eq hsettled name
  have hhead : settle doc.head = settle outline.head := congrArg Document.head hsettled
  have hblocks : doc.blocks.map Block.settled = outline.parts.map fun part => part.block.settled := by
    have h := congrArg Document.blocks hsettled
    simp only [Document.settled, Outline.document, map_map] at h
    exact h
  cases h with
  | adds hnew =>
    rw [hnew] at hplace
    refine ⟨_, by simp only [Outline.edit, hplace]; rfl, ?_⟩
    simp only [Document.settled, Outline.document, map_append, map_map, hhead]
    rw [hblocks]
    simp [Function.comp_def, Part.block, Block.settled, hname]
  | @changes place hfound =>
    rw [hfound] at hplace
    refine ⟨_, by simp only [Outline.edit, hplace]; rfl, ?_⟩
    have htail := hkeeps.untailed (by decide) place hplace
    simp only [Document.settled, Outline.document, hhead, map_set, hblocks, map_map]
    rw [Block.settled, hname]
    exact congrArg (Document.mk (settle outline.head)) (modify_settled htail).symm
  | @removes place hfound =>
    rw [hfound] at hplace
    refine ⟨_, document_removes hplace (hkeeps.untailed (by decide) place hplace), ?_⟩
    simp only [Document.settled, Outline.document, hhead, map_map]
    rw [← eraseIdx_map, hblocks, ← eraseIdx_map]
    rfl

theorem apply_settled (hcapability : '\n' ∉ capability)
    (hsettled : (Document.parse (current.getD []) capability).settled = outline.document.settled)
    (hkeeps : Keeps outline action name (Block.fromRequirement name requirement dir date))
    (happly : apply current capability action name requirement dir date = .ok text) :
    ∃ next, outline.edit action name (Block.fromRequirement name requirement dir date).lines = some next ∧
      (Document.parse text capability).settled = next.document.settled ∧ isBlankLine text = false := by
  have hwell := Document.parse_wellFormed hcapability (current.getD [])
  obtain ⟨blocks, hwritten, rfl⟩ := apply_ok happly
  obtain ⟨next, hedit, heq⟩ := hwritten.edit hsettled hkeeps rfl
  have hheaded := hwritten.headed hwell fun hne => headed_fromRequirement (hkeeps.plain hne)
  have hwell' : (Document.mk (Document.parse (current.getD []) capability).head blocks).WellFormed :=
    ⟨hwell.head, hheaded⟩
  have hsolid := Document.solid_settled heq (hkeeps.solid next hedit)
  exact ⟨next, hedit, by rw [Document.parse_render hwell' hsolid, heq], hsolid.render⟩

def Outline.OneHeading (outline : Outline) : Prop :=
  ∀ part ∈ outline.parts, part.fresh = true →
    ((pieces part.own).filter fun line => (heading line).isSome).length = 1

theorem Block.Headed.one {block : Block} (h : block.Headed) :
    ((pieces block.lines).filter fun line => (heading line).isSome).length = 1 := by
  obtain ⟨first, rest, hlines, hfirst, hname, hrest⟩ := h
  have hnone : (pieces rest).filter (fun line => (heading line).isSome) = [] := by
    rw [filter_eq_nil_iff]
    intro line hline
    simp [hrest line hline]
  rw [hlines, pieces_cons, splitOn_newline hfirst, singleton_append, filter_cons_of_pos (by simp [hname]),
    hnone]
  rfl

theorem mem_of_mem_modify {α : Type} {f : α → α} {a : α} :
    ∀ {as : List α} {place : Nat}, a ∈ as.modify place f → a ∈ as ∨ ∃ b ∈ as, a = f b := by
  intro as
  induction as with
  | nil =>
    intro place h
    rw [modify_nil] at h
    cases h
  | cons b as ih =>
    intro place h
    cases place with
    | zero =>
      rw [modify_zero_cons] at h
      rcases mem_cons.mp h with rfl | h
      · exact .inr ⟨b, mem_cons_self, rfl⟩
      · exact .inl (mem_cons_of_mem _ h)
    | succ place =>
      rw [modify_succ_cons] at h
      rcases mem_cons.mp h with rfl | h
      · exact .inl mem_cons_self
      · rcases ih h with h | ⟨b', hb', rfl⟩
        · exact .inl (mem_cons_of_mem _ h)
        · exact .inr ⟨b', mem_cons_of_mem _ hb', rfl⟩

theorem Outline.OneHeading.edit (h : outline.OneHeading)
    (hkeeps : Keeps outline action name (Block.fromRequirement name requirement dir date))
    (hedit : outline.edit action name (Block.fromRequirement name requirement dir date).lines = some next) :
    next.OneHeading := by
  unfold Outline.edit at hedit
  split at hedit
  · cases hedit
    intro part hpart
    rcases mem_append.mp hpart with hpart | hpart
    · exact h part hpart
    · rw [mem_singleton.mp hpart]
      exact fun _ => (headed_fromRequirement (hkeeps.plain (by decide))).one
  · cases hedit
    intro part hpart
    rcases mem_of_mem_modify hpart with hpart | ⟨before, -, rfl⟩
    · exact h part hpart
    · exact fun _ => (headed_fromRequirement (hkeeps.plain (by decide))).one
  · cases hedit
    exact fun part hpart => h part (mem_of_mem_eraseIdx hpart)
  · cases hedit
    intro part hpart
    rcases mem_of_mem_modify (mem_of_mem_eraseIdx hpart) with hpart | ⟨before, hbefore, rfl⟩
    · exact h part hpart
    · exact h before hbefore
  · cases hedit

theorem kept_written (h : (Document.parse text capability).settled = next.document.settled)
    (hsolid : isBlankLine text = false) : next.kept.Sublist (content (lines text)) := by
  have hsame : content (lines text) = content next.document.flat := by
    rw [← Document.flat_parse hsolid capability, Document.content_flat, Document.content_flat, h]
  rw [hsame]
  exact next.kept_sublist

section

variable {read : Line → Option (List Char)} {layout : Layout} {requirements : List Requirement} {merging : Merging}
  {merges : Merges}

theorem capabilitySpec_inj {a b : Line} (h : layout.capabilitySpec a = layout.capabilitySpec b) : a = b := by
  unfold Layout.capabilitySpec at h
  exact append_cancel_left (append_cancel_right h)

theorem newline_not_mem_slugify (text : Line) : '\n' ∉ slugify text := by
  have hstep : ∀ cs slug : Line, '\n' ∉ slug → '\n' ∉ cs.foldl slugStep slug := by
    intro cs
    induction cs with
    | nil => exact fun slug h => h
    | cons c cs ih =>
      intro slug h
      refine ih _ ?_
      unfold slugStep
      split
      · rename_i hc
        intro hmem
        rcases mem_append.mp hmem with hmem | hmem
        · exact h hmem
        · rw [toLower_eq_newline (mem_singleton.mp hmem).symm] at hc
          exact absurd hc (by decide)
      · split
        · intro hmem
          rcases mem_append.mp hmem with hmem | hmem
          · exact h hmem
          · exact absurd hmem (by decide)
        · exact h
  unfold slugify
  dsimp only
  split
  · decide
  · intro hmem
    unfold trimMatches at hmem
    rw [mem_reverse] at hmem
    have hmem := (dropWhile_sublist _).subset hmem
    rw [mem_reverse] at hmem
    exact hstep text [] not_mem_nil (mem_of_mem_take ((dropWhile_sublist _).subset hmem))

theorem newline_not_mem_capability {line : Line} {reference : CapabilityRef} (h : capabilityRef line = some reference) :
    '\n' ∉ reference.capability := by
  unfold capabilityRef at h
  dsimp only at h
  split at h
  · cases h
  · cases h
    exact newline_not_mem_slugify _

def Merging.readAt (merging : Merging) (read : Line → Option (List Char)) (path : Line) : Option (List Char) :=
  (merging.texts path).or (read path)

theorem problems_step (merging : Merging) (requirement : Requirement) :
    merging.problems <+: (mergeStep read layout dir date merging requirement).problems := by
  unfold mergeStep
  split
  · exact prefix_refl _
  · dsimp only
    split
    · exact prefix_refl _
    · exact prefix_append _ _

theorem problems_foldl (requirements : List Requirement) (merging : Merging) :
    merging.problems <+: (requirements.foldl (mergeStep read layout dir date) merging).problems := by
  induction requirements generalizing merging with
  | nil => exact prefix_refl _
  | cons requirement requirements ih => exact (problems_step merging requirement).trans (ih _)

theorem texts_step_none (h : editOf capability requirement = none) (merging : Merging) :
    (mergeStep read layout dir date merging requirement).texts (layout.capabilitySpec capability) =
      merging.texts (layout.capabilitySpec capability) := by
  unfold editOf at h
  unfold mergeStep
  split
  · rfl
  · rename_i reference hreference
    rw [hreference, Option.bind_some] at h
    split at h
    · cases h
    · rename_i hne
      dsimp only
      split
      · refine Function.update_of_ne ?_ _ _
        exact fun heq => hne (capabilitySpec_inj heq.symm)
      · rfl

theorem texts_step_some {edit : CapabilityRef × Requirement} (h : editOf capability requirement = some edit)
    (hproblems : (mergeStep read layout dir date merging requirement).problems = []) :
    '\n' ∉ capability ∧ edit.2 = requirement ∧
      ∃ text, apply (merging.readAt read (layout.capabilitySpec capability)) capability edit.1.action
        (edit.1.nameFor requirement) requirement dir date = .ok text ∧
        (mergeStep read layout dir date merging requirement).texts (layout.capabilitySpec capability) = some text := by
  rw [editOf, Option.bind_eq_some_iff] at h
  obtain ⟨reference, hreference, h⟩ := h
  split at h
  · rename_i heq
    cases h
    subst heq
    obtain ⟨line, -, hline⟩ := Option.bind_eq_some_iff.mp hreference
    refine ⟨newline_not_mem_capability hline, rfl, ?_⟩
    unfold mergeStep at hproblems ⊢
    rw [hreference] at hproblems ⊢
    dsimp only at hproblems ⊢
    split at hproblems
    · rename_i text happly
      exact ⟨text, happly, Function.update_self _ _ _⟩
    · exact absurd hproblems (by simp)
  · cases h

theorem foldl_settled (requirements : List Requirement) : ∀ (merging : Merging) (outline : Outline),
    (Document.parse ((merging.readAt read (layout.capabilitySpec capability)).getD []) capability).settled =
      outline.document.settled →
    outline.OneHeading → KeepsAll dir date outline (edits capability requirements) →
    (requirements.foldl (mergeStep read layout dir date) merging).problems = [] →
    ∃ next, outline.run dir date (edits capability requirements) = some next ∧ next.OneHeading ∧
      (Document.parse (((requirements.foldl (mergeStep read layout dir date) merging).readAt read
        (layout.capabilitySpec capability)).getD []) capability).settled = next.document.settled ∧
      ((edits capability requirements ≠ [] ∨ ∃ text, merging.texts (layout.capabilitySpec capability) = some text ∧
          isBlankLine text = false ∧ (Document.parse text capability).settled = outline.document.settled) →
        ∃ text, (requirements.foldl (mergeStep read layout dir date) merging).texts (layout.capabilitySpec capability) =
            some text ∧ isBlankLine text = false ∧
          (Document.parse text capability).settled = next.document.settled) := by
  induction requirements with
  | nil =>
    intro merging outline hsettled hone _ _
    exact ⟨outline, rfl, hone, hsettled, fun h => h.resolve_left fun hne => hne rfl⟩
  | cons requirement requirements ih =>
    intro merging outline hsettled hone hkeeps hproblems
    rw [foldl_cons] at hproblems ⊢
    cases hedit : editOf capability requirement with
    | none =>
      have hedits : edits capability (requirement :: requirements) = edits capability requirements :=
        filterMap_cons_none hedit
      have htexts : (mergeStep read layout dir date merging requirement).texts (layout.capabilitySpec capability) =
          merging.texts (layout.capabilitySpec capability) := texts_step_none hedit merging
      rw [hedits] at hkeeps ⊢
      rw [← htexts]
      refine ih _ outline ?_ hone hkeeps hproblems
      rw [Merging.readAt, htexts]
      exact hsettled
    | some edit =>
      have hedits : edits capability (requirement :: requirements) = edit :: edits capability requirements :=
        filterMap_cons_some hedit
      have hstep : (mergeStep read layout dir date merging requirement).problems = [] :=
        prefix_nil.mp (hproblems ▸ problems_foldl requirements _)
      obtain ⟨hnewline, rfl, text, happly, htext⟩ := texts_step_some hedit hstep
      rw [hedits] at hkeeps ⊢
      obtain ⟨hkeep, hrest⟩ := hkeeps
      obtain ⟨middle, hmiddle, hread, hsolid⟩ := apply_settled hnewline hsettled hkeep happly
      have hcurrent : (Document.parse (((mergeStep read layout dir date merging edit.2).readAt read
          (layout.capabilitySpec capability)).getD []) capability).settled = middle.document.settled := by
        rw [Merging.readAt, htext]
        exact hread
      obtain ⟨next, hrun, hnext, hnow, hdone⟩ :=
        ih _ middle hcurrent (hone.edit hkeep hmiddle) (hrest middle hmiddle) hproblems
      refine ⟨next, ?_, hnext, hnow, fun _ => hdone (.inr ⟨text, htext, hsolid, hread⟩)⟩
      rw [Outline.run]
      have hmiddle' : outline.edit edit.1.action (edit.1.nameFor edit.2) (blockOf dir date edit).lines = some middle :=
        hmiddle
      rw [hmiddle', Option.bind_some, hrun]

end

section

variable {read : Line → Option (List Char)} {layout : Layout} {requirements : List Requirement} {merges : Merges}

theorem mergeAll_eq_ok : mergeAll read layout dir date requirements = .ok merges ↔
    (requirements.foldl (mergeStep read layout dir date) {}).problems = [] ∧
      merges = ⟨(requirements.foldl (mergeStep read layout dir date) {}).texts,
        (requirements.foldl (mergeStep read layout dir date) {}).names,
        (requirements.foldl (mergeStep read layout dir date) {}).unmerged⟩ := by
  unfold mergeAll
  dsimp only
  split
  · rename_i hproblems
    rw [Except.ok.injEq]
    exact ⟨fun h => ⟨isEmpty_iff.mp hproblems, h.symm⟩, fun h => h.2.symm⟩
  · rename_i hproblems
    refine ⟨fun h => ?_, fun h => absurd (isEmpty_iff.mpr h.1) hproblems⟩
    cases h

theorem original_settled (read : Line → Option (List Char)) (layout : Layout) (capability : Line) :
    (Document.parse ((Merging.readAt {} read (layout.capabilitySpec capability)).getD []) capability).settled =
      (original read layout capability).document.settled := by
  rw [original, Document.outline_document]
  rfl

theorem original_oneHeading (read : Line → Option (List Char)) (layout : Layout) (capability : Line) :
    (original read layout capability).OneHeading := by
  intro part hpart hfresh
  obtain ⟨block, -, rfl⟩ := mem_map.mp hpart
  cases hfresh

theorem merged_of_keepsAll (hmerge : mergeAll read layout dir date requirements = .ok merges)
    (hkeeps : ∀ capability, KeepsAll dir date (original read layout capability) (edits capability requirements)) :
    MergedExactly read layout dir date requirements merges := by
  intro capability hedits
  obtain ⟨hproblems, rfl⟩ := mergeAll_eq_ok.mp hmerge
  obtain ⟨next, hrun, hnext, -, hdone⟩ := foldl_settled requirements {} (original read layout capability)
    (original_settled read layout capability) (original_oneHeading read layout capability) (hkeeps capability) hproblems
  obtain ⟨text, htext, hsolid, hread⟩ := hdone (.inl hedits)
  exact ⟨text, next, htext, hrun, hread, hnext, kept_written hread hsolid⟩

end

end RustyCore.Specs
