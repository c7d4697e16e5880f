import RustyCore.Theorems.Specs.Merge

/-! Where a merge does not leave what its references ask for: what a reference that reads back as asked must keep. -/

namespace RustyCore.Specs

open Text List

variable {outline next : Outline} {doc : Document} {name dir date capability line : Line} {action : Action}
  {requirement : Requirement} {text : List Char} {current : Option (List Char)} {place : Nat} {ls more : List Line}
  {block : Block} {own : List Line}

theorem Block.Headed.goodName (h : block.Headed) :
    '\n' ∉ block.name ∧ trimMatches isWhitespace block.name = block.name := by
  obtain ⟨first, rest, -, hfirst, hname, -⟩ := h
  rw [heading, Option.map_eq_some_iff] at hname
  obtain ⟨name, hstrip, hname⟩ := hname
  unfold stripPrefix at hstrip
  split at hstrip
  · cases hstrip
    refine ⟨fun hmem => hfirst ?_, by rw [← hname, trimMatches_trimMatches]⟩
    rw [← hname, trimMatches, mem_reverse] at hmem
    have hmem := (dropWhile_sublist _).subset hmem
    rw [mem_reverse] at hmem
    exact mem_of_mem_drop ((dropWhile_sublist _).subset hmem)
  · cases hstrip

theorem heading_bare (line : Line) : heading (bare line) = heading line := by
  induction line using List.reverseRecOn with
  | nil => rfl
  | append_singleton line c ih =>
    by_cases hc : c = '\r'
    · rw [bare, rdropWhile_concat_pos _ _ _ (by rw [hc]; rfl), ← bare, ih, hc, heading_append_return]
    · rw [bare, rdropWhile_concat_neg _ _ _ (by simpa using hc)]

theorem headings_settle (ls : List Line) :
    ((settle ls).filter fun line => (heading line).isSome).length =
      ((pieces ls).filter fun line => (heading line).isSome).length := by
  have hblank : ∀ line, isBlankLine line = true → (heading line).isSome = false := by
    intro line hline
    rw [Option.isSome_eq_false_iff, Option.isNone_iff_eq_none]
    cases hheading : heading line with
    | none => rfl
    | some name =>
      rw [isBlankLine_of_heading hheading] at hline
      cases hline
  rw [settle, filter_rdropWhile hblank, filter_map, length_map]
  simp only [Function.comp_def, heading_bare]

theorem plain_of_settled {read : Block} (hread : read.Headed)
    (hsettled : read.settled = ⟨name, settle ((Block.fromRequirement name requirement dir date).lines ++ more)⟩) :
    Plain name (Block.fromRequirement name requirement dir date) := by
  have hname : read.name = name := congrArg Block.name hsettled
  have hlines : settle read.lines = settle ((Block.fromRequirement name requirement dir date).lines ++ more) :=
    congrArg Block.lines hsettled
  have hgood := hread.goodName
  rw [hname] at hgood
  have hfirst : '\n' ∉ "### Requirement: ".toList ++ name := by
    rw [mem_append]
    exact fun hmem => hmem.elim (by decide) hgood.1
  have hsplit : pieces (Block.fromRequirement name requirement dir date).lines =
      ("### Requirement: ".toList ++ name) :: pieces (Block.fromRequirement name requirement dir date).lines.tail := by
    rw [← singleton_append, ← splitOn_newline hfirst]
    rfl
  have hheading : (heading ("### Requirement: ".toList ++ name)).isSome = true := rfl
  have hcount := hread.one
  rw [← headings_settle, hlines, headings_settle, pieces_append, filter_append, length_append, hsplit,
    filter_cons_of_pos (p := fun line => (heading line).isSome) hheading, length_cons] at hcount
  have hnone : ((pieces (Block.fromRequirement name requirement dir date).lines.tail).filter
      fun line => (heading line).isSome) = [] := length_eq_zero_iff.mp (by omega)
  rw [filter_eq_nil_iff] at hnone
  refine ⟨hgood.1, hgood.2, fun line hline => ?_⟩
  simpa using hnone line hline

def Outline.Sectioned (outline : Outline) : Prop :=
  ∀ part ∈ outline.parts, part.tail ≠ [] → ∃ line rest, content part.tail = line :: rest ∧ isSection line = true

theorem isSection_bare (h : isSection line = true) : isSection (bare line) = true := by
  induction line using List.reverseRecOn with
  | nil => exact h
  | append_singleton line c ih =>
    by_cases hc : c = '\r'
    · rw [bare, rdropWhile_concat_pos _ _ _ (by rw [hc]; rfl), ← bare]
      refine ih ?_
      rw [isSection, isPrefixOf_iff_prefix, prefix_concat_iff] at h
      rcases h with h | h
      · have hlast := congrArg List.getLast? h
        rw [List.getLast?_concat, hc] at hlast
        exact absurd hlast (by decide)
      · exact isPrefixOf_iff_prefix.mpr h
    · rw [bare, rdropWhile_concat_neg _ _ _ (by simpa using hc)]
      exact h

theorem isBlankLine_of_section (h : isSection line = true) : isBlankLine line = false := by
  obtain ⟨rest, rfl⟩ := isPrefixOf_iff_prefix.mp h
  rw [← Bool.not_eq_true, isBlankLine_iff]
  intro hall
  exact absurd (hall '#' (mem_append_left _ (by decide))) (by decide)

theorem content_section (hsection : isSection line = true) (hline : '\n' ∉ line) :
    content (line :: ls) = bare line :: content ls := by
  rw [content, pieces_cons, splitOn_newline hline, singleton_append, map_cons, filter_cons_of_pos, content]
  rw [isBlankLine_bare, isBlankLine_of_section hsection]
  rfl

theorem newline_not_mem_parse : ∀ block ∈ (Document.parse text capability).blocks, ∀ line ∈ block.lines, '\n' ∉ line := by
  intro block hblock line hline
  cases hblank : isBlankLine text with
  | true =>
    rw [Document.parse, if_pos hblank] at hblock
    cases hblock
  | false =>
    have hmem : line ∈ (Document.parse text capability).flat :=
      mem_append_right _ (mem_flatMap.mpr ⟨block, hblock, hline⟩)
    rw [Document.flat_parse hblank capability] at hmem
    exact newline_not_mem_lines line hmem

theorem original_sectioned (read : Line → Option (List Char)) (layout : Layout) (capability : Line) :
    (original read layout capability).Sectioned := by
  intro part hpart htail
  obtain ⟨block, hblock, rfl⟩ := mem_map.mp hpart
  obtain ⟨line, rest, heq⟩ := exists_cons_of_ne_nil htail
  have heq' : block.lines.dropWhile (!isSection ·) = line :: rest := heq
  have hsection : isSection line = true := by
    have h := List.head?_dropWhile_not (!isSection ·) block.lines
    rw [heq'] at h
    simpa using h
  have hmem : line ∈ block.lines := by
    refine (dropWhile_sublist (!isSection ·)).subset ?_
    rw [heq']
    exact mem_cons_self
  rw [heq, content_section hsection (newline_not_mem_parse block hblock line hmem)]
  exact ⟨_, _, rfl, isSection_bare hsection⟩

theorem mem_tailAt (h : outline.tailAt place ≠ []) : ∃ part ∈ outline.parts, part.tail = outline.tailAt place := by
  unfold Outline.tailAt at h ⊢
  cases hpart : outline.parts[place]? with
  | none =>
    rw [hpart] at h
    exact absurd rfl h
  | some part => exact ⟨part, mem_of_getElem? hpart, rfl⟩

theorem Outline.Sectioned.edit {own : List Line} (h : outline.Sectioned)
    (hedit : outline.edit action name own = some next) : next.Sectioned := by
  unfold Outline.edit at hedit
  split at hedit
  · cases hedit
    intro part hpart
    rcases mem_append.mp hpart with hpart | hpart
    · exact h part hpart
    · rw [mem_singleton.mp hpart]
      exact fun hne => absurd rfl hne
  · cases hedit
    intro part hpart
    rcases mem_of_mem_modify hpart with hpart | ⟨before, hbefore, rfl⟩
    · exact h part hpart
    · exact h before hbefore
  · cases hedit
    exact fun part hpart => h part (mem_of_mem_eraseIdx hpart)
  · cases hedit
    intro part hpart htail
    rcases mem_of_mem_modify (mem_of_mem_eraseIdx hpart) with hpart | ⟨before, hbefore, rfl⟩
    · exact h part hpart htail
    · by_cases hnil : before.tail = []
      · dsimp only at htail ⊢
        rw [hnil, nil_append] at htail ⊢
        obtain ⟨moved, hmoved, heq⟩ := mem_tailAt htail
        rw [← heq] at htail ⊢
        exact h moved hmoved htail
      · obtain ⟨line, rest, hcontent, hsection⟩ := h before hbefore hnil
        dsimp only
        rw [content_append, hcontent]
        exact ⟨line, _, rfl, hsection⟩
  · cases hedit

theorem content_tail_eq_nil (h : settle ls = settle (ls ++ more)) : content more = [] := by
  have hcontent : content ls = content (ls ++ more) := by rw [content_eq, content_eq, h]
  rw [content_append] at hcontent
  exact self_eq_append_right.mp hcontent

namespace Document

theorem newline_not_mem_head (h : '\n' ∉ capability) : ∀ line ∈ (parse text capability).head, '\n' ∉ line := by
  intro line hline
  cases hblank : isBlankLine text with
  | true =>
    rw [parse, if_pos hblank] at hline
    rcases mem_cons.mp hline with rfl | hline
    · rw [mem_append]
      exact fun hmem => hmem.elim (by decide) (newline_not_mem_titleOf h)
    · have hrest : ∀ line ∈ [[], "Purpose: ".toList, [], "## Requirements".toList, []], '\n' ∉ line := by decide
      exact hrest line hline
  | false =>
    have hmem : line ∈ (parse text capability).flat := mem_append_left _ hline
    rw [flat_parse hblank capability] at hmem
    exact newline_not_mem_lines line hmem

theorem solid_template (capability : Line) : (template capability).Solid := by
  refine .inl fun hnil => ?_
  have hcontent : content (template capability).head = [] := by rw [content_eq, hnil]; rfl
  have hsplit : (template capability).head =
      ["# ".toList ++ titleOf capability, [], "Purpose: ".toList, []] ++ ["## Requirements".toList, []] := rfl
  rw [hsplit, content_append, append_eq_nil_iff] at hcontent
  exact absurd hcontent.2 (by decide)

theorem solid_of_headed (h : block.Headed) (hmem : block ∈ doc.blocks) : doc.Solid := by
  refine .inr ⟨block, hmem, fun hnil => ?_⟩
  have hone := h.one
  rw [← headings_settle, hnil] at hone
  cases hone

/-- What is written reads back settled, or was blank and reads as the template. -/
theorem parse_written (hwell : doc.WellFormed) (hhead : ∀ line ∈ doc.head, '\n' ∉ line) (capability : Line) :
    (doc.Solid ∧ (parse doc.render capability).settled = doc.settled) ∨
      (doc.blocks = [] ∧ settle doc.head = [] ∧ parse doc.render capability = template capability) := by
  obtain ⟨head, blocks⟩ := doc
  cases blocks with
  | cons block blocks =>
    have hsolid : (Document.mk head (block :: blocks)).Solid :=
      solid_of_headed (hwell.blocks block mem_cons_self) mem_cons_self
    exact .inl ⟨hsolid, parse_render hwell hsolid capability⟩
  | nil =>
    by_cases hnil : settle head = []
    · refine .inr ⟨rfl, hnil, if_pos ?_⟩
      have hall : ∀ line ∈ head, isBlankLine line = true := by
        intro line hline
        rw [settle, pieces_eq hhead, rdropWhile_eq_nil_iff] at hnil
        rw [← isBlankLine_bare]
        exact hnil _ (mem_map_of_mem hline)
      rw [render, layOut, rdropWhile_eq_nil_iff.mpr hall]
      rfl
    · exact .inl ⟨.inl hnil, parse_render hwell (.inl hnil) capability⟩

theorem template_head (h : '\n' ∉ capability) (hcontent : content (template capability).head = line :: ls) :
    isSection line = false := by
  have htitle : '\n' ∉ "# ".toList ++ titleOf capability := by
    rw [mem_append]
    exact fun hmem => hmem.elim (by decide) (newline_not_mem_titleOf h)
  have hsplit : (template capability).head = ("# ".toList ++ titleOf capability) ::
      [[], "Purpose: ".toList, [], "## Requirements".toList, []] := rfl
  have hsolid : isBlankLine (bare ("# ".toList ++ titleOf capability)) = false := by
    rw [isBlankLine_bare, ← Bool.not_eq_true, isBlankLine_iff]
    intro hall
    exact absurd (hall '#' (mem_append_left _ (by decide))) (by decide)
  rw [hsplit, content, pieces_cons, splitOn_newline htitle, singleton_append, map_cons,
    filter_cons_of_pos (by rw [hsolid]; rfl), List.cons.injEq] at hcontent
  rw [← hcontent.1, ← Bool.not_eq_true]
  intro hsection
  have hprefix : "## ".toList <+: "# ".toList ++ titleOf capability :=
    (List.isPrefixOf_iff_prefix.mp hsection).trans (List.rdropWhile_prefix _ _)
  rw [← isPrefixOf_iff_prefix] at hprefix
  cases hprefix

end Document

section

variable (hcapability : '\n' ∉ capability)
  (hsettled : (Document.parse (current.getD []) capability).settled = outline.document.settled)
  (hread : (Document.parse text capability).settled = next.document.settled)

include hcapability hread in
theorem plain_of_mem {more : List Line}
    (hmem : Part.block ⟨name, (Block.fromRequirement name requirement dir date).lines, more, true⟩ ∈
      next.document.blocks) : Plain name (Block.fromRequirement name requirement dir date) := by
  have hblocks : (Document.parse text capability).blocks.map Block.settled = next.document.blocks.map Block.settled :=
    congrArg Document.blocks hread
  have hmem := mem_map_of_mem (f := Block.settled) hmem
  rw [← hblocks] at hmem
  obtain ⟨read, hmem, heq⟩ := mem_map.mp hmem
  exact plain_of_settled ((Document.parse_wellFormed hcapability text).blocks read hmem) heq

end

theorem getElem?_of_place (h : outline.place name = some place) : ∃ part, outline.parts[place]? = some part := by
  rw [Outline.place, List.findIdx?_eq_some_iff_getElem] at h
  obtain ⟨hlt, -⟩ := h
  exact ⟨_, List.getElem?_eq_getElem hlt⟩

theorem settle_at {doc' : Document} (h : doc.settled = doc'.settled) (place : Nat) :
    (doc.blocks[place]?).map (fun block => settle block.lines) =
      (doc'.blocks[place]?).map fun block => settle block.lines := by
  have hblocks : doc.blocks.map Block.settled = doc'.blocks.map Block.settled := congrArg Document.blocks h
  have hlines := congrArg (fun blocks : List Block => (blocks[place]?).map Block.lines) hblocks
  simpa only [List.getElem?_map, Option.map_map, Function.comp_def, Block.settled] using hlines

theorem read_or_blank {blocks : List Block} (hwell : doc.WellFormed) (hwhole : ∀ line ∈ doc.head, '\n' ∉ line)
    (hread : (Document.parse text capability).settled = next.document.settled)
    (hheaded : ∀ block ∈ blocks, block.Headed) (hrender : (Document.mk doc.head blocks).render = text) :
    next.document.Solid ∧
      ((Document.mk doc.head blocks).settled = next.document.settled ∨
        blocks = [] ∧ settle doc.head = [] ∧ next.document.settled = (Document.template capability).settled) := by
  subst hrender
  have hwell' : (Document.mk doc.head blocks).WellFormed := ⟨hwell.head, hheaded⟩
  rcases Document.parse_written hwell' hwhole capability with ⟨hsolid, hsame⟩ | ⟨hblocks, hnil, htemplate⟩
  · rw [hread] at hsame
    exact ⟨Document.solid_settled hsame hsolid, .inl hsame.symm⟩
  · rw [htemplate] at hread
    exact ⟨Document.solid_settled hread.symm (Document.solid_template capability), .inr ⟨hblocks, hnil, hread.symm⟩⟩

theorem tailAt_eq_nil (hsections : outline.Sectioned) (h : content (outline.tailAt place) = []) :
    outline.tailAt place = [] := by
  by_contra hne
  obtain ⟨part, hpart, heq⟩ := mem_tailAt hne
  rw [← heq] at hne h
  obtain ⟨line, rest, hcontent, -⟩ := hsections part hpart hne
  rw [h] at hcontent
  cases hcontent

theorem content_tail_of_replaced {blocks : List Block} {part : Part} {head : List Line} (hlt : place < blocks.length)
    (hat : next.parts[place]? = some ⟨name, block.lines, part.tail, true⟩)
    (hsame : (Document.mk head (blocks.set place block)).settled = next.document.settled) : content part.tail = [] := by
  have hlines := settle_at hsame place
  simp only [Outline.document, List.getElem?_map, hat, List.getElem?_set_self hlt, Option.map_some,
    Option.some.injEq, Part.block] at hlines
  exact content_tail_eq_nil hlines

theorem content_tail_of_first (hsections : outline.Sectioned) (hcapability : '\n' ∉ capability)
    (hhead : settle doc.head = settle outline.head) (hnext : next.head = outline.head ++ outline.tailAt 0)
    (hsame : settle doc.head = settle next.head ∨
      settle doc.head = [] ∧ settle next.head = settle (Document.template capability).head) :
    content (outline.tailAt 0) = [] := by
  rcases hsame with hsame | ⟨hnil, htemplate⟩
  · rw [hhead, hnext] at hsame
    exact content_tail_eq_nil hsame
  · have hcontents : content next.head = content (Document.template capability).head := by
      rw [content_eq, content_eq, htemplate]
    have hblank : content outline.head = [] := by
      rw [content_eq, ← hhead, hnil]
      rfl
    rw [hnext, content_append, hblank, nil_append] at hcontents
    by_contra hne
    have hmoved : outline.tailAt 0 ≠ [] := fun hnil => hne (by rw [hnil]; rfl)
    obtain ⟨part, hpart, heq⟩ := mem_tailAt hmoved
    rw [← heq] at hmoved hcontents
    obtain ⟨line, rest, hcontent, hsection⟩ := hsections part hpart hmoved
    rw [hcontent] at hcontents
    rw [Document.template_head hcapability hcontents.symm] at hsection
    cases hsection

theorem content_tail_of_later {before : Nat} {prior : Part} {blocks : List Block} {head : List Line}
    (hsettled : (Document.mk head blocks).settled = outline.document.settled)
    (hprior : outline.parts[before]? = some prior)
    (hat : next.parts[before]? = some { prior with tail := prior.tail ++ outline.tailAt (before + 1) })
    (hsame : (Document.mk head (blocks.eraseIdx (before + 1))).settled = next.document.settled) :
    content (outline.tailAt (before + 1)) = [] := by
  have hlines := settle_at hsame before
  have holder := settle_at hsettled before
  simp only [Outline.document, List.getElem?_map, hat, hprior, Option.map_some, Part.block,
    List.getElem?_eraseIdx_of_lt (Nat.lt_succ_self before)] at hlines holder
  rw [holder, Option.some.injEq, ← append_assoc] at hlines
  exact content_tail_eq_nil hlines

/-- The requirement that an edit adds or changes is one of the parts after it. -/
theorem exists_part (hne : action ≠ .removes) (hedit : outline.edit action name own = some next) :
    ∃ tail, (⟨name, own, tail, true⟩ : Part) ∈ next.parts := by
  unfold Outline.edit at hedit
  split at hedit
  · cases hedit
    exact ⟨[], mem_append_right _ mem_cons_self⟩
  · rename_i place hplace
    cases hedit
    obtain ⟨part, hpart⟩ := getElem?_of_place hplace
    refine ⟨part.tail, mem_of_getElem? (i := place) ?_⟩
    rw [List.getElem?_modify_eq, hpart]
    rfl
  · exact absurd rfl hne
  · exact absurd rfl hne
  · cases hedit

theorem untailed_of_changed {head : List Line} {blocks : List Block} (hsections : outline.Sectioned)
    (hplace : outline.place name = some place) (hedit : outline.edit .changes name block.lines = some next)
    (hlt : place < blocks.length)
    (hsame : (Document.mk head (blocks.set place block)).settled = next.document.settled) :
    outline.tailAt place = [] := by
  obtain ⟨part, hpart⟩ := getElem?_of_place hplace
  have htail : outline.tailAt place = part.tail := by
    rw [Outline.tailAt, hpart]
    rfl
  have hat : next.parts[place]? = some ⟨name, block.lines, part.tail, true⟩ := by
    simp only [Outline.edit, hplace, Option.some.injEq] at hedit
    rw [← hedit, List.getElem?_modify_eq, hpart]
    rfl
  refine tailAt_eq_nil hsections ?_
  rw [htail]
  exact content_tail_of_replaced hlt hat hsame

/-- What followed a removed requirement went to the part before it, the head when it was the first. -/
theorem untailed_of_removed (hsections : outline.Sectioned) (hcapability : '\n' ∉ capability)
    (hsettled : doc.settled = outline.document.settled) (hplace : outline.place name = some place)
    (hedit : outline.edit .removes name own = some next)
    (hsame : (Document.mk doc.head (doc.blocks.eraseIdx place)).settled = next.document.settled ∨
      settle doc.head = [] ∧ next.document.settled = (Document.template capability).settled) :
    outline.tailAt place = [] := by
  have hhead : settle doc.head = settle outline.head := congrArg Document.head hsettled
  obtain ⟨part, hpart⟩ := getElem?_of_place hplace
  refine tailAt_eq_nil hsections ?_
  cases place with
  | zero =>
    simp only [Outline.edit, hplace, Option.some.injEq] at hedit
    have hjoined : next.head = outline.head ++ outline.tailAt 0 := by rw [← hedit]
    refine content_tail_of_first hsections hcapability hhead hjoined ?_
    rcases hsame with hsame | ⟨hnil, htemplate⟩
    · exact .inl (congrArg Document.head hsame)
    · exact .inr ⟨hnil, congrArg Document.head htemplate⟩
  | succ before =>
    simp only [Outline.edit, hplace, Option.some.injEq] at hedit
    obtain ⟨hlt, -⟩ := List.getElem?_eq_some_iff.mp hpart
    obtain ⟨prior, hprior⟩ : ∃ prior, outline.parts[before]? = some prior :=
      ⟨_, List.getElem?_eq_getElem (Nat.lt_of_succ_lt hlt)⟩
    have hat : next.parts[before]? = some { prior with tail := prior.tail ++ outline.tailAt (before + 1) } := by
      rw [← hedit, List.getElem?_eraseIdx_of_lt (Nat.lt_succ_self before), List.getElem?_modify_eq, hprior]
      rfl
    rcases hsame with hsame | ⟨-, htemplate⟩
    · exact content_tail_of_later hsettled hprior hat hsame
    · have hblocks : next.document.blocks.map Block.settled = [] := congrArg Document.blocks htemplate
      rw [map_eq_nil_iff, Outline.document, map_eq_nil_iff] at hblocks
      rw [hblocks] at hat
      cases hat

/-- The converse of what `Keeps` gives, for each kind of edit: what is written as it asks was kept. -/
theorem keeps_of_written (hcapability : '\n' ∉ capability)
    (hsettled : (Document.parse (current.getD []) capability).settled = outline.document.settled)
    (hsections : outline.Sectioned)
    (happly : apply current capability action name requirement dir date = .ok text)
    (hedit : outline.edit action name (Block.fromRequirement name requirement dir date).lines = some next)
    (hread : (Document.parse text capability).settled = next.document.settled) :
    Keeps outline action name (Block.fromRequirement name requirement dir date) := by
  have hwell := Document.parse_wellFormed hcapability (current.getD [])
  obtain ⟨blocks, hwritten, hrender⟩ := apply_ok happly
  have hplain : action ≠ .removes → Plain name (Block.fromRequirement name requirement dir date) := by
    intro hne
    obtain ⟨tail, hmem⟩ := exists_part hne hedit
    exact plain_of_mem hcapability hread (mem_map_of_mem hmem)
  have hheaded := hwritten.headed hwell fun hne => headed_fromRequirement (hplain hne)
  obtain ⟨hsolid, hsame⟩ := read_or_blank hwell (Document.newline_not_mem_head hcapability) hread hheaded hrender
  refine ⟨hplain, fun hne place hplace => ?_, fun next' hnext => ?_⟩
  · have hfound := hplace
    rw [Outline.place_eq hsettled name] at hfound
    cases hwritten with
    | adds => exact absurd rfl hne
    | changes hfound' =>
      cases hfound.symm.trans hfound'
      have hlt := (List.findIdx?_eq_some_iff_getElem.mp hfound).1
      rcases hsame with hsame | ⟨hnil, -⟩
      · exact untailed_of_changed hsections hplace hedit hlt hsame
      · have hlength := congrArg List.length hnil
        rw [length_set, length_nil] at hlength
        omega
    | removes hfound' =>
      cases hfound.symm.trans hfound'
      exact untailed_of_removed hsections hcapability hsettled hplace hedit (hsame.imp_right (·.2))
  · rw [hedit] at hnext
    cases hnext
    exact hsolid

section

variable {read : Line → Option (List Char)} {layout : Layout} {requirements : List Requirement} {merges : Merges}
  {edit : CapabilityRef × Requirement} {before after : List (CapabilityRef × Requirement)}

theorem keepsAll_append : KeepsAll dir date outline (before ++ after) ↔
    KeepsAll dir date outline before ∧
      ∀ next, outline.run dir date before = some next → KeepsAll dir date next after := by
  induction before generalizing outline with
  | nil => simp [KeepsAll, Outline.run]
  | cons edit before ih =>
    rw [cons_append, KeepsAll, KeepsAll, and_assoc, and_congr_right_iff]
    intro _
    constructor
    · intro h
      refine ⟨fun next hnext => (ih.mp (h next hnext)).1, fun last hrun => ?_⟩
      rw [Outline.run, Option.bind_eq_some_iff] at hrun
      obtain ⟨next, hnext, hrun⟩ := hrun
      exact (ih.mp (h next hnext)).2 last hrun
    · rintro ⟨hbefore, hafter⟩ next hnext
      refine ih.mpr ⟨hbefore next hnext, fun last hrun => hafter last ?_⟩
      rw [Outline.run, hnext, Option.bind_some, hrun]

theorem run_append : outline.run dir date (before ++ after) =
    (outline.run dir date before).bind fun next => next.run dir date after := by
  induction before generalizing outline with
  | nil => rfl
  | cons edit before ih =>
    rw [cons_append, Outline.run, Outline.run, Option.bind_assoc]
    exact congrArg (Option.bind _) (funext fun next => ih)

theorem Outline.Sectioned.run (h : outline.Sectioned) (hrun : outline.run dir date before = some next) :
    next.Sectioned := by
  induction before generalizing outline with
  | nil =>
    cases hrun
    exact h
  | cons edit before ih =>
    rw [Outline.run, Option.bind_eq_some_iff] at hrun
    obtain ⟨middle, hmiddle, hrun⟩ := hrun
    exact ih (h.edit hmiddle) hrun

theorem edits_append (capability : Line) (requirements more : List Requirement) :
    edits capability (requirements ++ more) = edits capability requirements ++ edits capability more :=
  filterMap_append

def MergesInOrder (read : Line → Option (List Char)) (layout : Layout) (dir date : Line)
    (requirements : List Requirement) : Prop :=
  ∀ n merges, mergeAll read layout dir date (requirements.take n) = .ok merges →
    MergedExactly read layout dir date (requirements.take n) merges

theorem problems_append {requirement : Requirement}
    (h : ((requirements ++ [requirement]).foldl (mergeStep read layout dir date) {}).problems = []) :
    (requirements.foldl (mergeStep read layout dir date) {}).problems = [] := by
  have hgrow : (requirements.foldl (mergeStep read layout dir date) {}).problems <+:
      ((requirements ++ [requirement]).foldl (mergeStep read layout dir date) {}).problems := by
    rw [foldl_append]
    exact problems_foldl [requirement] _
  rw [h] at hgrow
  exact prefix_nil.mp hgrow

/-- One reference after the other, along the fold of the merge. -/
theorem keepsAll_of_merged (hproblems : (requirements.foldl (mergeStep read layout dir date) {}).problems = [])
    (h : MergesInOrder read layout dir date requirements) (capability : Line) :
    KeepsAll dir date (original read layout capability) (edits capability requirements) := by
  induction requirements using List.reverseRecOn with
  | nil => exact trivial
  | append_singleton requirements requirement ih =>
    have hbefore := problems_append hproblems
    have hprefix : MergesInOrder read layout dir date requirements := by
      intro n merges hmerge
      have htake : (requirements ++ [requirement]).take (min n requirements.length) = requirements.take n := by
        rw [take_append_of_le_length (Nat.min_le_right _ _), ← take_eq_take_min]
      rw [← htake] at hmerge ⊢
      exact h _ merges hmerge
    have hkeeps := ih hbefore hprefix
    rw [edits_append]
    cases hedit : editOf capability requirement with
    | none =>
      have hnone : edits capability [requirement] = [] := filterMap_cons_none hedit
      rw [hnone, append_nil]
      exact hkeeps
    | some edit =>
      have hone : edits capability [requirement] = [edit] := filterMap_cons_some hedit
      rw [hone]
      refine keepsAll_append.mpr ⟨hkeeps, fun middle hmiddle => ⟨?_, fun _ _ => trivial⟩⟩
      -- the state before this requirement is exact, and what it writes is what it asks for
      obtain ⟨middle', hrun, -, hnow, -⟩ := foldl_settled requirements {} (original read layout capability)
        (original_settled read layout capability) (original_oneHeading read layout capability) hkeeps hbefore
      rw [hrun] at hmiddle
      cases hmiddle
      rw [foldl_append, foldl_cons, foldl_nil] at hproblems
      obtain ⟨hnewline, rfl, text, happly, htext⟩ := texts_step_some hedit hproblems
      have hwhole : (requirements ++ [edit.2]).take (requirements ++ [edit.2]).length = requirements ++ [edit.2] :=
        take_length
      have hmerged := h (requirements ++ [edit.2]).length
      rw [hwhole] at hmerged
      obtain ⟨text', next, htext', hnext, hwritten⟩ := hmerged _ (mergeAll_eq_ok.mpr ⟨by
        rw [foldl_append, foldl_cons, foldl_nil]
        exact hproblems, rfl⟩) capability (by rw [edits_append, hone]; simp)
      rw [foldl_append, foldl_cons, foldl_nil] at htext'
      cases htext.symm.trans htext'
      rw [edits_append, hone, run_append, hrun, Option.bind_some, Outline.run, Option.bind_eq_some_iff] at hnext
      obtain ⟨last, hlast, hnext⟩ := hnext
      cases hnext
      exact keeps_of_written hnewline hnow ((original_sectioned read layout capability).run hrun) happly hlast
        hwritten.reads

/-- A merge that succeeds is what its references ask for, after each of them, exactly where each keeps in the spec
    that those before it leave everything it is not about. -/
theorem merges_in_order_iff (hmerge : mergeAll read layout dir date requirements = .ok merges) :
    MergesInOrder read layout dir date requirements ↔
      ∀ capability, KeepsAll dir date (original read layout capability) (edits capability requirements) := by
  refine ⟨fun h => keepsAll_of_merged (mergeAll_eq_ok.mp hmerge).1 h, fun h n merges' hmerge' => ?_⟩
  refine merged_of_keepsAll hmerge' fun capability => ?_
  have hsplit : edits capability requirements =
      edits capability (requirements.take n) ++ edits capability (requirements.drop n) := by
    rw [← edits_append, take_append_drop]
  have hkeeps := h capability
  rw [hsplit] at hkeeps
  exact (keepsAll_append.mp hkeeps).1

end

namespace Sample

def albums : Line := "albums".toList

def rename : Requirement where
  id := "R1".toList
  title := "Renaming".toList
  capability := some "albums (changes \"Naming\")".toList
  detail := "Names stay unique.".toList
  criteria := ["WHEN the name is taken THEN nothing changes.".toList]

def noted : Line → Option (List Char) := fun _ =>
  some "# Albums\n\n### Requirement: Naming\nOld.\n\n## Notes\nKeep this.\n".toList

def specs : Layout := ⟨"specs".toList⟩

def renamed : Merges :=
  match mergeAll noted specs "0007-albums".toList "2026-10-30".toList [rename] with
  | .ok merges => merges
  | .error _ => ⟨fun _ => none, [], []⟩

def unnoted : Line → Option (List Char) := fun _ => some "# Albums\n\n### Requirement: Naming\nOld.\n".toList

def toNaming : CapabilityRef := ⟨albums, .changes, some "Naming".toList⟩

theorem edits_rename (capability : Line) :
    edits capability [rename] = if albums = capability then [(toNaming, rename)] else [] := by
  have hedit : editOf capability rename = if albums = capability then some (toNaming, rename) else none := rfl
  rw [edits, filterMap_cons, hedit]
  split_ifs <;> rfl

set_option maxRecDepth 4000 in
theorem keepsAll_unnoted (capability : Line) : KeepsAll "0007-albums".toList "2026-10-30".toList
    (original unnoted specs capability) (edits capability [rename]) := by
  rw [edits_rename]
  split_ifs with h
  · subst h
    have huntailed : ((original unnoted specs albums).place "Naming".toList).all
        (fun place => (original unnoted specs albums).tailAt place = []) = true := by decide
    have hhead : ((original unnoted specs albums).edit .changes "Naming".toList
        (blockOf "0007-albums".toList "2026-10-30".toList (toNaming, rename)).lines).all
        (fun next => settle next.document.head ≠ []) = true := by decide
    refine ⟨⟨fun _ => ⟨by decide, by decide, by decide⟩, fun _ place hplace => ?_, fun next hnext => ?_⟩, fun _ _ => trivial⟩
    · change (original unnoted specs albums).place "Naming".toList = some place at hplace
      rw [hplace] at huntailed
      exact of_decide_eq_true huntailed
    · change (original unnoted specs albums).edit .changes "Naming".toList
        (blockOf "0007-albums".toList "2026-10-30".toList (toNaming, rename)).lines = some next at hnext
      rw [hnext] at hhead
      exact Or.inl (of_decide_eq_true hhead)
  · trivial

theorem merges_in_order_unnoted :
    ∃ merges, mergeAll unnoted specs "0007-albums".toList "2026-10-30".toList [rename] = .ok merges ∧
      MergesInOrder unnoted specs "0007-albums".toList "2026-10-30".toList [rename] :=
  ⟨_, rfl, (merges_in_order_iff rfl).mpr keepsAll_unnoted⟩

set_option maxRecDepth 4000 in
theorem notes_lost : mergeAll noted specs "0007-albums".toList "2026-10-30".toList [rename] = .ok renamed ∧
    ¬ MergedExactly noted specs "0007-albums".toList "2026-10-30".toList [rename] renamed := by
  refine ⟨rfl, fun h => ?_⟩
  obtain ⟨text, next, htext, hrun, hwritten⟩ := h albums (by decide)
  have hkept : ((original noted specs albums).run "0007-albums".toList "2026-10-30".toList
      (edits albums [rename])).any (fun next => next.kept.contains "## Notes".toList) = true := by decide
  rw [hrun] at hkept
  have hmem : "## Notes".toList ∈ content (lines text) := hwritten.kept.subset (by simpa using hkept)
  have hlost : (renamed.texts (specs.capabilitySpec albums)).all
      (fun text => !(content (lines text)).contains "## Notes".toList) = true := by decide
  rw [htext] at hlost
  simp only [Option.all_some, Bool.not_eq_true', contains_eq_mem, decide_eq_false_iff_not] at hlost
  exact hlost hmem

end Sample

end RustyCore.Specs
