import RustyCore.Lib.Utf8
import RustyCore.Theorems.ToolGit.Blocks

/-! A rendered diff accounts for every file: the text is one piece for each file, within the budgets, and what is
    reported of a file is what its piece shows of its block. Without a report of limits every file is there whole. -/

namespace RustyCore.GitPatch

open List

abbrev Pieces := List (DiffFile × String)

def Pieces.text (pieces : Pieces) : String := String.join (pieces.map (·.2))

def Pieces.patched (pieces : Pieces) : Nat := pieces.countP (·.2 ≠ "")

def HasBlock (filters : DiffFilters) (file : DiffFile) (block : Option String) : Prop :=
  ∃ hunks, file.matching filters.needle = .ok hunks ∧ blockText file.delta filters.needle filters.hunkLimit hunks = block

/-- The block of the file does not fit after those before it. -/
def Exceeds (filters : DiffFilters) (earlier : Pieces) (file : DiffFile) : Prop :=
  ∃ block, HasBlock filters file (some block) ∧ filters.byteLimit < earlier.text.utf8ByteSize + block.utf8ByteSize

/-- There is room for another file. -/
structure Open (filters : DiffFilters) (earlier : Pieces) : Prop where
  files : earlier.patched < filters.fileLimit
  bytes : ∀ i file piece, earlier[i]? = some (file, piece) → ¬Exceeds filters (earlier.take i) file

/-- What each reported state says of the text that stands for the file. -/
def Reports (filters : DiffFilters) (requested : Bool) (earlier : Pieces) (file : DiffFile) (piece : String) :
    PatchState → Prop
  | .full => requested = true ∧ Open filters earlier ∧ HasBlock filters file (some piece) ∧
      earlier.text.utf8ByteSize + piece.utf8ByteSize ≤ filters.byteLimit
  | .partly => requested = true ∧ Open filters earlier ∧ Exceeds filters earlier file ∧
      ∃ head tail, HasBlock filters file (some (head ++ tail)) ∧ head ≠ "" ∧ tail ≠ "" ∧ piece = head ++ truncationMarker
  | .omitted => requested = true ∧ (¬Open filters earlier ∨ Exceeds filters earlier file) ∧ piece = ""
  | .filteredOut => requested = true ∧ Open filters earlier ∧ HasBlock filters file none ∧ piece = ""
  | .summary => requested = false ∧ piece = ""

def wholeText (delta : DiffDelta) (needle : Option String) : Option (List String) → String
  | none => if needle.isSome then "" else diffHeader delta ++ "Binary files differ\n"
  | some hunks =>
    if needle.isSome && hunks.isEmpty then "" else diffHeader delta ++ fileMarkers delta ++ String.join hunks

def Whole (filters : DiffFilters) (file : DiffFile) (piece : String) : Prop :=
  ∃ hunks, file.matching filters.needle = .ok hunks ∧ piece = wholeText file.delta filters.needle hunks

variable {filters : DiffFilters} {requested : Bool} {earlier pieces : Pieces} {file : DiffFile} {piece block : String}
  {run run' : Render}

theorem HasBlock.unique {b b' : Option String} (h : HasBlock filters file b) (h' : HasBlock filters file b') : b = b' := by
  obtain ⟨hunks, hhunks, rfl⟩ := h
  obtain ⟨hunks', hhunks', rfl⟩ := h'
  rw [hhunks] at hhunks'
  rw [Except.ok.inj hhunks']

variable {hunks : Option (List String)} {needle : Option String}

theorem blockText_opens {delta : DiffDelta} {maxHunks : Nat}
    (h : blockText delta needle maxHunks hunks = some block) : ∃ rest, block = "diff --git " ++ rest := by
  have hheader : ∃ rest, diffHeader delta = "diff --git " ++ rest := by
    refine ⟨((delta.oldPath.map ("a/" ++ ·)).or (delta.newPath.map ("b/" ++ ·))).getD "a/?" ++ (" " ++
      (((delta.newPath.map ("b/" ++ ·)).or (delta.oldPath.map ("a/" ++ ·))).getD "b/?" ++ "\n")), ?_⟩
    rw [diffHeader, String.append_assoc, String.append_assoc, String.append_assoc]
  obtain ⟨rest, hrest⟩ := hheader
  unfold blockText at h
  rw [hrest] at h
  split at h
  · split at h
    · cases h
    · obtain rfl := Option.some.inj h
      exact ⟨_, String.append_assoc ..⟩
  · split at h
    · cases h
    · obtain rfl := Option.some.inj h
      simp only [String.append_assoc]
      exact ⟨_, rfl⟩

theorem HasBlock.opens (h : HasBlock filters file (some block)) : ∃ rest, block = "diff --git " ++ rest := by
  obtain ⟨hunks, -, hblock⟩ := h
  exact blockText_opens hblock

theorem HasBlock.ne_empty (h : HasBlock filters file (some block)) : block ≠ "" := by
  obtain ⟨rest, rfl⟩ := h.opens
  simp

theorem HasBlock.not_exceeds (h : HasBlock filters file (some block))
    (hfits : earlier.text.utf8ByteSize + block.utf8ByteSize ≤ filters.byteLimit) : ¬Exceeds filters earlier file := by
  rintro ⟨other, hother, hexceeds⟩
  obtain rfl := Option.some.inj (h.unique hother)
  omega

theorem HasBlock.none_not_exceeds (h : HasBlock filters file none) : ¬Exceeds filters earlier file := by
  rintro ⟨other, hother, -⟩
  cases h.unique hother

theorem append_marker_ne_empty (head : String) : head ++ truncationMarker ≠ "" := by
  simp [truncationMarker]

/-- A piece of text fits one state only. -/
theorem Reports.unique {state state' : PatchState} (h : Reports filters requested earlier file piece state)
    (h' : Reports filters requested earlier file piece state') : state = state' := by
  have hasked {p : Prop} (hyes : requested = true) (hno : requested = false) : p := by
    rw [hyes] at hno
    cases hno
  cases state with
  | full =>
    obtain ⟨hyes, -, hblock, hfits⟩ := h
    cases state' with
    | full => rfl
    | partly => exact absurd h'.2.2.1 (hblock.not_exceeds hfits)
    | omitted => exact absurd h'.2.2 hblock.ne_empty
    | filteredOut => exact absurd h'.2.2.2 hblock.ne_empty
    | summary => exact hasked hyes h'.1
  | partly =>
    obtain ⟨hyes, -, hexceeds, head, tail, -, -, -, rfl⟩ := h
    cases state' with
    | full => exact absurd hexceeds (h'.2.2.1.not_exceeds h'.2.2.2)
    | partly => rfl
    | omitted => exact absurd h'.2.2 (append_marker_ne_empty head)
    | filteredOut => exact absurd h'.2.2.2 (append_marker_ne_empty head)
    | summary => exact hasked hyes h'.1
  | omitted =>
    obtain ⟨hyes, hcut, rfl⟩ := h
    cases state' with
    | full => exact absurd rfl h'.2.2.1.ne_empty
    | partly =>
      obtain ⟨-, -, -, head, tail, -, -, -, hpiece⟩ := h'
      exact absurd hpiece.symm (append_marker_ne_empty head)
    | omitted => rfl
    | filteredOut => exact hcut.elim (absurd h'.2.1) fun hexceeds => absurd hexceeds h'.2.2.1.none_not_exceeds
    | summary => exact hasked hyes h'.1
  | filteredOut =>
    obtain ⟨hyes, hopen, hnone, rfl⟩ := h
    cases state' with
    | full => exact absurd rfl h'.2.2.1.ne_empty
    | partly => exact absurd h'.2.2.1 hnone.none_not_exceeds
    | omitted => exact h'.2.1.elim (absurd hopen) fun hexceeds => absurd hexceeds hnone.none_not_exceeds
    | filteredOut => rfl
    | summary => exact hasked hyes h'.1
  | summary =>
    obtain ⟨hno, -⟩ := h
    cases state' with
    | full | partly | omitted | filteredOut => exact hasked h'.1 hno
    | summary => rfl

theorem truncateAtCharBoundary_cut {text : String} {room : Nat} (h : room < text.utf8ByteSize) :
    ∃ tail, text = truncateAtCharBoundary text room ++ tail ∧ tail ≠ "" ∧
      (truncateAtCharBoundary text room).utf8ByteSize ≤ room := by
  rw [truncateAtCharBoundary, if_neg (Nat.not_le.mpr h)]
  obtain ⟨tail, htail⟩ := Text.takeBytes_prefix room text.toList
  have hsize : (String.ofList (Text.takeBytes room text.toList)).utf8ByteSize ≤ room := by
    rw [String.utf8ByteSize_ofList]
    exact Text.utf8Len_takeBytes room text.toList
  have htext : text = String.ofList (Text.takeBytes room text.toList) ++ String.ofList tail := by
    rw [← String.ofList_append, htail, String.ofList_toList]
  refine ⟨String.ofList tail, htext, fun hnil => ?_, hsize⟩
  rw [hnil, String.append_empty] at htext
  rw [← htext] at hsize
  omega

theorem truncateAtCharBoundary_ne_empty {rest : String} {room : Nat} (h : 0 < room) :
    truncateAtCharBoundary ("diff --git " ++ rest) room ≠ "" := by
  unfold truncateAtCharBoundary
  split
  · simp
  · have hlist : ("diff --git " ++ rest).toList = 'd' :: ("iff --git ".toList ++ rest.toList) := by
      rw [String.toList_append]
      rfl
    have hd : 'd'.utf8Size = 1 := rfl
    rw [hlist, Text.takeBytes, if_pos (by rw [hd]; exact h)]
    simp

theorem getElem?_snoc {α : Type} {l : List α} {x y : α} {i : Nat} (h : (l ++ [x])[i]? = some y) :
    i < l.length ∧ l[i]? = some y ∨ i = l.length ∧ x = y := by
  by_cases hlt : i < l.length
  · rw [List.getElem?_append_left hlt] at h
    exact .inl ⟨hlt, h⟩
  · obtain ⟨hlt', hlast⟩ := List.getElem?_eq_some_iff.mp h
    rw [length_append, length_singleton] at hlt'
    obtain rfl : i = l.length := by omega
    rw [getElem_concat_length rfl] at hlast
    exact .inr ⟨rfl, hlast⟩

@[simp] theorem text_snoc (pieces : Pieces) (file : DiffFile) (piece : String) :
    Pieces.text (pieces ++ [(file, piece)]) = pieces.text ++ piece := by
  simp [Pieces.text]

theorem patched_snoc (pieces : Pieces) (file : DiffFile) (piece : String) :
    Pieces.patched (pieces ++ [(file, piece)]) = pieces.patched + if piece ≠ "" then 1 else 0 := by
  rw [Pieces.patched, countP_append, countP_singleton, Pieces.patched]
  simp

theorem open_snoc : Open filters (pieces ++ [(file, piece)]) ↔
    Pieces.patched (pieces ++ [(file, piece)]) < filters.fileLimit ∧
      (∀ i file piece, pieces[i]? = some (file, piece) → ¬Exceeds filters (pieces.take i) file) ∧
      ¬Exceeds filters pieces file := by
  constructor
  · rintro ⟨hfiles, hbytes⟩
    refine ⟨hfiles, fun i f p hi => ?_, ?_⟩
    · obtain ⟨hlt, -⟩ := List.getElem?_eq_some_iff.mp hi
      have hold := hbytes i f p (by rw [List.getElem?_append_left hlt, hi])
      rwa [take_append_of_le_length hlt.le] at hold
    · have hnew := hbytes pieces.length file piece (by simp)
      rwa [take_left] at hnew
  · rintro ⟨hfiles, hbytes, hnew⟩
    refine ⟨hfiles, fun i f p hi => ?_⟩
    rcases getElem?_snoc hi with ⟨hlt, hi⟩ | ⟨rfl, hlast⟩
    · rw [take_append_of_le_length hlt.le]
      exact hbytes i f p hi
    · obtain ⟨rfl, -⟩ := Prod.mk.inj hlast
      rwa [take_left]

theorem Open.of_snoc (h : Open filters (pieces ++ [(file, piece)])) : Open filters pieces := by
  obtain ⟨hfiles, hbytes, -⟩ := open_snoc.mp h
  rw [patched_snoc] at hfiles
  exact ⟨by omega, hbytes⟩

structure Under (filters : DiffFilters) (requested : Bool) (run : Render) : Prop where
  includePatch : run.includePatch = requested
  maxFiles : run.maxFiles = filters.fileLimit
  maxBytes : run.maxBytes = filters.byteLimit
  maxHunks : run.maxHunks = filters.hunkLimit
  needle : run.needle = filters.needle

/-- The text so far is that of the pieces, and the counts are theirs. -/
structure Placing (filters : DiffFilters) (requested : Bool) (pieces : Pieces) (run : Render) : Prop where
  under : Under filters requested run
  text : run.text = pieces.text
  bytes : pieces.text.utf8ByteSize ≤ filters.byteLimit
  patched : run.patchedFiles = pieces.patched
  files : pieces.patched ≤ filters.fileLimit
  closed : requested = true → (filters.fileLimit ≤ run.patchedFiles ∨ run.bytesTruncated = true ↔ ¬Open filters pieces)
  whole : requested = true → run.bytesTruncated = false → run.omittedFiles = 0 → run.omittedHunks = 0 →
    ∀ e ∈ pieces, Whole filters e.1 e.2

theorem wholeText_of_none {delta : DiffDelta} {maxHunks : Nat}
    (h : blockText delta needle maxHunks hunks = none) : wholeText delta needle hunks = "" := by
  unfold blockText at h
  unfold wholeText
  cases hunks with
  | none =>
    dsimp only at h ⊢
    split at h
    · rename_i hneedle
      exact if_pos hneedle
    · cases h
  | some hunks =>
    dsimp only at h ⊢
    split at h
    · rename_i hneedle
      exact if_pos hneedle
    · cases h

theorem wholeText_of_some {delta : DiffDelta} {maxHunks : Nat}
    (h : blockText delta needle maxHunks hunks = some block) (homitted : omittedOf maxHunks hunks = 0) :
    wholeText delta needle hunks = block := by
  unfold blockText at h
  unfold wholeText
  cases hunks with
  | none =>
    dsimp only at h ⊢
    split at h
    · cases h
    · rename_i hneedle
      rw [if_neg hneedle]
      exact Option.some.inj h
  | some hunks =>
    dsimp only at h ⊢
    have hle : hunks.length ≤ maxHunks := Nat.sub_eq_zero_iff_le.mp homitted
    split at h
    · cases h
    · rename_i hneedle
      rw [if_neg hneedle, ← Option.some.inj h, take_of_length_le hle, Nat.sub_eq_zero_of_le hle]
      simp [omittedNote]

theorem hunkLimit_pos (filters : DiffFilters) : 0 < filters.hunkLimit := by
  unfold DiffFilters.hunkLimit
  cases filters.maxHunksPerFile with
  | none => decide
  | some n => exact lt_of_lt_of_le Nat.zero_lt_one (Nat.le_max_left 1 n)

theorem fileLimit_pos (filters : DiffFilters) : 0 < filters.fileLimit := by
  unfold DiffFilters.fileLimit
  cases filters.maxFiles with
  | none => decide
  | some n => exact lt_of_lt_of_le Nat.zero_lt_one (Nat.le_max_left 1 _)

namespace Placing

theorem close (h : Placing filters true pieces run) (hclosed : ¬Open filters pieces) :
    Placing filters true (pieces ++ [(file, "")]) { run with omittedFiles := run.omittedFiles + 1 } where
  under := ⟨h.under.includePatch, h.under.maxFiles, h.under.maxBytes, h.under.maxHunks, h.under.needle⟩
  text := by rw [text_snoc, String.append_empty, h.text]
  bytes := by
    rw [text_snoc, String.append_empty]
    exact h.bytes
  patched := by
    rw [patched_snoc]
    exact h.patched
  files := by
    rw [patched_snoc]
    exact h.files
  closed _ := iff_of_true ((h.closed rfl).mpr hclosed) fun hopen => hclosed hopen.of_snoc
  whole _ _ homitted := absurd homitted (Nat.succ_ne_zero _)

theorem filterOut (h : Placing filters true pieces run) {hunks : Option (List String)} {omitted : Nat}
    (hhunks : file.matching filters.needle = .ok hunks)
    (hnone : blockText file.delta filters.needle filters.hunkLimit hunks = none) :
    Placing filters true (pieces ++ [(file, "")]) { run with omittedHunks := run.omittedHunks + omitted } where
  under := ⟨h.under.includePatch, h.under.maxFiles, h.under.maxBytes, h.under.maxHunks, h.under.needle⟩
  text := by rw [text_snoc, String.append_empty, h.text]
  bytes := by
    rw [text_snoc, String.append_empty]
    exact h.bytes
  patched := by
    rw [patched_snoc]
    exact h.patched
  files := by
    rw [patched_snoc]
    exact h.files
  closed _ := by
    have hblock : HasBlock filters file none := ⟨hunks, hhunks, hnone⟩
    rw [h.closed rfl, open_snoc, patched_snoc]
    refine not_congr ⟨fun hopen => ⟨hopen.files, hopen.bytes, hblock.none_not_exceeds⟩, fun hopen => ⟨hopen.1, hopen.2.1⟩⟩
  whole _ hbytes hfiles hcount e he := by
    rcases mem_append.mp he with he | he
    · exact h.whole rfl hbytes hfiles (Nat.eq_zero_of_add_eq_zero_right hcount) e he
    · rw [mem_singleton.mp he]
      exact ⟨hunks, hhunks, (wholeText_of_none hnone).symm⟩

theorem append (h : Placing filters true pieces run) {hunks : Option (List String)} (hopen : Open filters pieces)
    (hhunks : file.matching filters.needle = .ok hunks)
    (hblock : blockText file.delta filters.needle filters.hunkLimit hunks = some block)
    (hfits : pieces.text.utf8ByteSize + block.utf8ByteSize ≤ filters.byteLimit) :
    Placing filters true (pieces ++ [(file, block)])
      { run with
        omittedHunks := run.omittedHunks + omittedOf filters.hunkLimit hunks
        text := run.text ++ block
        patchedFiles := run.patchedFiles + 1 } := by
  have hhas : HasBlock filters file (some block) := ⟨hunks, hhunks, hblock⟩
  have hcount : Pieces.patched (pieces ++ [(file, block)]) = pieces.patched + 1 := by
    rw [patched_snoc, if_pos hhas.ne_empty]
  have hfiles := hopen.files
  refine ⟨⟨h.under.includePatch, h.under.maxFiles, h.under.maxBytes, h.under.maxHunks, h.under.needle⟩, ?_, ?_, ?_, ?_,
    fun _ => ?_, fun _ hbytes homitted hhidden e he => ?_⟩
  · rw [text_snoc, h.text]
  · rw [text_snoc, String.utf8ByteSize_append]
    exact hfits
  · rw [hcount, h.patched]
  · rw [hcount]
    omega
  · have hbytes : run.bytesTruncated ≠ true := fun hcut => (h.closed rfl).mp (.inr hcut) hopen
    rw [open_snoc, hcount, ← h.patched, or_iff_left hbytes]
    constructor
    · rintro (hle : filters.fileLimit ≤ run.patchedFiles + 1) ⟨hlt, -⟩
      exact absurd hlt (Nat.not_lt.mpr hle)
    · intro hclosed
      by_contra hlt
      exact hclosed ⟨Nat.not_le.mp hlt, hopen.bytes, hhas.not_exceeds hfits⟩
  · rcases mem_append.mp he with he | he
    · exact h.whole rfl hbytes homitted (Nat.eq_zero_of_add_eq_zero_right hhidden) e he
    · rw [mem_singleton.mp he]
      exact ⟨hunks, hhunks, (wholeText_of_some hblock (Nat.eq_zero_of_add_eq_zero_left hhidden)).symm⟩

theorem cut (h : Placing filters true pieces run) (piece : String) (omittedHunks omittedFiles patchedFiles : Nat)
    (hexceeds : Exceeds filters pieces file)
    (hbytes : pieces.text.utf8ByteSize + piece.utf8ByteSize ≤ filters.byteLimit)
    (hpatched : patchedFiles = Pieces.patched (pieces ++ [(file, piece)])) (hle : patchedFiles ≤ filters.fileLimit) :
    Placing filters true (pieces ++ [(file, piece)])
      { run with
        bytesTruncated := true
        text := run.text ++ piece
        patchedFiles := patchedFiles
        omittedFiles := omittedFiles
        omittedHunks := omittedHunks } where
  under := ⟨h.under.includePatch, h.under.maxFiles, h.under.maxBytes, h.under.maxHunks, h.under.needle⟩
  text := by rw [text_snoc, h.text]
  bytes := by
    rw [text_snoc, String.utf8ByteSize_append]
    exact hbytes
  patched := hpatched
  files := hpatched ▸ hle
  closed _ := iff_of_true (.inr rfl) fun hopen => (open_snoc.mp hopen).2.2 hexceeds
  whole _ hcut := by cases hcut

theorem appendBlock (h : Placing filters true pieces run) {hunks : Option (List String)} {state : PatchState}
    (hopen : Open filters pieces) (hhunks : file.matching filters.needle = .ok hunks)
    (hblock : blockText file.delta filters.needle filters.hunkLimit hunks = some block)
    (happend : Render.appendWithinBudget
      { run with omittedHunks := run.omittedHunks + omittedOf filters.hunkLimit hunks } block = (run', state)) :
    ∃ piece, Placing filters true (pieces ++ [(file, piece)]) run' ∧ Reports filters true pieces file piece state ∧
      run'.files = run.files := by
  have hhas : HasBlock filters file (some block) := ⟨hunks, hhunks, hblock⟩
  have hbytes := h.bytes
  have hfiles := hopen.files
  rw [Render.appendWithinBudget] at happend
  dsimp only at happend
  split at happend
  · rename_i hfits
    rw [h.text, h.under.maxBytes] at hfits
    have hsum : pieces.text.utf8ByteSize + block.utf8ByteSize ≤ filters.byteLimit := by omega
    obtain ⟨rfl, rfl⟩ := Prod.mk.inj happend
    exact ⟨block, h.append hopen hhunks hblock hsum, ⟨rfl, hopen, hhas, hsum⟩, rfl⟩
  · rename_i hover
    rw [h.text, h.under.maxBytes] at hover
    have hexceeds : Exceeds filters pieces file := ⟨block, hhas, by omega⟩
    split at happend
    · obtain ⟨rfl, rfl⟩ := Prod.mk.inj happend
      have hempty : Pieces.patched (pieces ++ [(file, "")]) = pieces.patched := patched_snoc pieces file ""
      have hplaced := h.cut "" (run.omittedHunks + omittedOf filters.hunkLimit hunks) (run.omittedFiles + 1)
        run.patchedFiles hexceeds hbytes (h.patched.trans hempty.symm) (h.patched.trans_le h.files)
      rw [String.append_empty] at hplaced
      exact ⟨"", hplaced, ⟨rfl, .inr hexceeds, rfl⟩, rfl⟩
    · rename_i hroom
      obtain ⟨rfl, rfl⟩ := Prod.mk.inj happend
      have hmin : minPartialFileBytes = 200 := rfl
      have hroom' : run.maxBytes - run.text.utf8ByteSize - truncationMarker.utf8ByteSize + pieces.text.utf8ByteSize +
          truncationMarker.utf8ByteSize ≤ filters.byteLimit := by
        rw [h.text, h.under.maxBytes] at *
        omega
      have hover' : run.maxBytes - run.text.utf8ByteSize - truncationMarker.utf8ByteSize < block.utf8ByteSize := by
        rw [h.text, h.under.maxBytes]
        omega
      generalize run.maxBytes - run.text.utf8ByteSize - truncationMarker.utf8ByteSize = room at *
      obtain ⟨tail, htail, hne, hle⟩ := truncateAtCharBoundary_cut hover'
      have hhead : truncateAtCharBoundary block room ≠ "" := by
        obtain ⟨rest, rfl⟩ := hhas.opens
        exact truncateAtCharBoundary_ne_empty (by omega)
      have hpiece := append_marker_ne_empty (truncateAtCharBoundary block room)
      have hcount : Pieces.patched (pieces ++ [(file, truncateAtCharBoundary block room ++ truncationMarker)]) =
          pieces.patched + 1 := by rw [patched_snoc, if_pos hpiece]
      have hpatched := h.patched
      have hplaced := h.cut (truncateAtCharBoundary block room ++ truncationMarker)
        (run.omittedHunks + omittedOf filters.hunkLimit hunks) run.omittedFiles (run.patchedFiles + 1) hexceeds
        (by rw [String.utf8ByteSize_append]; omega) (by rw [hcount, hpatched]) (by omega)
      rw [← String.append_assoc] at hplaced
      refine ⟨truncateAtCharBoundary block room ++ truncationMarker, hplaced, ?_, rfl⟩
      exact ⟨rfl, hopen, hexceeds, truncateAtCharBoundary block room, tail, htail ▸ hhas, hhead, hne, rfl⟩

/-- One file, through every way the budgets leave it. -/
theorem place (h : Placing filters true pieces run) {patch : Option Patch} {state : PatchState} {shown : Option Nat}
    (hpatch : file.patch = .ok patch) (hplace : run.placePatch file.delta patch = .ok (run', state, shown)) :
    ∃ piece, Placing filters true (pieces ++ [(file, piece)]) run' ∧ Reports filters true pieces file piece state ∧
      run'.files = run.files := by
  rw [Render.placePatch] at hplace
  split at hplace
  · rename_i hspent
    obtain ⟨rfl, rfl, rfl⟩ := by simpa only [Prod.mk.injEq] using Except.ok.inj hplace
    have hclosed : ¬Open filters pieces := by
      rw [Bool.or_eq_true, decide_eq_true_eq, h.under.maxFiles] at hspent
      exact (h.closed rfl).mp hspent
    exact ⟨"", h.close hclosed, ⟨rfl, .inl hclosed, rfl⟩, rfl⟩
  · rename_i hspent
    have hopen : Open filters pieces := by
      rw [Bool.or_eq_true, decide_eq_true_eq, h.under.maxFiles] at hspent
      by_contra hclosed
      exact hspent ((h.closed rfl).mpr hclosed)
    obtain ⟨found, hfound, hplace⟩ := Except.ok_of_bind hplace
    rw [h.under.needle, h.under.maxHunks] at hfound
    obtain ⟨hunks, hhunks, htext, homitted⟩ := fileBlock_of_matching (hunkLimit_pos filters) hpatch hfound
    rw [homitted] at hplace
    cases hblock : blockText file.delta filters.needle filters.hunkLimit hunks with
    | none =>
      rw [htext, hblock] at hplace
      obtain ⟨rfl, rfl, rfl⟩ := by simpa only [Prod.mk.injEq] using Except.ok.inj hplace
      exact ⟨"", h.filterOut hhunks hblock, ⟨rfl, hopen, ⟨hunks, hhunks, hblock⟩, rfl⟩, rfl⟩
    | some block =>
      rw [htext, hblock] at hplace
      have hrun : (Render.appendWithinBudget
          { run with omittedHunks := run.omittedHunks + omittedOf filters.hunkLimit hunks } block).1 = run' :=
        (Prod.mk.inj (Except.ok.inj hplace)).1
      have hstate : (Render.appendWithinBudget
          { run with omittedHunks := run.omittedHunks + omittedOf filters.hunkLimit hunks } block).2 = state :=
        (Prod.mk.inj (Prod.mk.inj (Except.ok.inj hplace)).2).1
      exact h.appendBlock hopen hhunks hblock (Prod.ext hrun hstate)

theorem withFiles (h : Placing filters requested pieces run) (files : List Value) :
    Placing filters requested pieces { run with files := files } :=
  ⟨⟨h.under.includePatch, h.under.maxFiles, h.under.maxBytes, h.under.maxHunks, h.under.needle⟩, h.text, h.bytes,
    h.patched, h.files, h.closed, h.whole⟩

theorem summarize (h : Placing filters false pieces run) (file : DiffFile) :
    Placing filters false (pieces ++ [(file, "")]) run where
  under := h.under
  text := by rw [text_snoc, String.append_empty, h.text]
  bytes := by
    rw [text_snoc, String.append_empty]
    exact h.bytes
  patched := by
    rw [patched_snoc]
    exact h.patched
  files := by
    rw [patched_snoc]
    exact h.files
  closed := nofun
  whole := nofun

end Placing

theorem get_patch_fileSummary (delta : DiffDelta) (facts : FileFacts) (state : PatchState) (shown : Option Nat) :
    (fileSummary delta facts state shown).get "patch" = some (.string state.asStr) := by
  have hbinary : List.lookup "patch" (if facts.binary then [("binary", Value.bool true)] else []) = none := by
    split <;> rfl
  have hshown : List.lookup "patch" ((shown.filter (· ≠ facts.hunksTotal)).map fun shown => ("hunks_shown", count shown)).toList =
      none := by
    cases shown.filter (· ≠ facts.hunksTotal) <;> rfl
  have hold : List.lookup "patch" (if facts.oldPath.isSome && facts.oldPath ≠ facts.newPath then
      (facts.oldPath.map fun path => ("old_path", Value.string path)).toList else []) = none := by
    split
    · cases facts.oldPath <;> rfl
    · rfl
  rw [fileSummary, Value.get]
  simp only [lookup_append, hbinary, hshown, hold]
  rfl

structure Progress (filters : DiffFilters) (requested : Bool) (pieces : Pieces) (run : Render) : Prop where
  placing : Placing filters requested pieces run
  length : run.files.length = min pieces.length maxSummaryFiles
  entries : ∀ i file piece entry, pieces[i]? = some (file, piece) → run.files[i]? = some entry →
    ∃ state, Reports filters requested (pieces.take i) file piece state ∧
      entry.get "patch" = some (.string state.asStr)

namespace Progress

theorem new (filters : DiffFilters) (includePatch : Bool) :
    Progress filters includePatch [] (Render.new filters includePatch) where
  placing :=
    { under := ⟨rfl, rfl, rfl, rfl, rfl⟩
      text := rfl
      bytes := Nat.zero_le _
      patched := rfl
      files := Nat.zero_le _
      closed := fun _ => by
        have hopen : Open filters [] := ⟨fileLimit_pos filters, fun i file piece hi => absurd hi (by simp)⟩
        refine iff_of_false (fun hclosed => ?_) fun hclosed => hclosed hopen
        rcases hclosed with hle | hcut
        · exact absurd (fileLimit_pos filters) (Nat.not_lt.mpr hle)
        · cases hcut
      whole := fun _ _ _ _ e he => absurd he not_mem_nil }
  length := rfl
  entries i file piece entry hi := absurd hi (by simp)

theorem list (h : Progress filters requested pieces run) (hfiles : run'.files = run.files) {facts : FileFacts}
    {state : PatchState} {shown : Option Nat} (hplaced : Placing filters requested (pieces ++ [(file, piece)]) run')
    (hreports : Reports filters requested pieces file piece state) :
    Progress filters requested (pieces ++ [(file, piece)])
      (if run'.files.length < maxSummaryFiles then
        { run' with files := run'.files ++ [fileSummary file.delta facts state shown] } else run') := by
  have hlength := h.length
  split
  · rename_i hroom
    rw [hfiles] at hroom
    refine ⟨hplaced.withFiles _, ?_, fun i f p entry hi hentry => ?_⟩
    · rw [length_append, length_append, hfiles]
      simp only [length_singleton]
      omega
    · dsimp only at hentry
      rw [hfiles] at hentry
      rcases getElem?_snoc hi with ⟨hlt, hi⟩ | ⟨rfl, hlast⟩
      · rw [List.getElem?_append_left (by omega)] at hentry
        rw [take_append_of_le_length hlt.le]
        exact h.entries i f p entry hi hentry
      · obtain ⟨rfl, rfl⟩ := Prod.mk.inj hlast
        have hlast : pieces.length = run.files.length := by omega
        rw [hlast, List.getElem?_concat_length] at hentry
        obtain rfl := Option.some.inj hentry
        rw [take_left]
        exact ⟨state, hreports, get_patch_fileSummary _ facts state shown⟩
  · rename_i hroom
    rw [hfiles] at hroom
    refine ⟨hplaced, ?_, fun i f p entry hi hentry => ?_⟩
    · rw [hfiles, length_append, hlength, length_singleton]
      omega
    · rw [hfiles] at hentry
      have hlt : i < pieces.length := by
        obtain ⟨hlt, -⟩ := List.getElem?_eq_some_iff.mp hentry
        omega
      rw [List.getElem?_append_left hlt] at hi
      rw [take_append_of_le_length hlt.le]
      exact h.entries i f p entry hi hentry

theorem addFile (h : Progress filters requested pieces run) (hadd : run.addFile file = .ok run') :
    ∃ piece, Progress filters requested (pieces ++ [(file, piece)]) run' := by
  obtain ⟨patch, hpatch, hadd⟩ := Except.ok_of_bind hadd
  obtain ⟨facts, -, hadd⟩ := Except.ok_of_bind hadd
  obtain ⟨⟨next, state, shown⟩, hplace, hadd⟩ := Except.ok_of_bind hadd
  have hrun : run' = if next.files.length < maxSummaryFiles then
      { next with files := next.files ++ [fileSummary file.delta facts state shown] } else next := by
    dsimp only at hadd
    split at hadd
    · rename_i hroom
      rw [if_pos hroom]
      exact (Except.ok.inj hadd).symm
    · rename_i hroom
      rw [if_neg hroom]
      exact (Except.ok.inj hadd).symm
  rw [hrun]
  cases requested with
  | true =>
    rw [if_pos h.placing.under.includePatch] at hplace
    obtain ⟨piece, hplaced, hreports, hfiles⟩ := h.placing.place hpatch hplace
    exact ⟨piece, h.list hfiles hplaced hreports⟩
  | false =>
    rw [if_neg (by rw [h.placing.under.includePatch]; exact Bool.false_ne_true)] at hplace
    obtain ⟨rfl, rfl, rfl⟩ : run = next ∧ PatchState.summary = state ∧ none = shown := by
      simpa only [Prod.mk.injEq] using Except.ok.inj hplace
    exact ⟨"", h.list rfl (h.placing.summarize file) ⟨rfl, rfl⟩⟩

theorem addFiles {files : List DiffFile} (h : Progress filters requested pieces run)
    (hadd : files.foldlM Render.addFile run = .ok run') :
    ∃ more : Pieces, more.map (·.1) = files ∧ Progress filters requested (pieces ++ more) run' := by
  induction files generalizing pieces run with
  | nil =>
    obtain rfl := Except.ok.inj hadd
    exact ⟨[], rfl, by rwa [append_nil]⟩
  | cons file files ih =>
    obtain ⟨next, hnext, hrest⟩ := Except.ok_of_bind hadd
    obtain ⟨piece, hprogress⟩ := h.addFile hnext
    obtain ⟨more, hmore, hend⟩ := ih hprogress hrest
    rw [append_assoc] at hend
    exact ⟨(file, piece) :: more, by rw [map_cons, hmore], hend⟩

end Progress

theorem asStr_inj {state state' : PatchState} (h : state.asStr = state'.asStr) : state = state' := by
  cases state <;> cases state' <;> first | rfl | exact absurd h (by decide)

theorem intoLimits_eq_none {omissions : Omissions} (h : omissions.intoLimits = none) :
    omissions.maxBytes = none ∧ omissions.omittedFiles = 0 ∧ omissions.omittedHunks = 0 := by
  obtain ⟨maxBytes, omittedFiles, omittedHunks, unlistedFiles⟩ := omissions
  rw [Omissions.intoLimits] at h
  simp only [ite_eq_left_iff, reduceCtorEq, imp_false, List.isEmpty_iff, List.append_eq_nil_iff,
    Option.toList_eq_nil_iff, Option.map_eq_none_iff] at h
  obtain ⟨⟨⟨hbytes, hfiles⟩, hhunks⟩, -⟩ := not_not.mp h
  refine ⟨hbytes, ?_, ?_⟩
  · by_contra hne
    rw [if_pos (Nat.pos_of_ne_zero hne)] at hfiles
    cases hfiles
  · by_contra hne
    rw [if_pos (Nat.pos_of_ne_zero hne)] at hhunks
    cases hhunks

theorem lookup_limits {totalFiles : Nat} (h : (run.intoFields totalFiles).lookup "limits" = none) :
    Omissions.intoLimits
      { maxBytes := if run.bytesTruncated then some run.maxBytes else none
        omittedFiles := run.omittedFiles
        omittedHunks := run.omittedHunks
        unlistedFiles := totalFiles - run.files.length } = none := by
  rw [Render.intoFields] at h
  generalize Omissions.intoLimits _ = limits at h ⊢
  cases limits with
  | none => rfl
  | some limits => cases h

structure Accounts (filters : DiffFilters) (requested : Bool) (diff : List DiffFile) (pieces : Pieces)
    (fields : List (String × Value)) : Prop where
  files : pieces.map (·.1) = diff
  text : fields.lookup "diff" = some (.string pieces.text)
  bytes : pieces.text.utf8ByteSize ≤ filters.byteLimit
  patched : pieces.patched ≤ filters.fileLimit
  listed : ∃ entries, fields.lookup "files" = some (.array entries) ∧ entries.length = min diff.length maxSummaryFiles ∧
    ∀ i file piece entry state, pieces[i]? = some (file, piece) → entries[i]? = some entry →
      (entry.get "patch" = some (.string state.asStr) ↔ Reports filters requested (pieces.take i) file piece state)
  complete : requested = true → fields.lookup "limits" = none → ∀ e ∈ pieces, Whole filters e.1 e.2

/-- What is rendered of a diff accounts for each of its files. -/
theorem render_accounts (diff : List DiffFile) (filters : DiffFilters) (includePatch : Bool)
    {fields : List (String × Value)} (h : render diff filters includePatch = .ok fields) :
    ∃ pieces, Accounts filters (includePatch && !filters.summaryOnly) diff pieces fields := by
  obtain ⟨run, hrun, hfields⟩ := Except.ok_of_bind h
  obtain rfl := Except.ok.inj hfields
  obtain ⟨pieces, hfiles, hprogress⟩ := (Progress.new filters _).addFiles hrun
  rw [nil_append] at hprogress
  obtain ⟨hplacing, hlength, hentries⟩ := hprogress
  have hcount : pieces.length = diff.length := by rw [← hfiles, length_map]
  refine ⟨pieces, hfiles, ?_, hplacing.bytes, hplacing.files, ⟨run.files, ?_, by rw [hlength, hcount], ?_⟩, ?_⟩
  · rw [← hplacing.text]
    rfl
  · rfl
  · intro i file piece entry state hi hentry
    obtain ⟨reported, hreports, hpatch⟩ := hentries i file piece entry hi hentry
    rw [hpatch]
    constructor
    · intro hsame
      rw [asStr_inj (Value.string.inj (Option.some.inj hsame))] at hreports
      exact hreports
    · intro hstate
      rw [hreports.unique hstate]
  · intro hrequested hlimits
    obtain ⟨hbytes, hcut, hhidden⟩ := intoLimits_eq_none (lookup_limits hlimits)
    refine hplacing.whole hrequested ?_ hcut hhidden
    cases htruncated : run.bytesTruncated with
    | false => rfl
    | true =>
      rw [htruncated] at hbytes
      cases hbytes

namespace Sample

def firstHunk : DiffHunk := ⟨"@@ -1 +1 @@\n", [.ok ⟨'-', "one\n"⟩, .ok ⟨'+', "two\n"⟩]⟩

def secondHunk : DiffHunk := ⟨"@@ -9 +9 @@\n", [.ok ⟨'-', "nine\n"⟩, .ok ⟨'+', "ten\n"⟩]⟩

def twoHunks : DiffFile where
  delta := ⟨some "a.txt", some "a.txt", .modified, false⟩
  patch := .ok (some ⟨[.ok firstHunk, .ok secondHunk], .ok (2, 2)⟩)

def oneHunk : DiffFilters := { maxHunksPerFile := some 1 }

def cutText : String := "diff --git a/a.txt b/a.txt\n--- a/a.txt\n+++ b/a.txt\n@@ -1 +1 @@\n-one\n+two\n" ++
  "... (1 more matching hunk(s) omitted)\n"

def reported (fields : List (String × Value)) : Option (String × String) := do
  let text ← (← fields.lookup "diff").asStr
  let entry ← (← (← fields.lookup "files").asArray).head?
  let state ← (← entry.get "patch").asStr
  pure (state, text)

end Sample

open GitPatch.Sample in
theorem render_accounts_two_hunks : ∃ fields pieces, render [twoHunks] oneHunk true = .ok fields ∧
    Accounts oneHunk true [twoHunks] pieces fields := by
  obtain ⟨fields, hfields⟩ : ∃ fields, render [twoHunks] oneHunk true = .ok fields := ⟨_, rfl⟩
  obtain ⟨pieces, haccounts⟩ := render_accounts [twoHunks] oneHunk true hfields
  exact ⟨fields, pieces, hfields, haccounts⟩

open GitPatch.Sample in
/-- A file is reported in full although a hunk of it is not in the text. -/
theorem full_without_a_hunk : ¬∀ file filters fields text, render [file] filters true = .ok fields →
    reported fields = some ("full", text) → Whole filters file text := by
  intro h
  obtain ⟨fields, hfields⟩ : ∃ fields, render [twoHunks] oneHunk true = .ok fields := ⟨_, rfl⟩
  have hcut : (render [twoHunks] oneHunk true).toOption.bind reported = some ("full", cutText) := by decide
  rw [hfields] at hcut
  obtain ⟨hunks, hhunks, hwhole⟩ := h twoHunks oneHunk fields cutText hfields hcut
  have hmatching : twoHunks.matching oneHunk.needle = .ok (some _) := rfl
  rw [hmatching] at hhunks
  rw [← Except.ok.inj hhunks] at hwhole
  exact absurd hwhole (by decide)

end RustyCore.GitPatch
