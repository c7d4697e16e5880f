import RustyCore.Specs.Record
import RustyCore.Theorems.Specs.Merge

/-! An operation on the specs that fails, and the store it leaves: where it is the store from before the call. -/

namespace RustyCore.Specs

open List hiding splitOn

open Text

def Store.Same (store store' : Store) : Prop := ∀ path, store'.read path = store.read path

/-- A call that fails has changed no file. -/
def AllOrNothing {α : Type} (store : Store) (result : Store × Except SpecError α) : Prop :=
  ∀ e, result.2 = .error e → store.Same result.1

/-- Writing these texts would change nothing. -/
def AlreadyThere (store : Store) (writes : List (Path × List Char)) : Prop :=
  ∀ path text, writes.reverse.lookup path = some text → store.read path = some text

/-- What is written before the first document that is refused. -/
def writesBefore (step : Step) (path : Line → Path) (documents : List DocumentInput) : List (Path × List Char) :=
  (documents.takeWhile fun document => (refusal step document).isNone).map fun document =>
    (path document.name, clean document.text)

/-- What `init` writes. -/
def initWrites [ConfigReader] [Templates] (store : Store) : List (Path × List Char) :=
  let layout := Layout.of store
  (if (store.read layout.readme).isNone then [(layout.readme, Templates.readme layout.root)] else []) ++
    if (store.read layout.project).isNone then [(layout.project, Templates.project)] else []

def RecordsWhole [ConfigReader] [Templates] (store : Store) (dir : Line) (step : Step) (documents : List DocumentInput) :
    Prop :=
  let layout := Layout.of store
  match step with
  | .start => (∃ document ∈ documents, refusal .start document ≠ none) →
    AlreadyThere store (initWrites store ++ writesBefore .start (surveyPath layout) documents)
  | .capability => True
  | .specify | .plan | .implement => dir ∈ store.dirs layout.changes →
    (∃ document ∈ documents, refusal step document ≠ none) →
      AlreadyThere store (writesBefore step (fun name => layout.change dir ++ '/' :: name) documents)

def Movable (store : Store) (source target : Path) : Prop :=
  safe source = .ok () ∧ safe target = .ok () ∧
    ∀ file ∈ store.files, startsWith file.1 (trimSlashes target ++ ['/']) = false

def ArchivesWhole [ConfigReader] (store : Store) (dir date : Line) (force : Bool) : Prop :=
  ∀ merges, archiveChecks store dir date force = .ok merges →
    Movable store ((Layout.of store).change dir) (archiveTarget (Layout.of store) dir date)

variable {store store' : Store} {path q : Path} {text : List Char} {step : Step} {documents : List DocumentInput}
  {writes : List (Path × List Char)} {ls : List Line}

theorem lookup_cons (files : List (Path × List Char)) (path : Path) (text : List Char) (q : Path) :
    ((path, text) :: files).lookup q = if q = path then some text else files.lookup q := by
  rw [List.lookup_cons]
  by_cases h : q = path
  · rw [if_pos h, beq_iff_eq.mpr h]
  · rw [if_neg h, beq_eq_false_iff_ne.mpr h]

theorem lookup_filter_ne (files : List (Path × List Char)) (h : q ≠ path) :
    (files.filter (·.1 != path)).lookup q = files.lookup q := by
  induction files with
  | nil => rfl
  | cons file files ih =>
    obtain ⟨key, text⟩ := file
    by_cases hkey : key = path
    · subst hkey
      rw [filter_cons_of_neg (by simp), ih, lookup_cons, if_neg h]
    · rw [filter_cons_of_pos (by simpa using hkey), lookup_cons, lookup_cons, ih]

theorem read_write (store : Store) (path : Path) (text : List Char) (q : Path) :
    (store.write path text).read q = if q = path then some text else store.read q := by
  rw [Store.read, Store.write, lookup_cons]
  by_cases h : q = path
  · rw [if_pos h, if_pos h]
  · rw [if_neg h, if_neg h, lookup_filter_ne _ h, Store.read]

def writeAll (store : Store) (writes : List (Path × List Char)) : Store :=
  writes.foldl (fun store write => store.write write.1 write.2) store

/-- The last text written to a path is the one that is read. -/
theorem read_writeAll (store : Store) (writes : List (Path × List Char)) (q : Path) :
    (writeAll store writes).read q = (writes.reverse.lookup q).or (store.read q) := by
  induction writes using reverseRecOn with
  | nil => rfl
  | append_singleton writes write ih =>
    rw [writeAll, foldl_append, foldl_cons, foldl_nil, read_write, ← writeAll, ih, reverse_append,
      reverse_singleton, singleton_append, lookup_cons]
    split <;> rfl

/-- Writes leave the files as they are when the texts are already there. -/
theorem same_writeAll : store.Same (writeAll store writes) ↔ AlreadyThere store writes := by
  constructor
  · intro h path text hlast
    have hread := h path
    rw [read_writeAll, hlast, Option.some_or] at hread
    exact hread.symm
  · intro h path
    rw [read_writeAll]
    cases hlast : writes.reverse.lookup path with
    | none => rfl
    | some text => rw [Option.some_or, h path text hlast]

theorem writeDocuments_store (path : Line → Path) (store : Store) (written : List Path) (documents : List DocumentInput) :
    (writeDocuments step path store written documents).1 = writeAll store (writesBefore step path documents) := by
  induction documents generalizing store written with
  | nil => rfl
  | cons document documents ih =>
    rw [writeDocuments, writesBefore, takeWhile_cons]
    cases hrefusal : refusal step document with
    | some e => rfl
    | none =>
      dsimp only [Option.isNone_none, if_true]
      rw [ih]
      rfl

/-- The documents fail when one of them is refused. -/
theorem writeDocuments_error (path : Line → Path) (store : Store) (written : List Path) (documents : List DocumentInput) :
    (∃ e, (writeDocuments step path store written documents).2 = .error e) ↔
      ∃ document ∈ documents, refusal step document ≠ none := by
  induction documents generalizing store written with
  | nil =>
    rw [writeDocuments]
    simp
  | cons document documents ih =>
    rw [writeDocuments, exists_mem_cons_iff]
    cases hrefusal : refusal step document with
    | some e => simp
    | none =>
      dsimp only
      rw [ih]
      simp

theorem init_eq [ConfigReader] [Templates] (store : Store) : init store = writeAll store (initWrites store) := by
  have hne : (Layout.of store).project ≠ (Layout.of store).readme := by
    intro h
    exact absurd (append_cancel_left h) (by decide)
  unfold init initWrites
  dsimp only
  cases hreadme : (store.read (Layout.of store).readme).isNone with
  | true =>
    rw [if_pos rfl, if_pos rfl, read_write, if_neg hne]
    split <;> rfl
  | false =>
    rw [if_neg Bool.false_ne_true, if_neg Bool.false_ne_true]
    split <;> rfl

theorem writeAll_append (store : Store) (writes more : List (Path × List Char)) :
    writeAll (writeAll store writes) more = writeAll store (writes ++ more) := by
  rw [writeAll, writeAll, writeAll, foldl_append]

theorem allOrNothing_writes {α : Type} (path : Line → Path) (before : List (Path × List Char)) (f : List Path → α) :
    AllOrNothing store ((writeDocuments step path (writeAll store before) [] documents).1,
        (writeDocuments step path (writeAll store before) [] documents).2.map f) ↔
      ((∃ document ∈ documents, refusal step document ≠ none) →
        AlreadyThere store (before ++ writesBefore step path documents)) := by
  rw [← writeDocuments_error path (writeAll store before) [] documents, ← same_writeAll, AllOrNothing]
  dsimp only
  rw [writeDocuments_store, writeAll_append]
  cases (writeDocuments step path (writeAll store before) [] documents).2 with
  | ok | error => simp [Except.map]

theorem record_change [ConfigReader] [Templates] (store : Store) (dir : Line) (step : Step)
    (documents : List DocumentInput) (date : Line) :
    AllOrNothing store (recordChange store dir step documents date) ↔
      (dir ∈ store.dirs (Layout.of store).changes → (∃ document ∈ documents, refusal step document ≠ none) →
        AlreadyThere store (writesBefore step (fun name => (Layout.of store).change dir ++ '/' :: name) documents)) := by
  unfold recordChange
  dsimp only
  by_cases hdir : dir ∈ store.dirs (Layout.of store).changes
  · rw [contains_iff_mem.mpr hdir, if_neg (by simp), ← writeDocuments_error
      (fun name => (Layout.of store).change dir ++ '/' :: name) store [] documents, ← same_writeAll]
    have hstore : (writeDocuments step (fun name => (Layout.of store).change dir ++ '/' :: name) store [] documents).1 =
        writeAll store (writesBefore step (fun name => (Layout.of store).change dir ++ '/' :: name) documents) :=
      writeDocuments_store _ store [] documents
    rcases hresult : writeDocuments step (fun name => (Layout.of store).change dir ++ '/' :: name) store []
      documents with ⟨after, _ | written⟩
    · rw [hresult] at hstore
      rw [← hstore]
      simp [AllOrNothing, hdir]
    · simp [AllOrNothing]
  · rw [if_pos (by simpa using hdir)]
    simp only [hdir, false_implies, iff_true]
    exact fun _ _ _ => rfl

theorem record_whole [ConfigReader] [Templates] (store : Store) (dir : Line) (step : Step)
    (documents : List DocumentInput) (date : Line) :
    AllOrNothing store (record store dir step documents date) ↔ RecordsWhole store dir step documents := by
  cases step with
  | specify => exact record_change store dir .specify documents date
  | plan => exact record_change store dir .plan documents date
  | implement => exact record_change store dir .implement documents date
  | start =>
    rw [record, recordStart, init_eq]
    exact allOrNothing_writes _ _ _
  | capability =>
    refine iff_of_true ?_ trivial
    intro e herror
    unfold record recordCapability at herror ⊢
    dsimp only at herror ⊢
    split at herror
    · rename_i hname
      rw [if_pos hname]
      exact fun _ => rfl
    · rename_i hname
      rw [if_neg hname]
      split at herror
      · rename_i document
        dsimp only at herror ⊢
        rw [writeDocuments] at herror ⊢
        cases hrefusal : refusal .capability document with
        | some e' => exact fun _ => rfl
        | none =>
          rw [hrefusal] at herror
          cases herror
      · exact fun _ => rfl

theorem count_le_lines (text : List Char) : text.count '\n' ≤ (lines text).length := by
  have hpieces : (splitOn (· == '\n') text).length = text.count '\n' + 1 := by
    induction text with
    | nil => rfl
    | cons c text ih =>
      obtain ⟨first, rest, hsplit⟩ := exists_cons_of_ne_nil (@splitOn_ne_nil (· == '\n') text)
      rw [hsplit] at ih
      by_cases hc : c = '\n'
      · subst hc
        simp only [splitOn, hsplit, beq_self_eq_true, if_true, length_cons, count_cons_self] at ih ⊢
        omega
      · rw [count_cons_of_ne hc, splitOn, hsplit]
        dsimp only
        rw [if_neg (by simpa using hc)]
        exact ih
  have hended : ((splitOn (· == '\n') text).dropLast.map stripReturn).length = text.count '\n' := by
    rw [length_map, length_dropLast, hpieces, Nat.add_sub_cancel]
  unfold lines
  dsimp only
  split
  · exact hended.ge
  · exact hended.ge
  · rw [length_append]
    exact hended.ge.trans (Nat.le_add_right _ _)

theorem length_le_count_finish (ls : List Line) (original : List Char) :
    ls.length ≤ (Front.finish ls original).count '\n' := by
  have hcount : ∀ newline : List Char, 1 ≤ newline.count '\n' →
      ls.length ≤ (intercalate newline ls ++ newline).count '\n' := by
    intro newline hnewline
    induction ls with
    | nil => exact Nat.zero_le _
    | cons line ls ih =>
      cases ls with
      | nil =>
        rw [intercalate_singleton, count_append]
        exact hnewline.trans (Nat.le_add_left _ _)
      | cons next ls =>
        rw [intercalate_cons_cons, append_assoc, append_assoc, count_append, count_append,
          length_cons]
        omega
  unfold Front.finish
  dsimp only
  split <;> exact hcount _ (by decide)

theorem count_setField (text : List Char) (key value : Line) :
    text.count '\n' ≤ (Front.setField text key value).count '\n' := by
  unfold Front.setField
  dsimp only
  split
  · rw [count_append]
    exact Nat.le_add_left _ _
  · split
    · refine ((count_le_lines text).trans ?_).trans (length_le_count_finish _ _)
      rw [length_set]
    · refine ((count_le_lines text).trans ?_).trans (length_le_count_finish _ _)
      rw [length_insertIdx]
      split <;> omega

theorem historyEnd_le {ls : List Line} {start : Nat} (h : start < ls.length) : Front.historyEnd ls start ≤ ls.length := by
  have htrimmed := (List.rdropWhile_prefix isBlankLine
    ((ls.drop (start + 1)).takeWhile (!startsWith · "#".toList))).length_le
  have htaken := (List.takeWhile_prefix (l := ls.drop (start + 1)) (!startsWith · "#".toList)).length_le
  have hle := htrimmed.trans htaken
  rw [length_drop] at hle
  calc Front.historyEnd ls start ≤ start + 1 + (ls.length - (start + 1)) := Nat.add_le_add_left hle _
    _ = ls.length := Nat.add_sub_cancel' h

theorem count_addHistory (text : List Char) (entry : Line) :
    text.count '\n' < (Front.addHistory text entry).count '\n' := by
  refine (Nat.lt_succ_of_le (count_le_lines text)).trans_le ?_
  unfold Front.addHistory
  dsimp only
  split
  · rename_i start hstart
    rw [findIdx?_eq_some_iff_getElem] at hstart
    obtain ⟨hlt, -⟩ := hstart
    refine le_trans ?_ (length_le_count_finish _ _)
    rw [length_insertIdx, if_pos (historyEnd_le hlt)]
  · refine le_trans ?_ (length_le_count_finish _ _)
    rw [length_append]
    split
    · rw [length_append]
      simp
    · simp

theorem finishedText_ne (text : List Char) (date : Line) : finishedText text date ≠ text := by
  intro h
  have hcount : text.count '\n' < (finishedText text date).count '\n' :=
    (count_setField text _ _).trans_lt (count_addHistory _ _)
  rw [h] at hcount
  exact absurd hcount (Nat.lt_irrefl _)

theorem target_in_archive (layout : Layout) (dir date : Line) :
    layout.root ++ "/archive".toList <+: trimSlashes (archiveTarget layout dir date) ++ ['/'] := by
  have hkept : ∀ rest : Path,
      layout.root ++ "/archive".toList <+: trimSlashes (layout.root ++ "/archive".toList ++ rest) := by
    intro rest
    induction rest using reverseRecOn with
    | nil =>
      have hsplit : layout.root ++ "/archive".toList = (layout.root ++ "/archiv".toList) ++ ['e'] := by
        rw [append_assoc]
        rfl
      rw [append_nil, hsplit, trimSlashes, rdropWhile_concat_neg _ _ _ (by decide)]
    | append_singleton rest c ih =>
      rw [← append_assoc, trimSlashes]
      by_cases hc : (c == '/') = true
      · rw [rdropWhile_concat_pos (fun x => x == '/') _ _ hc]
        exact ih
      · rw [rdropWhile_concat_neg (fun x => x == '/') _ _ hc, append_assoc]
        exact prefix_append _ _
  refine List.IsPrefix.trans ?_ (prefix_append _ _)
  have h := hkept ("/".toList ++ date ++ "-".toList ++ dir)
  have hsame : layout.root ++ "/archive".toList ++ ("/".toList ++ date ++ "-".toList ++ dir) =
      archiveTarget layout dir date := by
    simp only [archiveTarget, Layout.archive, append_assoc]
  rw [hsame] at h
  exact h

theorem not_archive_capability (layout : Layout) (dir date name : Line) :
    startsWith (layout.capabilitySpec name) (trimSlashes (archiveTarget layout dir date) ++ ['/']) = false := by
  rw [← Bool.not_eq_true]
  intro h
  have hprefix := (target_in_archive layout dir date).trans (List.isPrefixOf_iff_prefix.mp h)
  rw [Layout.capabilitySpec, append_assoc, append_assoc, prefix_append_right_inj,
    ← isPrefixOf_iff_prefix] at hprefix
  cases hprefix

theorem not_archive_change (layout : Layout) (dir date : Line) :
    startsWith (layout.change dir ++ "/change.md".toList) (trimSlashes (archiveTarget layout dir date) ++ ['/']) =
      false := by
  rw [← Bool.not_eq_true]
  intro h
  have hprefix := (target_in_archive layout dir date).trans (List.isPrefixOf_iff_prefix.mp h)
  rw [Layout.change, append_assoc, append_assoc, prefix_append_right_inj,
    ← isPrefixOf_iff_prefix] at hprefix
  cases hprefix

theorem capability_ne_change (layout : Layout) (dir name : Line) :
    layout.change dir ++ "/change.md".toList ≠ layout.capabilitySpec name := by
  intro h
  simp only [Layout.change, Layout.capabilitySpec, append_assoc] at h
  have h := append_cancel_left h
  simp at h

theorem lookup_isSome (files : List (Path × List Char)) (q : Path) :
    (files.lookup q).isSome = true ↔ ∃ file ∈ files, file.1 = q := by
  induction files with
  | nil => simp
  | cons file files ih =>
    rw [lookup_cons, exists_mem_cons_iff]
    by_cases h : q = file.1
    · simp [h]
    · rw [if_neg h, ih]
      simp [Ne.symm h]

theorem any_files_iff (store : Store) (new : Path) :
    (store.files.any fun file => startsWith file.1 new) = true ↔
      ∃ path, startsWith path new = true ∧ (store.read path).isSome = true := by
  rw [any_eq_true]
  constructor
  · rintro ⟨file, hfile, hstarts⟩
    exact ⟨file.1, hstarts, (lookup_isSome _ _).mpr ⟨file, hfile, rfl⟩⟩
  · rintro ⟨path, hstarts, hread⟩
    obtain ⟨file, hfile, rfl⟩ := (lookup_isSome _ _).mp hread
    exact ⟨file, hfile, hstarts⟩

theorem read_writeMerges (layout : Layout) (merges : Merges) (store : Store)
    (h : ∀ name, q ≠ layout.capabilitySpec name) : (writeMerges layout merges store).read q = store.read q := by
  unfold writeMerges
  generalize merges.names = names
  induction names generalizing store with
  | nil => rfl
  | cons name names ih =>
    rw [foldl_cons, ih]
    split
    · rw [read_write, if_neg (h name)]
    · rfl

theorem moveDir_error (store : Store) (source target : Path) :
    (∃ e, store.moveDir source target = .error e) ↔ ¬ Movable store source target := by
  unfold Store.moveDir Movable
  cases hsource : safe source with
  | error e => simp
  | ok _ =>
    cases htarget : safe target with
    | error e => simp
    | ok _ =>
      dsimp only
      by_cases hany : (store.files.any fun file => startsWith file.1 (trimSlashes target ++ ['/'])) = true
      · rw [if_pos hany]
        rw [any_eq_true] at hany
        obtain ⟨file, hfile, hstarts⟩ := hany
        refine iff_of_true ⟨_, rfl⟩ fun hmovable => ?_
        rw [hmovable.2.2 file hfile] at hstarts
        cases hstarts
      · rw [if_neg hany]
        refine iff_of_false ?_ (not_not_intro ⟨rfl, rfl, fun file hfile => ?_⟩)
        · rintro ⟨e, he⟩
          cases he
        rw [any_eq_true] at hany
        rw [← Bool.not_eq_true]
        exact fun hstarts => hany ⟨file, hfile, hstarts⟩

theorem movable_iff (store : Store) (source target : Path) : Movable store source target ↔
    safe source = .ok () ∧ safe target = .ok () ∧
      ¬ ∃ path, startsWith path (trimSlashes target ++ ['/']) = true ∧ (store.read path).isSome = true := by
  rw [← any_files_iff, Movable, any_eq_true]
  simp

theorem movable_written (store : Store) (layout : Layout) (merges : Merges) (source : Path) (dir date : Line) :
    Movable (finishChangeRecord (writeMerges layout merges store) (layout.change dir) dir date) source
        (archiveTarget layout dir date) ↔
      Movable store source (archiveTarget layout dir date) := by
  have hsame : ∀ path, startsWith path (trimSlashes (archiveTarget layout dir date) ++ ['/']) = true →
      (finishChangeRecord (writeMerges layout merges store) (layout.change dir) dir date).read path =
        store.read path := by
    intro path hstarts
    rw [finishChangeRecord, read_write, if_neg, read_writeMerges]
    · rintro name rfl
      rw [not_archive_capability] at hstarts
      cases hstarts
    · rintro rfl
      rw [not_archive_change] at hstarts
      cases hstarts
  rw [movable_iff, movable_iff]
  refine and_congr_right fun _ => and_congr_right fun _ => not_congr (exists_congr fun path => ?_)
  refine and_congr_right fun hstarts => ?_
  rw [hsame path hstarts]

theorem not_same_finished (store : Store) (layout : Layout) (merges : Merges) (dir date : Line) :
    ¬ store.Same (finishChangeRecord (writeMerges layout merges store) (layout.change dir) dir date) := by
  intro h
  have hread := h (layout.change dir ++ "/change.md".toList)
  have hmerges : (writeMerges layout merges store).read (layout.change dir ++ "/change.md".toList) =
      store.read (layout.change dir ++ "/change.md".toList) :=
    read_writeMerges layout merges store fun name => capability_ne_change layout dir name
  rw [finishChangeRecord, read_write, if_pos rfl, hmerges] at hread
  cases hold : store.read (layout.change dir ++ "/change.md".toList) with
  | none =>
    rw [hold] at hread
    cases hread
  | some text =>
    rw [hold, Option.getD_some, Option.some.injEq] at hread
    exact finishedText_ne text date hread

theorem archive_whole [ConfigReader] (store : Store) (dir date : Line) (force : Bool) :
    AllOrNothing store (archive store dir date force) ↔ ArchivesWhole store dir date force := by
  unfold archive ArchivesWhole
  dsimp only
  cases hchecks : archiveChecks store dir date force with
  | error e =>
    refine iff_of_true (fun _ _ _ => rfl) fun merges hmerges => ?_
    cases hmerges
  | ok merges =>
    have hmove := movable_written store (Layout.of store) merges ((Layout.of store).change dir) dir date
    have herror := moveDir_error (finishChangeRecord (writeMerges (Layout.of store) merges store)
      ((Layout.of store).change dir) dir date) ((Layout.of store).change dir) (archiveTarget (Layout.of store) dir date)
    rw [hmove] at herror
    dsimp only
    cases hmoved : (finishChangeRecord (writeMerges (Layout.of store) merges store) ((Layout.of store).change dir) dir
        date).moveDir ((Layout.of store).change dir) (archiveTarget (Layout.of store) dir date) with
    | error e =>
      refine iff_of_false (fun h => not_same_finished store _ merges dir date (h e rfl)) fun h => ?_
      exact herror.mp ⟨e, hmoved⟩ (h merges rfl)
    | ok moved =>
      refine iff_of_true (fun e he => ?_) fun merges' hmerges' => ?_
      · cases he
      · by_contra hnot
        obtain ⟨e, he⟩ := herror.mpr hnot
        rw [hmoved] at he
        cases he

/-- An operation on the specs that fails leaves the store as it was, exactly where the documents before the first one
    that is refused change nothing, and a change that passes every check can be moved to the archive. -/
theorem all_or_nothing_iff [ConfigReader] [Templates] (store : Store) (dir : Line) (step : Step)
    (documents : List DocumentInput) (date : Line) (force : Bool) :
    (AllOrNothing store (record store dir step documents date) ↔ RecordsWhole store dir step documents) ∧
      (AllOrNothing store (recordStart store documents) ↔ RecordsWhole store dir .start documents) ∧
      (AllOrNothing store (archive store dir date force) ↔ ArchivesWhole store dir date force) :=
  ⟨record_whole store dir step documents date, record_whole store dir .start documents date,
    archive_whole store dir date force⟩

namespace Sample

instance noConfig : ConfigReader := ⟨fun _ => none⟩

instance headings : Templates := ⟨fun root => "# Specs\n".toList ++ root, "# Project\n".toList⟩

def drafted : Store := ⟨[("specs/changes/0001-a/change.md".toList, "---\nstatus: draft\n---\n# A\n".toList)]⟩

def reply : List DocumentInput :=
  [⟨"spec.md".toList, "# A\n".toList⟩, ⟨"tasks.md".toList, "# Tasks\n".toList⟩]

set_option maxRecDepth 4000 in
theorem spec_left_behind :
    ¬ AllOrNothing drafted (record drafted "0001-a".toList .specify reply "2026-10-23".toList) := by
  intro h
  have herror : (record drafted "0001-a".toList .specify reply "2026-10-23".toList).2.toOption.isNone = true := by decide
  have hwritten : (record drafted "0001-a".toList .specify reply "2026-10-23".toList).1.read
      "specs/changes/0001-a/spec.md".toList = some "# A\n".toList := by decide
  cases hresult : (record drafted "0001-a".toList .specify reply "2026-10-23".toList).2 with
  | ok recorded =>
    rw [hresult] at herror
    cases herror
  | error e =>
    have hsame := h e hresult "specs/changes/0001-a/spec.md".toList
    rw [hwritten] at hsame
    exact absurd hsame (by decide)

end Sample

end RustyCore.Specs
