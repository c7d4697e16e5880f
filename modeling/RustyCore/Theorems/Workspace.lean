import RustyCore.Workspace.Write

/-! A workspace write and what lies outside the root: where it stays inside, in every tree it passes through. -/

namespace RustyCore.Workspace

open FileTree Tree List

variable {tree : Tree} {root target parent p q : Location} {relative : List PathComponent} {content uuid name : String}

def SameOutside (root : Location) (tree tree' : Tree) : Prop := ∀ q, ¬ root <:+ q → tree'.entry q = tree.entry q

/-- The path does not lead to the root itself, unless there is nothing above it, and the first directory that is
    missing on the way to its parent is missing from a directory inside the root. -/
def StaysInside (tree : Tree) (root : Location) (relative : List PathComponent) : Prop :=
  ∀ target, resolveLexically root relative = .ok target →
    (target = root → root = []) ∧
    ∀ name parent n d below, target = name :: parent → Gap tree parent n d below → root <:+ d

theorem suffix_of_resolveLexically (h : resolveLexically root relative = .ok target) : root <:+ target := by
  unfold resolveLexically at h
  split at h
  · cases h
  · split at h
    · rename_i hsuffix
      cases h
      exact isSuffixOf_iff_suffix.mp hsuffix
    · cases h

theorem belowRoot_append (root below : Location) : belowRoot root (below ++ root) = below.reverse := by
  simp [belowRoot]

theorem entry_of_withoutSymlinks : ∀ {names : List String} {current d : Location} {l l' : Nat},
    tree.entry current = some .dir → withoutSymlinks tree current (names ++ [name]) = true →
    tree.resolve false l current (names.map .name) = .ok (d, l') → tree.entry d = some .dir →
    d = names.reverse ++ current := by
  intro names
  induction names with
  | nil =>
    intro current d l l' _ _ hresolve _
    rw [map_nil, resolve_nil] at hresolve
    cases hresolve
    rfl
  | cons n names ih =>
    intro current d l l' hcurrent hlinks hresolve hdir
    rw [map_cons] at hresolve
    rcases hentry : tree.entry (n :: current) with _ | entry
    · rw [resolve_missing hcurrent hentry] at hresolve
      cases hresolve
    · rw [cons_append, withoutSymlinks, lstat_dir hcurrent hentry] at hlinks
      cases entry with
      | link link => cases hlinks
      | dir =>
        rw [resolve_entry hcurrent hentry nofun] at hresolve
        rw [ih hentry hlinks hresolve hdir, reverse_cons, append_assoc, singleton_append]
      | file text =>
        rw [resolve_entry hcurrent hentry nofun] at hresolve
        -- a file ends the way
        cases names with
        | nil =>
          rw [map_nil, resolve_nil] at hresolve
          cases hresolve
          rw [hentry] at hdir
          cases hdir
        | cons n' names =>
          rw [map_cons, resolve_notDir _ (by rw [hentry]; simp)] at hresolve
          cases hresolve

theorem entry_parent (hroot : tree.entry root = some .dir) (hsuffix : root <:+ parent)
    (hlinks : withoutSymlinks tree root (belowRoot root (name :: parent)) = true)
    (hparent : tree.isDir parent = true) : tree.entry parent = some .dir := by
  obtain ⟨below, rfl⟩ := hsuffix
  obtain ⟨d, hlocate, hdir⟩ := isDir_iff.mp hparent
  obtain ⟨l, hl⟩ := locate_eq_ok.mp hlocate
  rw [components_append, resolve_append (resolve_dir hroot)] at hl
  rw [← cons_append, belowRoot_append, reverse_cons] at hlinks
  have hd := entry_of_withoutSymlinks hroot hlinks hl hdir
  rw [reverse_reverse] at hd
  rwa [hd] at hdir

theorem writeAtomically_inside (hsuffix : root <:+ parent) (hparent : tree.entry parent = some .dir)
    (hfresh : tree.entry (temporaryName (name :: parent) uuid :: parent) = none) :
    ∀ t ∈ (writeAtomically tree root (name :: parent) content uuid).1, SameOutside root tree t := by
  have hout : ∀ n q, ¬ root <:+ q → q ≠ n :: parent := by
    rintro n q hq rfl
    exact hq (hsuffix.trans (suffix_cons n parent))
  have hwritten : SameOutside root tree
      (tree.set (temporaryName (name :: parent) uuid) parent (some (.file content)) hparent (ne_dir hfresh)) :=
    fun q hq => entry_set_ne (hout _ q hq)
  have hparent' := @entry_set_dir tree (temporaryName (name :: parent) uuid) parent parent (some (.file content)) hparent
    (ne_dir hfresh) hparent
  intro t ht q hq
  unfold writeAtomically at ht
  simp only [writeFile_new hparent hfresh] at ht
  split at ht
  · rename_i renamed hrename
    rcases mem_cons.mp ht with rfl | ht
    · exact hwritten q hq
    · rw [mem_singleton.mp ht, renameFile_frame hparent' hrename q (hout _ q hq) (hout _ q hq)]
      exact hwritten q hq
  · split at ht
    · rename_i removed hunlink
      rcases mem_cons.mp ht with rfl | ht
      · exact hwritten q hq
      · rw [mem_singleton.mp ht, unlink_frame hparent' hunlink q (hout _ q hq)]
        exact hwritten q hq
    · rw [mem_singleton.mp ht]
      exact hwritten q hq

theorem writeAtomically_outside {n : String} {up : Location} (hroot : tree.entry (n :: up) = some .dir)
    (hfresh : tree.entry (temporaryName (n :: up) uuid :: up) = none) :
    ∃ t ∈ (writeAtomically tree (n :: up) (n :: up) content uuid).1, ¬ SameOutside (n :: up) tree t := by
  have hup := tree.parent n up (by rw [hroot]; simp)
  refine ⟨tree.set (temporaryName (n :: up) uuid) up (some (.file content)) hup (ne_dir hfresh), ?_, fun hsame => ?_⟩
  · unfold writeAtomically
    simp only [writeFile_new hup hfresh]
    split
    · exact mem_cons_self
    · split <;> exact mem_cons_self
  · have hout : ¬ (n :: up) <:+ temporaryName (n :: up) uuid :: up := by
      intro hsuffix
      have hname := hsuffix.eq_of_length rfl
      rw [← hname, hroot] at hfresh
      cases hfresh
    have hentry := hsame _ hout
    rw [entry_set_self, hfresh] at hentry
    cases hentry

theorem write_prepared {passed : List Tree} (h : prepareTarget tree root relative = (passed, .ok target)) :
    (write tree root relative content uuid).1 =
      passed ++ (writeAtomically (tree.last passed) root target content uuid).1 := by
  unfold write
  rw [h]

theorem passed_write (tree : Tree) (root : Location) (relative : List PathComponent) (content uuid : String) :
    (prepareTarget tree root relative).1 <+: (write tree root relative content uuid).1 := by
  unfold write
  rcases prepareTarget tree root relative with ⟨passed, e | target⟩
  · exact prefix_rfl
  · exact prefix_append _ _

theorem createDirAll_inside (hroot : tree.entry root = some .dir)
    (hfresh : ∀ d, tree.entry (name :: d) = none)
    (hgap : ∀ n d below, Gap tree parent n d below → root <:+ d) :
    (∀ t ∈ (tree.createDirAll parent).1, SameOutside root tree t) ∧
      ((tree.createDirAll parent).2 = .ok () →
        (tree.last (tree.createDirAll parent).1).entry root = some .dir ∧
        (tree.last (tree.createDirAll parent).1).isDir parent = true ∧
        ((tree.last (tree.createDirAll parent).1).entry parent = some .dir →
          (tree.last (tree.createDirAll parent).1).entry (name :: parent) = none)) := by
  by_cases h : ∃ n d below, Gap tree parent n d below
  · obtain ⟨n, d, below, h⟩ := h
    obtain ⟨passed, hmade⟩ := createDirAll_gap h
    have hinside := hgap n d below h
    have hsame : ∀ t ∈ passed, SameOutside root tree t := fun t ht q hq =>
      hmade.frame t ht q fun hsuffix => hq (hinside.trans ((suffix_cons n d).trans hsuffix))
    rw [hmade.result]
    refine ⟨hsame, fun _ => ⟨?_, isDir_iff.mpr ⟨_, hmade.here, hmade.dir⟩, fun hdir => ?_⟩⟩
    · unfold last
      rcases hlast : passed.getLast? with _ | t
      · exact hroot
      · rw [Option.getD_some, hmade.frame t (mem_of_getLast? hlast), hroot]
        intro hsuffix
        have hle := hsuffix.length_le
        have hle' := hinside.length_le
        rw [length_cons] at hle
        omega
    · have hhere := hmade.here
      rw [locate_dir hdir] at hhere
      cases hhere
      exact hmade.nothing name
  · obtain ⟨result, hresult, hdir⟩ := createDirAll_nothing fun n d below hn => h ⟨n, d, below, hn⟩
    rw [hresult]
    exact ⟨fun t ht => absurd ht not_mem_nil, fun hok => ⟨hroot, hdir hok, fun _ => hfresh parent⟩⟩

theorem write_inside (hroot : tree.entry root = some .dir)
    (hfresh : ∀ target d, tree.entry (temporaryName target uuid :: d) = none) (h : StaysInside tree root relative) :
    ∀ t ∈ (write tree root relative content uuid).1, SameOutside root tree t := by
  intro t ht
  by_cases htop : root = []
  · subst htop
    exact fun q hq => absurd nil_suffix hq
  unfold write prepareTarget at ht
  rcases hlexical : resolveLexically root relative with e | target
  · simp [hlexical] at ht
  · obtain ⟨hne, hgap⟩ := h target hlexical
    have hsuffix := suffix_of_resolveLexically hlexical
    cases target with
    | nil => exact absurd (suffix_nil.mp hsuffix) htop
    | cons name parent =>
      have hparent : root <:+ parent := by
        rcases suffix_cons_iff.mp hsuffix with heq | hparent
        · exact absurd (hne heq.symm) htop
        · exact hparent
      have hmissing : ∀ n d below, Gap tree parent n d below → root <:+ d :=
        fun n d below hn => hgap name parent n d below rfl hn
      obtain ⟨hsame, hafter⟩ := createDirAll_inside hroot (hfresh (name :: parent)) hmissing
      simp only [hlexical] at ht
      generalize tree.createDirAll parent = created at ht hsame hafter
      rcases created with ⟨passed, e | made⟩
      · exact hsame t ht
      · obtain ⟨hroot', hdir, hnone⟩ := hafter rfl
        have hlast : SameOutside root tree (tree.last passed) := by
          unfold last
          rcases hl : passed.getLast? with _ | t'
          · exact fun q _ => rfl
          · exact hsame t' (mem_of_getLast? hl)
        unfold resolveWithoutSymlinks at ht
        simp only [hlexical] at ht
        by_cases hlinks : withoutSymlinks (tree.last passed) root (belowRoot root (name :: parent)) = true
        · simp only [hlinks, if_true] at ht
          have hentry := entry_parent hroot' hparent hlinks hdir
          rcases mem_append.mp ht with ht | ht
          · exact hsame t ht
          · intro q hq
            rw [writeAtomically_inside hparent hentry (hnone hentry) t ht q hq, hlast q hq]
        · simp only [hlinks] at ht
          exact hsame t ht

theorem createDirAll_dir (h : tree.entry p = some .dir) : tree.createDirAll p = ([], .ok ()) := by
  cases p with
  | nil => rfl
  | cons n up =>
    have hup := tree.parent n up (by rw [h]; simp)
    have hmkdir : tree.mkdir (n :: up) = .error .alreadyExists := by
      rw [mkdir, directory_eq (locate_dir hup) hup]
      simp [h]
    rw [createDirAll, hmkdir]
    simp [isDir_iff.mpr ⟨_, locate_dir h, h⟩]

theorem stays_of_write (hroot : tree.entry root = some .dir)
    (hfresh : ∀ target d, tree.entry (temporaryName target uuid :: d) = none)
    (h : ∀ t ∈ (write tree root relative content uuid).1, SameOutside root tree t) : StaysInside tree root relative := by
  intro target hlexical
  refine ⟨fun htarget => ?_, ?_⟩
  · subst htarget
    by_contra htop
    obtain ⟨n, up, rfl⟩ := exists_cons_of_ne_nil htop
    have hup := tree.parent n up (by rw [hroot]; simp)
    have hprepared : prepareTarget tree (n :: up) relative = ([], .ok (n :: up)) := by
      unfold prepareTarget resolveWithoutSymlinks
      have hbelow : belowRoot (n :: up) (n :: up) = [] := by simp [belowRoot]
      simp [hlexical, createDirAll_dir hup, hbelow, withoutSymlinks]
    obtain ⟨t, ht, hdiffers⟩ := @writeAtomically_outside tree content uuid n up hroot (hfresh (n :: up) up)
    refine hdiffers (h t ?_)
    rw [write_prepared hprepared]
    exact ht
  · rintro name parent n d below rfl hgap
    by_contra hout
    obtain ⟨passed, hmade⟩ := createDirAll_gap hgap
    obtain ⟨t, ht, hentry⟩ := hmade.made
    obtain ⟨a, -, -, -, hnone⟩ := hgap
    have hpassed : t ∈ (prepareTarget tree root relative).1 := by
      unfold prepareTarget
      simp only [hlexical, hmade.result]
      exact ht
    have hsame := h t ((passed_write tree root relative content uuid).subset hpassed) (n :: d)
    rw [hentry, hnone] at hsame
    refine absurd (hsame fun hsuffix => ?_) (by simp)
    rcases suffix_cons_iff.mp hsuffix with heq | hsuffix
    · rw [heq, hnone] at hroot
      cases hroot
    · exact hout hsuffix

/-- A workspace write changes nothing outside the root, in any tree it passes through, exactly where its path names
    something below the root and `create_dir_all` finds nothing to make outside. -/
theorem write_stays_inside_iff (tree : Tree) (root : Location) (relative : List PathComponent) (content uuid : String)
    (hroot : tree.entry root = some .dir) (hfresh : ∀ target d, tree.entry (temporaryName target uuid :: d) = none) :
    (∀ t ∈ (write tree root relative content uuid).1, SameOutside root tree t) ↔ StaysInside tree root relative :=
  ⟨stays_of_write hroot hfresh, write_inside hroot hfresh⟩

namespace Sample

def bare : Tree := ⟨fun q => if q = [] then some .dir else none, rfl, by simp⟩

def beside : Tree :=
  (bare.set "ws" [] (some .dir) rfl (by simp [bare])).set "outside" [] (some .dir) rfl (by simp [Tree.set, bare])

def linked : Tree :=
  beside.set "escape" ["ws"] (some (.link ⟨true, [.name "outside"]⟩)) (by simp [beside, Tree.set])
    (by simp [beside, Tree.set, bare])

theorem temporaryName_ne {target : Location} {uuid s : String} (h : s.toList.head? ≠ some '.') :
    temporaryName target uuid ≠ s := by
  rintro rfl
  exact h (by simp [temporaryName])

theorem linked_fresh (target d : Location) : linked.entry (temporaryName target "7" :: d) = none := by
  have hescape : temporaryName target "7" ≠ "escape" := temporaryName_ne (by decide)
  have hws : temporaryName target "7" ≠ "ws" := temporaryName_ne (by decide)
  have houtside : temporaryName target "7" ≠ "outside" := temporaryName_ne (by decide)
  simp [linked, beside, bare, Tree.set, hescape, hws, houtside]

theorem notes_stay : StaysInside linked ["ws"] [.normal "notes.txt"] := by
  intro target htarget
  cases htarget
  refine ⟨by simp, ?_⟩
  rintro name parent n d below heq hgap
  cases heq
  -- the parent is the root, which is there
  have hlocate := locate_gap hgap
  rw [locate_dir rfl] at hlocate
  cases hlocate

theorem write_inside_notes : ((∀ t ∈ (write linked ["ws"] [.normal "notes.txt"] "Done" "7").1,
    SameOutside ["ws"] linked t) ↔ StaysInside linked ["ws"] [.normal "notes.txt"]) ∧
    StaysInside linked ["ws"] [.normal "notes.txt"] :=
  ⟨write_stays_inside_iff linked ["ws"] [.normal "notes.txt"] "Done" "7" rfl linked_fresh, notes_stay⟩

/-- A refused write through the link has made a directory outside. -/
theorem refused_write_outside : ¬ ∀ (tree : Tree) (root : Location) (relative : List PathComponent)
    (content uuid : String), tree.entry root = some .dir →
    (∀ target d, tree.entry (temporaryName target uuid :: d) = none) →
    ∀ t ∈ (write tree root relative content uuid).1, SameOutside root tree t := by
  intro h
  have hstays := stays_of_write rfl linked_fresh
    (h linked ["ws"] [.normal "escape", .normal "new", .normal "notes.txt"] "Done" "7" rfl linked_fresh)
  have hgap : Gap linked ["new", "escape", "ws"] "new" ["outside"] [] := by
    have htop : linked.entry [] = some .dir := rfl
    have hws : linked.entry ["ws"] = some .dir := rfl
    have houtside : linked.entry ["outside"] = some .dir := rfl
    have hlink : linked.entry ["escape", "ws"] = some (.link ⟨true, [.name "outside"]⟩) := rfl
    have hlocate : linked.resolve false 40 [] [.name "ws", .name "escape"] = .ok (["outside"], 39) := by
      rw [resolve_entry htop hws nofun, resolve_link hws hlink]
      exact (resolve_entry htop houtside nofun).trans resolve_nil
    exact ⟨["escape", "ws"], rfl, locate_eq_ok.mpr ⟨39, hlocate⟩, houtside, rfl⟩
  have hinside := (hstays ["notes.txt", "new", "escape", "ws"] rfl).2 _ _ _ _ _ rfl hgap
  exact absurd hinside (by decide)

end Sample

end RustyCore.Workspace
