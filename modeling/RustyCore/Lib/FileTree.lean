import Mathlib.Data.List.Basic
import Mathlib.Data.List.Infix

/-! A tree of directories, files and symbolic links, and the calls of an operating system on it: a path is resolved
    component by component, and links are followed as POSIX says. -/

namespace FileTree

open List

abbrev Location := List String

inductive Component where
  | up
  | name (name : String)
deriving DecidableEq

structure Target where
  absolute : Bool
  components : List Component
deriving DecidableEq

inductive Entry where
  | file (content : String)
  | dir
  | link (target : Target)
deriving DecidableEq

inductive Errno where
  | notFound
  | notDir
  | isDir
  | alreadyExists
  | loop
deriving DecidableEq

structure Tree where
  entry : Location → Option Entry
  top : entry [] = some .dir
  parent : ∀ n d, entry (n :: d) ≠ none → entry d = some .dir

namespace Tree

variable {tree tree' : Tree} {n m : String} {d c p q : Location} {e : Option Entry} {l l' : Nat} {b : Bool}
  {xs ys : List Component}

def set (tree : Tree) (n : String) (d : Location) (e : Option Entry) (hdir : tree.entry d = some .dir)
    (hleaf : tree.entry (n :: d) ≠ some .dir) : Tree where
  entry q := if q = n :: d then e else tree.entry q
  top := by rw [if_neg (by simp)]; exact tree.top
  parent m c h := by
    by_cases hsame : m :: c = n :: d
    · obtain ⟨rfl, rfl⟩ := List.cons.inj hsame
      rw [if_neg (by simp)]
      exact hdir
    · rw [if_neg hsame] at h
      have hparent := tree.parent m c h
      have hne : c ≠ n :: d := fun heq => hleaf (heq ▸ hparent)
      rw [if_neg hne]
      exact hparent

theorem ne_dir (h : tree.entry p = none) : tree.entry p ≠ some .dir := by
  rw [h]
  simp

/-- Follows the components from a location, with `links` links left to follow. With `create`, the last name need
    not be there. -/
def resolve (tree : Tree) (create : Bool) : Nat → Location → List Component → Except Errno (Location × Nat)
  | links, cur, [] => .ok (cur, links)
  | links, cur, .up :: rest =>
    if tree.entry cur ≠ some .dir then .error .notDir else resolve tree create links cur.tail rest
  | links, cur, .name n :: rest =>
    if tree.entry cur ≠ some .dir then .error .notDir
    else
      match tree.entry (n :: cur), links with
      | none, links => if create && rest.isEmpty then .ok (n :: cur, links) else .error .notFound
      | some (.link _), 0 => .error .loop
      | some (.link target), links + 1 =>
        resolve tree create links (if target.absolute then [] else cur) (target.components ++ rest)
      | some _, links => resolve tree create links (n :: cur) rest
termination_by links _ rest => (links, rest.length)

def maxLinks : Nat := 40

def components (p : Location) : List Component := p.reverse.map .name

def locate (tree : Tree) (p : Location) : Except Errno Location :=
  (tree.resolve false maxLinks [] (components p)).map (·.1)

def directory (tree : Tree) (p : Location) : Except Errno { d // tree.entry d = some .dir } :=
  match tree.locate p with
  | .error e => .error e
  | .ok d => if h : tree.entry d = some .dir then .ok ⟨d, h⟩ else .error .notDir

def isDir (tree : Tree) (p : Location) : Bool :=
  match tree.locate p with
  | .error _ => false
  | .ok d => tree.entry d = some .dir

def lstat (tree : Tree) : Location → Except Errno Entry
  | [] => .ok .dir
  | n :: up =>
    match tree.directory up with
    | .error e => .error e
    | .ok d => match tree.entry (n :: d) with
      | none => .error .notFound
      | some entry => .ok entry

def mkdir (tree : Tree) : Location → Except Errno Tree
  | [] => .error .alreadyExists
  | n :: up =>
    match tree.directory up with
    | .error e => .error e
    | .ok ⟨d, hdir⟩ =>
      if h : tree.entry (n :: d) = none then .ok (tree.set n d (some .dir) hdir (ne_dir h))
      else .error .alreadyExists

/-- Opens for writing, creating the file or emptying it, and writes; a link is followed. -/
def writeFile (tree : Tree) (p : Location) (content : String) : Except Errno Tree :=
  match tree.resolve true maxLinks [] (components p) with
  | .error e => .error e
  | .ok ([], _) => .error .isDir
  | .ok (n :: d, _) =>
    if hdir : tree.entry d = some .dir then
      if hleaf : tree.entry (n :: d) ≠ some .dir then .ok (tree.set n d (some (.file content)) hdir hleaf)
      else .error .isDir
    else .error .notDir

theorem entry_set_self {hdir : tree.entry d = some .dir} {hleaf : tree.entry (n :: d) ≠ some .dir} :
    (tree.set n d e hdir hleaf).entry (n :: d) = e := if_pos rfl

theorem entry_set_ne {hdir : tree.entry d = some .dir} {hleaf : tree.entry (n :: d) ≠ some .dir} (h : q ≠ n :: d) :
    (tree.set n d e hdir hleaf).entry q = tree.entry q := if_neg h

theorem entry_set_dir {hdir : tree.entry d = some .dir} {hleaf : tree.entry (n :: d) ≠ some .dir}
    (h : tree.entry q = some .dir) : (tree.set n d e hdir hleaf).entry q = some .dir := by
  rw [entry_set_ne fun hq => hleaf (hq ▸ h), h]

/-- `rename` of what is no directory: it takes the place of what the new name stands for, unless that is a
    directory. -/
def renameFile (tree : Tree) : Location → Location → Except Errno Tree
  | n :: up, m :: up' =>
    match tree.directory up, tree.directory up' with
    | .error e, _ | _, .error e => .error e
    | .ok ⟨d, hdir⟩, .ok ⟨d', hdir'⟩ =>
      match hentry : tree.entry (n :: d) with
      | none => .error .notFound
      | some entry =>
        if hentry' : entry = .dir then .error .isDir
        else if hleaf : tree.entry (m :: d') = some .dir then .error .isDir
        else if hsame : n :: d = m :: d' then .ok tree
        else
          .ok ((tree.set m d' (some entry) hdir' hleaf).set n d none (entry_set_dir hdir)
            (by rw [entry_set_ne hsame, hentry]; simpa using hentry'))
  | _, _ => .error .isDir

def unlink (tree : Tree) : Location → Except Errno Tree
  | [] => .error .isDir
  | n :: up =>
    match tree.directory up with
    | .error e => .error e
    | .ok ⟨d, hdir⟩ =>
      if tree.entry (n :: d) = none then .error .notFound
      else if hleaf : tree.entry (n :: d) = some .dir then .error .isDir
      else .ok (tree.set n d none hdir hleaf)

def last (tree : Tree) (passed : List Tree) : Tree := passed.getLast?.getD tree

/-- `create_dir_all`: the directory, with those above it that are missing. Gives the trees passed through. -/
def createDirAll (tree : Tree) : Location → List Tree × Except Errno Unit
  | [] => ([], .ok ())
  | n :: up =>
    match tree.mkdir (n :: up) with
    | .ok created => ([created], .ok ())
    | .error .notFound =>
      match createDirAll tree up with
      | (passed, .error e) => (passed, .error e)
      | (passed, .ok ()) =>
        match (tree.last passed).mkdir (n :: up) with
        | .ok created => (passed ++ [created], .ok ())
        | .error e => (passed, if (tree.last passed).isDir (n :: up) then .ok () else .error e)
    | .error e => ([], if tree.isDir (n :: up) then .ok () else .error e)

theorem resolve_nil : tree.resolve b l c [] = .ok (c, l) := by rw [resolve]

theorem resolve_up : tree.resolve b l c (.up :: ys) =
    if tree.entry c ≠ some .dir then .error .notDir else tree.resolve b l c.tail ys := by rw [resolve]

theorem resolve_entry {entry : Entry} (hdir : tree.entry c = some .dir) (hentry : tree.entry (n :: c) = some entry)
    (hlink : ∀ target, entry ≠ .link target) :
    tree.resolve b l c (.name n :: ys) = tree.resolve b l (n :: c) ys := by
  rw [resolve.eq_def]
  simp only [hdir, ne_eq, not_true_eq_false, if_false, hentry]
  cases entry with
  | link target => exact absurd rfl (hlink target)
  | _ => rfl

theorem resolve_missing (hdir : tree.entry c = some .dir) (hentry : tree.entry (n :: c) = none) :
    tree.resolve b l c (.name n :: ys) = if b && ys.isEmpty then .ok (n :: c, l) else .error .notFound := by
  rw [resolve.eq_def]
  simp only [hdir, ne_eq, not_true_eq_false, if_false, hentry]

theorem resolve_link {target : Target} (hdir : tree.entry c = some .dir)
    (hentry : tree.entry (n :: c) = some (.link target)) :
    tree.resolve b (l + 1) c (.name n :: ys) =
      tree.resolve b l (if target.absolute then [] else c) (target.components ++ ys) := by
  rw [resolve.eq_def]
  simp only [hdir, ne_eq, not_true_eq_false, if_false, hentry]

theorem resolve_notDir (x : Component) (hdir : tree.entry c ≠ some .dir) :
    tree.resolve b l c (x :: ys) = .error .notDir := by
  rw [resolve.eq_def]
  cases x <;> simp only [hdir, ne_eq, not_false_eq_true, if_true]

theorem resolve_append (h : tree.resolve false l c xs = .ok (q, l')) :
    tree.resolve b l c (xs ++ ys) = tree.resolve b l' q ys := by
  fun_induction resolve tree false l c xs with
  | case1 links cur =>
    cases h
    rfl
  | case2 links cur rest hdir => cases h
  | case3 links cur rest hdir ih =>
    rw [cons_append, resolve_up, if_neg hdir]
    exact ih h
  | case4 links cur n rest hdir => cases h
  | case5 cur n rest hdir links hnone hcreate => simp at hcreate
  | case6 | case7 => cases h
  | case8 cur n rest hdir target links hlink ih =>
    rw [cons_append, resolve_link (not_not.mp hdir) hlink, ← append_assoc]
    simpa only [dite_eq_ite] using ih h
  | case9 cur n rest hdir entry links hzero hsucc hentry ih =>
    rw [cons_append, resolve_entry (not_not.mp hdir) hentry]
    · exact ih h
    · intro target htarget
      cases links with
      | zero => exact hzero target rfl htarget
      | succ links => exact hsucc target links rfl htarget

theorem resolve_mono (hmono : ∀ q e, tree.entry q = some e → tree'.entry q = some e)
    (h : tree.resolve false l c xs = .ok (q, l')) : tree'.resolve false l c xs = .ok (q, l') := by
  fun_induction resolve tree false l c xs with
  | case1 links cur => rw [resolve_nil, h]
  | case2 links cur rest hdir => cases h
  | case3 links cur rest hdir ih =>
    rw [resolve_up, if_neg (by rw [hmono _ _ (not_not.mp hdir)]; simp)]
    exact ih h
  | case4 links cur n rest hdir => cases h
  | case5 cur n rest hdir links hnone hcreate => simp at hcreate
  | case6 | case7 => cases h
  | case8 cur n rest hdir target links hlink ih =>
    rw [resolve_link (hmono _ _ (not_not.mp hdir)) (hmono _ _ hlink)]
    simpa only [dite_eq_ite] using ih h
  | case9 cur n rest hdir entry links hzero hsucc hentry ih =>
    rw [resolve_entry (hmono _ _ (not_not.mp hdir)) (hmono _ _ hentry)]
    · exact ih h
    · intro target htarget
      cases links with
      | zero => exact hzero target rfl htarget
      | succ links => exact hsucc target links rfl htarget

theorem components_cons (n : String) (p : Location) : components (n :: p) = components p ++ [.name n] := by
  simp [components]

theorem components_append (below p : Location) :
    components (below ++ p) = components p ++ below.reverse.map .name := by
  simp [components]

theorem resolve_dir (h : tree.entry p = some .dir) : tree.resolve false l [] (components p) = .ok (p, l) := by
  induction p with
  | nil => exact resolve_nil
  | cons n up ih =>
    have hup := tree.parent n up (by rw [h]; simp)
    rw [components_cons, resolve_append (ih hup), resolve_entry hup h (by simp), resolve_nil]

theorem locate_eq_ok : tree.locate p = .ok q ↔ ∃ l, tree.resolve false maxLinks [] (components p) = .ok (q, l) := by
  unfold locate
  rcases tree.resolve false maxLinks [] (components p) with e | ⟨q', l⟩
  · simp [Except.map]
  · simp [Except.map]

theorem locate_dir (h : tree.entry p = some .dir) : tree.locate p = .ok p := locate_eq_ok.mpr ⟨_, resolve_dir h⟩

theorem directory_eq (hp : tree.locate p = .ok d) (h : tree.entry d = some .dir) :
    tree.directory p = .ok ⟨d, h⟩ := by
  unfold directory
  rw [hp]
  exact dif_pos h

theorem isDir_iff : tree.isDir p = true ↔ ∃ d, tree.locate p = .ok d ∧ tree.entry d = some .dir := by
  unfold isDir
  rcases tree.locate p with e | d <;> simp

/-- The first name of a path that is not there, the directory it is missing from, and the names after it. -/
def Gap (tree : Tree) (p : Location) (n : String) (d below : Location) : Prop :=
  ∃ a, p = below ++ n :: a ∧ tree.locate a = .ok d ∧ tree.entry d = some .dir ∧ tree.entry (n :: d) = none

theorem mkdir_eq (hup : tree.locate p = .ok d) (hdir : tree.entry d = some .dir) (h : tree.entry (n :: d) = none) :
    tree.mkdir (n :: p) = .ok (tree.set n d (some .dir) hdir (ne_dir h)) := by
  rw [mkdir, directory_eq hup hdir]
  exact dif_pos h

theorem mkdir_eq_ok (h : tree.mkdir (n :: p) = .ok tree') : ∃ d, Gap tree (n :: p) n d [] := by
  rw [mkdir] at h
  unfold directory at h
  rcases hp : tree.locate p with e | d
  · simp [hp] at h
  · simp only [hp] at h
    by_cases hdir : tree.entry d = some .dir
    · simp only [hdir, dite_true] at h
      by_cases hentry : tree.entry (n :: d) = none
      · exact ⟨d, p, rfl, hp, hdir, hentry⟩
      · simp [hentry] at h
    · simp [hdir] at h

theorem locate_of_mkdir (h : tree.mkdir (n :: p) = .error .notFound) : tree.locate p = .error .notFound := by
  rw [mkdir] at h
  unfold directory at h
  rcases hp : tree.locate p with e | d
  · simp only [hp] at h
    cases h
    rfl
  · simp only [hp] at h
    by_cases hdir : tree.entry d = some .dir
    · simp only [hdir, dite_true] at h
      by_cases hentry : tree.entry (n :: d) = none <;> simp [hentry] at h
    · simp [hdir] at h

theorem locate_gap {below : Location} (h : Gap tree p n d below) : tree.locate p = .error .notFound := by
  obtain ⟨a, rfl, ha, hdir, hnone⟩ := h
  obtain ⟨l, hl⟩ := locate_eq_ok.mp ha
  unfold locate
  rw [components_append, components_cons, append_assoc, singleton_append, resolve_append hl,
    resolve_missing hdir hnone]
  rfl

theorem createDirAll_nothing (h : ∀ n d below, ¬ Gap tree p n d below) :
    ∃ result, tree.createDirAll p = ([], result) ∧ (result = .ok () → tree.isDir p = true) := by
  induction p with
  | nil => exact ⟨.ok (), rfl, fun _ => isDir_iff.mpr ⟨[], locate_dir tree.top, tree.top⟩⟩
  | cons n up ih =>
    rw [createDirAll]
    rcases hmkdir : tree.mkdir (n :: up) with e | created
    · cases e with
      | notFound =>
        have hup : ∀ m d below, ¬ Gap tree up m d below := by
          rintro m d below ⟨a, rfl, hgap⟩
          exact h m d (n :: below) ⟨a, rfl, hgap⟩
        obtain ⟨result, hresult, hok⟩ := ih hup
        cases result with
        | error e => exact ⟨.error e, by simp [hresult], nofun⟩
        | ok =>
          obtain ⟨d, hd, -⟩ := isDir_iff.mp (hok rfl)
          rw [locate_of_mkdir hmkdir] at hd
          cases hd
      | _ => exact ⟨_, rfl, fun hok => by by_contra hdir; simp [hdir] at hok⟩
    · obtain ⟨d, hgap⟩ := mkdir_eq_ok hmkdir
      exact absurd hgap (h n d [])

/-- What the trees are like through which a path with a gap is made: the directories made are those under the gap. -/
structure Made (tree : Tree) (p : Location) (n : String) (d below : Location) (passed : List Tree) : Prop where
  result : tree.createDirAll p = (passed, .ok ())
  made : ∃ t ∈ passed, t.entry (n :: d) = some .dir
  frame : ∀ t ∈ passed, ∀ q, ¬ (n :: d) <:+ q → t.entry q = tree.entry q
  here : (tree.last passed).locate p = .ok (below ++ n :: d)
  dir : (tree.last passed).entry (below ++ n :: d) = some .dir
  nothing : ∀ x, (tree.last passed).entry (x :: (below ++ n :: d)) = none

theorem entry_below (h : tree.entry p = none) (x : String) : tree.entry (x :: p) = none := by
  by_contra hsome
  rw [tree.parent x p hsome] at h
  cases h

theorem createDirAll_gap {below : Location} (h : Gap tree p n d below) : ∃ passed, Made tree p n d below passed := by
  induction below generalizing p with
  | nil =>
    obtain ⟨a, rfl, ha, hdir, hnone⟩ := h
    have hmkdir := mkdir_eq ha hdir hnone
    have hleaf := ne_dir hnone
    have hmono : ∀ q e, tree.entry q = some e → (tree.set n d (some .dir) hdir hleaf).entry q = some e := by
      intro q e hq
      rw [entry_set_ne (by rintro rfl; rw [hnone] at hq; cases hq), hq]
    obtain ⟨l, hl⟩ := locate_eq_ok.mp ha
    have hlast : tree.last [tree.set n d (some .dir) hdir hleaf] = tree.set n d (some .dir) hdir hleaf := rfl
    refine ⟨[tree.set n d (some .dir) hdir hleaf], ⟨?_, ?_, ?_, ?_, ?_, fun x => ?_⟩⟩
    · rw [nil_append, createDirAll, hmkdir]
    · exact ⟨_, mem_singleton_self _, entry_set_self⟩
    · intro t ht q hq
      rw [mem_singleton.mp ht, entry_set_ne]
      rintro rfl
      exact hq (suffix_refl _)
    · rw [hlast]
      refine locate_eq_ok.mpr ⟨l, ?_⟩
      rw [nil_append, components_cons, resolve_append (resolve_mono hmono hl)]
      have hself : (tree.set n d (some .dir) hdir hleaf).entry (n :: d) = some .dir := entry_set_self
      exact (resolve_entry (hmono _ _ hdir) hself (by simp)).trans resolve_nil
    · rw [hlast]
      exact entry_set_self
    · rw [hlast]
      exact (entry_set_ne (by simp)).trans (entry_below hnone x)
  | cons x below ih =>
    obtain ⟨a, rfl, hgap⟩ := h
    have hup : Gap tree (below ++ n :: a) n d below := ⟨a, rfl, hgap⟩
    obtain ⟨passed, hmade⟩ := ih hup
    have hmkdir : tree.mkdir (x :: (below ++ n :: a)) = .error .notFound := by
      rw [mkdir]
      unfold directory
      rw [locate_gap hup]
    have hagain := mkdir_eq hmade.here hmade.dir (hmade.nothing x)
    have hleaf := ne_dir (hmade.nothing x)
    have hmono : ∀ q e, (tree.last passed).entry q = some e →
        ((tree.last passed).set x (below ++ n :: d) (some .dir) hmade.dir hleaf).entry q = some e := by
      intro q e hq
      rw [entry_set_ne (by rintro rfl; rw [hmade.nothing x] at hq; cases hq), hq]
    have hlast : tree.last (passed ++ [(tree.last passed).set x (below ++ n :: d) (some .dir) hmade.dir hleaf]) =
        (tree.last passed).set x (below ++ n :: d) (some .dir) hmade.dir hleaf := by simp [last]
    have hframe : ∀ q, ¬ (n :: d) <:+ q → (tree.last passed).entry q = tree.entry q := by
      intro q hq
      unfold last
      rcases hl : passed.getLast? with _ | t
      · rfl
      · exact hmade.frame t (mem_of_getLast? hl) q hq
    obtain ⟨l, hl⟩ := locate_eq_ok.mp hmade.here
    refine ⟨passed ++ [(tree.last passed).set x (below ++ n :: d) (some .dir) hmade.dir hleaf], ⟨?_, ?_, ?_, ?_, ?_, ?_⟩⟩
    · rw [cons_append, createDirAll, hmkdir]
      simp only [hmade.result, hagain]
    · obtain ⟨t, ht, hentry⟩ := hmade.made
      exact ⟨t, mem_append_left _ ht, hentry⟩
    · intro t ht q hq
      rcases mem_append.mp ht with ht | ht
      · exact hmade.frame t ht q hq
      · rw [mem_singleton.mp ht, entry_set_ne, hframe q hq]
        rintro rfl
        exact hq ((suffix_append below _).trans (suffix_cons x _))
    · rw [hlast]
      refine locate_eq_ok.mpr ⟨l, ?_⟩
      rw [cons_append, components_cons, resolve_append (resolve_mono hmono hl)]
      have hself := @entry_set_self (tree.last passed) x (below ++ n :: d) (some .dir) hmade.dir hleaf
      exact (resolve_entry (hmono _ _ hmade.dir) hself (by simp)).trans resolve_nil
    · rw [hlast]
      exact entry_set_self
    · intro y
      rw [hlast]
      exact (entry_set_ne (by simp)).trans (entry_below (hmade.nothing x) y)

theorem writeFile_new (hdir : tree.entry d = some .dir) (hnone : tree.entry (n :: d) = none) (content : String) :
    tree.writeFile (n :: d) content = .ok (tree.set n d (some (.file content)) hdir (ne_dir hnone)) := by
  have hresolve : tree.resolve true maxLinks [] (components (n :: d)) = .ok (n :: d, maxLinks) := by
    rw [components_cons, resolve_append (resolve_dir hdir), resolve_missing hdir hnone]
    rfl
  unfold writeFile
  rw [hresolve]
  simp [hdir, hnone]

theorem renameFile_frame (hdir : tree.entry d = some .dir) (h : tree.renameFile (n :: d) (m :: d) = .ok tree') :
    ∀ q, q ≠ n :: d → q ≠ m :: d → tree'.entry q = tree.entry q := by
  intro q hn hm
  rw [renameFile, directory_eq (locate_dir hdir) hdir] at h
  simp only at h
  split at h
  · cases h
  · split at h
    · cases h
    · split at h
      · cases h
      · split at h
        · cases h
          rfl
        · cases h
          rw [entry_set_ne hn, entry_set_ne hm]

theorem unlink_frame (hdir : tree.entry d = some .dir) (h : tree.unlink (n :: d) = .ok tree') :
    ∀ q, q ≠ n :: d → tree'.entry q = tree.entry q := by
  intro q hn
  rw [unlink, directory_eq (locate_dir hdir) hdir] at h
  simp only at h
  split at h
  · cases h
  · split at h
    · cases h
    · cases h
      exact entry_set_ne hn

theorem lstat_dir (hdir : tree.entry d = some .dir) {entry : Entry} (h : tree.entry (n :: d) = some entry) :
    tree.lstat (n :: d) = .ok entry := by
  rw [lstat, directory_eq (locate_dir hdir) hdir]
  simp only [h]

end Tree

end FileTree
