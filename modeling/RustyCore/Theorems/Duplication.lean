import RustyCore.CodeHealth.Duplication

/-! # The copies of one file and of the whole repository

Both passes pair each comparable function with the others of its shape. They differ in the order of the copies, which the
sorting takes away again, since the functions of one file stay in order in both. -/

namespace RustyCore.CodeHealth

open List hiding beq_eq_decide

open Sorting

variable {config : DuplicatedCodeConfig} {files : List SourceFile} {file : SourceFile} {path : String}
  {metrics : FileMetrics} {f : FunctionMetrics} {groups : OrdMap Nat (List Site)} {shape : Nat} {list list' : List Duplicate}
  {d other : Duplicate} {sites : List Site}

theorem skipped_eq (f : FunctionMetrics) : skipped config f = !comparable config f := by
  rw [skipped, comparable, Bool.not_and, Bool.not_and, Bool.not_and, bne, Bool.not_not, Bool.not_not, ← decide_not,
    ← decide_not]
  simp only [Nat.not_le]

def sitesOf (groups : OrdMap Nat (List Site)) (shape : Nat) : List Site := (groups.get? shape).getD []

def shaped (config : DuplicatedCodeConfig) (shape : Nat) (functions : List FunctionMetrics) : List FunctionMetrics :=
  (functions.filter (comparable config)).filter (·.shape == shape)

def fileSites (config : DuplicatedCodeConfig) (shape : Nat) (file : SourceFile) : List Site :=
  if file.2.2 then [] else (shaped config shape file.2.1.functions).map (siteOf file.1)

theorem sitesOf_addFunction : sitesOf (addFunction config path groups f) shape =
    sitesOf groups shape ++ (shaped config shape [f]).map (siteOf path) := by
  rw [addFunction, skipped_eq, shaped, filter_cons, filter_nil]
  by_cases hf : comparable config f = true
  · rw [if_neg (by simp [hf]), if_pos hf, sitesOf, OrdMap.get?_upsert, filter_cons, filter_nil]
    by_cases hshape : shape = f.shape
    · rw [if_pos hshape, if_pos (by simp [hshape]), hshape]
      rfl
    · rw [if_neg hshape, if_neg (by simpa using Ne.symm hshape), map_nil, append_nil, sitesOf]
  · rw [if_pos (by simp [hf]), if_neg hf, filter_nil, map_nil, append_nil]

theorem sitesOf_addFile : sitesOf (addFile config groups file) shape = sitesOf groups shape ++ fileSites config shape file := by
  rw [addFile, fileSites]
  split
  · rw [append_nil]
  · generalize file.2.1.functions = functions
    induction functions generalizing groups with
    | nil => simp [shaped]
    | cons f functions ih =>
      rw [foldl_cons, ih, sitesOf_addFunction, append_assoc, ← map_append]
      rw [shaped, shaped, ← filter_append, ← filter_append, singleton_append, shaped]

/-- The group of a shape holds the sites of each file, file after file. -/
theorem sitesOf_group : sitesOf (group config files) shape = files.flatMap (fileSites config shape) := by
  have hloop : ∀ groups, sitesOf (files.foldl (addFile config) groups) shape =
      sitesOf groups shape ++ files.flatMap (fileSites config shape) := by
    induction files with
    | nil => simp
    | cons file files ih =>
      intro groups
      rw [foldl_cons, ih, sitesOf_addFile, flatMap_cons, append_assoc]
  rw [group, hloop]
  rfl

theorem mem_keys_of_sitesOf (h : sitesOf groups shape ≠ []) : shape ∈ groups.keys := by
  rw [← OrdMap.isSome_get?]
  unfold sitesOf at h
  cases hget : groups.get? shape with
  | none =>
    rw [hget] at h
    exact absurd rfl h
  | some sites => rfl

theorem values_eq (groups : OrdMap Nat (List Site)) : groups.values = groups.keys.map (sitesOf groups) := by
  rw [OrdMap.values, OrdMap.keys, map_map]
  refine map_congr_left fun entry hentry => ?_
  rw [Function.comp_apply, sitesOf, OrdMap.mem_entries.mp hentry]
  rfl

def pathEntries (path : String) (sites : List Site) : List Duplicate :=
  ((withOthers sites).filter (·.1.path == path)).map fun found => found.1.duplicate (found.2.map (·.duplicateSite))

def entriesOf (byPath : OrdMap String (List Duplicate)) (path : String) : List Duplicate := (byPath.get? path).getD []

theorem entriesOf_addGroup {byPath : OrdMap String (List Duplicate)} :
    entriesOf (addGroup byPath sites) path = entriesOf byPath path ++ pathEntries path sites := by
  have hloop : ∀ (entry : Site × Nat → Duplicate) (found : List (Site × Nat)) (byPath : OrdMap String (List Duplicate)),
      entriesOf (found.foldl (fun byPath found => byPath.upsert found.1.path fun list => list.getD [] ++ [entry found]) byPath)
        path = entriesOf byPath path ++ (found.filter (·.1.path == path)).map entry := by
    intro entry found
    induction found with
    | nil => simp
    | cons first found ih =>
      intro byPath
      rw [foldl_cons, ih, entriesOf, OrdMap.get?_upsert, filter_cons]
      by_cases hpath : path = first.1.path
      · rw [if_pos hpath, if_pos (by simp [hpath]), Option.getD_some, map_cons, append_assoc, hpath]
        rfl
      · rw [if_neg hpath, if_neg (by simpa using Ne.symm hpath), entriesOf]
  rw [addGroup, hloop fun found => found.1.duplicate ((sites.zipIdx.filter fun other => other.2 != found.2).map
    fun other => other.1.duplicateSite), pathEntries, withOthers_zipIdx sites 0, filter_map, map_map]
  simp only [Function.comp_def, map_map]

def copiesFor (elsewhere : List Site) (path : String) (others : List FunctionMetrics) : List DuplicateSite :=
  elsewhere.map (·.duplicateSite) ++ others.map fun other => (siteOf path other).duplicateSite

def foundFor (groups : OrdMap Nat (List Site)) (path : String) (functions : List FunctionMetrics) : List Duplicate :=
  (withOthers functions).filterMap fun found =>
    let copies := copiesFor ((sitesOf groups found.1.shape).filter (·.path != path)) path
      (found.2.filter (·.shape == found.1.shape))
    if copies.isEmpty then none else some ((siteOf path found.1).duplicate copies)

/-- The pass over one file, as the entries of its shapes. -/
theorem duplicatesFor_eq (index : DuplicateIndex) : index.duplicatesFor path metrics config =
    settle (foundFor index.sites path (metrics.functions.filter (comparable config))) := by
  rw [DuplicateIndex.duplicatesFor, foundFor, withOthers_zipIdx _ 0, filterMap_map]
  dsimp only
  congr 2
  funext found
  have hothers : ∀ p : FunctionMetrics → Bool, ∀ all : List (FunctionMetrics × Nat),
      (all.filter fun other => other.2 != found.2 && p other.1).map (fun other => (siteOf path other.1).duplicateSite) =
        (((all.filter fun other => other.2 != found.2).map Prod.fst).filter p).map
          fun other => (siteOf path other).duplicateSite := by
    intro p all
    rw [filter_map, map_map, filter_filter]
    congr 1
    refine filter_congr fun other _ => ?_
    exact Bool.and_comm ..
  simp only [Function.comp_apply, copiesFor, sitesOf, ← hothers]

def SameButTies (list list' : List Duplicate) : Prop := list.Perm list' ∧ list.map Duplicate.place = list'.map Duplicate.place

theorem settle_eq (list : List Duplicate) : settle list =
    (sortOn Duplicate.place (list.map Duplicate.sortCopies)).filter fun d =>
      !(sortOn Duplicate.place (list.map Duplicate.sortCopies)).any d.inside := by
  have hsort : sortOn Duplicate.place (list.map Duplicate.sortCopies) = (sortOn Duplicate.place list).map Duplicate.sortCopies :=
    (map_insertionSort (fun a b : Duplicate => a.place ≤ b.place) (fun a b : Duplicate => a.place ≤ b.place)
      Duplicate.sortCopies list fun _ _ _ _ => Iff.rfl).symm
  rw [hsort, settle]

theorem settle_perm (h : (list.map Duplicate.sortCopies).Perm (list'.map Duplicate.sortCopies)) :
    SameButTies (settle list) (settle list') := by
  have hsorted : (sortOn Duplicate.place (list.map Duplicate.sortCopies)).Perm
      (sortOn Duplicate.place (list'.map Duplicate.sortCopies)) := perm_sortOn.trans (h.trans perm_sortOn.symm)
  have hany : ∀ d : Duplicate, (sortOn Duplicate.place (list.map Duplicate.sortCopies)).any d.inside =
      (sortOn Duplicate.place (list'.map Duplicate.sortCopies)).any d.inside := fun d => hsorted.any_eq
  rw [settle_eq, settle_eq]
  simp only [hany]
  have hperm := hsorted.filter fun d => !(sortOn Duplicate.place (list'.map Duplicate.sortCopies)).any d.inside
  exact ⟨hperm, map_key_of_perm (pairwise_sortOn.filter _) (pairwise_sortOn.filter _) hperm⟩

theorem mem_settle : d ∈ settle list ↔ ∃ found ∈ list, d = found.sortCopies ∧ ∀ other ∈ list, d.inside other = false := by
  rw [settle_eq, mem_filter, mem_sortOn, mem_map, Bool.not_eq_true', any_eq_false]
  simp only [mem_sortOn, forall_mem_map, Bool.not_eq_true]
  constructor
  · rintro ⟨⟨found, hfound, rfl⟩, hnone⟩
    exact ⟨found, hfound, rfl, hnone⟩
  · rintro ⟨found, hfound, rfl, hnone⟩
    exact ⟨⟨found, hfound, rfl⟩, hnone⟩

def entryFor (elsewhere : List Site) (path : String) (found : FunctionMetrics × List FunctionMetrics) : Option Duplicate :=
  let copies := copiesFor elsewhere path found.2
  if copies.isEmpty then none else some ((siteOf path found.1).duplicate copies)

theorem foundFor_perm {functions : List FunctionMetrics} (h : ∀ f ∈ functions, f.shape ∈ groups.keys) :
    (foundFor groups path functions).Perm (groups.keys.flatMap fun shape =>
      (withOthers (functions.filter (·.shape == shape))).filterMap
        (entryFor ((sitesOf groups shape).filter (·.path != path)) path)) := by
  have hshapes : ∀ found ∈ withOthers functions, found.1.shape ∈ groups.keys :=
    fun found hfound => h _ (mem_withOthers hfound).1
  have hperm := @perm_flatMap_filter _ _ _ (fun found : FunctionMetrics × List FunctionMetrics => found.1.shape)
    (withOthers functions) groups.keys groups.nodup_keys hshapes
  refine (hperm.filterMap _).trans ?_
  rw [filterMap_flatMap]
  refine List.Perm.of_eq (flatMap_congr fun shape _ => ?_)
  rw [withOthers_filter, filterMap_map]
  simp only [beq_eq_decide]
  refine filterMap_congr fun found hfound => ?_
  have hshape : found.1.shape = shape := by simpa using (mem_filter.mp hfound).2
  rw [Function.comp_apply, entryFor, hshape]

section

variable {before after : List Site} {functions : List FunctionMetrics}

theorem pathEntries_middle (hbefore : ∀ site ∈ before, site.path ≠ path) (hafter : ∀ site ∈ after, site.path ≠ path) :
    pathEntries path (before ++ (functions.map (siteOf path) ++ after)) = (withOthers functions).map fun found =>
      (siteOf path found.1).duplicate ((before ++ (found.2.map (siteOf path) ++ after)).map (·.duplicateSite)) := by
  have hnone : ∀ (sites : List Site) (g : List Site → List Site), (∀ site ∈ sites, site.path ≠ path) →
      ((withOthers sites).map fun found => (found.1, g found.2)).filter (·.1.path == path) = [] := by
    intro sites g h
    refine filter_eq_nil_iff.mpr fun found hfound => ?_
    obtain ⟨other, hother, rfl⟩ := mem_map.mp hfound
    simpa using h _ (mem_withOthers hother).1
  rw [pathEntries, withOthers_append, withOthers_append, map_append, map_map, map_map, filter_append,
    filter_append, withOthers_map, map_map]
  have hfirst := hnone before (· ++ (functions.map (siteOf path) ++ after)) hbefore
  have hlast := hnone after (fun others => before ++ (functions.map (siteOf path) ++ others)) hafter
  have hall : ((withOthers functions).map (((fun found => (found.1, before ++ found.2)) ∘ fun found : Site × List Site =>
      (found.1, found.2 ++ after)) ∘ fun found => (siteOf path found.1, found.2.map (siteOf path)))).filter
        (·.1.path == path) = (withOthers functions).map fun found =>
          (siteOf path found.1, before ++ (found.2.map (siteOf path) ++ after)) := by
    refine filter_eq_self.mpr fun found hfound => ?_
    obtain ⟨other, -, rfl⟩ := mem_map.mp hfound
    exact beq_self_eq_true path
  rw [hfirst, hall]
  rw [show ((withOthers after).map ((fun found : Site × List Site => (found.1, before ++ found.2)) ∘ fun found =>
    (found.1, functions.map (siteOf path) ++ found.2))).filter (·.1.path == path) = [] from hlast, append_nil,
    nil_append, map_map]
  rfl

theorem sortCopies_eq {others : List FunctionMetrics} (hbefore : ∀ site ∈ before, site.path ≠ path)
    (hafter : ∀ site ∈ after, site.path ≠ path) (site : Site) :
    (site.duplicate ((before ++ (others.map (siteOf path) ++ after)).map (·.duplicateSite))).sortCopies =
      (site.duplicate (copiesFor (before ++ after) path others)).sortCopies := by
  unfold Duplicate.sortCopies Site.duplicate copiesFor
  dsimp only
  congr 1
  refine sortOn_congr fun k => ?_
  have helse : ∀ sites : List Site, (∀ site ∈ sites, site.path ≠ path) → (ofLex k).1 = path →
      (sites.map (·.duplicateSite)).filter (fun copy => toLex (copy.path, copy.line) = k) = [] := by
    intro sites h hk
    refine filter_eq_nil_iff.mpr fun copy hcopy => ?_
    obtain ⟨other, hother, rfl⟩ := mem_map.mp hcopy
    rw [decide_eq_true_eq]
    rintro rfl
    exact h other hother hk
  have hown : (ofLex k).1 ≠ path → (others.map fun other => (siteOf path other).duplicateSite).filter
      (fun copy => toLex (copy.path, copy.line) = k) = [] := by
    intro hk
    refine filter_eq_nil_iff.mpr fun copy hcopy => ?_
    obtain ⟨other, -, rfl⟩ := mem_map.mp hcopy
    rw [decide_eq_true_eq]
    rintro rfl
    exact hk rfl
  have hsites : (others.map (siteOf path)).map (·.duplicateSite) = others.map fun other => (siteOf path other).duplicateSite :=
    map_map
  simp only [map_append, filter_append, hsites]
  by_cases hk : (ofLex k).1 = path
  · rw [helse before hbefore hk, helse after hafter hk, nil_append, append_nil, nil_append, nil_append]
  · rw [hown hk, nil_append, append_nil]

/-- The entries of a path made from all sites are those the pass over its file finds, but for the order of the
    copies. -/
theorem entries_eq (hbefore : ∀ site ∈ before, site.path ≠ path) (hafter : ∀ site ∈ after, site.path ≠ path) :
    (if (before ++ (functions.map (siteOf path) ++ after)).length > 1 then
      pathEntries path (before ++ (functions.map (siteOf path) ++ after)) else []).map Duplicate.sortCopies =
      ((withOthers functions).filterMap (entryFor (before ++ after) path)).map Duplicate.sortCopies := by
  have hcount : ∀ found ∈ withOthers functions, (copiesFor (before ++ after) path found.2).length + 1 =
      (before ++ (functions.map (siteOf path) ++ after)).length := by
    intro found hfound
    have hothers := length_withOthers hfound
    simp only [copiesFor, length_append, length_map]
    omega
  split
  · rename_i hmany
    have hsome : (withOthers functions).filterMap (entryFor (before ++ after) path) = (withOthers functions).map fun found =>
        (siteOf path found.1).duplicate (copiesFor (before ++ after) path found.2) := by
      rw [← filterMap_eq_map]
      refine filterMap_congr fun found hfound => ?_
      have hne : copiesFor (before ++ after) path found.2 ≠ [] := by
        intro hnil
        have hone := hcount found hfound
        rw [hnil, length_nil] at hone
        omega
      rw [entryFor]
      exact if_neg (by simpa using hne)
    rw [hsome, pathEntries_middle hbefore hafter, map_map, map_map]
    exact map_congr_left fun found _ => sortCopies_eq hbefore hafter _
  · rename_i hfew
    rw [filterMap_eq_nil_iff.mpr]
    intro found hfound
    have hnil : copiesFor (before ++ after) path found.2 = [] := by
      have hone := hcount found hfound
      exact eq_nil_of_length_eq_zero (by omega)
    rw [entryFor, hnil]
    rfl

end

theorem path_of_mem_fileSites {site : Site} (h : site ∈ fileSites config shape file) : site.path = file.1 := by
  rw [fileSites] at h
  split at h
  · cases h
  · obtain ⟨f, -, rfl⟩ := mem_map.mp h
    rfl

section

variable [HashOrder]

def foundIn (files : List SourceFile) (config : DuplicatedCodeConfig) (path : String) : List Duplicate :=
  ((HashOrder.values (group config files)).filter fun sites => sites.length > 1).flatMap (pathEntries path)

theorem duplicatesIn_build : (DuplicateIndex.build files config).duplicatesIn path = settle (foundIn files config path) := by
  have hloop : ∀ (shapes : List (List Site)) (byPath : OrdMap String (List Duplicate)),
      entriesOf (shapes.foldl addGroup byPath) path = entriesOf byPath path ++ shapes.flatMap (pathEntries path) := by
    intro shapes
    induction shapes with
    | nil => simp
    | cons sites shapes ih =>
      intro byPath
      rw [foldl_cons, ih, entriesOf_addGroup, flatMap_cons, append_assoc]
  have hfound := hloop ((HashOrder.values (group config files)).filter fun sites => sites.length > 1) .empty
  rw [DuplicateIndex.duplicatesIn, DuplicateIndex.build]
  dsimp only
  rw [OrdMap.get?_mapEntries, foundIn]
  unfold entriesOf at hfound
  rw [OrdMap.get?_empty, Option.getD_none, nil_append] at hfound
  rw [← hfound]
  cases (foldl addGroup OrdMap.empty _ : OrdMap String (List Duplicate)).get? path with
  | none | some => rfl

theorem foundIn_perm : (foundIn files config path).Perm ((group config files).keys.flatMap fun shape =>
    if (sitesOf (group config files) shape).length > 1 then pathEntries path (sitesOf (group config files) shape) else []) := by
  refine (((HashOrder.perm (group config files)).filter _).flatMap_right _).trans ?_
  rw [values_eq, filter_map, flatMap_map, flatMap_filter_if]
  simp only [Function.comp_apply, decide_eq_true_eq]
  rfl

theorem found_perm (hpaths : (files.map Prod.fst).Nodup) (hfile : (path, metrics, false) ∈ files) :
    ((foundIn files config path).map Duplicate.sortCopies).Perm
      ((foundFor (group config files) path (metrics.functions.filter (comparable config))).map Duplicate.sortCopies) := by
  obtain ⟨before, after, hfiles⟩ := append_of_mem hfile
  have hapart : ∀ shape, (∀ site ∈ before.flatMap (fileSites config shape), site.path ≠ path) ∧
      ∀ site ∈ after.flatMap (fileSites config shape), site.path ≠ path := by
    rw [hfiles, map_append, map_cons, nodup_append, nodup_cons] at hpaths
    obtain ⟨-, ⟨hafter, -⟩, hbefore⟩ := hpaths
    refine fun shape => ⟨fun site hsite => ?_, fun site hsite => ?_⟩
    · obtain ⟨file, hin, hsite⟩ := mem_flatMap.mp hsite
      rw [path_of_mem_fileSites hsite]
      exact hbefore _ (mem_map_of_mem hin) _ mem_cons_self
    · obtain ⟨file, hin, hsite⟩ := mem_flatMap.mp hsite
      rw [path_of_mem_fileSites hsite]
      exact fun hpath => hafter (mem_map.mpr ⟨file, hin, hpath⟩)
  have hsites : ∀ shape, sitesOf (group config files) shape = before.flatMap (fileSites config shape) ++
      ((shaped config shape metrics.functions).map (siteOf path) ++ after.flatMap (fileSites config shape)) := by
    intro shape
    rw [sitesOf_group, hfiles, flatMap_append, flatMap_cons]
    rfl
  have helsewhere : ∀ shape, (sitesOf (group config files) shape).filter (·.path != path) =
      before.flatMap (fileSites config shape) ++ after.flatMap (fileSites config shape) := by
    intro shape
    obtain ⟨hbefore, hafter⟩ := hapart shape
    have hown : ((shaped config shape metrics.functions).map (siteOf path)).filter (·.path != path) = [] := by
      refine filter_eq_nil_iff.mpr fun site hsite => ?_
      obtain ⟨f, -, rfl⟩ := mem_map.mp hsite
      simp [siteOf]
    rw [hsites, filter_append, filter_append, hown, nil_append,
      filter_eq_self.mpr fun site hsite => by simpa using hbefore site hsite,
      filter_eq_self.mpr fun site hsite => by simpa using hafter site hsite]
  have hkeys : ∀ f ∈ metrics.functions.filter (comparable config), f.shape ∈ (group config files).keys := by
    intro f hf
    refine mem_keys_of_sitesOf (ne_nil_of_mem (a := siteOf path f) ?_)
    rw [hsites]
    refine mem_append_right _ (mem_append_left _ (mem_map_of_mem ?_))
    exact mem_filter.mpr ⟨hf, beq_self_eq_true _⟩
  refine (foundIn_perm.map _).trans (List.Perm.trans (List.Perm.of_eq ?_) ((foundFor_perm hkeys).map _).symm)
  rw [map_flatMap, map_flatMap]
  refine flatMap_congr fun shape _ => ?_
  rw [helsewhere, hsites]
  exact entries_eq (hapart shape).1 (hapart shape).2

def Copied (config : DuplicatedCodeConfig) (files : List SourceFile) (site : Site) : Prop :=
  ∃ shape, site ∈ files.flatMap (fileSites config shape) ∧ 1 < (files.flatMap (fileSites config shape)).length

def Around (config : DuplicatedCodeConfig) (files : List SourceFile) (path : String) (start finish : Nat) : Prop :=
  ∃ site, Copied config files site ∧ site.path = path ∧ (site.start, site.finish) ≠ (start, finish) ∧ site.start ≤ start ∧
    finish ≤ site.finish

theorem mem_values {sites : List Site} : sites ∈ HashOrder.values (group config files) ∧ 1 < sites.length ↔
    ∃ shape, sites = files.flatMap (fileSites config shape) ∧ 1 < sites.length := by
  rw [(HashOrder.perm _).mem_iff, OrdMap.mem_values]
  simp only [← sitesOf_group]
  constructor
  · rintro ⟨⟨shape, hget⟩, hmany⟩
    exact ⟨shape, by rw [sitesOf, hget]; rfl, hmany⟩
  · rintro ⟨shape, rfl, hmany⟩
    have hne : sitesOf (group config files) shape ≠ [] := ne_nil_of_length_pos (by omega)
    obtain ⟨sites, hsites⟩ := OrdMap.exists_get? (mem_keys_of_sitesOf hne)
    exact ⟨⟨shape, by rw [sitesOf, hsites]; rfl⟩, hmany⟩

theorem mem_foundIn : d ∈ foundIn files config path ↔ ∃ shape site others,
    1 < (files.flatMap (fileSites config shape)).length ∧
      (site, others) ∈ withOthers (files.flatMap (fileSites config shape)) ∧ site.path = path ∧
        d = site.duplicate (others.map (·.duplicateSite)) := by
  simp only [foundIn, pathEntries, mem_flatMap, mem_filter, mem_map, beq_iff_eq, decide_eq_true_eq, gt_iff_lt,
    mem_values]
  constructor
  · rintro ⟨sites, ⟨shape, rfl, hmany⟩, ⟨site, others⟩, ⟨hwith, hpath⟩, rfl⟩
    exact ⟨shape, site, others, hmany, hwith, hpath, rfl⟩
  · rintro ⟨shape, site, others, hmany, hwith, hpath, rfl⟩
    exact ⟨_, ⟨shape, rfl, hmany⟩, (site, others), ⟨hwith, hpath⟩, rfl⟩

theorem around_iff {start finish : Nat} : Around config files path start finish ↔ ∃ other ∈ foundIn files config path,
    other.span ≠ (start, finish) ∧ other.startLine ≤ start ∧ finish ≤ other.endLine := by
  constructor
  · rintro ⟨site, ⟨shape, hsite, hmany⟩, hpath, hspan, hstart, hfinish⟩
    rw [← fst_withOthers (files.flatMap (fileSites config shape))] at hsite
    obtain ⟨⟨site, others⟩, hwith, rfl⟩ := mem_map.mp hsite
    exact ⟨_, mem_foundIn.mpr ⟨shape, site, others, hmany, hwith, hpath, rfl⟩, hspan, hstart, hfinish⟩
  · rintro ⟨other, hother, hspan, hstart, hfinish⟩
    obtain ⟨shape, site, others, hmany, hwith, hpath, rfl⟩ := mem_foundIn.mp hother
    exact ⟨site, ⟨shape, (mem_withOthers hwith).1, hmany⟩, hpath, hspan, hstart, hfinish⟩

theorem mem_duplicatesIn : d ∈ (DuplicateIndex.build files config).duplicatesIn path ↔
    (∃ found ∈ foundIn files config path, d = found.sortCopies) ∧ ¬Around config files path d.startLine d.endLine := by
  have hinside : ∀ other : Duplicate, d.inside other = false ↔
      ¬(other.span ≠ (d.startLine, d.endLine) ∧ other.startLine ≤ d.startLine ∧ d.endLine ≤ other.endLine) := by
    intro other
    rw [← Bool.not_eq_true, Duplicate.inside, Bool.and_eq_true, Bool.and_eq_true, bne_iff_ne, decide_eq_true_eq,
      decide_eq_true_eq, and_assoc]
    rfl
  rw [duplicatesIn_build, mem_settle, around_iff]
  simp only [hinside, not_exists, not_and]
  constructor
  · rintro ⟨found, hfound, heq, hnone⟩
    exact ⟨⟨found, hfound, heq⟩, hnone⟩
  · rintro ⟨⟨found, hfound, heq⟩, hnone⟩
    exact ⟨found, hfound, heq, hnone⟩

theorem listed_back {copy : DuplicateSite} (h : d ∈ (DuplicateIndex.build files config).duplicatesIn path)
    (hcopy : copy ∈ d.copies) :
    (∃ d' ∈ (DuplicateIndex.build files config).duplicatesIn copy.path, d'.function = copy.function ∧
      d'.startLine = copy.line ∧ ⟨path, d.function, d.startLine⟩ ∈ d'.copies) ∨
    ∃ site, Copied config files site ∧ site.duplicateSite = copy ∧ Around config files copy.path site.start site.finish := by
  obtain ⟨⟨found, hfound, rfl⟩, -⟩ := mem_duplicatesIn.mp h
  obtain ⟨shape, site, others, hmany, hwith, rfl, rfl⟩ := mem_foundIn.mp hfound
  obtain ⟨other, hother, rfl⟩ := mem_map.mp (mem_sortOn.mp hcopy)
  obtain ⟨more, hmore, hback⟩ := withOthers_symm hwith hother
  by_cases haround : Around config files other.path other.start other.finish
  · exact .inr ⟨other, ⟨shape, (mem_withOthers hmore).1, hmany⟩, rfl, haround⟩
  · refine .inl ⟨(other.duplicate (more.map (·.duplicateSite))).sortCopies, mem_duplicatesIn.mpr ⟨⟨_, ?_, rfl⟩, haround⟩,
      rfl, rfl, mem_sortOn.mpr (mem_map_of_mem hback)⟩
    exact mem_foundIn.mpr ⟨shape, other, more, hmany, hmore, rfl, rfl⟩

/-- For each file that is no test, of files with distinct paths, the pass over the file and the pass over the repository
    report the same but for the order of ties. What one reported function lists lists it in turn, unless it lies inside
    another copied function of its file; and nothing that does is reported. -/
theorem duplicates_agree (files : List SourceFile) (config : DuplicatedCodeConfig) (hpaths : (files.map Prod.fst).Nodup) :
    (∀ path metrics, (path, metrics, false) ∈ files →
      SameButTies ((DuplicateIndex.build files config).duplicatesFor path metrics config)
        ((DuplicateIndex.build files config).duplicatesIn path)) ∧
    (∀ path, ∀ d ∈ (DuplicateIndex.build files config).duplicatesIn path, ∀ copy ∈ d.copies,
      (∃ d' ∈ (DuplicateIndex.build files config).duplicatesIn copy.path, d'.function = copy.function ∧
        d'.startLine = copy.line ∧ ⟨path, d.function, d.startLine⟩ ∈ d'.copies) ∨
      ∃ site, Copied config files site ∧ site.duplicateSite = copy ∧
        Around config files copy.path site.start site.finish) ∧
    (∀ path, ∀ d ∈ (DuplicateIndex.build files config).duplicatesIn path,
      ¬Around config files path d.startLine d.endLine) := by
  refine ⟨fun path metrics hfile => ?_, fun path d hd copy hcopy => listed_back hd hcopy,
    fun path d hd => (mem_duplicatesIn.mp hd).2⟩
  rw [duplicatesFor_eq, duplicatesIn_build]
  exact settle_perm (found_perm hpaths hfile).symm

end

namespace Sample

scoped instance : HashOrder := ⟨OrdMap.values, fun _ => .refl _⟩

def clone (name : String) (shape start finish : Nat) : FunctionMetrics :=
  { qualifiedName := name, startLine := start, endLine := finish, nloc := 12, shape := shape, shapeNodes := 80 }

def cloned : List SourceFile :=
  [("a.rs", ⟨[clone "f" 1 1 12]⟩, false), ("b.rs", ⟨[clone "h" 2 1 30, clone "h.g" 1 10 21]⟩, false),
    ("c.rs", ⟨[clone "k" 2 5 34]⟩, false)]

theorem cloned_index : (DuplicateIndex.build cloned {}).duplicatesIn "a.rs" = [⟨"f", 1, 12, 12, [⟨"b.rs", "h.g", 10⟩]⟩] ∧
    (DuplicateIndex.build cloned {}).duplicatesIn "b.rs" = [⟨"h", 1, 30, 12, [⟨"c.rs", "k", 5⟩]⟩] :=
  ⟨by decide, by decide⟩

/-- The closure is listed but lists nothing. -/
theorem closure_not_back : ¬∀ path, ∀ d ∈ (DuplicateIndex.build cloned {}).duplicatesIn path, ∀ copy ∈ d.copies,
    ∃ d' ∈ (DuplicateIndex.build cloned {}).duplicatesIn copy.path, d'.function = copy.function ∧
      d'.startLine = copy.line ∧ ⟨path, d.function, d.startLine⟩ ∈ d'.copies := by
  intro h
  have hlisted := h "a.rs"
  rw [cloned_index.1] at hlisted
  obtain ⟨d', hd', hname, -⟩ := hlisted _ mem_cons_self _ mem_cons_self
  rw [cloned_index.2, mem_singleton] at hd'
  rw [hd'] at hname
  exact absurd hname (by decide)

theorem duplicates_agree_cloned :
    SameButTies ((DuplicateIndex.build cloned {}).duplicatesFor "b.rs" ⟨[clone "h" 2 1 30, clone "h.g" 1 10 21]⟩ {})
      ((DuplicateIndex.build cloned {}).duplicatesIn "b.rs") :=
  (duplicates_agree cloned {} (by decide)).1 _ _ (mem_cons_of_mem _ mem_cons_self)

end Sample

end RustyCore.CodeHealth
