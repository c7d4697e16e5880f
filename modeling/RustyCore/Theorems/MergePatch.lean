import RustyCore.Behavior.Rules

/-! # Merge patch: the law of RFC 7396

`merge_patch` recurses over the patch and edits the target on the way. The law is stated over paths: at
every object of the patch the result is an object, and each of its keys holds what the patch says of it, or
what the target held where the patch says nothing. One level of the law is `lookup_mergeFields`; a path is
followed down with `descend_mergePatch`. -/

namespace RustyCore

open List Option

namespace Value

def descend (v : Value) : List String → Option Value
  | [] => some v
  | key :: path => (v.get key).bind (·.descend path)

mutual

def Ordered : Value → Prop
  | .array items => OrderedItems items
  | .object fields => fields.Pairwise (fun a b => a.1 < b.1) ∧ OrderedFields fields
  | _ => True

def OrderedItems : List Value → Prop
  | [] => True
  | item :: rest => item.Ordered ∧ OrderedItems rest

def OrderedFields : List (String × Value) → Prop
  | [] => True
  | (_, value) :: rest => value.Ordered ∧ OrderedFields rest

end

variable {v value : Value} {key : String} {path : List String} {fields others : List (String × Value)}

@[simp] theorem descend_one : v.descend [key] = v.get key := by
  show (v.get key).bind some = v.get key
  cases v.get key <;> rfl

theorem descend_append_key : v.descend (path ++ [key]) = (v.descend path).bind (·.get key) := by
  induction path generalizing v with
  | nil => exact descend_one
  | cons k path ih =>
    show (v.get k).bind (·.descend (path ++ [key])) = ((v.get k).bind (·.descend path)).bind (·.get key)
    rw [bind_assoc]
    exact congrArg _ (funext fun u => ih)

theorem descend_null_key : Value.null.descend (path ++ [key]) = none := by
  rw [descend_append_key]
  cases path <;> rfl

theorem OrderedFields.lookup (h : OrderedFields fields) (hlookup : fields.lookup key = some value) : value.Ordered := by
  induction fields with
  | nil => cases hlookup
  | cons field rest ih =>
    obtain ⟨k, u⟩ := field
    rw [lookup_cons_if] at hlookup
    split_ifs at hlookup with hkey
    · cases hlookup
      exact h.1
    · exact ih h.2 hlookup

theorem OrderedFields.insert (h : OrderedFields fields) (hv : value.Ordered) :
    OrderedFields (insertField key value fields) := by
  induction fields with
  | nil => exact ⟨hv, trivial⟩
  | cons field rest ih =>
    obtain ⟨k, u⟩ := field
    rw [insertField]
    split_ifs
    · exact ⟨hv, h.2⟩
    · exact ⟨hv, h⟩
    · exact ⟨h.1, ih h.2⟩

theorem OrderedFields.remove (h : OrderedFields fields) : OrderedFields (removeField key fields) := by
  induction fields with
  | nil => trivial
  | cons field rest ih =>
    obtain ⟨k, u⟩ := field
    unfold removeField at ih ⊢
    rw [filter_cons]
    split_ifs
    · exact ⟨h.1, ih h.2⟩
    · exact ih h.2

theorem mem_insertField {field : String × Value} (h : field ∈ insertField key value fields) :
    field = (key, value) ∨ field ∈ fields := by
  induction fields with
  | nil => exact .inl (mem_singleton.mp h)
  | cons head rest ih =>
    obtain ⟨k, u⟩ := head
    rw [insertField] at h
    split_ifs at h
    · rcases mem_cons.mp h with rfl | h
      · exact .inl rfl
      · exact .inr (mem_cons_of_mem _ h)
    · rcases mem_cons.mp h with rfl | h
      · exact .inl rfl
      · exact .inr h
    · rcases mem_cons.mp h with rfl | h
      · exact .inr mem_cons_self
      · exact (ih h).imp_right (mem_cons_of_mem _)

theorem pairwise_insertField (h : fields.Pairwise fun a b => a.1 < b.1) :
    (insertField key value fields).Pairwise fun a b => a.1 < b.1 := by
  induction fields with
  | nil => exact pairwise_singleton _ _
  | cons head rest ih =>
    obtain ⟨k, u⟩ := head
    obtain ⟨hhead, hrest⟩ := pairwise_cons.mp h
    rw [insertField]
    split_ifs with hkey hlt
    · subst hkey
      exact pairwise_cons.mpr ⟨hhead, hrest⟩
    · refine pairwise_cons.mpr ⟨fun field hfield => ?_, h⟩
      rcases mem_cons.mp hfield with rfl | hfield
      · exact hlt
      · exact hlt.trans (hhead field hfield)
    · refine pairwise_cons.mpr ⟨fun field hfield => ?_, ih hrest⟩
      rcases mem_insertField hfield with rfl | hfield
      · exact lt_of_le_of_ne (not_lt.mp hlt) (Ne.symm hkey)
      · exact hhead field hfield

theorem lookup_removeField : (removeField key fields).lookup key = none := by
  rw [lookup_eq_none_iff]
  intro field hfield
  obtain ⟨-, hne⟩ := mem_filter.mp hfield
  exact bne_iff_ne.mpr (Ne.symm (bne_iff_ne.mp hne))

theorem lookup_removeField_of_ne {other : String} (hne : other ≠ key) :
    (removeField key fields).lookup other = fields.lookup other := by
  induction fields with
  | nil => rfl
  | cons head rest ih =>
    obtain ⟨k, u⟩ := head
    unfold removeField at ih ⊢
    rw [filter_cons, lookup_cons_if]
    split_ifs with hkeep hother hother
    · rw [lookup_cons_if, if_pos hother]
    · rw [lookup_cons_if, if_neg hother, ih]
    · subst hother
      exact absurd (by simpa using hkeep) hne
    · exact ih

theorem lookup_eq_none_of_lt (h : ∀ field ∈ fields, key < field.1) : fields.lookup key = none :=
  lookup_eq_none_iff.mpr fun field hfield => bne_iff_ne.mpr (h field hfield).ne

theorem fields_ext (hf : fields.Pairwise fun a b => a.1 < b.1) (ho : others.Pairwise fun a b => a.1 < b.1)
    (hlookup : ∀ key, fields.lookup key = others.lookup key) : fields = others := by
  induction fields generalizing others with
  | nil =>
    cases others with
    | nil => rfl
    | cons head rest =>
      have h := hlookup head.1
      rw [lookup_cons_if, if_pos rfl] at h
      cases h
  | cons head rest ih =>
    obtain ⟨k, u⟩ := head
    cases others with
    | nil =>
      have h := hlookup k
      rw [lookup_cons_if, if_pos rfl] at h
      cases h
    | cons head' rest' =>
      obtain ⟨l, w⟩ := head'
      obtain ⟨hhead, hrest⟩ := pairwise_cons.mp hf
      obtain ⟨hhead', hrest'⟩ := pairwise_cons.mp ho
      have hk := hlookup k
      have hl := hlookup l
      simp only [lookup_cons_if, if_true] at hk hl
      rcases lt_trichotomy k l with hlt | rfl | hlt
      · rw [if_neg hlt.ne, lookup_eq_none_of_lt fun field hfield => hlt.trans (hhead' field hfield)] at hk
        cases hk
      · rw [if_pos rfl] at hk
        cases hk
        refine congrArg _ (ih hrest hrest' fun key => ?_)
        have h := hlookup key
        simp only [lookup_cons_if] at h
        split_ifs at h with hkey
        · rw [hkey, lookup_eq_none_of_lt hhead, lookup_eq_none_of_lt hhead']
        · exact h
      · rw [if_neg hlt.ne, lookup_eq_none_of_lt fun field hfield => hlt.trans (hhead field hfield)] at hl
        cases hl

theorem Ordered.get (h : v.Ordered) (hget : v.get key = some value) : value.Ordered := by
  cases v with
  | object fields => exact h.2.lookup hget
  | null | bool | number | string | array => cases hget

theorem Ordered.descend (h : v.Ordered) (hpath : v.descend path = some value) : value.Ordered := by
  induction path generalizing v with
  | nil =>
    cases hpath
    exact h
  | cons key path ih =>
    obtain ⟨u, hu, hpath⟩ := bind_eq_some_iff.mp hpath
    exact ih (h.get hu) hpath

end Value

namespace Rules
open Value

variable {target patch value : Value} {key : String} {path : List String} {fields members : List (String × Value)}

theorem lookup_mergeFields (hm : members.Pairwise fun a b => a.1 < b.1) :
    (mergeFields fields members).lookup key =
      match members.lookup key with
      | none => fields.lookup key
      | some value => if value.isNull then none else some (mergePatch ((fields.lookup key).getD .null) value) := by
  induction members generalizing fields with
  | nil => simp [mergeFields]
  | cons head rest ih =>
    obtain ⟨k, u⟩ := head
    obtain ⟨hhead, hrest⟩ := pairwise_cons.mp hm
    rw [mergeFields, lookup_cons_if]
    by_cases hkey : key = k
    · -- the rest of the patch does not mention the key again
      subst hkey
      rw [if_pos rfl]
      split_ifs with hnull
      · rw [ih hrest, lookup_eq_none_of_lt hhead, lookup_removeField]
        simp [hnull]
      · rw [ih hrest, lookup_eq_none_of_lt hhead, lookup_insertField, if_pos rfl]
        simp [hnull]
    · rw [if_neg hkey]
      split_ifs with hnull
      · rw [ih hrest, lookup_removeField_of_ne hkey]
      · rw [ih hrest, lookup_insertField, if_neg hkey]

theorem pairwise_mergeFields (hf : fields.Pairwise fun a b => a.1 < b.1) :
    (mergeFields fields members).Pairwise fun a b => a.1 < b.1 := by
  induction members generalizing fields with
  | nil =>
    rw [mergeFields]
    exact hf
  | cons head rest ih =>
    obtain ⟨k, u⟩ := head
    rw [mergeFields]
    split_ifs
    · exact ih (hf.filter _)
    · exact ih (pairwise_insertField hf)

def opened : Value → List (String × Value)
  | .object fields => fields
  | _ => []

theorem mergePatch_object : mergePatch target (.object members) = .object (mergeFields (opened target) members) := by
  cases target <;> simp [mergePatch, opened]

theorem mergePatch_other (h : patch.isObject = false) : mergePatch target patch = patch := by
  cases patch with
  | object => cases h
  | null | bool | number | string | array => rw [mergePatch]; nofun

@[simp] theorem lookup_opened : (opened target).lookup key = target.get key := by
  cases target <;> rfl

theorem get_mergePatch (hm : members.Pairwise fun a b => a.1 < b.1) :
    (mergePatch target (.object members)).get key =
      match members.lookup key with
      | none => target.get key
      | some value => if value.isNull then none else some (mergePatch ((target.get key).getD .null) value) := by
  rw [mergePatch_object, Value.get, lookup_mergeFields hm, lookup_opened]

theorem ordered_opened (h : target.Ordered) :
    (opened target).Pairwise (fun a b => a.1 < b.1) ∧ OrderedFields (opened target) := by
  cases target with
  | object => exact h
  | null | bool | number | string | array => exact ⟨.nil, trivial⟩

mutual

theorem ordered_mergePatch (target patch : Value) (ht : target.Ordered) (hp : patch.Ordered) :
    (mergePatch target patch).Ordered := by
  match patch, hp with
  | .object members, hp =>
    obtain ⟨hpairs, hfields⟩ := ordered_opened ht
    rw [mergePatch_object]
    exact ⟨pairwise_mergeFields hpairs, ordered_mergeFields _ members hfields hp.2⟩
  | .null, _ => exact (mergePatch_other rfl : mergePatch target .null = _) ▸ trivial
  | .bool b, hp => exact (mergePatch_other rfl : mergePatch target (.bool b) = _) ▸ hp
  | .number n, hp => exact (mergePatch_other rfl : mergePatch target (.number n) = _) ▸ hp
  | .string s, hp => exact (mergePatch_other rfl : mergePatch target (.string s) = _) ▸ hp
  | .array items, hp => exact (mergePatch_other rfl : mergePatch target (.array items) = _) ▸ hp

theorem ordered_mergeFields (fields members : List (String × Value)) (hf : OrderedFields fields)
    (hm : OrderedFields members) : OrderedFields (mergeFields fields members) := by
  match members, hm with
  | [], _ =>
    rw [mergeFields]
    exact hf
  | (key, value) :: rest, hm =>
    rw [mergeFields]
    split_ifs
    · exact ordered_mergeFields _ rest hf.remove hm.2
    · have hslot : ((fields.lookup key).getD .null).Ordered := by
        cases hlookup : fields.lookup key with
        | none => trivial
        | some held => exact hf.lookup hlookup
      exact ordered_mergeFields _ rest (hf.insert (ordered_mergePatch _ value hslot hm.1)) hm.2

end

theorem descend_mergePatch (hp : patch.Ordered) (hpath : patch.descend path = some (.object members)) :
    (mergePatch target patch).descend path =
      some (mergePatch ((target.descend path).getD .null) (.object members)) := by
  induction path generalizing target patch with
  | nil =>
    cases hpath
    rfl
  | cons k path ih =>
    obtain ⟨inner, hinner, hbelow⟩ := bind_eq_some_iff.mp hpath
    cases patch with
    | object outer =>
      have hnull : inner.isNull = false := by
        cases inner with
        | null => cases path <;> cases hbelow
        | _ => rfl
      have hget : (mergePatch target (.object outer)).get k =
          some (mergePatch ((target.get k).getD .null) inner) := by
        rw [get_mergePatch hp.1, show outer.lookup k = some inner from hinner]
        simp [hnull]
      have hrest := @ih ((target.get k).getD .null) inner (hp.get hinner) hbelow
      rw [descend, hget, bind_some, hrest, descend]
      cases htarget : target.get k with
      | some u => rfl
      | none =>
        -- nothing stands below a key the target does not have
        cases path <;> rfl
    | null | bool | number | string | array => cases hinner

theorem descend_mergePatch_key (hp : patch.Ordered) (hpath : patch.descend path = some (.object members)) :
    (mergePatch target patch).descend (path ++ [key]) =
      match members.lookup key with
      | none => target.descend (path ++ [key])
      | some value =>
        if value.isNull then none
        else some (mergePatch ((target.descend (path ++ [key])).getD .null) value) := by
  have hslot : ((target.descend path).getD .null).get key = target.descend (path ++ [key]) := by
    rw [descend_append_key]
    cases target.descend path with
    | none | some => rfl
  rw [descend_append_key, descend_mergePatch hp hpath, bind_some,
    get_mergePatch (hp.descend hpath).1, hslot]

structure Merged (target patch result : Value) : Prop where
  /-- A patch that is no object replaces the target. -/
  replaces : patch.isObject = false → result = patch
  /-- Where the patch has an object the result has one, whatever the target was. -/
  opens : ∀ path members, patch.descend path = some (.object members) →
    ∃ fields, result.descend path = some (.object fields)
  /-- A null of the patch deletes its key. -/
  deletes : ∀ path key, patch.descend (path ++ [key]) = some .null → result.descend (path ++ [key]) = none
  /-- A value of the patch that is neither null nor an object replaces what stood under its key. -/
  sets : ∀ path key value, patch.descend (path ++ [key]) = some value → value.isNull = false →
    value.isObject = false → result.descend (path ++ [key]) = some value
  /-- A key the patch does not mention is as it was. -/
  keeps : ∀ path key members, patch.descend path = some (.object members) → members.lookup key = none →
    result.descend (path ++ [key]) = target.descend (path ++ [key])
  /-- No null under a merged object is the patch's. -/
  clean : ∀ path key members, patch.descend path = some (.object members) →
    result.descend (path ++ [key]) = some .null → members.lookup key = none

theorem descend_key (h : patch.descend (path ++ [key]) = some value) :
    ∃ members, patch.descend path = some (.object members) ∧ members.lookup key = some value := by
  rw [descend_append_key] at h
  obtain ⟨holder, hholder, hget⟩ := bind_eq_some_iff.mp h
  cases holder with
  | object members => exact ⟨members, hholder, hget⟩
  | null | bool | number | string | array => cases hget

theorem merged_mergePatch (hp : patch.Ordered) : Merged target patch (mergePatch target patch) where
  replaces := mergePatch_other
  opens path members hpath := by
    rw [descend_mergePatch hp hpath, mergePatch_object]
    exact ⟨_, rfl⟩
  deletes path key h := by
    obtain ⟨members, hpath, hlookup⟩ := descend_key h
    rw [descend_mergePatch_key hp hpath, hlookup]
    rfl
  sets path key value h hnull hobject := by
    obtain ⟨members, hpath, hlookup⟩ := descend_key h
    rw [descend_mergePatch_key hp hpath, hlookup]
    simp [hnull, mergePatch_other hobject]
  keeps path key members hpath hlookup := by
    rw [descend_mergePatch_key hp hpath, hlookup]
  clean path key members hpath hresult := by
    rw [descend_mergePatch_key hp hpath] at hresult
    cases hlookup : members.lookup key with
    | none => rfl
    | some value =>
      rw [hlookup] at hresult
      simp only at hresult
      split_ifs at hresult with hnull
      -- what a value that is not null merges to is not null
      cases value with
      | object inner => simp [mergePatch_object] at hresult
      | null => cases hnull rfl
      | bool | number | string | array => cases (mergePatch_other rfl).symm.trans (Option.some.inj hresult)

theorem descend_under {holder held : Value} (h : holder.get key = some held) :
    holder.descend (key :: path) = held.descend path := by
  rw [descend, h, bind_some]

theorem descend_slot {next : String} :
    target.descend (key :: (path ++ [next])) = ((target.get key).getD .null).descend (path ++ [next]) := by
  cases htarget : target.get key with
  | none => rw [getD_none, descend_null_key, descend, htarget, bind_none]
  | some held => rw [getD_some, descend_under htarget]

theorem Merged.inner {inner : List (String × Value)} {held : Value} (h : Merged target (.object members) (.object fields))
    (hm : members.lookup key = some (.object inner)) (hf : fields.lookup key = some held) :
    Merged ((target.get key).getD .null) (.object inner) held := by
  have hpatch : ∀ path, (Value.object members).descend (key :: path) = (Value.object inner).descend path :=
    fun path => descend_under hm
  have hresult : ∀ path, (Value.object fields).descend (key :: path) = held.descend path :=
    fun path => descend_under hf
  constructor
  case replaces => nofun
  case opens =>
    intro path ms hpath
    rw [← hresult]
    exact h.opens (key :: path) ms ((hpatch path).trans hpath)
  case deletes =>
    intro path k hnull
    rw [← hresult]
    exact h.deletes (key :: path) k ((hpatch _).trans hnull)
  case sets =>
    intro path k value hvalue hnull hobject
    rw [← hresult]
    exact h.sets (key :: path) k value ((hpatch _).trans hvalue) hnull hobject
  case keeps =>
    intro path k ms hpath hlookup
    rw [← hresult, ← descend_slot]
    exact h.keeps (key :: path) k ms ((hpatch path).trans hpath) hlookup
  case clean =>
    intro path k ms hpath hnull
    exact h.clean (key :: path) k ms ((hpatch path).trans hpath) ((hresult _).trans hnull)

theorem sizeOf_lookup_lt (h : members.lookup key = some value) : sizeOf value < sizeOf members := by
  induction members with
  | nil => cases h
  | cons head rest ih =>
    obtain ⟨k, u⟩ := head
    rw [lookup_cons_if] at h
    simp only [List.cons.sizeOf_spec, Prod.mk.sizeOf_spec]
    split_ifs at h
    · cases h
      omega
    · have := ih h
      omega

theorem Merged.unique {target patch one two : Value} (h1 : Merged target patch one) (h2 : Merged target patch two)
    (ho1 : one.Ordered) (ho2 : two.Ordered) : one = two := by
  match patch with
  | .object members =>
    obtain ⟨fields, hfields⟩ := h1.opens [] members rfl
    obtain ⟨others, hothers⟩ := h2.opens [] members rfl
    cases hfields
    cases hothers
    refine congrArg _ (fields_ext ho1.1 ho2.1 fun key => ?_)
    show (Value.object fields).get key = (Value.object others).get key
    rw [← descend_one, ← descend_one]
    cases hlookup : members.lookup key with
    | none => exact (h1.keeps [] key members rfl hlookup).trans (h2.keeps [] key members rfl hlookup).symm
    | some value =>
      have hpatch : (Value.object members).descend ([] ++ [key]) = some value := descend_under hlookup
      cases value with
      | null => exact (h1.deletes [] key hpatch).trans (h2.deletes [] key hpatch).symm
      | object inner =>
        obtain ⟨f1, hone⟩ := h1.opens [key] inner hpatch
        obtain ⟨f2, htwo⟩ := h2.opens [key] inner hpatch
        rw [hone, htwo]
        rw [descend_one] at hone htwo
        have hlt := sizeOf_lookup_lt hlookup
        exact congrArg _ (Merged.unique (h1.inner hlookup hone) (h2.inner hlookup htwo) (ho1.get hone) (ho2.get htwo))
      | bool => exact (h1.sets [] key _ hpatch rfl rfl).trans (h2.sets [] key _ hpatch rfl rfl).symm
      | number => exact (h1.sets [] key _ hpatch rfl rfl).trans (h2.sets [] key _ hpatch rfl rfl).symm
      | string | array => exact (h1.sets [] key _ hpatch rfl rfl).trans (h2.sets [] key _ hpatch rfl rfl).symm
  | .null => exact (h1.replaces rfl).trans (h2.replaces rfl).symm
  | .bool b => exact (h1.replaces rfl).trans (h2.replaces rfl).symm
  | .number n => exact (h1.replaces rfl).trans (h2.replaces rfl).symm
  | .string s => exact (h1.replaces rfl).trans (h2.replaces rfl).symm
  | .array items => exact (h1.replaces rfl).trans (h2.replaces rfl).symm
termination_by sizeOf patch
decreasing_by
  rw [Value.object.sizeOf_spec members]
  omega

theorem Merged.twice {once : Value} {again : Value} (h : Merged target patch once) (hagain : Merged once patch again) :
    Merged target patch again where
  replaces := hagain.replaces
  opens := hagain.opens
  deletes := hagain.deletes
  sets := hagain.sets
  keeps path key members hpath hlookup :=
    (hagain.keeps path key members hpath hlookup).trans (h.keeps path key members hpath hlookup)
  clean := hagain.clean

/-- `merge_patch` computes the merge RFC 7396 describes, the only one there is, and a second application of
    the patch changes nothing. -/
theorem merge_patch_law (target patch : Value) (ht : target.Ordered) (hp : patch.Ordered) :
    Merged target patch (mergePatch target patch) ∧
    (mergePatch target patch).Ordered ∧
    (∀ result, result.Ordered → Merged target patch result → result = mergePatch target patch) ∧
    mergePatch (mergePatch target patch) patch = mergePatch target patch := by
  have hordered := ordered_mergePatch target patch ht hp
  have hmerged := @merged_mergePatch target _ hp
  refine ⟨hmerged, hordered, fun result hresult hlaw => hlaw.unique hmerged hresult hordered, ?_⟩
  exact (hmerged.twice (merged_mergePatch hp)).unique hmerged (ordered_mergePatch _ _ hordered hp) hordered

namespace Sample

def arguments : Value := .object [("a", .string "x"), ("b", .null), ("c", .bool true)]

def rewrite : Value := .object [("a", .object [("d", .null), ("e", .bool false)]), ("c", .null)]

theorem merge_patch_law_rewrite :
    mergePatch arguments rewrite = .object [("a", .object [("e", .bool false)]), ("b", .null)] ∧
    mergePatch (mergePatch arguments rewrite) rewrite = mergePatch arguments rewrite := by
  have ha : arguments.Ordered := ⟨by decide, trivial, trivial, trivial, trivial⟩
  have hr : rewrite.Ordered := ⟨by decide, ⟨by decide, trivial, trivial, trivial⟩, trivial, trivial⟩
  exact ⟨by rfl, (merge_patch_law arguments rewrite ha hr).2.2.2⟩

end Sample

end Rules

end RustyCore
