import Mathlib
import RustyCore.Lib.Except
import RustyCore.Theorems.Workflow.TaskQueue
import RustyCore.Workflow.Plan

/-! When a plan can be read at all, that a repaired plan needs no further repair, and what holds of one that is read. -/

namespace RustyCore.TaskQueue

open List

section

variable [CharTables]

def DigitsKept : Prop :=
  ∀ c : Char, c.isDigit = true → CharTables.isAlphanumeric c = true ∧ CharTables.toLowercase c = [c]

theorem idKey_number (hdigits : DigitsKept) (head : String) (n : Nat) : idKey (head ++ toString n) =
    String.ofList ((idKey head).toList ++ Nat.toDigits 10 n) := by
  have hnumber : (toString n).toList = Nat.toDigits 10 n := by simp
  have hdigit : ∀ c ∈ Nat.toDigits 10 n, c.isDigit = true := fun _ => Nat.isDigit_of_mem_toDigits (by decide) (by decide)
  have hfilter : (Nat.toDigits 10 n).filter CharTables.isAlphanumeric = Nat.toDigits 10 n :=
    filter_eq_self.mpr fun c hc => (hdigits c (hdigit c hc)).1
  have hlower : ∀ cs : List Char, (∀ c ∈ cs, c.isDigit = true) → cs.flatMap CharTables.toLowercase = cs := by
    intro cs hcs
    induction cs with
    | nil => rfl
    | cons c rest ih =>
      rw [flatMap_cons, (hdigits c (hcs c mem_cons_self)).2, ih fun d hd => hcs d (mem_cons_of_mem _ hd)]
      rfl
  simp only [idKey, String.toList_append, hnumber, filter_append, flatMap_append, hfilter, hlower _ hdigit,
    String.toList_ofList]

/-- Numbered ids stay apart, also as they are compared. -/
theorem idKey_number_inj (hdigits : DigitsKept) {head : String} {m n : Nat}
    (h : idKey (head ++ toString m) = idKey (head ++ toString n)) : m = n := by
  rw [idKey_number hdigits, idKey_number hdigits] at h
  have hsame := append_cancel_left (String.ofList_inj.mp h)
  have hvalue := congrArg (fun digits => Nat.ofDigitChars 10 digits 0) hsame
  simpa only [Nat.ofDigitChars_toDigits (by decide : 1 < 10) (by decide : 10 ≤ 10)] using hvalue

omit [CharTables] in
theorem number_ne_empty (head : String) (n : Nat) : (head ++ toString n).isEmpty = false := by
  rw [Bool.eq_false_iff, ne_eq, String.isEmpty_iff]
  intro h
  have hnil := congrArg String.toList h
  rw [String.toList_append] at hnil
  have hdigits := (append_eq_nil_iff.mp hnil).2
  simp at hdigits

namespace Numbering

variable {n next : Numbering} {wanted id : String}

theorem search_cases (n : Numbering) (turns number : Nat) :
    (∃ at_ > number, n.search turns number = .ok (n.head ++ toString at_) ∧ n.taken (n.head ++ toString at_) = false) ∨
      ∀ at_ > number, at_ ≤ number + turns → n.taken (n.head ++ toString at_) = true := by
  induction turns generalizing number with
  | zero => exact .inr fun at_ hlow hhigh => absurd hhigh (by omega)
  | succ turns ih =>
    rw [search]
    cases htaken : n.taken (n.head ++ toString (number + 1)) with
    | false => exact .inl ⟨number + 1, Nat.lt_succ_self _, by simp, htaken⟩
    | true =>
      simp only [if_true]
      rcases ih (number + 1) with ⟨at_, hlow, hfound, hfree⟩ | hall
      · exact .inl ⟨at_, by omega, hfound, hfree⟩
      · refine .inr fun at_ hlow hhigh => ?_
        rcases Nat.eq_or_lt_of_le hlow with rfl | hlow
        · exact htaken
        · exact hall at_ hlow (by omega)

/-- Among one more numbers than are used there is a free one, so the search ends. -/
theorem search_ok (hdigits : DigitsKept) (n : Numbering) : ∃ at_ : Nat, n.search (n.used.length + 1) n.used.length =
      .ok (n.head ++ toString at_) ∧ n.taken (n.head ++ toString at_) = false := by
  rcases search_cases n (n.used.length + 1) n.used.length with ⟨at_, -, hfound, hfree⟩ | hall
  · exact ⟨at_, hfound, hfree⟩
  · have hsub : ((List.range (n.used.length + 1)).map fun i => idKey (n.head ++ toString (n.used.length + 1 + i))) ⊆ n.used := by
      intro key hkey
      obtain ⟨i, hi, rfl⟩ := mem_map.mp hkey
      have htaken := hall (n.used.length + 1 + i) (by omega) (by have := mem_range.mp hi; omega)
      simpa only [taken, number_ne_empty, Bool.false_or, contains_iff_mem] using htaken
    have hnodup : ((List.range (n.used.length + 1)).map fun i => idKey (n.head ++ toString (n.used.length + 1 + i))).Nodup := by
      refine nodup_range.map fun i j hij => ?_
      have hsame := idKey_number_inj hdigits hij
      omega
    have hlength := (subperm_of_subset hnodup hsub).length_le
    simp at hlength

/-- Claiming an id always succeeds: with the wanted one, or with a number that is free. -/
theorem claim_ok (hdigits : DigitsKept) (n : Numbering) (wanted : String) : ∃ id, n.taken id = false ∧
    n.claim wanted = .ok (id, { n with used := idKey id :: n.used }) ∧ (id = wanted ∨ ∃ at_ : Nat, id = n.head ++ toString at_) := by
  cases htaken : n.taken wanted with
  | false => exact ⟨wanted, htaken, by simp [claim, htaken, bind, Except.bind, pure, Except.pure], .inl rfl⟩
  | true =>
    obtain ⟨at_, hfound, hfree⟩ := search_ok hdigits n
    exact ⟨_, hfree, by simp [claim, htaken, hfound, bind, Except.bind, pure, Except.pure], .inr ⟨at_, rfl⟩⟩

theorem claim_free (h : n.taken id = false) : n.claim id = .ok (id, { n with used := idKey id :: n.used }) := by
  simp [claim, h, bind, Except.bind, pure, Except.pure]

end Numbering

def Distinct (ids : List String) : Prop := ∀ a ∈ ids, ∀ b ∈ ids, idKey a = idKey b → a = b

theorem find_of_distinct {known : List String} (h : Distinct known) {id : String} (hid : id ∈ known) : find known id = some id := by
  cases hfound : find known id with
  | none => exact absurd (beq_self_eq_true _) (List.find?_eq_none.mp hfound id hid)
  | some found =>
    have hkey : (idKey found == idKey id) = true := @List.find?_some _ (fun other => idKey other == idKey id) _ _ hfound
    rw [beq_iff_eq] at hkey
    rw [h found (mem_of_find?_eq_some hfound) id hid hkey]

theorem filterMap_find {known ids : List String} (h : Distinct known) (hids : ids ⊆ known) : ids.filterMap (find known) = ids := by
  induction ids with
  | nil => rfl
  | cons id rest ih =>
    rw [filterMap_cons, find_of_distinct h (hids mem_cons_self), ih fun a ha => hids (mem_cons_of_mem _ ha)]

end

/-- What a field can be set in: an object, or `null`, which becomes one. -/
def Open (value : Value) : Prop := value = .null ∨ ∃ fields, value = .object fields

def fieldsOf : Value → List (String × Value)
  | .object fields => fields
  | _ => []

def ensured (key : String) (fields : List (String × Value)) : List (String × Value) :=
  if (fields.lookup key).isSome then fields else Value.insertField key .null fields

variable {key id name : String} {new value : Value} {fields : List (String × Value)}

theorem entry_open (h : Open value) : entry key value = .ok (ensured key (fieldsOf value)) := by
  rcases h with rfl | ⟨fields, rfl⟩ <;> rfl

theorem open_of_entry (h : entry key value = .ok fields) : Open value := by
  cases value with
  | null => exact .inl rfl
  | object fields => exact .inr ⟨fields, rfl⟩
  | _ => cases h

theorem insertField_insertField (new old : Value) :
    Value.insertField key new (Value.insertField key old fields) = Value.insertField key new fields := by
  induction fields with
  | nil => simp [Value.insertField]
  | cons field rest ih =>
    obtain ⟨k, v⟩ := field
    by_cases hkey : key = k
    · simp [Value.insertField, hkey]
    · by_cases hlt : key < k
      · simp [Value.insertField, hkey, hlt]
      · simp [Value.insertField, hkey, hlt, ih]

theorem ensured_of_lookup (h : fields.lookup key = some value) : ensured key fields = fields :=
  if_pos (by rw [h, Option.isSome_some])

theorem insertField_ensured : Value.insertField key new (ensured key fields) = Value.insertField key new fields := by
  unfold ensured
  split_ifs
  · rfl
  · exact insertField_insertField _ _

theorem assign_open (key : String) (new : Value) (h : Open value) :
    assign key new value = .ok (.object (Value.insertField key new (fieldsOf value))) := by
  rw [assign, entry_open h]
  show Except.ok (Value.object (Value.insertField key new (ensured key (fieldsOf value)))) = _
  rw [insertField_ensured]

/-- Setting a field to what it holds changes nothing. -/
theorem assign_placed (h : Value.Placed key new fields) : assign key new (.object fields) = .ok (.object fields) := by
  rw [assign_open _ _ (.inr ⟨fields, rfl⟩), fieldsOf, h]

theorem open_of_assign {result : Value} (h : assign key new value = .ok result) : Open value := by
  obtain ⟨fields, hentry, -⟩ := Except.ok_of_bind h
  exact open_of_entry hentry

theorem lookup_placed (h : Value.Placed key value fields) : fields.lookup key = some value := by
  rw [← h, Value.lookup_insertField, if_pos rfl]

theorem get_fieldsOf : value.get key = (fieldsOf value).lookup key := by cases value <;> rfl

theorem trim_trim (s : String) : Text.trim (Text.trim s) = Text.trim s := by
  simp only [Text.trim, String.toList_ofList, Text.trimMatches_trimMatches]

def Trimmed (id : String) : Prop := Text.trim id = id

theorem text_placed (h : Value.Placed name (.string id) fields) (hid : Trimmed id) : text (.object fields) name = id := by
  rw [text, field, Value.get, lookup_placed h]
  exact hid

theorem text_insertField (value : Value) {other : String} (h : name ≠ other) :
    text (.object (Value.insertField other new (fieldsOf value))) name = text value name := by
  rw [text, field, Value.get, Value.lookup_insertField, if_neg h, text, field, get_fieldsOf]

theorem isWhitespace_digit {c : Char} (h : c.isDigit = true) : Text.isWhitespace c = false := by
  have hrange : 48 ≤ c.toNat ∧ c.toNat ≤ 57 := by
    simpa [Char.isDigit, UInt32.le_iff_toNat_le] using h
  simp only [Text.isWhitespace, Bool.or_eq_false_iff, Bool.and_eq_false_iff, decide_eq_false_iff_not, beq_eq_false_iff_ne]
  omega

theorem trimmed_number {head : String} (hhead : ∀ c ∈ head.toList, Text.isWhitespace c = false) (n : Nat) :
    Trimmed (head ++ toString n) := by
  have hsolid : ∀ c ∈ (head ++ toString n).toList, Text.isWhitespace c = false := by
    intro c hc
    rw [String.toList_append] at hc
    rcases mem_append.mp hc with hc | hc
    · exact hhead c hc
    · have hdigit : c.isDigit = true :=
        Nat.isDigit_of_mem_toDigits (b := 10) (n := n) (by decide) (by decide) (by simpa using hc)
      exact isWhitespace_digit hdigit
  rw [Trimmed, Text.trim, Text.trimMatches]
  have hstart : (head ++ toString n).toList.dropWhile Text.isWhitespace = (head ++ toString n).toList := by
    cases hcs : (head ++ toString n).toList with
    | nil => rfl
    | cons c rest => rw [dropWhile_cons_of_neg (by rw [hsolid c (hcs ▸ mem_cons_self)]; exact Bool.false_ne_true)]
  have hend : (head ++ toString n).toList.reverse.dropWhile Text.isWhitespace = (head ++ toString n).toList.reverse := by
    cases hcs : (head ++ toString n).toList.reverse with
    | nil => rfl
    | cons c rest =>
      have hc : c ∈ (head ++ toString n).toList := mem_reverse.mp (hcs ▸ mem_cons_self)
      rw [dropWhile_cons_of_neg (by rw [hsolid c hc]; exact Bool.false_ne_true)]
  rw [hstart, hend, reverse_reverse, String.ofList_toList]

section

variable [CharTables]

namespace Numbering

structure Hands (n : Numbering) (wanted id : String) : Prop where
  first : n.claim wanted = .ok (id, { n with used := idKey id :: n.used })
  again : n.claim id = .ok (id, { n with used := idKey id :: n.used })
  trimmed : Trimmed id
  fresh : idKey id ∉ n.used

theorem hands (hdigits : DigitsKept) (n : Numbering) (hhead : ∀ c ∈ n.head.toList, Text.isWhitespace c = false)
    {wanted : String} (hwanted : Trimmed wanted) : ∃ id, n.Hands wanted id := by
  obtain ⟨id, hfree, hclaim, hid⟩ := n.claim_ok hdigits wanted
  refine ⟨id, hclaim, claim_free hfree, ?_, ?_⟩
  · rcases hid with rfl | ⟨at_, rfl⟩
    · exact hwanted
    · exact trimmed_number hhead at_
  · simp only [taken, Bool.or_eq_false_iff, contains_eq_mem, decide_eq_false_iff_not] at hfree
    exact hfree.2

end Numbering

omit [CharTables] in
theorem trimmed_text (value : Value) (name : String) : Trimmed (text value name) := trim_trim _

/-- The ids a numbering has given out, all different as they are compared. -/
structure Apart (used : List String) (ids : List String) : Prop where
  nodup : (ids.map idKey).Nodup
  fresh : ∀ id ∈ ids, idKey id ∉ used

theorem apart_cons {used ids : List String} (hfresh : idKey id ∉ used) (h : Apart (idKey id :: used) ids) :
    Apart used (id :: ids) where
  nodup := by
    refine nodup_cons.mpr ⟨fun hmem => ?_, h.nodup⟩
    obtain ⟨other, hother, hsame⟩ := mem_map.mp hmem
    exact h.fresh other hother (hsame ▸ mem_cons_self)
  fresh := forall_mem_cons.mpr ⟨hfresh, fun other hother hmem => h.fresh other hother (mem_cons_of_mem _ hmem)⟩

theorem Apart.distinct {used ids : List String} (h : Apart used ids) : Distinct ids := fun _ ha _ hb hab =>
  inj_on_of_nodup_map h.nodup ha hb hab

def Numbering.after (n : Numbering) (ids : List String) : Numbering :=
  { n with used := (ids.map idKey).reverse ++ n.used }

variable {ids : Numbering} {criteria : List Value}

/-- The criteria of a requirement are numbered once and for all. -/
theorem claimEach_ok (hdigits : DigitsKept) (hhead : ∀ c ∈ ids.head.toList, Text.isWhitespace c = false)
    (hopen : ∀ criterion ∈ criteria, Open criterion) : ∃ numbered known, claimEach ids criteria = .ok (numbered, known, ids.after known) ∧
      claimEach ids numbered = .ok (numbered, known, ids.after known) ∧ Apart ids.used known ∧
      known.length = criteria.length ∧ numbered.map (text · "text") = criteria.map (text · "text") ∧
      ∀ criterion ∈ numbered, Open criterion := by
  induction criteria generalizing ids with
  | nil => exact ⟨[], [], rfl, rfl, ⟨nodup_nil, nofun⟩, rfl, rfl, nofun⟩
  | cons criterion rest ih =>
    obtain ⟨id, hid⟩ := ids.hands hdigits hhead (trimmed_text criterion "id")
    obtain ⟨numbered, known, hfirst, hagain, hapart, hlength, htexts, hopens⟩ :=
      @ih { ids with used := idKey id :: ids.used } hhead fun c hc => hopen c (mem_cons_of_mem _ hc)
    have hafter : Numbering.after { ids with used := idKey id :: ids.used } known = ids.after (id :: known) := by
      simp [Numbering.after]
    have hassign := assign_open "id" (.string id) (hopen criterion mem_cons_self)
    have hplaced : Value.Placed "id" (.string id) (Value.insertField "id" (.string id) (fieldsOf criterion)) :=
      Value.placed_insertField
    refine ⟨.object (Value.insertField "id" (.string id) (fieldsOf criterion)) :: numbered, id :: known, ?_, ?_, ?_, ?_, ?_, ?_⟩
    · simp only [claimEach, hid.first, hassign, hfirst, hafter, bind, Except.bind, pure, Except.pure]
    · simp only [claimEach, text_placed hplaced hid.trimmed, hid.again, assign_placed hplaced, hagain, hafter, bind,
        Except.bind, pure, Except.pure]
    · exact apart_cons hid.fresh hapart
    · rw [length_cons, length_cons, hlength]
    · rw [map_cons, map_cons, htexts, text_insertField _ (by decide)]
    · exact forall_mem_cons.mpr ⟨.inr ⟨_, rfl⟩, hopens⟩

omit [CharTables] in
theorem open_of_text {criterion : Value} (h : (text criterion name).isEmpty = false) : Open criterion := by
  cases criterion with
  | object fields => exact .inr ⟨fields, rfl⟩
  | _ => cases h

variable {requirement : Value}

theorem numberCriteria_ok (requirement : Value) (hdigits : DigitsKept)
    (hhead : ∀ c ∈ ids.head.toList, Text.isWhitespace c = false) :
    ∃ numbered known, numberCriteria requirement ids = .ok (numbered, known, ids.after known) ∧ Apart ids.used known ∧
      known ≠ [] ∧ ∀ requirement' : Value, requirement'.get "criteria" = some (.array numbered) →
        text requirement' "text" = text requirement "text" →
        numberCriteria requirement' ids = .ok (numbered, known, ids.after known) := by
  let kept (requirement : Value) : List Value :=
    (Criteria.elements (requirement.get "criteria")).filter fun criterion => !(text criterion "text").isEmpty
  let own (requirement : Value) : Value := .object [("id", .string ""), ("text", .string (text requirement "text"))]
  have hunfold : ∀ requirement, numberCriteria requirement ids =
      claimEach ids (if (kept requirement).isEmpty then [own requirement] else kept requirement) := fun _ => rfl
  have hopen : ∀ criterion ∈ (if (kept requirement).isEmpty then [own requirement] else kept requirement), Open criterion := by
    split
    · exact forall_mem_singleton.mpr (.inr ⟨_, rfl⟩)
    · intro criterion hcriterion
      exact open_of_text (by simpa using (mem_filter.mp hcriterion).2)
  obtain ⟨numbered, known, hfirst, hagain, hapart, hlength, htexts, -⟩ := claimEach_ok hdigits hhead hopen
  refine ⟨numbered, known, by rw [hunfold, hfirst], hapart, ?_, fun requirement' hget htext => ?_⟩
  · rintro rfl
    rw [length_nil] at hlength
    have hnil := eq_nil_of_length_eq_zero hlength.symm
    split at hnil
    · cases hnil
    · rename_i hne
      exact hne (isEmpty_iff.mpr hnil)
  · rw [hunfold]
    have hkept : kept requirement' = numbered.filter fun criterion => !(text criterion "text").isEmpty := by
      simp only [kept, hget, Criteria.elements, Option.bind_some, Value.asArray, Option.getD_some]
    -- the texts say which criteria are kept
    have hall : ∀ texts : List Value, (∀ criterion ∈ texts, (text criterion "text").isEmpty = false) →
        numbered.map (text · "text") = texts.map (text · "text") → kept requirement' = numbered := by
      intro texts hsolid heq
      rw [hkept, filter_eq_self]
      intro criterion hcriterion
      have hmem : text criterion "text" ∈ texts.map (text · "text") := heq ▸ mem_map_of_mem hcriterion
      obtain ⟨other, hother, hsame⟩ := mem_map.mp hmem
      simpa [← hsame] using hsolid other hother
    split at htexts
    · rename_i hempty
      by_cases hblank : (text requirement "text").isEmpty
      · have hnone : kept requirement' = [] := by
          rw [hkept, filter_eq_nil_iff]
          intro criterion hcriterion
          have hmem : text criterion "text" ∈ [own requirement].map (text · "text") := htexts ▸ mem_map_of_mem hcriterion
          have hown : text (own requirement) "text" = text requirement "text" := trim_trim _
          simp only [map_cons, map_nil, mem_singleton, hown] at hmem
          simp [hmem, hblank]
        have hsame : own requirement' = own requirement := by simp only [own, htext]
        rw [hnone, isEmpty_nil, if_pos rfl, hsame]
        simpa only [hempty, if_true] using hfirst
      · have hown : text (own requirement) "text" = text requirement "text" := trim_trim _
        have hself := hall [own requirement] (forall_mem_singleton.mpr (by rw [hown]; simpa using hblank)) htexts
        rw [hself, if_neg ?_]
        · exact hagain
        · intro hnil
          rw [List.isEmpty_iff] at hnil
          rw [hnil] at htexts
          cases htexts
    · rename_i hempty
      have hself := hall (kept requirement) (fun criterion hcriterion => by
        simpa using (mem_filter.mp hcriterion).2) htexts
      rw [hself, if_neg ?_]
      · exact hagain
      · intro hnil
        rw [List.isEmpty_iff] at hnil
        rw [hnil] at htexts
        exact hempty (isEmpty_iff.mpr (map_eq_nil_iff.mp htexts.symm))

/-- Every requirement and every criterion has an id of its own. -/
structure OwnersApart (requirementsUsed criteriaUsed : List String) (owners : Owners) : Prop where
  criteria : Apart criteriaUsed owners.criterionIds
  requirements : Distinct (owners.map (·.2))
  fresh : ∀ owner ∈ owners, idKey owner.2 ∉ requirementsUsed

theorem ownersApart_append {requirementsUsed criteriaUsed known : List String} {owners : Owners} (hfresh : idKey id ∉ requirementsUsed)
    (hknown : Apart criteriaUsed known)
    (h : OwnersApart (idKey id :: requirementsUsed) ((known.map idKey).reverse ++ criteriaUsed) owners) :
    OwnersApart requirementsUsed criteriaUsed (known.map (·, id) ++ owners) where
  criteria := by
    have hids : Owners.criterionIds (known.map (·, id) ++ owners) = known ++ owners.criterionIds := by
      simp [Owners.criterionIds, Function.comp_def]
    rw [hids]
    refine ⟨?_, fun other hother => ?_⟩
    · rw [map_append]
      refine hknown.nodup.append h.criteria.nodup fun key hkey hkey' => ?_
      obtain ⟨other, hother, rfl⟩ := mem_map.mp hkey'
      exact h.criteria.fresh other hother (mem_append_left _ (mem_reverse.mpr hkey))
    · rcases mem_append.mp hother with hother | hother
      · exact hknown.fresh other hother
      · exact fun hmem => h.criteria.fresh other hother (mem_append_right _ hmem)
  requirements := by
    have hcases : ∀ requirement ∈ (known.map (·, id) ++ owners).map (·.2), requirement = id ∨ requirement ∈ owners.map (·.2) := by
      intro requirement hrequirement
      rw [map_append] at hrequirement
      rcases mem_append.mp hrequirement with hmem | hmem
      · simp only [map_map, mem_map] at hmem
        obtain ⟨_, -, rfl⟩ := hmem
        exact .inl rfl
      · exact .inr hmem
    have hother : ∀ requirement ∈ owners.map (·.2), idKey requirement ≠ idKey id := by
      intro requirement hrequirement heq
      obtain ⟨owner, howner, rfl⟩ := mem_map.mp hrequirement
      exact h.fresh owner howner (heq ▸ mem_cons_self)
    intro a ha b hb hab
    rcases hcases a ha with rfl | hold <;> rcases hcases b hb with rfl | hold'
    · rfl
    · exact absurd hab.symm (hother b hold')
    · exact absurd hab (hother a hold)
    · exact h.requirements a hold b hold' hab
  fresh := by
    intro owner howner
    rcases mem_append.mp howner with hmem | hmem
    · obtain ⟨_, -, rfl⟩ := mem_map.mp hmem
      exact hfresh
    · exact fun hused => h.fresh owner hmem (mem_cons_of_mem _ hused)

/-- So are all requirements with their criteria. -/
theorem numberEach_ok {requirementIds criterionIds : Numbering} {items : List Value} (hdigits : DigitsKept)
    (hhead : ∀ c ∈ requirementIds.head.toList, Text.isWhitespace c = false)
    (hhead' : ∀ c ∈ criterionIds.head.toList, Text.isWhitespace c = false) (hopen : ∀ item ∈ items, Open item) :
    ∃ numbered owners, numberEach requirementIds criterionIds items = .ok (numbered, owners) ∧
      numberEach requirementIds criterionIds numbered = .ok (numbered, owners) ∧ (∀ item ∈ numbered, Open item) ∧
      OwnersApart requirementIds.used criterionIds.used owners := by
  induction items generalizing requirementIds criterionIds with
  | nil => exact ⟨[], [], rfl, rfl, nofun, ⟨⟨nodup_nil, nofun⟩, nofun, nofun⟩⟩
  | cons item rest ih =>
    obtain ⟨id, hid⟩ := requirementIds.hands hdigits hhead (trimmed_text item "id")
    have hassign := assign_open "id" (.string id) (hopen item mem_cons_self)
    generalize hfields : Value.insertField "id" (.string id) (fieldsOf item) = fields at hassign
    obtain ⟨criteria, known, hnumber, hapart, hne, hagain⟩ :=
      numberCriteria_ok (.object fields) hdigits hhead'
    have hassign' := assign_open "criteria" (.array criteria) (.inr ⟨fields, rfl⟩)
    obtain ⟨numbered, owners, hfirst, hagain', hopens, howners⟩ :=
      @ih { requirementIds with used := idKey id :: requirementIds.used } (criterionIds.after known) hhead hhead'
        fun i hi => hopen i (mem_cons_of_mem _ hi)
    have hid' : Value.Placed "id" (.string id) (Value.insertField "criteria" (.array criteria) fields) :=
      hfields ▸ Value.placed_insertField.insertField (by decide)
    have hcriteria : Value.Placed "criteria" (.array criteria) (Value.insertField "criteria" (.array criteria) fields) :=
      Value.placed_insertField
    refine ⟨.object (Value.insertField "criteria" (.array criteria) fields) :: numbered, known.map (·, id) ++ owners, ?_, ?_, ?_, ?_⟩
    · simp only [numberEach, hid.first, hassign, hnumber, hassign', fieldsOf, hfirst, bind, Except.bind, pure, Except.pure]
    · have hsecond := hagain (.object (Value.insertField "criteria" (.array criteria) fields)) (lookup_placed hcriteria)
        (text_insertField (.object fields) (by decide))
      simp only [numberEach, text_placed hid' hid.trimmed, hid.again, assign_placed hid', hsecond, assign_placed hcriteria,
        hagain', bind, Except.bind, pure, Except.pure]
    · exact forall_mem_cons.mpr ⟨.inr ⟨_, rfl⟩, hopens⟩
    · exact ownersApart_append hid.fresh hapart howners

variable {owners : Owners} {known covers needs depends : List String} {task : Value} {numbers : Numbering}

omit [CharTables] in
theorem mem_requirementIds {requirement : String} : requirement ∈ owners.requirementIds ↔ requirement ∈ owners.map (·.2) := by
  have hfold : ∀ seen, requirement ∈ owners.foldl
      (fun seen owner => if seen.contains owner.2 then seen else seen ++ [owner.2]) seen ↔
      requirement ∈ seen ∨ requirement ∈ owners.map (·.2) := by
    induction owners with
    | nil => simp
    | cons owner rest ih =>
      intro seen
      rw [foldl_cons, ih, map_cons, mem_cons]
      split_ifs with hseen
      · rw [contains_iff_mem] at hseen
        refine ⟨Or.imp_right .inr, ?_⟩
        rintro (h | rfl | h)
        · exact .inl h
        · exact .inl hseen
        · exact .inr h
      · rw [mem_append, mem_singleton, or_assoc]
  exact (hfold []).trans (or_iff_right not_mem_nil)

/-- A task whose references a further pass leaves as they are. -/
structure Settled (owners : Owners) (known : List String) (id : String) (task : Value) (covers needs depends : List String) :
    Prop where
  placed : ∃ fields, task = .object fields ∧ Value.Placed "id" (.string id) fields ∧
    Value.Placed "criterion_ids" (strings covers) fields ∧ Value.Placed "requirement_ids" (strings needs) fields ∧
      Value.Placed "depends_on" (strings depends) fields
  criteria : covers ⊆ owners.criterionIds
  requirements : needs ⊆ owners.requirementIds
  owned : ∀ criterion ∈ covers, ∀ requirement, owners.requirementOf criterion = some requirement → requirement ∈ needs
  idle : covers = [] → needs = []
  earlier : depends ⊆ known

omit [CharTables] in
theorem names_placed {known : List String} (h : Value.Placed name (strings known) fields) : names (.object fields) name = known := by
  rw [names, Value.get, lookup_placed h]
  simp [Criteria.elements, strings, Value.asArray, filterMap_map, Function.comp_def, Value.asStr]

theorem filterMap_find_subset (wanted : List String) : wanted.filterMap (find known) ⊆ known := by
  intro id hid
  obtain ⟨_, -, hfound⟩ := mem_filterMap.mp hid
  exact mem_of_find?_eq_some hfound

def needed (owners : Owners) (needs covers : List String) : List String :=
  covers.foldl (fun needs criterion =>
    match owners.requirementOf criterion with
    | some requirement => if needs.contains requirement then needs else needs ++ [requirement]
    | none => needs) needs

omit [CharTables] in
theorem needed_of_owned (h : ∀ criterion ∈ covers, ∀ requirement, owners.requirementOf criterion = some requirement →
    requirement ∈ needs) : needed owners needs covers = needs := by
  induction covers with
  | nil => rfl
  | cons criterion rest ih =>
    have hfirst : (match owners.requirementOf criterion with
        | some requirement => if needs.contains requirement then needs else needs ++ [requirement]
        | none => needs) = needs := by
      cases howner : owners.requirementOf criterion with
      | none => rfl
      | some requirement => simp [h criterion mem_cons_self requirement howner]
    rw [needed, foldl_cons, hfirst]
    exact ih fun c hc => h c (mem_cons_of_mem _ hc)

omit [CharTables] in
theorem needed_spec : needs ⊆ needed owners needs covers ∧
    (∀ criterion ∈ covers, ∀ requirement, owners.requirementOf criterion = some requirement →
      requirement ∈ needed owners needs covers) ∧
    ∀ requirement ∈ needed owners needs covers, requirement ∈ needs ∨
      ∃ criterion, owners.requirementOf criterion = some requirement := by
  induction covers generalizing needs with
  | nil => exact ⟨fun _ h => h, nofun, fun _ h => .inl h⟩
  | cons criterion rest ih =>
    rw [needed, foldl_cons]
    cases howner : owners.requirementOf criterion with
    | none =>
      obtain ⟨hsub, hall, hfrom⟩ := @ih needs
      refine ⟨hsub, fun c hc requirement hrequirement => ?_, hfrom⟩
      rcases mem_cons.mp hc with rfl | hc
      · rw [howner] at hrequirement
        cases hrequirement
      · exact hall c hc requirement hrequirement
    | some first =>
      obtain ⟨hsub, hall, hfrom⟩ := @ih (if needs.contains first then needs else needs ++ [first])
      have hneeds : ∀ requirement, requirement ∈ (if needs.contains first then needs else needs ++ [first]) ↔
          requirement ∈ needs ∨ requirement = first := by
        intro requirement
        split_ifs with hcontains
        · rw [contains_iff_mem] at hcontains
          exact ⟨.inl, fun h => h.elim id fun heq => heq ▸ hcontains⟩
        · rw [mem_append, mem_singleton]
      refine ⟨fun requirement h => hsub ((hneeds requirement).mpr (.inl h)), fun c hc requirement hrequirement => ?_,
        fun requirement h => ?_⟩
      · rcases mem_cons.mp hc with rfl | hc
        · rw [howner] at hrequirement
          cases hrequirement
          exact hsub ((hneeds _).mpr (.inr rfl))
        · exact hall c hc requirement hrequirement
      · rcases hfrom requirement h with h | h
        · rcases (hneeds requirement).mp h with h | rfl
          · exact .inl h
          · exact .inr ⟨criterion, howner⟩
        · exact .inr h

omit [CharTables] in
theorem requirementOf_mem {criterion requirement : String} (h : owners.requirementOf criterion = some requirement) :
    (criterion, requirement) ∈ owners := by
  obtain ⟨before, after, heq, -⟩ := lookup_eq_some_iff.mp h
  rw [heq]
  exact mem_append_right _ mem_cons_self

/-- The criteria and requirements of a task are known ones, and no criterion is without its requirement. -/
theorem coverage_spec (owners : Owners) (task : Value) : (coverage task owners).1 ⊆ owners.criterionIds ∧
    (coverage task owners).2 ⊆ owners.requirementIds ∧
    (∀ criterion ∈ (coverage task owners).1, ∀ requirement, owners.requirementOf criterion = some requirement →
      requirement ∈ (coverage task owners).2) ∧
    ((coverage task owners).1 = [] → (coverage task owners).2 = []) := by
  generalize hneeds : (names task "requirement_ids").filterMap (find owners.requirementIds) = needs
  generalize hnamed : (names task "criterion_ids").filterMap (find owners.criterionIds) = named
  have hcoverage : coverage task owners = (if named.isEmpty then owners.criteriaOf needs else named,
      needed owners needs (if named.isEmpty then owners.criteriaOf needs else named)) := by
    rw [coverage, hneeds, hnamed]
    rfl
  have hneedsReal : needs ⊆ owners.requirementIds := hneeds ▸ filterMap_find_subset _
  obtain ⟨-, howned, hfrom⟩ := @needed_spec owners (if named.isEmpty then owners.criteriaOf needs else named) needs
  rw [hcoverage]
  refine ⟨?_, fun requirement h => ?_, howned, fun hnil => ?_⟩
  · show (if named.isEmpty then owners.criteriaOf needs else named) ⊆ owners.criterionIds
    split_ifs
    · exact map_subset _ (filter_subset_self _)
    · exact hnamed ▸ filterMap_find_subset _
  · rcases hfrom requirement h with h | ⟨criterion, h⟩
    · exact hneedsReal h
    · exact mem_requirementIds.mpr (mem_map_of_mem (requirementOf_mem h))
  · have hnone : needs = [] := by
      by_contra hne
      obtain ⟨requirement, hrequirement⟩ := exists_mem_of_ne_nil needs hne
      obtain ⟨owner, howner, rfl⟩ := mem_map.mp (mem_requirementIds.mp (hneedsReal hrequirement))
      dsimp only at hnil
      split at hnil
      · have hmem : owner.1 ∈ owners.criteriaOf needs :=
          mem_map_of_mem (mem_filter.mpr ⟨howner, by simpa using hrequirement⟩)
        rw [hnil] at hmem
        cases hmem
      · rename_i hempty
        exact hempty (isEmpty_iff.mpr hnil)
    dsimp only at hnil ⊢
    rw [hnil, hnone]
    rfl

/-- Numbering a task settles it. -/
theorem numberTask_ok (hopen : Open task) : ∃ task' covers needs depends, numberTask owners id known task = .ok task' ∧
    Settled owners known id task' covers needs depends := by
  obtain ⟨hcovers, hneeds, howned, hidle⟩ := coverage_spec owners task
  let depends := (names task "depends_on").filterMap (find known)
  let fields := Value.insertField "requirement_ids" (strings (coverage task owners).2)
    (Value.insertField "criterion_ids" (strings (coverage task owners).1) (Value.insertField "id" (.string id) (fieldsOf task)))
  refine ⟨.object (Value.insertField "depends_on" (strings depends) fields), _, _, depends, ?_,
    ⟨⟨_, rfl, ?_, ?_, ?_, Value.placed_insertField⟩, hcovers, hneeds, howned, hidle, filterMap_find_subset _⟩⟩
  · simp only [numberTask, assign_open _ _ hopen, bind, Except.bind]
    rw [assign_open _ _ (.inr ⟨_, rfl⟩)]
    simp only [fieldsOf]
    rw [assign_open _ _ (.inr ⟨_, rfl⟩)]
    simp only [fieldsOf]
    rw [assign_open _ _ (.inr ⟨_, rfl⟩)]
    rfl
  · exact ((Value.placed_insertField.insertField (by decide)).insertField (by decide)).insertField (by decide)
  · exact (Value.placed_insertField.insertField (by decide)).insertField (by decide)
  · exact Value.placed_insertField.insertField (by decide)

/-- A settled task is numbered as it is. -/
theorem numberTask_again (hcriteria : Distinct owners.criterionIds) (hrequirements : Distinct owners.requirementIds)
    (hknown : Distinct known) (h : Settled owners known id task covers needs depends) :
    numberTask owners id known task = .ok task := by
  obtain ⟨fields, rfl, hid, hcovers, hneeds, hdepends⟩ := h.placed
  have hcoverage : coverage (.object fields) owners = (covers, needs) := by
    have hnamed : (names (.object fields) "criterion_ids").filterMap (find owners.criterionIds) = covers := by
      rw [names_placed hcovers, filterMap_find hcriteria h.criteria]
    have hneeded : (names (.object fields) "requirement_ids").filterMap (find owners.requirementIds) = needs := by
      rw [names_placed hneeds, filterMap_find hrequirements h.requirements]
    have hcovered : (if covers.isEmpty then owners.criteriaOf needs else covers) = covers := by
      split_ifs with hempty
      · rw [List.isEmpty_iff] at hempty
        rw [h.idle hempty, hempty]
        simp [Owners.criteriaOf]
      · rfl
    have hsame := needed_of_owned h.owned
    rw [coverage, hnamed, hneeded, hcovered]
    exact congrArg (Prod.mk covers) hsame
  have hdependsSame : (names (.object fields) "depends_on").filterMap (find known) = depends := by
    rw [names_placed hdepends, filterMap_find hknown h.earlier]
  simp only [numberTask, hcoverage, hdependsSame, assign_placed hid, assign_placed hcovers, assign_placed hneeds,
    assign_placed hdepends, bind, Except.bind]

/-- The tasks are settled one after the other, each with the ids of those before it. -/
def AllSettled (owners : Owners) : Numbering → List String → List Value → Prop
  | _, _, [] => True
  | numbers, known, task :: rest => ∃ id covers needs depends, numbers.claim id = .ok (id, { numbers with used := idKey id :: numbers.used }) ∧
      Trimmed id ∧ idKey id ∉ numbers.used ∧ Settled owners known id task covers needs depends ∧
      AllSettled owners { numbers with used := idKey id :: numbers.used } (known ++ [id]) rest

variable {tasks : List Value}

theorem numberTaskList_ok (hdigits : DigitsKept) (hhead : ∀ c ∈ numbers.head.toList, Text.isWhitespace c = false)
    (hopen : ∀ task ∈ tasks, Open task) :
    ∃ tasks', numberTaskList owners numbers known tasks = .ok tasks' ∧ AllSettled owners numbers known tasks' ∧
      tasks'.length = tasks.length := by
  induction tasks generalizing numbers known with
  | nil => exact ⟨[], rfl, trivial, rfl⟩
  | cons task rest ih =>
    obtain ⟨id, hid⟩ := numbers.hands hdigits hhead (trimmed_text task "id")
    obtain ⟨task', covers, needs, depends, hnumber, hsettled⟩ :=
      numberTask_ok (hopen task mem_cons_self)
    obtain ⟨tasks', hrest, hall, hlength⟩ := @ih (known ++ [id]) { numbers with used := idKey id :: numbers.used } hhead
      fun t ht => hopen t (mem_cons_of_mem _ ht)
    refine ⟨task' :: tasks', ?_, ⟨id, covers, needs, depends, hid.again, hid.trimmed, hid.fresh, hsettled, hall⟩, by simp [hlength]⟩
    simp only [numberTaskList, hid.first, hnumber, hrest, bind, Except.bind, pure, Except.pure]

structure Earlier (numbers : Numbering) (known : List String) : Prop where
  distinct : Distinct known
  used : ∀ id ∈ known, idKey id ∈ numbers.used

theorem earlier_snoc (h : Earlier numbers known) (hfresh : idKey id ∉ numbers.used) :
    Earlier { numbers with used := idKey id :: numbers.used } (known ++ [id]) where
  distinct := by
    intro a ha b hb hab
    simp only [mem_append, mem_singleton] at ha hb
    rcases ha with ha | rfl <;> rcases hb with hb | rfl
    · exact h.distinct a ha b hb hab
    · exact absurd (hab ▸ h.used a ha) hfresh
    · exact absurd (hab ▸ h.used b hb) hfresh
    · rfl
  used := by
    intro other hother
    simp only [mem_append, mem_singleton] at hother
    rcases hother with hother | rfl
    · exact mem_cons_of_mem _ (h.used other hother)
    · exact mem_cons_self

theorem numberTaskList_again (hcriteria : Distinct owners.criterionIds) (hrequirements : Distinct owners.requirementIds)
    (hearlier : Earlier numbers known) (h : AllSettled owners numbers known tasks) :
    numberTaskList owners numbers known tasks = .ok tasks := by
  induction tasks generalizing numbers known with
  | nil => rfl
  | cons task rest ih =>
    obtain ⟨id, covers, needs, depends, hclaim, htrimmed, hfresh, hsettled, hrest⟩ := h
    have htext : text task "id" = id := by
      obtain ⟨fields, rfl, hid, -⟩ := hsettled.placed
      exact text_placed hid htrimmed
    have hsame := numberTask_again hcriteria hrequirements hearlier.distinct hsettled
    simp only [numberTaskList, htext, hclaim, hsame, ih (earlier_snoc hearlier hfresh) hrest, bind, Except.bind, pure, Except.pure]

def withId (id : String) (ids : List String) : List String := if ids.contains id then ids else ids ++ [id]

omit [CharTables] in
theorem mem_withId {other : String} {ids : List String} : other ∈ withId id ids ↔ other ∈ ids ∨ other = id := by
  unfold withId
  split_ifs with h
  · rw [contains_iff_mem] at h
    exact ⟨.inl, fun hor => hor.elim (fun hmem => hmem) fun heq => heq ▸ h⟩
  · rw [mem_append, mem_singleton]

omit [CharTables] in
theorem addOnce_ok (id : String) {ids : List String} (h : Value.Placed key (strings ids) fields) :
    ∃ fields', addOnce key id (.object fields) = .ok (.object fields') ∧ Value.Placed key (strings (withId id ids)) fields' ∧
      ∀ other found, other ≠ key → Value.Placed other found fields → Value.Placed other found fields' := by
  have hlookup := lookup_placed h
  have hentry : entry key (.object fields) = .ok fields := by
    rw [entry_open (.inr ⟨fields, rfl⟩), fieldsOf, ensured_of_lookup hlookup]
  have hany : (ids.map Value.string).any (fun known => known.asStr == some id) = ids.contains id := by
    rw [any_map, contains_eq_any_beq]
    congr 1
    funext known
    exact Bool.beq_comm
  rw [addOnce, hentry]
  simp only [bind, Except.bind, hlookup, strings, hany, pure, Except.pure]
  cases hcontains : ids.contains id with
  | true => exact ⟨fields, rfl, by rw [withId, if_pos hcontains]; exact h, fun _ _ _ hother => hother⟩
  | false =>
    refine ⟨_, rfl, ?_, fun other found hne hother => hother.insertField hne⟩
    rw [withId, hcontains, if_neg Bool.false_ne_true, map_append]
    exact Value.placed_insertField

omit [CharTables] in
theorem settled_add {criterion requirement : String} (h : Settled owners known id task covers needs depends)
    (howner : owners.requirementOf criterion = some requirement) : ∃ task', (do
      let task ← addOnce "criterion_ids" criterion task
      addOnce "requirement_ids" requirement task) = .ok task' ∧
      Settled owners known id task' (withId criterion covers) (withId requirement needs) depends := by
  obtain ⟨fields, rfl, hid, hcovers, hneeds, hdepends⟩ := h.placed
  obtain ⟨fields', hfirst, hcovers', hothers⟩ := addOnce_ok criterion hcovers
  obtain ⟨fields'', hsecond, hneeds', hothers'⟩ := addOnce_ok requirement (hothers _ _ (by decide) hneeds)
  have hmem := requirementOf_mem howner
  refine ⟨.object fields'', ?_, ⟨⟨fields'', rfl, ?_, ?_, hneeds', ?_⟩, ?_, ?_, ?_, ?_, h.earlier⟩⟩
  · simp only [hfirst, hsecond, bind, Except.bind]
  · exact hothers' _ _ (by decide) (hothers _ _ (by decide) hid)
  · exact hothers' _ _ (by decide) hcovers'
  · exact hothers' _ _ (by decide) (hothers _ _ (by decide) hdepends)
  · intro other hother
    rcases mem_withId.mp hother with hother | rfl
    · exact h.criteria hother
    · exact mem_map_of_mem hmem
  · intro other hother
    rcases mem_withId.mp hother with hother | rfl
    · exact h.requirements hother
    · exact mem_requirementIds.mpr (mem_map_of_mem hmem)
  · intro other hother found hfound
    refine mem_withId.mpr ?_
    rcases mem_withId.mp hother with hother | rfl
    · exact .inl (h.owned other hother found hfound)
    · rw [howner] at hfound
      exact .inr (Option.some.inj hfound).symm
  · intro hnil
    have hmem : criterion ∈ withId criterion covers := mem_withId.mpr (.inr rfl)
    rw [hnil] at hmem
    cases hmem

theorem allSettled_set {place : Nat} (h : AllSettled owners numbers known tasks) (hat : tasks[place]? = some task) :
    ∃ known' id covers needs depends, Settled owners known' id task covers needs depends ∧
      ∀ task' covers' needs', Settled owners known' id task' covers' needs' depends →
        AllSettled owners numbers known (tasks.set place task') := by
  induction tasks generalizing numbers known place with
  | nil => cases hat
  | cons first rest ih =>
    obtain ⟨id, covers, needs, depends, hclaim, htrimmed, hfresh, hsettled, hrest⟩ := h
    cases place with
    | zero =>
      cases hat
      exact ⟨known, id, covers, needs, depends, hsettled, fun task' covers' needs' hsettled' =>
        ⟨id, covers', needs', depends, hclaim, htrimmed, hfresh, hsettled', hrest⟩⟩
    | succ place =>
      obtain ⟨known', id', covers', needs', depends', hsettled', hset⟩ := ih hrest hat
      exact ⟨known', id', covers', needs', depends', hsettled', fun task' covers'' needs'' hsettled'' =>
        ⟨id, covers, needs, depends, hclaim, htrimmed, hfresh, hsettled, hset task' covers'' needs'' hsettled''⟩⟩

omit [CharTables] in
theorem placeFor_lt (requirement : String) (hne : tasks ≠ []) : placeFor requirement tasks < tasks.length := by
  have hlength := length_pos_iff.mpr hne
  unfold placeFor
  split <;> omega

def Covered (tasks : List Value) (criterion : String) : Prop := ∃ task ∈ tasks, criterion ∈ names task "criterion_ids"

/-- A criterion that no task covers is given to one, and the tasks stay settled. -/
theorem coverOrphan_ok {criterion requirement : String} (howner : owners.requirementOf criterion = some requirement)
    (hne : tasks ≠ []) (h : AllSettled owners numbers known tasks) : ∃ tasks', coverOrphan tasks criterion requirement = .ok tasks' ∧
      AllSettled owners numbers known tasks' ∧ tasks' ≠ [] ∧ Covered tasks' criterion ∧
      ∀ other, Covered tasks other → Covered tasks' other := by
  have hlt := placeFor_lt requirement hne
  have hat : tasks[placeFor requirement tasks]? = some tasks[placeFor requirement tasks] := List.getElem?_eq_getElem hlt
  obtain ⟨known', id, covers, needs, depends, hsettled, hset⟩ := allSettled_set h hat
  obtain ⟨task', hadd, hsettled'⟩ := settled_add hsettled howner
  have hnames : ∀ {task covers needs}, Settled owners known' id task covers needs depends → names task "criterion_ids" = covers := by
    intro task covers needs hsettled
    obtain ⟨fields, rfl, -, hcovers, -⟩ := hsettled.placed
    exact names_placed hcovers
  have hmem : task' ∈ tasks.set (placeFor requirement tasks) task' := mem_set hlt task'
  refine ⟨tasks.set (placeFor requirement tasks) task', ?_, hset task' _ _ hsettled', ?_, ?_, ?_⟩
  · obtain ⟨middle, hfirst, hsecond⟩ := Except.ok_of_bind hadd
    simp only [coverOrphan, hat, hfirst, hsecond, bind, Except.bind, pure, Except.pure]
  · exact ne_nil_of_mem hmem
  · exact ⟨task', hmem, by rw [hnames hsettled']; exact mem_withId.mpr (.inr rfl)⟩
  · rintro other ⟨task, htask, hcovered⟩
    obtain ⟨i, hi, rfl⟩ := getElem_of_mem htask
    by_cases hplace : placeFor requirement tasks = i
    · subst hplace
      refine ⟨task', hmem, ?_⟩
      rw [hnames hsettled] at hcovered
      rw [hnames hsettled']
      exact mem_withId.mpr (.inl hcovered)
    · refine ⟨tasks[i], ?_, hcovered⟩
      have hkept : (tasks.set (placeFor requirement tasks) task')[i]? = some tasks[i] := by
        rw [List.getElem?_set_ne hplace, List.getElem?_eq_getElem hi]
      exact mem_of_getElem? hkept

theorem coverEach_ok (covered : List String) {part : Owners} (howners : ∀ owner ∈ part, owners.requirementOf owner.1 = some owner.2)
    (hne : tasks ≠ []) (h : AllSettled owners numbers known tasks) : ∃ tasks',
      part.foldlM (fun tasks (criterion, requirement) =>
        if covered.contains criterion then Except.ok tasks else coverOrphan tasks criterion requirement) tasks = .ok tasks' ∧
      AllSettled owners numbers known tasks' ∧ tasks' ≠ [] ∧ (∀ other, Covered tasks other → Covered tasks' other) ∧
      ∀ owner ∈ part, owner.1 ∈ covered ∨ Covered tasks' owner.1 := by
  induction part generalizing tasks with
  | nil => exact ⟨tasks, rfl, h, hne, fun _ h => h, nofun⟩
  | cons owner rest ih =>
    rw [foldlM_cons]
    cases hcovered : covered.contains owner.1 with
    | true =>
      obtain ⟨tasks', hfold, hall, hne', hkeeps, hrest⟩ := ih (fun o ho => howners o (mem_cons_of_mem _ ho)) hne h
      refine ⟨tasks', ?_, hall, hne', hkeeps, forall_mem_cons.mpr ⟨.inl (contains_iff_mem.mp hcovered), hrest⟩⟩
      simp only [hcovered, if_true]
      exact hfold
    | false =>
      obtain ⟨middle, hstep, hall, hne', hfound, hkeeps⟩ := coverOrphan_ok (howners owner mem_cons_self) hne h
      obtain ⟨tasks', hfold, hall', hne'', hkeeps', hrest⟩ :=
        ih (fun o ho => howners o (mem_cons_of_mem _ ho)) hne' hall
      refine ⟨tasks', ?_, hall', hne'', fun other hother => hkeeps' other (hkeeps other hother),
        forall_mem_cons.mpr ⟨.inr (hkeeps' _ hfound), hrest⟩⟩
      simp only [hcovered, Bool.false_eq_true, if_false, hstep]
      exact hfold

omit [CharTables] in
theorem coverEach_covered {covered : List String} {part : Owners} (h : ∀ owner ∈ part, owner.1 ∈ covered) :
    part.foldlM (fun tasks (criterion, requirement) =>
      if covered.contains criterion then Except.ok tasks else coverOrphan tasks criterion requirement) tasks = .ok tasks := by
  induction part with
  | nil => rfl
  | cons owner rest ih =>
    rw [foldlM_cons]
    simp only [contains_iff_mem.mpr (h owner mem_cons_self), if_true]
    exact ih fun o ho => h o (mem_cons_of_mem _ ho)

/-- Afterwards every criterion is covered, so a second pass has nothing to do. -/
theorem coverTasks_ok (howners : ∀ owner ∈ owners, owners.requirementOf owner.1 = some owner.2)
    (h : AllSettled owners numbers known tasks) : ∃ tasks', coverTasks owners tasks = .ok tasks' ∧
      AllSettled owners numbers known tasks' ∧ coverTasks owners tasks' = .ok tasks' := by
  cases hempty : tasks.isEmpty with
  | true =>
    rw [List.isEmpty_iff] at hempty
    subst hempty
    exact ⟨[], rfl, h, rfl⟩
  | false =>
    obtain ⟨tasks', hfold, hall, hne, hkeeps, hcovered⟩ := coverEach_ok (tasks.flatMap (names · "criterion_ids"))
      howners (by simpa using hempty) h
    refine ⟨tasks', by rw [coverTasks, hempty]; exact hfold, hall, ?_⟩
    rw [coverTasks, if_neg (by simpa using hne)]
    refine coverEach_covered fun owner howner => ?_
    have hfinal : Covered tasks' owner.1 := by
      rcases hcovered owner howner with hmem | hfound
      · obtain ⟨task, htask, hname⟩ := mem_flatMap.mp hmem
        exact hkeeps _ ⟨task, htask, hname⟩
      · exact hfound
    obtain ⟨task, htask, hname⟩ := hfinal
    exact mem_flatMap.mpr ⟨task, htask, hname⟩

variable {α : Type} {change : List Value → Except Crash (List Value × α)} {none_ result : α} {items items' : List Value}

omit [CharTables] in
theorem modifyItems_array (h : Open value) (hitems : value.get key = some (.array items))
    (hchange : change items = .ok (items', result)) : modifyItems key change none_ value =
      .ok (.object (Value.insertField key (.array items') (fieldsOf value)), result) := by
  rw [get_fieldsOf] at hitems
  simp only [modifyItems, entry_open h, ensured_of_lookup hitems, hitems, hchange, bind, Except.bind, pure, Except.pure]

omit [CharTables] in
theorem lookup_ensured {other : String} : (ensured key fields).lookup other =
    if other = key ∧ fields.lookup key = none then some .null else fields.lookup other := by
  unfold ensured
  cases hfound : fields.lookup key with
  | none =>
    simp only [Option.isSome_none, Bool.false_eq_true, if_false, and_true, Value.lookup_insertField]
  | some found => simp

omit [CharTables] in
theorem modifyItems_other (h : Open value) (hitems : ∀ items, value.get key ≠ some (.array items)) :
    modifyItems key change none_ value = .ok (.object (ensured key (fieldsOf value)), none_) := by
  rw [get_fieldsOf] at hitems
  have hnot : ∀ items, (ensured key (fieldsOf value)).lookup key ≠ some (.array items) := by
    intro items heq
    rw [lookup_ensured] at heq
    split_ifs at heq with hnone
    · cases heq
    · exact hitems items heq
  rw [modifyItems, entry_open h]
  dsimp only [bind, Except.bind]
  split
  · rename_i items heq
    exact absurd heq (hnot items)
  · rfl

def Kept (key : String) (change : List Value → Except Crash (List Value × α)) (none_ result : α)
    (fields : List (String × Value)) : Prop :=
  (∃ items, Value.Placed key (.array items) fields ∧ change items = .ok (items, result)) ∨
    (∃ found, fields.lookup key = some found ∧ (∀ items, found ≠ .array items) ∧ result = none_)

omit [CharTables] in
theorem modifyItems_kept (h : Kept key change none_ result fields) :
    modifyItems key change none_ (.object fields) = .ok (.object fields, result) := by
  rcases h with ⟨items, hplaced, hchange⟩ | ⟨found, hfound, hother, rfl⟩
  · rw [modifyItems_array (.inr ⟨fields, rfl⟩) (lookup_placed hplaced) hchange, fieldsOf, hplaced]
  · rw [modifyItems_other (.inr ⟨fields, rfl⟩), fieldsOf, ensured_of_lookup hfound]
    intro items heq
    rw [Value.get, hfound] at heq
    exact hother items (Option.some.inj heq)

/-- Nothing but one field has changed. -/
structure Beside (key : String) (fields fields' : List (String × Value)) : Prop where
  lookup : ∀ other, other ≠ key → fields'.lookup other = fields.lookup other
  placed : ∀ other found, other ≠ key → Value.Placed other found fields → Value.Placed other found fields'

omit [CharTables] in
theorem beside_insertField : Beside key fields (Value.insertField key new fields) where
  lookup _ hne := by rw [Value.lookup_insertField, if_neg hne]
  placed _ _ hne h := h.insertField hne

omit [CharTables] in
theorem beside_ensured : Beside key fields (ensured key fields) := by
  unfold ensured
  split_ifs
  · exact ⟨fun _ _ => rfl, fun _ _ _ h => h⟩
  · exact beside_insertField

omit [CharTables] in
theorem Kept.beside {other : String} {fields' : List (String × Value)} (h : Kept key change none_ result fields) (hne : key ≠ other)
    (hbeside : Beside other fields fields') : Kept key change none_ result fields' := by
  rcases h with ⟨items, hplaced, hchange⟩ | ⟨found, hfound, hother, hresult⟩
  · exact .inl ⟨items, hbeside.placed _ _ hne hplaced, hchange⟩
  · exact .inr ⟨found, (hbeside.lookup _ hne).trans hfound, hother, hresult⟩

omit [CharTables] in
/-- What a change of the elements of one array does, when it never fails. -/
theorem modifyItems_spec (key : String) (none_ : α) (h : Open value) (hchange : ∀ items, value.get key = some (.array items) →
    ∃ items' result, change items = .ok (items', result)) :
    ∃ fields result, modifyItems key change none_ value = .ok (.object fields, result) ∧ Beside key (fieldsOf value) fields ∧
      ((∃ items items', value.get key = some (.array items) ∧ change items = .ok (items', result) ∧
          Value.Placed key (.array items') fields) ∨
        ((∃ found, fields.lookup key = some found ∧ ∀ items, found ≠ .array items) ∧ result = none_)) := by
  by_cases hitems : ∃ items, value.get key = some (.array items)
  · obtain ⟨items, hitems⟩ := hitems
    obtain ⟨items', result, hdone⟩ := hchange items hitems
    exact ⟨_, result, modifyItems_array h hitems hdone, beside_insertField,
      .inl ⟨items, items', hitems, hdone, Value.placed_insertField⟩⟩
  · rw [not_exists] at hitems
    refine ⟨_, none_, modifyItems_other h hitems, beside_ensured, .inr ⟨?_, rfl⟩⟩
    rw [get_fieldsOf] at hitems
    rw [lookup_ensured]
    cases hfound : (fieldsOf value).lookup key with
    | none => exact ⟨.null, by simp, nofun⟩
    | some found => exact ⟨found, by simp, fun items heq => hitems items (hfound.trans (congrArg some heq))⟩

omit [CharTables] in
theorem of_modifyItems {result : Value × α} (h : modifyItems key change none_ value = .ok result) :
    Open value ∧ ∀ items, value.get key = some (.array items) → ∃ items' found, change items = .ok (items', found) := by
  obtain ⟨fields, hentry, -⟩ := Except.ok_of_bind h
  have hopen := open_of_entry hentry
  refine ⟨hopen, fun items hitems => ?_⟩
  rw [get_fieldsOf] at hitems
  simp only [modifyItems, entry_open hopen, ensured_of_lookup hitems, hitems, bind, Except.bind] at h
  cases hchange : change items with
  | error crash =>
    rw [hchange] at h
    cases h
  | ok changed => exact ⟨changed.1, changed.2, rfl⟩

theorem Apart.ids_nodup {used ids : List String} (h : Apart used ids) : ids.Nodup := .of_map _ h.nodup

theorem requirementOf_owner (h : OwnersApart [] [] owners) : ∀ owner ∈ owners, owners.requirementOf owner.1 = some owner.2 := by
  intro owner howner
  have hnodup : (owners.map (·.1)).Nodup := h.criteria.ids_nodup
  obtain ⟨before, after, rfl⟩ := append_of_mem howner
  refine lookup_eq_some_iff.mpr ⟨before, after, rfl, fun other hother => ?_⟩
  rw [map_append, nodup_append] at hnodup
  simpa using (hnodup.2.2 other.1 (mem_map_of_mem hother) owner.1 (by simp)).symm

theorem distinct_requirementIds (h : OwnersApart [] [] owners) : Distinct owners.requirementIds :=
  fun a ha b hb => h.requirements a (mem_requirementIds.mp ha) b (mem_requirementIds.mp hb)

def alone (change : List Value → Except Crash (List Value)) (items : List Value) : Except Crash (List Value × Unit) := do
  return (← change items, ())

omit [CharTables] in
theorem alone_ok {change : List Value → Except Crash (List Value)} {result : Unit} :
    alone change items = .ok (items', result) ↔ change items = .ok items' := by
  cases hchange : change items with
  | error crash => simp [alone, hchange, bind, Except.bind]
  | ok changed => simp [alone, hchange, bind, Except.bind, pure, Except.pure]

omit [CharTables] in
theorem changeItems_ok {change : List Value → Except Crash (List Value)} {value' : Value} :
    changeItems key change value = .ok value' ↔ modifyItems key (alone change) () value = .ok (value', ()) := by
  show (modifyItems key (alone change) () value >>= fun changed => Except.ok changed.1) = _ ↔ _
  cases hchange : modifyItems key (alone change) () value with
  | error crash => simp [bind, Except.bind]
  | ok changed => simp [bind, Except.bind, Prod.ext_iff]

/-- Everything that is written to when the plan is read has a place there. -/
structure Readable (value : Value) : Prop where
  whole : Open value
  requirements : ∀ items, value.get "requirements" = some (.array items) → ∀ item ∈ items, Open item
  tasks : ∀ items, value.get "tasks" = some (.array items) → ∀ item ∈ items, Open item

omit [CharTables] in
theorem of_changeItems {change : List Value → Except Crash (List Value)} {value' : Value}
    (h : changeItems key change value = .ok value') : Open value ∧
      ∀ items, value.get key = some (.array items) → ∃ items', change items = .ok items' := by
  obtain ⟨hopen, hitems⟩ := of_modifyItems (changeItems_ok.mp h)
  refine ⟨hopen, fun items hget => ?_⟩
  obtain ⟨items', _, hdone⟩ := hitems items hget
  exact ⟨items', alone_ok.mp hdone⟩

theorem open_of_numberEach {requirementIds criterionIds : Numbering} {numbered : List Value × Owners}
    (h : numberEach requirementIds criterionIds items = .ok numbered) : ∀ item ∈ items, Open item := by
  induction items generalizing requirementIds criterionIds numbered with
  | nil => nofun
  | cons item rest ih =>
    obtain ⟨⟨id, ids⟩, -, h⟩ := Except.ok_of_bind h
    obtain ⟨requirement, hassign, h⟩ := Except.ok_of_bind h
    obtain ⟨⟨criteria, known, criterionIds'⟩, -, h⟩ := Except.ok_of_bind h
    obtain ⟨requirement', -, h⟩ := Except.ok_of_bind h
    obtain ⟨numbered', hrest, -⟩ := Except.ok_of_bind h
    exact forall_mem_cons.mpr ⟨open_of_assign hassign, ih hrest⟩

theorem open_of_numberTaskList {tasks' : List Value} (h : numberTaskList owners numbers known tasks = .ok tasks') :
    ∀ task ∈ tasks, Open task := by
  induction tasks generalizing numbers known tasks' with
  | nil => nofun
  | cons task rest ih =>
    obtain ⟨⟨id, numbers'⟩, -, h⟩ := Except.ok_of_bind h
    obtain ⟨task', hnumber, h⟩ := Except.ok_of_bind h
    obtain ⟨rest', hrest, -⟩ := Except.ok_of_bind h
    obtain ⟨numbered, hassign, -⟩ := Except.ok_of_bind hnumber
    exact forall_mem_cons.mpr ⟨open_of_assign hassign, ih hrest⟩

omit [CharTables] in
theorem get_object : (Value.object fields).get key = fields.lookup key := rfl

omit [CharTables] in
theorem isWhitespace_letter {c : Char} (h : Text.isWhitespace c = false) : ∀ d ∈ [c], Text.isWhitespace d = false :=
  forall_mem_singleton.mpr h

theorem numberRequirements_ok (hdigits : DigitsKept) (hopen : Open value)
    (hitems : ∀ items, value.get "requirements" = some (.array items) → ∀ item ∈ items, Open item) :
    ∃ fields owners, numberRequirements value = .ok (.object fields, owners) ∧ Beside "requirements" (fieldsOf value) fields ∧
      Kept "requirements" (numberEach { head := "R" } { head := "C" }) [] owners fields ∧ OwnersApart [] [] owners := by
  have heach : ∀ items, value.get "requirements" = some (.array items) → ∃ numbered owners,
      numberEach { head := "R" } { head := "C" } items = .ok (numbered, owners) ∧
      numberEach { head := "R" } { head := "C" } numbered = .ok (numbered, owners) ∧ (∀ item ∈ numbered, Open item) ∧
      OwnersApart [] [] owners := fun items hget =>
    numberEach_ok hdigits (isWhitespace_letter (by decide)) (isWhitespace_letter (by decide)) (hitems items hget)
  obtain ⟨fields, owners, hdone, hbeside, hkept⟩ := modifyItems_spec "requirements" [] hopen fun items hget => by
    obtain ⟨numbered, owners, hnumber, -⟩ := heach items hget
    exact ⟨numbered, owners, hnumber⟩
  refine ⟨fields, owners, hdone, hbeside, ?_⟩
  rcases hkept with ⟨items, items', hget, hchange, hplaced⟩ | ⟨⟨found, hfound, hother⟩, rfl⟩
  · obtain ⟨numbered, owners', hnumber, hagain, -, hapart⟩ := heach items hget
    rw [hnumber] at hchange
    cases hchange
    exact ⟨.inl ⟨items', hplaced, hagain⟩, hapart⟩
  · exact ⟨.inr ⟨found, hfound, hother, rfl⟩, ⟨⟨nodup_nil, nofun⟩, nofun, nofun⟩⟩

theorem numberTasks_ok (hdigits : DigitsKept) (hopen : Open value)
    (hitems : ∀ items, value.get "tasks" = some (.array items) → ∀ item ∈ items, Open item) :
    ∃ fields, numberTasks owners value = .ok (.object fields) ∧ Beside "tasks" (fieldsOf value) fields ∧
      ∀ items, fields.lookup "tasks" = some (.array items) → AllSettled owners { head := "T" } [] items := by
  have hlist : ∀ items, value.get "tasks" = some (.array items) → ∃ tasks, numberTaskList owners { head := "T" } [] items = .ok tasks ∧
      AllSettled owners { head := "T" } [] tasks ∧ tasks.length = items.length := fun items hget =>
    numberTaskList_ok hdigits (isWhitespace_letter (by decide)) (hitems items hget)
  obtain ⟨fields, ⟨⟩, hdone, hbeside, hkept⟩ := modifyItems_spec "tasks" () hopen fun items hget => by
    obtain ⟨tasks, hnumber, -⟩ := hlist items hget
    exact ⟨tasks, (), alone_ok.mpr hnumber⟩
  refine ⟨fields, changeItems_ok.mpr hdone, hbeside, fun items hlookup => ?_⟩
  rcases hkept with ⟨before, after, hget, hchange, hplaced⟩ | ⟨⟨found, hfound, hother⟩, -⟩
  · obtain ⟨tasks, hnumber, hall, -⟩ := hlist before hget
    rw [alone_ok, hnumber] at hchange
    cases hchange
    rw [lookup_placed hplaced] at hlookup
    cases hlookup
    exact hall
  · rw [hfound] at hlookup
    exact absurd (Option.some.inj hlookup) (hother items)

theorem coverOrphans_ok (howners : OwnersApart [] [] owners)
    (hsettled : ∀ items, fields.lookup "tasks" = some (.array items) → AllSettled owners { head := "T" } [] items) :
    ∃ fields', coverOrphans owners (.object fields) = .ok (.object fields') ∧ Beside "tasks" fields fields' ∧
      Kept "tasks" (alone (numberTaskList owners { head := "T" } [])) () () fields' ∧
      Kept "tasks" (alone (coverTasks owners)) () () fields' := by
  have hcoverAll : ∀ items, fields.lookup "tasks" = some (.array items) → ∃ tasks', coverTasks owners items = .ok tasks' ∧
      AllSettled owners { head := "T" } [] tasks' ∧ coverTasks owners tasks' = .ok tasks' := fun items hget =>
    coverTasks_ok (requirementOf_owner howners) (hsettled items hget)
  obtain ⟨fields', ⟨⟩, hdone, hbeside, hkept⟩ := modifyItems_spec "tasks" () (.inr ⟨fields, rfl⟩) fun items hget => by
    obtain ⟨tasks', hcover, -⟩ := hcoverAll items hget
    exact ⟨tasks', (), alone_ok.mpr hcover⟩
  refine ⟨fields', changeItems_ok.mpr hdone, hbeside, ?_⟩
  rcases hkept with ⟨before, after, hget, hchange, hplaced⟩ | ⟨⟨found, hfound, hother⟩, -⟩
  · obtain ⟨tasks', hcover, hall, hagain⟩ := hcoverAll before hget
    rw [alone_ok, hcover] at hchange
    cases hchange
    refine ⟨.inl ⟨after, hplaced, alone_ok.mpr ?_⟩, .inl ⟨after, hplaced, alone_ok.mpr hagain⟩⟩
    exact numberTaskList_again howners.criteria.distinct (distinct_requirementIds howners) ⟨nofun, nofun⟩ hall
  · exact ⟨.inr ⟨found, hfound, hother, rfl⟩, .inr ⟨found, hfound, hother, rfl⟩⟩

/-- The repair of a readable plan succeeds, and a second repair changes nothing. -/
theorem canonicalize_ok (hdigits : DigitsKept) (h : Readable value) :
    ∃ value', canonicalize value = .ok value' ∧ canonicalize value' = .ok value' := by
  obtain ⟨first, owners, hfirst, hbeside, hrequirements, howners⟩ := numberRequirements_ok hdigits h.whole h.requirements
  obtain ⟨second, hsecond, hbeside', hsettled⟩ := numberTasks_ok hdigits (.inr ⟨first, rfl⟩)
    fun items hitems => h.tasks items (by
      rw [get_fieldsOf, ← hbeside.lookup _ (by decide)]
      exact hitems)
  obtain ⟨third, hthird, hbeside'', htasks, hcovered⟩ := coverOrphans_ok howners hsettled
  have hrequirements' := (hrequirements.beside (by decide) hbeside').beside (by decide) hbeside''
  refine ⟨.object third, ?_, ?_⟩
  · simp only [canonicalize, hfirst, hsecond, hthird, bind, Except.bind]
  · simp only [canonicalize, numberRequirements, modifyItems_kept hrequirements', numberTasks,
      changeItems_ok.mpr (modifyItems_kept htasks), coverOrphans, changeItems_ok.mpr (modifyItems_kept hcovered), bind, Except.bind]

/-- Where the repair does not panic, everything had its place. -/
theorem readable_of_canonicalize {value' : Value} (h : canonicalize value = .ok value') : Readable value := by
  obtain ⟨⟨first, owners⟩, hfirst, h⟩ := Except.ok_of_bind h
  obtain ⟨second, hsecond, -⟩ := Except.ok_of_bind h
  obtain ⟨hopen, hrequirements⟩ := of_modifyItems hfirst
  obtain ⟨-, htasks⟩ := of_changeItems hsecond
  refine ⟨hopen, fun items hitems => ?_, fun items hitems => ?_⟩
  · obtain ⟨items', found, hchange⟩ := hrequirements items hitems
    exact open_of_numberEach hchange
  · obtain ⟨fields, result, hfirst', hbeside, -⟩ := modifyItems_spec "requirements" [] hopen hrequirements
    rw [numberRequirements, hfirst'] at hfirst
    cases hfirst
    obtain ⟨items', hchange⟩ := htasks items (by
      rw [get_object, hbeside.lookup _ (by decide), ← get_fieldsOf]
      exact hitems)
    exact open_of_numberTaskList hchange

end

section

/-- What the checks of a plan are for. -/
structure WellFormed (plan : Plan) : Prop where
  requirements : (plan.requirements.map (·.id)).Nodup
  criteria : ((plan.requirements.flatMap (·.criteria)).map (·.id)).Nodup
  tasks : (plan.tasks.map (·.id)).Nodup
  earlier : ∀ before task after, plan.tasks = before ++ task :: after → ∀ id ∈ task.dependsOn, id ∈ before.map (·.id)
  covered : ∀ requirement ∈ plan.requirements, ∀ criterion ∈ requirement.criteria,
    ∃ task ∈ plan.tasks, criterion.id ∈ task.criterionIds ∧ requirement.id ∈ task.requirementIds

def Requirement.owned (requirement : Requirement) : Owners := requirement.criteria.map fun criterion => (criterion.id, requirement.id)

variable {plan : Plan} {requirement : Requirement} {requirements : List Requirement} {owners owners' : Owners}

theorem fresh_of_lookup {criterion : String} (h : ¬(owners.lookup criterion).isSome) : criterion ∉ owners.map (·.1) := by
  intro hmem
  obtain ⟨owner, howner, rfl⟩ := mem_map.mp hmem
  rw [Bool.not_eq_true, Option.isSome_eq_false_iff, Option.isNone_iff_eq_none, lookup_eq_none_iff] at h
  simpa using h owner howner

theorem checkCriteria_spec {criteria : List Criterion} (hnodup : (owners.map (·.1)).Nodup)
    (h : checkCriteria requirement owners criteria = .ok owners') : (owners'.map (·.1)).Nodup ∧
      owners' = (criteria.map fun criterion => (criterion.id, requirement.id)).reverse ++ owners := by
  induction criteria generalizing owners with
  | nil =>
    cases h
    exact ⟨hnodup, rfl⟩
  | cons criterion rest ih =>
    rw [checkCriteria] at h
    split at h
    · cases h
    · rename_i husable
      simp only [Bool.or_eq_true, not_or] at husable
      have hmore : (((criterion.id, requirement.id) :: owners).map (·.1)).Nodup :=
        nodup_cons.mpr ⟨fresh_of_lookup husable.2, hnodup⟩
      obtain ⟨hnodup', rfl⟩ := ih hmore h
      exact ⟨hnodup', by simp⟩

theorem checkRequirements_spec (owners : Owners) {seen : List String} (hnodup : (owners.map (·.1)).Nodup)
    (h : checkRequirements seen owners requirements = .ok owners') : (owners'.map (·.1)).Nodup ∧
      owners' = (requirements.flatMap Requirement.owned).reverse ++ owners ∧ (requirements.map (·.id)).Nodup ∧
      ∀ requirement ∈ requirements, requirement.id ∉ seen := by
  induction requirements generalizing seen owners with
  | nil =>
    cases h
    exact ⟨hnodup, rfl, nodup_nil, nofun⟩
  | cons requirement rest ih =>
    rw [checkRequirements] at h
    split at h
    · cases h
    · rename_i hcomplete
      simp only [Bool.or_eq_true, not_or, contains_eq_mem, decide_eq_true_eq] at hcomplete
      split at h
      · cases h
      · rename_i middle hcriteria
        obtain ⟨hmiddle, rfl⟩ := checkCriteria_spec hnodup hcriteria
        obtain ⟨hnodup', rfl, hids, hfresh⟩ := ih _ hmiddle h
        refine ⟨hnodup', by simp [Requirement.owned], ?_, forall_mem_cons.mpr ⟨hcomplete.1.2, fun other hother hmem =>
          hfresh other hother (mem_cons_of_mem _ hmem)⟩⟩
        refine nodup_cons.mpr ⟨fun hmem => ?_, hids⟩
        obtain ⟨other, hother, hsame⟩ := mem_map.mp hmem
        exact hfresh other hother (hsame ▸ mem_cons_self)

theorem checkCoverage_spec {task : Task} {criteria : List String} (h : checkCoverage task owners criteria = .ok ()) :
    ∀ criterion ∈ criteria, ∃ owner ∈ task.requirementIds, owners.lookup criterion = some owner := by
  induction criteria with
  | nil => nofun
  | cons criterion rest ih =>
    rw [checkCoverage] at h
    split at h
    · cases h
    · rename_i owner howner
      split at h
      · rename_i hcontains
        exact forall_mem_cons.mpr ⟨⟨owner, contains_iff_mem.mp hcontains, howner⟩, ih h⟩
      · cases h

theorem checkTask_spec {task : Task} {earlier names : List String} (h : checkTask task earlier names owners = .ok ()) :
    (∀ id ∈ task.dependsOn, id ∈ earlier) ∧
      ∀ criterion ∈ task.criterionIds, ∃ owner ∈ task.requirementIds, owners.lookup criterion = some owner := by
  rw [checkTask] at h
  split_ifs at h with _ _ hdepends _
  refine ⟨fun id hid => ?_, checkCoverage_spec h⟩
  simp only [any_eq_true, not_exists, not_and, Bool.not_eq_true', Bool.not_eq_false, contains_iff_mem] at hdepends
  exact hdepends id hid

/-- Dependencies come earlier in the list, and coverage adds up. -/
theorem checkTasks_spec {names seen covered : List String} {tasks : List Task}
    (h : checkTasks names owners seen covered tasks = .ok ()) :
    (∀ before task after, tasks = before ++ task :: after → ∀ id ∈ task.dependsOn, id ∈ seen ∨ id ∈ before.map (·.id)) ∧
      (∀ task ∈ tasks, ∀ criterion ∈ task.criterionIds, ∃ owner ∈ task.requirementIds, owners.lookup criterion = some owner) ∧
      (covered ++ tasks.flatMap (·.criterionIds)).dedup.length = owners.length := by
  induction tasks generalizing seen covered with
  | nil =>
    rw [checkTasks] at h
    split_ifs at h with hlength
    exact ⟨fun before task after heq => absurd heq (by simp), nofun, by simpa using hlength⟩
  | cons first rest ih =>
    rw [checkTasks] at h
    split at h
    · cases h
    · rename_i hcheck
      obtain ⟨hdepends, howned⟩ := checkTask_spec hcheck
      obtain ⟨hearlier, hall, hlength⟩ := ih h
      refine ⟨fun before task after heq id hid => ?_, forall_mem_cons.mpr ⟨howned, hall⟩, ?_⟩
      · cases before with
        | nil =>
          obtain ⟨rfl, rfl⟩ := List.cons.inj heq
          exact .inl (hdepends id hid)
        | cons other before =>
          obtain ⟨rfl, rfl⟩ := List.cons.inj heq
          rcases hearlier before task after rfl id hid with hseen | hbefore
          · rcases mem_cons.mp hseen with rfl | hseen
            · exact .inr mem_cons_self
            · exact .inl hseen
          · exact .inr (mem_cons_of_mem _ hbefore)
      · rw [flatMap_cons, ← append_assoc]
        exact hlength

/-- A plan that passes is well formed. -/
theorem wellFormed_of_checkPlan (h : checkPlan plan = .ok ()) : WellFormed plan := by
  have htasks := nodup_of_checkPlan h
  rw [checkPlan] at h
  split at h
  · cases h
  · split at h
    · cases h
    · rename_i owners howners
      obtain ⟨hnodup, rfl, hids, -⟩ := checkRequirements_spec [] nodup_nil howners
      obtain ⟨hearlier, howned, hlength⟩ := checkTasks_spec h
      rw [append_nil] at hnodup hlength howned
      have hcriteria : ((plan.requirements.flatMap (·.criteria)).map (·.id)) =
          (plan.requirements.flatMap Requirement.owned).map (·.1) := by
        simp [Requirement.owned, map_flatMap, Function.comp_def]
      have hcriteria' : ((plan.requirements.flatMap Requirement.owned).map (·.1)).Nodup := by
        rw [map_reverse, nodup_reverse] at hnodup
        exact hnodup
      -- as many criteria are covered as there are, so all are
      have hall : (plan.requirements.flatMap Requirement.owned).map (·.1) ⊆ plan.tasks.flatMap (·.criterionIds) := by
        have hsub : (plan.tasks.flatMap (·.criterionIds)).dedup ⊆ (plan.requirements.flatMap Requirement.owned).map (·.1) := by
          intro criterion hcriterion
          obtain ⟨task, htask, hnamed⟩ := mem_flatMap.mp (mem_dedup.mp hcriterion)
          obtain ⟨owner, -, hlookup⟩ := howned task htask criterion hnamed
          exact mem_map_of_mem (f := (·.1)) (mem_reverse.mp (requirementOf_mem hlookup))
        have hperm := (subperm_of_subset (nodup_dedup _) hsub).perm_of_length_le
          (by simpa using hlength.ge)
        exact fun criterion hcriterion => mem_dedup.mp (hperm.mem_iff.mpr hcriterion)
      refine ⟨hids, hcriteria ▸ hcriteria', htasks, fun before task after heq id hid => ?_, fun requirement hrequirement criterion
        hcriterion => ?_⟩
      · exact (hearlier before task after heq id hid).resolve_left not_mem_nil
      · have hpair : (criterion.id, requirement.id) ∈ plan.requirements.flatMap Requirement.owned :=
          mem_flatMap.mpr ⟨requirement, hrequirement, mem_map_of_mem hcriterion⟩
        obtain ⟨task, htask, hnamed⟩ := mem_flatMap.mp (hall (mem_map_of_mem (f := (·.1)) hpair))
        obtain ⟨owner, howner, hlookup⟩ := howned task htask criterion.id hnamed
        have hsame := inj_on_of_nodup_map hcriteria' (mem_reverse.mp (requirementOf_mem hlookup)) hpair rfl
        exact ⟨task, htask, hnamed, (Prod.mk.inj hsame).2 ▸ howner⟩

variable {e : QueueError}

theorem checkCriteria_code {criteria : List Criterion} (h : checkCriteria requirement owners criteria = .error e) :
    e.code = "invalid_task_plan" := by
  induction criteria generalizing owners with
  | nil => cases h
  | cons criterion rest ih =>
    rw [checkCriteria] at h
    split at h
    · cases h
      rfl
    · exact ih h

theorem checkRequirements_code {seen : List String} (h : checkRequirements seen owners requirements = .error e) :
    e.code = "invalid_task_plan" := by
  induction requirements generalizing seen owners with
  | nil => cases h
  | cons requirement rest ih =>
    rw [checkRequirements] at h
    split at h
    · cases h
      rfl
    · split at h
      · rename_i hcriteria
        cases h
        exact checkCriteria_code hcriteria
      · exact ih h

theorem checkCoverage_code {task : Task} {criteria : List String} (h : checkCoverage task owners criteria = .error e) :
    e.code = "invalid_task_plan" := by
  induction criteria with
  | nil => cases h
  | cons criterion rest ih =>
    rw [checkCoverage] at h
    split at h
    · cases h
      rfl
    · split at h
      · exact ih h
      · cases h
        rfl

theorem checkTask_code {task : Task} {earlier names : List String} (h : checkTask task earlier names owners = .error e) :
    e.code = "invalid_task_plan" := by
  rw [checkTask] at h
  split_ifs at h
  · cases h
    rfl
  · cases h
    rfl
  · cases h
    rfl
  · cases h
    rfl
  · exact checkCoverage_code h

theorem checkTasks_code {names seen covered : List String} {tasks : List Task}
    (h : checkTasks names owners seen covered tasks = .error e) : e.code = "invalid_task_plan" := by
  induction tasks generalizing seen covered with
  | nil =>
    rw [checkTasks] at h
    split_ifs at h
    cases h
    rfl
  | cons task rest ih =>
    rw [checkTasks] at h
    split at h
    · rename_i hcheck
      cases h
      exact checkTask_code hcheck
    · exact ih h

/-- Every refusal carries one code. -/
theorem checkPlan_code (h : checkPlan plan = .error e) : e.code = "invalid_task_plan" := by
  rw [checkPlan] at h
  split at h
  · rename_i hbounds
    cases h
    rw [checkBounds] at hbounds
    split_ifs at hbounds
    cases hbounds
    rfl
  · split at h
    · rename_i hrequirements
      cases h
      exact checkRequirements_code hrequirements
    · exact checkTasks_code h

end

theorem unmixFlow_ok (offered : String → Bool) (task : Value) : ∃ task', unmixFlow offered task = .ok task' := by
  unfold unmixFlow
  split
  · exact ⟨task, rfl⟩
  · rename_i flow hflow
    split_ifs
    · exact ⟨task, rfl⟩
    · -- only an object has a flow
      have hopen : Open task := by
        cases task with
        | object fields => exact .inr ⟨fields, rfl⟩
        | _ => cases hflow
      rw [assign_open _ _ hopen]
      exact ⟨_, rfl⟩
    · cases task <;> exact ⟨_, rfl⟩

theorem unmixFlows_ok (offered : String → Bool) {value : Value} (h : Open value) :
    ∃ value', unmixFlows offered value = .ok value' := by
  have hall : ∀ items : List Value, ∃ items', items.mapM (unmixFlow offered) = .ok items' := by
    intro items
    induction items with
    | nil => exact ⟨[], rfl⟩
    | cons task rest ih =>
      obtain ⟨task', htask⟩ := unmixFlow_ok offered task
      obtain ⟨rest', hrest⟩ := ih
      exact ⟨task' :: rest', by rw [mapM_cons, htask, hrest]; rfl⟩
  obtain ⟨fields, ⟨⟩, hdone, -⟩ := modifyItems_spec "tasks" () h fun items _ => by
    obtain ⟨items', hitems⟩ := hall items
    exact ⟨items', (), alone_ok.mpr hitems⟩
  exact ⟨_, changeItems_ok.mpr hdone⟩

section

variable [CharTables] [PlanExternals]

def Reported : Except QueueError Plan → Prop
  | .ok plan => WellFormed plan
  | .error e => e.code = "invalid_task_plan"

structure Reads (value : Value) : Prop where
  read : ∃ result, plan value = .ok result ∧ Reported result
  repaired : ∃ value', canonicalize value = .ok value' ∧ canonicalize value' = .ok value'
  unmixed : ∀ offered, ∃ value', unmixFlows offered value = .ok value'

theorem plan_reported {value' : Value} (h : canonicalize value = .ok value') : ∃ result, plan value = .ok result ∧ Reported result := by
  rw [plan, h]
  dsimp only [bind, Except.bind]
  cases readPlan value' with
  | none => exact ⟨_, rfl, rfl⟩
  | some plan =>
    refine ⟨_, rfl, ?_⟩
    cases hcheck : checkPlan plan with
    | error e => exact checkPlan_code hcheck
    | ok _ => exact wellFormed_of_checkPlan hcheck

/-- A value is read without a panic when what is written to it has a place there, and only then. -/
theorem reads_iff (hdigits : DigitsKept) (value : Value) : Reads value ↔ Readable value := by
  constructor
  · intro h
    obtain ⟨value', hvalue, -⟩ := h.repaired
    exact readable_of_canonicalize hvalue
  · intro h
    obtain ⟨value', hfirst, hagain⟩ := canonicalize_ok hdigits h
    exact ⟨plan_reported hfirst, ⟨value', hfirst, hagain⟩, fun offered => unmixFlows_ok offered h.whole⟩

end

namespace Unread

/-- The tables for letters and digits of ASCII. -/
scoped instance : CharTables := ⟨Char.isAlphanum, fun c => [c.toLower]⟩

scoped instance : PlanExternals := ⟨fun _ => "missing field"⟩

theorem digitsKept : DigitsKept := by
  intro c hc
  have hupper : ¬(c.val ≥ 'A'.val ∧ c.val ≤ 'Z'.val) := by
    simp only [Char.isDigit, Bool.and_eq_true, decide_eq_true_eq, ge_iff_le, UInt32.le_iff_toNat_le] at hc ⊢
    have : '9'.val.toNat = 57 := rfl
    have : 'A'.val.toNat = 65 := rfl
    omega
  have hsame : c.toLower = c := by rw [Char.toLower, dif_neg hupper]
  exact ⟨by simp [CharTables.isAlphanumeric, Char.isAlphanum, hc], congrArg (fun d => [d]) hsame⟩

def planned : Value := .object [("requirements", .array [.object [("title", .string "A page")]]),
  ("tasks", .array [.object [("title", .string "build the page")], .null])]

theorem reads_planned : DigitsKept ∧ Readable planned ∧ Reads planned := by
  have hreadable : Readable planned := by
    refine ⟨Or.inr ⟨_, rfl⟩, fun items hitems item hitem => ?_, fun items hitems item hitem => ?_⟩
    · cases hitems
      exact Or.inr ⟨_, mem_singleton.mp hitem⟩
    · cases hitems
      rcases mem_pair.mp hitem with rfl | rfl
      · exact Or.inr ⟨_, rfl⟩
      · exact Or.inl rfl
  exact ⟨digitsKept, hreadable, (reads_iff digitsKept planned).mpr hreadable⟩

def textTask : Value := .object [("requirements", .array []), ("tasks", .array [.string "build the page"])]

theorem textTask_panics : plan textTask = .error (.access "id" (.string "build the page")) ∧ ¬Reads textTask := by
  have hpanic : plan textTask = .error (.access "id" (.string "build the page")) := rfl
  refine ⟨hpanic, fun h => ?_⟩
  obtain ⟨result, hresult, -⟩ := h.read
  rw [hpanic] at hresult
  cases hresult

end Unread

end RustyCore.TaskQueue
