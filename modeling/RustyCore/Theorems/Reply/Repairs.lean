import RustyCore.Theorems.Reply.Reading

/-! The repair of a value, followed to its parts: they are named by paths, and each is repaired as often as the names on
    its path are required. What becomes of a status in the course of its repairs, and when it ends as `pass`. -/

namespace RustyCore

open List

namespace Value

/-- A way into a value: a field of an object or an element of an array. -/
inductive Step where
  | field (name : String)
  | index (i : Nat)

def Step.isIndex : Step → Bool
  | .index _ => true
  | .field _ => false

def childAt : Value → Step → Option Value
  | .object fields, .field name => fields.lookup name
  | .array items, .index i => items[i]?
  | _, _ => none

def at? (v : Value) (path : List Step) : Option Value := path.foldlM childAt v

theorem depth_le_of_lookup {fields : List (String × Value)} {name : String} {v : Value}
    (h : fields.lookup name = some v) : v.depth ≤ depthFields fields := by
  induction fields with
  | nil => cases h
  | cons field rest ih =>
    obtain ⟨key, value⟩ := field
    rw [lookup_cons_if] at h
    rw [depthFields]
    split_ifs at h
    · cases h
      exact le_max_left _ _
    · exact (ih h).trans (le_max_right _ _)

theorem depth_lt_of_get {v found : Value} {name : String} (h : v.get name = some found) : found.depth < v.depth := by
  cases v with
  | object fields => exact Nat.lt_succ_of_le (depth_le_of_lookup h)
  | _ => cases h

theorem depth_pos (v : Value) : 0 < v.depth := by
  cases v <;> simp [depth]

end Value

namespace Reply

open Text Value

variable {schema p item : Value} {fields : Fields} {name status : String}

def childSchema (schema : Value) : Step → Option Value
  | .field name => property schema name
  | .index _ => schema.get "items"

def schemaAt (schema : Value) (path : List Step) : Option Value := path.foldlM childSchema schema

def occurrences (schema : Value) : Step → Nat
  | .field name => (properties schema).countP (·.1 == name)
  | .index _ => 1

/-- How often the repair comes past a path: a property that is listed twice is repaired twice. -/
def times (schema : Value) : List Step → Nat
  | [] => 1
  | step :: rest =>
    match childSchema schema step with
    | some child => occurrences schema step * times child rest
    | none => 0

theorem depth_childSchema (step : Step) {child : Value} (h : childSchema schema step = some child) :
    child.depth < schema.depth := by
  cases step with
  | field name =>
    rw [childSchema, property, propertyMap] at h
    split at h
    · rename_i props hprops
      exact (Value.depth_lt_of_get hprops).trans' (Nat.lt_succ_of_le (depth_le_of_lookup h))
    · cases h
  | index i => exact depth_lt_of_get h

theorem occurrences_pos {step : Step} {child : Value} (h : childSchema schema step = some child) :
    0 < occurrences schema step := by
  cases step with
  | field name => exact countP_pos_iff.mpr ⟨(name, child), mem_properties.mpr h, beq_self_eq_true name⟩
  | index i => exact Nat.one_pos

theorem times_pos {path : List Step} {found : Value} (h : schemaAt schema path = some found) : 0 < times schema path := by
  induction path generalizing schema with
  | nil => exact Nat.one_pos
  | cons step rest ih =>
    obtain ⟨child, hchild, hrest⟩ := Option.bind_eq_some_iff.mp h
    rw [times, hchild]
    exact Nat.mul_pos (occurrences_pos hchild) (ih hrest)

/-- The depth of the schema bounds the recursion, so any fuel beyond it is enough. -/
theorem repairAt_eq {n m : Nat} (hn : schema.depth ≤ n) (hm : schema.depth ≤ m) (v : Value) :
    repairAt n schema v = repairAt m schema v := by
  induction n generalizing m schema v with
  | zero => exact absurd hn (not_le.mpr (depth_pos schema))
  | succ n ih =>
    obtain ⟨m, rfl⟩ : ∃ k, m = k + 1 := Nat.exists_eq_add_one.mpr ((depth_pos schema).trans_le hm)
    have hchild : ∀ (step : Step) (child : Value), childSchema schema step = some child → ∀ v,
        repairAt n child v = repairAt m child v := by
      intro step child h v
      have hlt := depth_childSchema step h
      exact ih (by omega) (by omega) v
    cases v with
    | array items =>
      rw [repairAt, repairAt]
      cases hitems : schema.get "items" with
      | none => rfl
      | some child => exact congrArg Value.array (map_congr_left fun v _ => hchild (.index 0) child hitems v)
    | object fields =>
      rw [repairAt, repairAt]
      refine congrArg Value.object (foldl_ext _ _ _ fun fields prop hprop => ?_)
      obtain ⟨name, p⟩ := prop
      exact congrArg (modifyField name · fields) (funext fun v => hchild (.field name) p (mem_properties.mp hprop) _)
    | _ => rfl

theorem repair_string (text : String) : repair schema (.string text) = .string (repairText schema text) := by
  obtain ⟨n, hn⟩ : ∃ n, schema.depth = n + 1 := Nat.exists_eq_add_one.mpr (depth_pos schema)
  rw [repair, hn]
  rfl

theorem repair_array {items : List Value} (h : schema.get "items" = some p) :
    repair schema (.array items) = .array (items.map (repair p)) := by
  obtain ⟨n, hn⟩ : ∃ n, schema.depth = n + 1 := Nat.exists_eq_add_one.mpr (depth_pos schema)
  have hlt := depth_lt_of_get h
  rw [repair, hn, repairAt, h]
  exact congrArg Value.array (map_congr_left fun v _ => repairAt_eq (by omega) le_rfl v)

def idIn (fields : Fields) : Option String := (fields.lookup "id").bind Value.asStr

def repairField (id : Option String) (p field : Value) : Value := repair p (takeId id p field)

theorem repair_object : repair schema (.object fields) = .object ((properties schema).foldl (fun out prop =>
    modifyField prop.1 (repairField (idIn fields) prop.2) out) fields) := by
  obtain ⟨n, hn⟩ : ∃ n, schema.depth = n + 1 := Nat.exists_eq_add_one.mpr (depth_pos schema)
  rw [repair, hn, repairAt]
  refine congrArg Value.object (foldl_ext _ _ _ fun out prop hprop => ?_)
  obtain ⟨name, p⟩ := prop
  have hlt := depth_childSchema (.field name) (mem_properties.mp hprop)
  exact congrArg (modifyField name · out) (funext fun v => repairAt_eq (by omega) le_rfl _)

theorem lookup_modifyField (change : Value → Value) {other : String} : (modifyField other change fields).lookup name =
    (fields.lookup name).map fun value => if name = other then change value else value := by
  induction fields with
  | nil => rfl
  | cons field rest ih =>
    obtain ⟨key, value⟩ := field
    rw [modifyField, map_cons, lookup_cons_if, lookup_cons_if]
    by_cases hkey : name = key
    · simp [hkey]
    · rw [if_neg hkey, if_neg hkey]
      exact ih

theorem lookup_repair {fields' : Fields} (hp : property schema name = some p)
    (h : repair schema (.object fields) = .object fields') : fields'.lookup name =
      (fields.lookup name).map (repairField (idIn fields) p)^[occurrences schema (.field name)] := by
  rw [repair_object] at h
  cases h
  have hfold : ∀ (props : List (String × Value)) (out : Fields),
      (∀ prop ∈ props, prop.1 = name → prop.2 = p) →
      (props.foldl (fun out prop => modifyField prop.1 (repairField (idIn fields) prop.2) out) out).lookup name =
        (out.lookup name).map (repairField (idIn fields) p)^[props.countP (·.1 == name)] := by
    intro props
    induction props with
    | nil =>
      intro out _
      simp
    | cons prop props ih =>
      intro out hprops
      rw [foldl_cons, ih _ fun other hother => hprops other (by simp [hother]), lookup_modifyField, Option.map_map,
        countP_cons]
      by_cases hname : prop.1 = name
      · rw [hprops prop (by simp) hname, if_pos (beq_iff_eq.mpr hname), Function.iterate_succ]
        simp [hname, Function.comp_def]
      · rw [if_neg (by simpa using hname)]
        simp [Ne.symm hname, Function.comp_def]
  refine hfold _ _ fun prop hprop hname => ?_
  have hfound := mem_properties.mp hprop
  rw [hname, hp] at hfound
  exact (Option.some.inj hfound).symm

theorem takeId_of_not_text {id : Option String} {field : Value} (h : field.asStr = none) : takeId id p field = field := by
  unfold takeId
  split
  · cases h
  · rfl

theorem takeId_text (id : Option String) (p : Value) (text : String) : takeId id p (.string text) =
    .string (if isBlank text && needsText p then id.getD text else text) := by
  cases id with
  | none => simp [takeId]
  | some id =>
    rw [takeId]
    split <;> rfl

theorem asStr_repair (p v : Value) : (repair p v).asStr.isSome = v.asStr.isSome := by
  obtain ⟨n, hn⟩ : ∃ n, p.depth = n + 1 := Nat.exists_eq_add_one.mpr (depth_pos p)
  cases v with
  | string text =>
    rw [repair_string]
    simp only [asStr, Option.isSome_some]
  | array items =>
    rw [repair, hn, repairAt]
    split <;> rfl
  | _ =>
    rw [repair, hn]
    rfl

theorem asStr_repairField (id : Option String) (p field : Value) :
    (repairField id p field).asStr.isSome = field.asStr.isSome := by
  rw [repairField, asStr_repair]
  cases field with
  | string text =>
    rw [takeId_text]
    simp only [asStr, Option.isSome_some]
  | _ => rw [takeId_of_not_text rfl]

theorem asStr_iterate {f : Value → Value} (hf : ∀ v, (f v).asStr.isSome = v.asStr.isSome) (n : Nat) (v : Value) :
    (f^[n] v).asStr.isSome = v.asStr.isSome := by
  induction n generalizing v with
  | zero => rfl
  | succ n ih => rw [Function.iterate_succ_apply, ih, hf]

theorem asStr_eq_none {v : Value} : v.asStr = none ↔ v.asStr.isSome = false := by
  rw [Option.isSome_eq_false_iff, Option.isNone_iff_eq_none]

theorem iterate_repairField {id : Option String} {field : Value} (h : field.asStr = none) (n : Nat) :
    (repairField id p)^[n] field = (repair p)^[n] field := by
  induction n generalizing field with
  | zero => rfl
  | succ n ih =>
    have hrepaired : (repair p field).asStr = none := by rw [asStr_eq_none, asStr_repair, ← asStr_eq_none, h]
    rw [Function.iterate_succ_apply, Function.iterate_succ_apply, repairField, takeId_of_not_text h, ih hrepaired]

/-- The repair goes on in every child that the schema knows, and adds none. -/
theorem childAt_repair {v : Value} {step : Step} {child : Value} (hchild : childSchema schema step = some child) :
    (v.childAt step = none ∧ (repair schema v).childAt step = none) ∨
      ∃ part part', v.childAt step = some part ∧ (repair schema v).childAt step = some part' ∧
        part'.asStr.isSome = part.asStr.isSome ∧
        (part.asStr = none ∨ step.isIndex → part' = (repair child)^[occurrences schema step] part) := by
  obtain ⟨n, hn⟩ : ∃ n, schema.depth = n + 1 := Nat.exists_eq_add_one.mpr (depth_pos schema)
  cases v with
  | object fields =>
    cases step with
    | index i => exact Or.inl ⟨rfl, by rw [repair_object]; rfl⟩
    | field name =>
      obtain ⟨fields', h⟩ : ∃ fields', repair schema (.object fields) = .object fields' := ⟨_, repair_object⟩
      rw [h, childAt, childAt, lookup_repair hchild h]
      cases fields.lookup name with
      | none => exact Or.inl ⟨rfl, rfl⟩
      | some part =>
        exact Or.inr ⟨part, _, rfl, rfl, asStr_iterate (asStr_repairField _ _) _ _, fun hpart =>
          iterate_repairField (hpart.resolve_right Bool.false_ne_true) _⟩
  | array items =>
    cases step with
    | field name =>
      refine Or.inl ⟨rfl, ?_⟩
      rw [repair, hn, repairAt]
      split <;> rfl
    | index i =>
      rw [repair_array hchild, childAt, childAt, List.getElem?_map]
      cases items[i]? with
      | none => exact Or.inl ⟨rfl, rfl⟩
      | some part => exact Or.inr ⟨part, _, rfl, rfl, asStr_repair _ _, fun _ => rfl⟩
  | _ => exact Or.inl ⟨rfl, by rw [repair, hn]; rfl⟩

theorem childAt_iterate {v : Value} {step : Step} {child : Value} (hchild : childSchema schema step = some child)
    (m : Nat) : (v.childAt step = none ∧ ((repair schema)^[m] v).childAt step = none) ∨
      ∃ part part', v.childAt step = some part ∧ ((repair schema)^[m] v).childAt step = some part' ∧
        part'.asStr.isSome = part.asStr.isSome ∧
        (part.asStr = none ∨ step.isIndex → part' = (repair child)^[occurrences schema step * m] part) := by
  induction m generalizing v with
  | zero =>
    cases h : v.childAt step with
    | none => exact Or.inl ⟨rfl, h⟩
    | some part => exact Or.inr ⟨part, part, rfl, h, rfl, fun _ => rfl⟩
  | succ m ih =>
    rw [Function.iterate_succ_apply]
    rcases childAt_repair (v := v) hchild with ⟨hnone, hnone'⟩ | ⟨part, part', hpart, hpart', htext, hrepaired⟩
    · rcases ih (v := repair schema v) with ⟨-, h⟩ | ⟨_, _, h, -⟩
      · exact Or.inl ⟨hnone, h⟩
      · rw [hnone'] at h
        cases h
    · rcases ih (v := repair schema v) with ⟨h, -⟩ | ⟨_, final, h, hfinal, htext', hrepaired'⟩
      · rw [hpart'] at h
        cases h
      · rw [hpart'] at h
        cases h
        refine Or.inr ⟨part, final, hpart, hfinal, htext'.trans htext, fun hnot => ?_⟩
        have hnot' : part'.asStr = none ∨ step.isIndex := by
          rwa [asStr_eq_none, htext, ← asStr_eq_none]
        rw [hrepaired' hnot', hrepaired hnot, ← Function.iterate_add_apply, Nat.mul_succ]

theorem at?_cons {v : Value} {step : Step} {path : List Step} : v.at? (step :: path) = (v.childAt step).bind (·.at? path) :=
  rfl

theorem at?_text {v : Value} (h : v.asStr.isSome) (path : List Step) (step : Step) : v.at? (path ++ [step]) = none := by
  cases v with
  | string text => cases path <;> rfl
  | _ => cases h

/-- What stands at a path after a repair is what stood there, repaired as often as its path occurs. -/
theorem at?_iterate {v : Value} {path : List Step} {i : Nat} (h : schemaAt schema (path ++ [.index i]) = some item)
    (m : Nat) : ((repair schema)^[m] v).at? (path ++ [.index i]) =
      (v.at? (path ++ [.index i])).map (repair item)^[times schema (path ++ [.index i]) * m] := by
  induction path generalizing schema v m with
  | nil =>
    obtain ⟨child, hchild, hitem⟩ := Option.bind_eq_some_iff.mp h
    cases hitem
    rw [nil_append, times, hchild, at?_cons, at?_cons]
    rcases childAt_iterate (v := v) hchild m with ⟨hv, hv'⟩ | ⟨part, part', hv, hv', -, hrepaired⟩
    · rw [hv, hv']
      rfl
    · rw [hv, hv', hrepaired (Or.inr rfl)]
      simp [at?, times]
  | cons step rest ih =>
    obtain ⟨child, hchild, hrest⟩ := Option.bind_eq_some_iff.mp h
    rw [cons_append, times, hchild, at?_cons, at?_cons]
    rcases childAt_iterate (v := v) hchild m with ⟨hv, hv'⟩ | ⟨part, part', hv, hv', htext, hrepaired⟩
    · rw [hv, hv']
      rfl
    · rw [hv, hv', Option.bind_some, Option.bind_some]
      by_cases hpart : part.asStr.isSome
      · rw [at?_text hpart, at?_text (htext.trans hpart)]
        rfl
      · rw [Option.not_isSome_iff_eq_none] at hpart
        rw [hrepaired (Or.inl hpart), ih hrest]
        congr 2
        ring

def statusOf (item : Value) : Option String := (item.childAt (.field "status")).bind Value.asStr

def idOf (item : Value) : Option String := (item.childAt (.field "id")).bind Value.asStr

def repairStatus (p : Value) (status : String) (id : Option String) : String :=
  repairText p (if isBlank status && needsText p then id.getD status else status)

theorem repairField_text (id : Option String) (p : Value) (text : String) :
    repairField id p (.string text) = .string (repairStatus p text id) := by
  rw [repairField, takeId_text, repair_string, repairStatus]

theorem iterate_text (id : Option String) (p : Value) (n : Nat) (text : String) :
    (repairField id p)^[n] (.string text) = .string ((List.replicate n id).foldl (repairStatus p) text) := by
  induction n generalizing text with
  | zero => rfl
  | succ n ih => rw [Function.iterate_succ_apply, repairField_text, ih, replicate_succ, foldl_cons]

theorem statusOf_repair (hp : property schema "status" = some p) (v : Value) : statusOf (repair schema v) =
    (statusOf v).map fun status =>
      (List.replicate (occurrences schema (.field "status")) (idOf v)).foldl (repairStatus p) status := by
  have hnot : ∀ v : Value, v.childAt (.field "status") = none → statusOf v = none := by
    intro v h
    rw [statusOf, h]
    rfl
  have hchild : childSchema schema (.field "status") = some p := hp
  rcases childAt_repair (v := v) hchild with ⟨hv, hv'⟩ | ⟨_, _, hv, -⟩
  · rw [hnot _ hv, hnot _ hv']
    rfl
  · cases v with
    | object fields =>
      obtain ⟨fields', h⟩ : ∃ fields', repair schema (.object fields) = .object fields' := ⟨_, repair_object⟩
      rw [h, statusOf, statusOf, childAt, childAt, lookup_repair hp h]
      cases fields.lookup "status" with
      | none => rfl
      | some field =>
        rw [Option.map_some, Option.bind_some, Option.bind_some]
        cases field with
        | string text =>
          rw [iterate_text]
          rfl
        | _ =>
          rw [iterate_repairField rfl]
          exact asStr_eq_none.mpr (asStr_iterate (asStr_repair _) _ _)
    | _ => cases hv

theorem statusOf_iterate (hp : property schema "status" = some p) (m : Nat) (v : Value) : ∃ ids : List (Option String),
    ids.length = occurrences schema (.field "status") * m ∧ (∀ id ∈ ids.head?, id = idOf v) ∧
    statusOf ((repair schema)^[m] v) = (statusOf v).map fun status => ids.foldl (repairStatus p) status := by
  induction m generalizing v with
  | zero => exact ⟨[], by simp, by simp, by simp⟩
  | succ m ih =>
    have hchild : childSchema schema (.field "status") = some p := hp
    obtain ⟨ids, hlength, -, hstatus⟩ := ih (repair schema v)
    refine ⟨List.replicate (occurrences schema (.field "status")) (idOf v) ++ ids, ?_, ?_, ?_⟩
    · rw [length_append, length_replicate, hlength, Nat.mul_succ, Nat.add_comm]
    · obtain ⟨n, hn⟩ : ∃ n, occurrences schema (.field "status") = n + 1 :=
        Nat.exists_eq_add_one.mpr (occurrences_pos hchild)
      rw [hn]
      simp [replicate_succ]
    · rw [Function.iterate_succ_apply, hstatus, statusOf_repair hp, Option.map_map]
      simp [Function.comp_def]

/-- The enumeration makes `pass` of what it does not list. -/
def PassByDefault (values : List String) : Prop := "unverified" ∉ values ∧ values.head? = some "pass"

def takenStatus (p : Value) (id : Option String) (status : String) : String :=
  if isBlank status && needsText p then id.getD status else status

/-- A status that does not say `pass` is made a pass: an empty one takes the ID `pass`; or `pass` is what the enumeration
    makes of an unlisted status, and this one is unlisted, or becomes so when it is repaired again. -/
def Misread (p : Value) (id : Option String) (again : Prop) (status : String) : Prop :=
  (isBlank status ∧ needsText p ∧ id = some "pass") ∨
    PassByDefault (enumValues p) ∧ (takenStatus p id status ∉ enumValues p ∨
      isBlank (takenStatus p id status) ∧ needsText p ∧ again ∧ "(not stated)" ∉ enumValues p)

theorem repairText_listed (h : status ∈ enumValues p) (htext : (isBlank status && needsText p) = false) :
    repairText p status = status := by
  simp [repairText, h, htext]

theorem fallback_mem {values : List String} (h : "pass" ∈ values) : fallback values ∈ values := by
  unfold fallback
  split
  · rename_i hunverified
    exact contains_iff_mem.mp hunverified
  · obtain ⟨first, rest, rfl⟩ := exists_cons_of_ne_nil (ne_nil_of_mem h)
    simp

theorem fallback_eq_pass {values : List String} (h : "pass" ∈ values) : fallback values = "pass" ↔ PassByDefault values := by
  obtain ⟨first, rest, rfl⟩ := exists_cons_of_ne_nil (ne_nil_of_mem h)
  unfold fallback PassByDefault
  by_cases hunverified : (first :: rest).contains "unverified" = true
  · rw [if_pos hunverified]
    simp [contains_iff_mem.mp hunverified]
  · rw [if_neg hunverified]
    simp [mt contains_iff_mem.mpr hunverified]

theorem repairText_cases (hpass : "pass" ∈ enumValues p) (status : String) : ∃ value ∈ enumValues p,
    (value = status ∨ status ∉ enumValues p ∧ value = fallback (enumValues p)) ∧
    repairText p status = if isBlank value && needsText p then "(not stated)" else value := by
  by_cases hlisted : status ∈ enumValues p
  · exact ⟨status, hlisted, Or.inl rfl, by simp [repairText, hlisted]⟩
  · have hne : (enumValues p).isEmpty = false := by
      rw [isEmpty_eq_false_iff]
      exact ne_nil_of_mem hpass
    exact ⟨_, fallback_mem hpass, Or.inr ⟨hlisted, rfl⟩, by simp [repairText, hlisted, hne]⟩

theorem not_blank_repairText (p : Value) (status : String) :
    (isBlank (repairText p status) && needsText p) = false := by
  have hmarker : isBlank "(not stated)" = false := by decide
  rw [repairText]
  generalize (if (!(enumValues p).isEmpty && !(enumValues p).contains status) = true then fallback (enumValues p)
    else status) = text
  by_cases h : (isBlank text && needsText p) = true
  · rw [if_pos h, hmarker, Bool.false_and]
  · rw [if_neg h]
    exact Bool.eq_false_of_not_eq_true h

theorem repairStatus_repairText (p : Value) (status : String) (id : Option String) :
    repairStatus p (repairText p status) id = repairText p (repairText p status) := by
  rw [repairStatus, if_neg (by simp [not_blank_repairText])]

/-- A third repair changes nothing any more. -/
theorem repairText_third (hpass : "pass" ∈ enumValues p) (status : String) :
    repairText p (repairText p (repairText p status)) = repairText p (repairText p status) := by
  have hfixed : ∀ text, repairText p text = "(not stated)" ∨ repairText p (repairText p text) = repairText p text := by
    intro text
    obtain ⟨value, hvalue, -, heq⟩ := repairText_cases hpass text
    by_cases hblank : (isBlank value && needsText p) = true
    · exact Or.inl (heq.trans (if_pos hblank))
    · rw [heq, if_neg hblank]
      exact Or.inr (repairText_listed hvalue (Bool.eq_false_of_not_eq_true hblank))
  rcases hfixed status with hmarker | hsame
  · rcases hfixed (repairText p status) with hmarker' | hsame
    · exact congrArg (repairText p) (hmarker'.trans hmarker.symm)
    · exact hsame
  · exact congrArg (repairText p) hsame

theorem foldl_repairStatus (hpass : "pass" ∈ enumValues p) (status : String) (ids : List (Option String)) :
    ids.foldl (repairStatus p) (repairText p status) =
      if ids = [] then repairText p status else repairText p (repairText p status) := by
  have hsettled : ids.foldl (repairStatus p) (repairText p (repairText p status)) = repairText p (repairText p status) := by
    induction ids with
    | nil => exact foldl_nil
    | cons id ids ih => rw [foldl_cons, repairStatus_repairText, repairText_third hpass, ih]
  cases ids with
  | nil => rw [foldl_nil, if_pos rfl]
  | cons id ids =>
    rw [foldl_cons, repairStatus_repairText, repairText_third hpass] at hsettled
    rw [foldl_cons, repairStatus_repairText, if_neg (cons_ne_nil id ids), hsettled]

theorem takenStatus_eq_pass {id : Option String} : takenStatus p id status = "pass" ↔
    status = "pass" ∨ isBlank status ∧ needsText p ∧ id = some "pass" := by
  have hpass : isBlank "pass" = false := by decide
  unfold takenStatus
  by_cases hblank : (isBlank status && needsText p) = true
  · rw [if_pos hblank]
    obtain ⟨hstatus, hneeds⟩ := (Bool.and_eq_true _ _).mp hblank
    have hne : status ≠ "pass" := fun h => by rw [h, hpass] at hstatus; cases hstatus
    cases id with
    | none => simp [hne]
    | some id => simp [hne, hstatus, hneeds]
  · rw [if_neg hblank]
    refine ⟨Or.inl, fun h => h.resolve_right ?_⟩
    rintro ⟨hstatus, hneeds, -⟩
    exact hblank (by rw [hstatus, hneeds]; rfl)

theorem repairText_eq_pass (hpass : "pass" ∈ enumValues p) :
    repairText p status = "pass" ↔ status = "pass" ∨ status ∉ enumValues p ∧ PassByDefault (enumValues p) := by
  have hblank : isBlank "pass" = false := by decide
  obtain ⟨value, hvalue, horigin, heq⟩ := repairText_cases hpass status
  have hvalue_pass : repairText p status = "pass" ↔ value = "pass" := by
    rw [heq]
    split
    · rename_i h
      refine ⟨fun h => absurd h (by decide), ?_⟩
      rintro rfl
      rw [hblank] at h
      cases h
    · exact Iff.rfl
  rw [hvalue_pass, ← fallback_eq_pass hpass]
  rcases horigin with rfl | ⟨hunlisted, rfl⟩
  · exact ⟨Or.inl, fun h => h.resolve_right fun h => h.1 hvalue⟩
  · refine ⟨fun h => Or.inr ⟨hunlisted, h⟩, ?_⟩
    rintro (rfl | h)
    · exact absurd hpass hunlisted
    · exact h.2

theorem repairText_unlisted (hpass : "pass" ∈ enumValues p) (hdefault : PassByDefault (enumValues p)) :
    repairText p status ∉ enumValues p ↔
      status ∈ enumValues p ∧ isBlank status ∧ needsText p ∧ "(not stated)" ∉ enumValues p := by
  obtain ⟨value, hvalue, horigin, heq⟩ := repairText_cases hpass status
  rw [heq]
  constructor
  · intro hunlisted
    by_cases hblank : (isBlank value && needsText p) = true
    · rw [if_pos hblank] at hunlisted
      obtain ⟨hempty, hneeds⟩ := (Bool.and_eq_true _ _).mp hblank
      rcases horigin with rfl | ⟨-, rfl⟩
      · exact ⟨hvalue, hempty, hneeds, hunlisted⟩
      · rw [(fallback_eq_pass hpass).mpr hdefault] at hempty
        exact absurd hempty (by decide)
    · rw [if_neg hblank] at hunlisted
      exact absurd hvalue hunlisted
  · rintro ⟨hlisted, hempty, hneeds, hmarker⟩
    rcases horigin with rfl | ⟨hunlisted, -⟩
    · rwa [if_pos (by rw [hempty, hneeds]; rfl)]
    · exact absurd hlisted hunlisted

/-- A repaired status is a pass when it was one, or was misread as one. -/
theorem repaired_pass_iff (hpass : "pass" ∈ enumValues p) (id : Option String) (ids : List (Option String)) :
    (id :: ids).foldl (repairStatus p) status = "pass" ↔ status = "pass" ∨ Misread p id (ids ≠ []) status := by
  have hfirst : repairStatus p status id = repairText p (takenStatus p id status) := rfl
  rw [foldl_cons, hfirst, foldl_repairStatus hpass, Misread, ← or_assoc, ← takenStatus_eq_pass]
  by_cases hids : ids = []
  · rw [if_pos hids, repairText_eq_pass hpass]
    simp [hids, and_comm]
  · rw [if_neg hids, repairText_eq_pass hpass, repairText_eq_pass hpass]
    by_cases hdefault : PassByDefault (enumValues p)
    · rw [repairText_unlisted hpass hdefault, and_iff_left hdefault, and_iff_left hdefault, and_iff_right hdefault,
        and_iff_right hids, or_assoc]
      refine or_congr_right ?_
      by_cases hlisted : takenStatus p id status ∈ enumValues p
      · rw [and_iff_right hlisted]
      · exact ⟨fun _ => Or.inl hlisted, fun _ => Or.inl hlisted⟩
    · simp only [hdefault, and_false, false_and, or_false]

end Reply

end RustyCore
