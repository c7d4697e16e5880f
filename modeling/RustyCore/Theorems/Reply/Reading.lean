import RustyCore.Reply.Parse

/-! A reply as it is read beside the same reply as it is written: the two trees have the same shape, and a field that a
    property of the schema names holds what `coerce` makes of the written text. -/

namespace RustyCore

open List

namespace Reply

open Text

variable [CharTables] [Externals] [ReplyExternals] {schema p w r : Value} {ws rs : Fields} {name other : String}

/-- The reader that leaves every scalar as it is written. -/
def verbatim (_ : Value) (text : Line) : Value := .string (String.ofList text)

def property (schema : Value) (name : String) : Option Value := (propertyMap schema).lookup name

mutual

inductive Reads : Value → Value → Value → Prop
  | scalar {schema : Value} (text : Line) : Reads schema (verbatim schema text) (coerce schema text)
  | array {schema : Value} {ws rs : List Value} (h : ReadsAll ((schema.get "items").getD .null) ws rs) :
      Reads schema (.array ws) (.array rs)
  | object {schema : Value} {ws rs : Fields} (h : ReadsFields schema ws rs) : Reads schema (.object ws) (.object rs)

inductive ReadsAll : Value → List Value → List Value → Prop
  | nil {schema : Value} : ReadsAll schema [] []
  | cons {schema w r : Value} {ws rs : List Value} (h : Reads schema w r) (hs : ReadsAll schema ws rs) :
      ReadsAll schema (w :: ws) (r :: rs)

inductive ReadsField : Value → String → Value → Value → Prop
  | stated {schema p w r : Value} {name : String} (hp : property schema name = some p) (h : Reads p w r) :
      ReadsField schema name w r
  | filled {schema : Value} {name : String} (text : String) (h : name ≠ "status") :
      ReadsField schema name (.string text) (.string text)

inductive ReadsFields : Value → Fields → Fields → Prop
  | nil {schema : Value} : ReadsFields schema [] []
  | cons {schema w r : Value} {name : String} {ws rs : Fields} (h : ReadsField schema name w r)
      (hs : ReadsFields schema ws rs) : ReadsFields schema ((name, w) :: ws) ((name, r) :: rs)

end

section

omit [CharTables] [Externals] [ReplyExternals]

theorem mem_foldl_addProperty {map acc : Fields} {field : String × Value} : field ∈ map.foldl addProperty acc ↔
    field ∈ acc ∨ (∀ known ∈ acc, known.1 ≠ field.1) ∧ map.lookup field.1 = some field.2 := by
  induction map generalizing acc with
  | nil => simp
  | cons first rest ih =>
    rw [foldl_cons, ih, Value.lookup_cons_if, addProperty]
    by_cases hknown : acc.any (·.1 == first.1) = true
    · rw [if_pos hknown]
      obtain ⟨known, hmem, hname⟩ := any_eq_true.mp hknown
      by_cases hfirst : field.1 = first.1
      · have hnot : ¬ ∀ known ∈ acc, known.1 ≠ field.1 := fun h => h known hmem ((eq_of_beq hname).trans hfirst.symm)
        simp only [hnot, false_and]
      · rw [if_neg hfirst]
    · rw [if_neg hknown]
      have hnew : ∀ known ∈ acc, known.1 ≠ first.1 := fun known hmem hname =>
        hknown (any_eq_true.mpr ⟨known, hmem, beq_iff_eq.mpr hname⟩)
      by_cases hfirst : field.1 = first.1
      · rw [if_pos hfirst, mem_append, mem_singleton]
        constructor
        · rintro ((h | rfl) | ⟨h, -⟩)
          · exact Or.inl h
          · exact Or.inr ⟨hnew, rfl⟩
          · exact absurd hfirst.symm (h first (by simp))
        · rintro (h | ⟨-, h⟩)
          · exact Or.inl (Or.inl h)
          · exact Or.inl (Or.inr (Prod.ext hfirst (Option.some.inj h).symm))
      · rw [if_neg hfirst]
        have hne : field ≠ first := fun h => hfirst (h ▸ rfl)
        have hnames : (∀ known ∈ acc ++ [first], known.1 ≠ field.1) ↔ ∀ known ∈ acc, known.1 ≠ field.1 := by
          rw [forall_mem_append, forall_mem_singleton, and_iff_left (Ne.symm hfirst)]
        rw [hnames, mem_append, mem_singleton, or_iff_left hne]

theorem mem_properties : (name, p) ∈ properties schema ↔ property schema name = some p := by
  rw [properties, mem_foldl_addProperty, mem_filterMap, property]
  constructor
  · rintro (⟨required, -, h⟩ | ⟨-, h⟩)
    · obtain ⟨found, hfound, heq⟩ := Option.map_eq_some_iff.mp h
      cases heq
      exact hfound
    · exact h
  · intro h
    by_cases hrequired : name ∈ requiredNames schema
    · exact Or.inl ⟨name, hrequired, by rw [h]; rfl⟩
    · refine Or.inr ⟨?_, h⟩
      rintro known hknown rfl
      obtain ⟨required, hmem, heq⟩ := mem_filterMap.mp hknown
      obtain ⟨found, -, rfl⟩ := Option.map_eq_some_iff.mp heq
      exact hrequired hmem

theorem property_of_find? {test : String × Value → Bool} (h : (properties schema).find? test = some (name, p)) :
    property schema name = some p := mem_properties.mp (mem_of_find?_eq_some h)

theorem bodyField_ne_status (h : bodyField schema = some name) : name ≠ "status" := by
  rintro rfl
  have hmem := mem_of_find?_eq_some h
  exact absurd hmem (by decide)

end

theorem ReadsFields.insertField (hs : ReadsFields schema ws rs) (h : ReadsField schema name w r) :
    ReadsFields schema (Value.insertField name w ws) (Value.insertField name r rs) := by
  induction ws generalizing rs with
  | nil =>
    cases hs
    exact .cons h .nil
  | cons field ws ih =>
    obtain ⟨key, value⟩ := field
    cases hs with
    | cons hfield hs =>
      rw [Value.insertField, Value.insertField]
      split_ifs with heq hlt
      · exact .cons h hs
      · exact .cons h (.cons hfield hs)
      · exact .cons hfield (ih hs)

theorem ReadsFields.extend {ws' rs' : Fields} (h : ReadsFields schema ws rs) (h' : ReadsFields schema ws' rs') :
    ReadsFields schema (extend ws ws') (extend rs rs') := by
  induction ws' generalizing ws rs rs' with
  | nil =>
    cases h'
    exact h
  | cons field ws' ih =>
    cases h' with
    | cons hfield h' =>
      have hrest := ih (h.insertField hfield) h'
      exact hrest

theorem ReadsFields.isEmpty (h : ReadsFields schema ws rs) : ws.isEmpty = rs.isEmpty := by
  cases h <;> rfl

theorem ReadsFields.lookup (h : ReadsFields schema ws rs) (name : String) : (ws.lookup name = none ∧ rs.lookup name = none) ∨
    ∃ w r, ws.lookup name = some w ∧ rs.lookup name = some r ∧ ReadsField schema name w r := by
  induction ws generalizing rs with
  | nil =>
    cases h
    exact Or.inl ⟨rfl, rfl⟩
  | cons field ws ih =>
    cases h with
    | @cons _ w r key _ _ hfield hs =>
      rw [Value.lookup_cons_if, Value.lookup_cons_if]
      by_cases hname : name = key
      · subst hname
        exact Or.inr ⟨w, r, by simp, by simp, hfield⟩
      · rw [if_neg hname, if_neg hname]
        exact ih hs

theorem ReadsAll.map {α : Type} {f g : α → Value} {xs : List α} (h : ∀ x ∈ xs, Reads schema (f x) (g x)) :
    ReadsAll schema (xs.map f) (xs.map g) := by
  induction xs with
  | nil => exact .nil
  | cons x xs ih => exact .cons (h x (by simp)) (ih fun y hy => h y (by simp [hy]))

theorem ReadsAll.getElem? {ws rs : List Value} (h : ReadsAll schema ws rs) (i : Nat) :
    (ws[i]? = none ∧ rs[i]? = none) ∨ ∃ w r, ws[i]? = some w ∧ rs[i]? = some r ∧ Reads schema w r := by
  induction ws generalizing rs i with
  | nil =>
    cases h
    exact Or.inl ⟨rfl, rfl⟩
  | cons w ws ih =>
    cases h with
    | @cons _ _ r _ _ h hs =>
      cases i with
      | zero => exact Or.inr ⟨w, r, rfl, rfl, h⟩
      | succ i => simpa using ih hs i

section

variable {nestedW nestedR : Value → Line → Fields}

/-- A field is read by both readers in the same place. -/
theorem reads_readField (text : Line) : Reads p (readField verbatim p text) (readField coerce p text) := by
  unfold readField
  split
  · exact .array (ReadsAll.map fun part _ => .scalar part)
  · exact .scalar text

theorem reads_readLine {found found' : Fields × List Line} (hfields : ReadsFields schema found.1 found'.1)
    (htext : found.2 = found'.2) (line : Line) :
    ReadsFields schema (readLine verbatim schema found line).1 (readLine coerce schema found' line).1 ∧
      (readLine verbatim schema found line).2 = (readLine coerce schema found' line).2 := by
  unfold readLine
  cases hfield : itemField schema line with
  | none => exact ⟨hfields, by rw [htext]⟩
  | some field =>
    obtain ⟨name, p, value⟩ := field
    refine ⟨hfields.insertField (.stated ?_ (reads_readField value)), htext⟩
    unfold itemField at hfield
    split at hfield
    · obtain ⟨⟨_, _⟩, hfind, heq⟩ := Option.map_eq_some_iff.mp hfield
      cases heq
      exact property_of_find? hfind
    · cases hfield

theorem reads_lines (ls : List Line) (found found' : Fields × List Line) (hfields : ReadsFields schema found.1 found'.1)
    (htext : found.2 = found'.2) :
    ReadsFields schema (ls.foldl (readLine verbatim schema) found).1 (ls.foldl (readLine coerce schema) found').1 ∧
      (ls.foldl (readLine verbatim schema) found).2 = (ls.foldl (readLine coerce schema) found').2 := by
  induction ls generalizing found found' with
  | nil => exact ⟨hfields, htext⟩
  | cons line ls ih =>
    have hline := reads_readLine hfields htext line
    exact ih _ _ hline.1 hline.2

theorem reads_emptyLists {props : List (String × Value)} (hprops : ∀ prop ∈ props, property schema prop.1 = some prop.2)
    (h : ReadsFields schema ws rs) : ReadsFields schema (props.foldl addEmptyList ws) (props.foldl addEmptyList rs) := by
  induction props generalizing ws rs with
  | nil => exact h
  | cons prop props ih =>
    refine ih (fun other hother => hprops other (by simp [hother])) ?_
    have hsame : (ws.lookup prop.1).isNone = (rs.lookup prop.1).isNone := by
      rcases h.lookup prop.1 with ⟨hw, hr⟩ | ⟨w, r, hw, hr, -⟩
      · rw [hw, hr]
      · rw [hw, hr]
        rfl
    unfold addEmptyList
    rw [hsame]
    split
    · exact h.insertField (.stated (hprops prop (by simp)) (.array .nil))
    · exact h

/-- One item, given that nested objects are read alike. -/
theorem reads_parseItem (hnested : ∀ schema text, ReadsFields schema (nestedW schema text) (nestedR schema text))
    (title body : Line) (fallbackId : String) :
    Reads schema (parseItem verbatim nestedW schema title body fallbackId)
      (parseItem coerce nestedR schema title body fallbackId) := by
  have hid : ∀ id : Line, ReadsFields schema (idField schema id) (idField schema id) := by
    intro id
    unfold idField
    split
    · exact .cons (.filled _ (by decide)) .nil
    · exact .nil
  unfold parseItem
  refine .object (reads_emptyLists (fun prop hprop => mem_properties.mp hprop) ?_)
  have hlines := reads_lines ((lines body).take (((headings body).head?.map (·.index)).getD (lines body).length))
    (idField schema ((splitTitle title).1.getD fallbackId.toList), [])
    (idField schema ((splitTitle title).1.getD fallbackId.toList), []) (hid _) rfl
  rw [← hlines.2]
  cases hname : bodyField schema with
  | none =>
    dsimp only
    split
    · exact hlines.1.extend (hnested schema _)
    · exact hlines.1
  | some name =>
    have hbody := fun text : Line => hlines.1.insertField (.filled (String.ofList text) (bodyField_ne_status hname))
    dsimp only
    split
    · exact (hbody _).extend (hnested schema _)
    · exact hbody _

theorem reads_pairItem (hbody : name ≠ "status") (index : Nat) (bullet : Line) :
    Reads schema (pairItem other name index bullet) (pairItem other name index bullet) :=
  .object (ReadsFields.insertField (.cons (.filled _ (by decide)) .nil) (.filled _ hbody))

theorem reads_parseItems (hnested : ∀ schema text, ReadsFields schema (nestedW schema text) (nestedR schema text))
    (items : Value) (body : Line) (level : Nat) :
    ReadsAll items (parseItems verbatim nestedW name items body level) (parseItems coerce nestedR name items body level) := by
  unfold parseItems
  split
  · refine ReadsAll.map fun bullet _ => reads_pairItem ?_ bullet.2 bullet.1
    cases hname : bodyField items with
    | none => decide
    | some name => exact bodyField_ne_status hname
  · split
    · exact .nil
    · exact ReadsAll.map fun part _ => reads_parseItem hnested part.1.1 part.1.2 _

theorem reads_parseValue (hnested : ∀ schema text, ReadsFields schema (nestedW schema text) (nestedR schema text))
    (name : String) (body : Line) (level : Nat) : (parseValue verbatim nestedW name p body level = none ∧
        parseValue coerce nestedR name p body level = none) ∨
      ∃ w r, parseValue verbatim nestedW name p body level = some w ∧
        parseValue coerce nestedR name p body level = some r ∧ Reads p w r := by
  unfold parseValue
  cases kind p with
  | scalar => exact Or.inr ⟨_, _, rfl, rfl, .scalar _⟩
  | list => exact Or.inr ⟨_, _, rfl, rfl, .array (ReadsAll.map fun bullet _ => .scalar bullet)⟩
  | items =>
    cases hitems : p.get "items" with
    | none => exact Or.inl ⟨rfl, rfl⟩
    | some items =>
      refine Or.inr ⟨_, _, rfl, rfl, .array ?_⟩
      rw [hitems]
      exact reads_parseItems hnested items body level
  | object =>
    have hfields := hnested p body
    dsimp only
    rw [hfields.isEmpty]
    split
    · exact Or.inl ⟨rfl, rfl⟩
    · exact Or.inr ⟨_, _, rfl, rfl, .object hfields⟩

theorem reads_sections (hnested : ∀ schema text, ReadsFields schema (nestedW schema text) (nestedR schema text))
    (level : Nat) (parts : List (Line × Line)) (h : ReadsFields schema ws rs) :
    ReadsFields schema (parts.foldl (readSection verbatim nestedW (properties schema) level) ws)
      (parts.foldl (readSection coerce nestedR (properties schema) level) rs) := by
  induction parts generalizing ws rs with
  | nil => exact h
  | cons part parts ih =>
    refine ih ?_
    unfold readSection
    cases hfind : (properties schema).find? (·.1 == normalize part.1) with
    | none => exact h
    | some prop =>
      obtain ⟨name, p⟩ := prop
      dsimp only
      rcases reads_parseValue hnested name part.2 level with ⟨hw, hr⟩ | ⟨w, r, hw, hr, hread⟩
      · rw [hw, hr]
        exact h
      · rw [hw, hr]
        exact h.insertField (.stated (property_of_find? hfind) hread)

end

/-- By induction on the depth to which objects are nested. -/
theorem reads_parseObjectAt (depth : Nat) (schema : Value) (text : Line) :
    ReadsFields schema (parseObjectAt verbatim depth schema text) (parseObjectAt coerce depth schema text) := by
  induction depth generalizing schema text with
  | zero => exact .nil
  | succ depth ih =>
    unfold parseObjectAt
    dsimp only
    split
    · exact .nil
    · exact reads_sections ih _ _ .nil

/-- Both readers find the same fields in a reply, and differ in its scalars only. -/
theorem reads_parseObject (schema : Value) (text : Line) :
    Reads schema (.object (parseObject verbatim schema text)) (.object (parseObject coerce schema text)) :=
  .object (reads_parseObjectAt schema.depth schema text)

end Reply

end RustyCore
