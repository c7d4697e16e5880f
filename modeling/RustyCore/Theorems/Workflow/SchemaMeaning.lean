import RustyCore.Workflow.Schema

/-! What a schema means, and when the validator reads one as it is meant: at every place of a value that a schema
    governs, keyword by keyword. -/

namespace RustyCore.Schema

open List

def HasType (kind : String) : Value → Prop
  | .null => kind = "null"
  | .bool _ => kind = "boolean"
  | .number n => kind = "number" ∨ kind = "integer" ∧ ∃ z : ℤ, n.value = z
  | .string _ => kind = "string"
  | .array _ => kind = "array"
  | .object _ => kind = "object"

inductive Bound where
  | minLength
  | maxLength
  | minItems
  | maxItems
  | minimum
  | maximum

namespace Bound

def keyword : Bound → String
  | minLength => "minLength"
  | maxLength => "maxLength"
  | minItems => "minItems"
  | maxItems => "maxItems"
  | minimum => "minimum"
  | maximum => "maximum"

def measure : Bound → Value → Option ℚ
  | minLength, .string text | maxLength, .string text => some text.length
  | minItems, .array items | maxItems, .array items => some items.length
  | minimum, .number n | maximum, .number n => some n.value
  | _, _ => none

def Within : Bound → (limit measure : ℚ) → Prop
  | minLength, limit, measure | minItems, limit, measure | minimum, limit, measure => limit ≤ measure
  | maxLength, limit, measure | maxItems, limit, measure | maximum, limit, measure => measure ≤ limit

def read : Bound → Value → Option ℚ
  | minLength, limit | maxLength, limit | minItems, limit | maxItems, limit => limit.asU64.map Nat.cast
  | minimum, limit | maximum, limit => limit.asNumber.map Number.asF64

def seen : Bound → ℚ → ℚ
  | minimum, measure | maximum, measure => roundF64 measure
  | _, measure => measure

end Bound

inductive Keyword where
  | const
  | enum
  | type
  | bound (b : Bound)
  | required
  | properties
  | additionalProperties

/-- A value satisfies a keyword of a schema, if the schema has it. The keywords that say something of one kind of
    value are satisfied by the others; one whose own value is not of its form is satisfied by none. -/
def Holds (rules : Rules) (value : Value) : Keyword → Prop
  | .const => ∀ expected, rules.lookup "const" = some expected → expected.means value = true
  | .enum => ∀ allowed, rules.lookup "enum" = some allowed →
      ∃ items, allowed = .array items ∧ ∃ item ∈ items, item.means value = true
  | .type => ∀ kind, rules.lookup "type" = some kind → ∃ name, kind = .string name ∧ HasType name value
  | .bound b => ∀ limit measure, rules.lookup b.keyword = some limit → b.measure value = some measure →
      ∃ n, limit = .number n ∧ b.Within n.value measure
  | .required => ∀ required fields, rules.lookup "required" = some required → value = .object fields →
      ∃ names : List String, required = .array (names.map .string) ∧ ∀ name ∈ names, (fields.lookup name).isSome
  | .properties => ∀ properties fields, rules.lookup "properties" = some properties → value = .object fields →
      ∃ schemas, properties = .object schemas
  | .additionalProperties => ∀ additional fields, rules.lookup "additionalProperties" = some additional →
      value = .object fields → ∀ key child, (key, child) ∈ fields → propertySchema rules key = none →
        additional = .bool true ∨ ∃ schema, additional = .object schema

/-- A schema and a value it governs govern a part of the value through a schema inside: `free` for a property without
    a schema of its own. -/
inductive Child (enters : Rules → Value → Prop) : Bool → Value × Value → Value × Value → Prop where
  | item {rules : Rules} {items : List Value} {itemSchema child : Value} (henters : enters rules (.array items))
      (hitems : rules.lookup "items" = some itemSchema) (hchild : child ∈ items) :
      Child enters false (.object rules, .array items) (itemSchema, child)
  | property {rules : Rules} {fields : List (String × Value)} {key : String} {childSchema child : Value}
      (henters : enters rules (.object fields)) (hfield : (key, child) ∈ fields)
      (hschema : propertySchema rules key = some childSchema) :
      Child enters false (.object rules, .object fields) (childSchema, child)
  | additional {rules additional : Rules} {fields : List (String × Value)} {key : String} {child : Value}
      (henters : enters rules (.object fields)) (hfield : (key, child) ∈ fields)
      (hschema : propertySchema rules key = none)
      (hadditional : rules.lookup "additionalProperties" = some (.object additional)) :
      Child enters true (.object rules, .object fields) (.object additional, child)

def Places (enters : Rules → Value → Prop) : Value × Value → Value × Value → Prop :=
  Relation.ReflTransGen fun place next => ∃ free, Child enters free place next

def Satisfies (schema value : Value) : Prop :=
  ∀ place, Places (fun _ _ => True) (schema, value) place →
    ∃ rules, place.1 = .object rules ∧ ∀ keyword, Holds rules place.2 keyword

def Enters (rules : Rules) (value : Value) : Prop := unsupportedKeyword rules = none ∧ (typeFaults rules value).2 = true

def Understood (rules : Rules) : Prop :=
  unsupportedKeyword rules = none ∧ ∀ kind, rules.lookup "type" = some (.string kind) → typeTest kind ≠ none

def TooStrict (rules : Rules) (value : Value) : Keyword → Prop
  | .const => ∃ expected, rules.lookup "const" = some expected ∧ expected.means value = true ∧ expected.same value = false
  | .enum => ∃ items, rules.lookup "enum" = some (.array items) ∧ (∃ item ∈ items, item.means value = true) ∧
      ∀ item ∈ items, item.same value = false
  | .type => rules.lookup "type" = some (.string "integer") ∧
      ∃ (text : String) (z : ℤ), value = .number (.float text) ∧ (Number.float text).value = z
  | _ => False

/-- The keyword is not of its form, or a bound is missed by less than an `f64` shows, and the validator takes no notice. -/
def TooLenient (rules : Rules) (value : Value) : Keyword → Prop
  | .const => False
  | .enum => ∃ allowed, rules.lookup "enum" = some allowed ∧ allowed.asArray = none
  | .type => ∃ kind, rules.lookup "type" = some kind ∧ kind.asStr = none
  | .bound b => ∃ limit measure, rules.lookup b.keyword = some limit ∧ b.measure value = some measure ∧
      (∀ l, b.read limit = some l → b.Within l (b.seen measure)) ∧ ¬ ∃ n, limit = .number n ∧ b.Within n.value measure
  | .required => ∃ required fields, rules.lookup "required" = some required ∧ value = .object fields ∧
      (¬ ∃ names : List String, required = .array (names.map .string)) ∧
      ∀ items name, required = .array items → .string name ∈ items → (fields.lookup name).isSome
  | .properties => ∃ properties fields, rules.lookup "properties" = some properties ∧ value = .object fields ∧
      ¬ ∃ schemas, properties = .object schemas
  | .additionalProperties => ∃ additional fields, rules.lookup "additionalProperties" = some additional ∧
      value = .object fields ∧ (∃ key child, (key, child) ∈ fields ∧ propertySchema rules key = none) ∧
      (∀ b, additional ≠ .bool b) ∧ ∀ schema, additional ≠ .object schema

def Violated (place : Value × Value) : Prop :=
  ∀ rules, place.1 = .object rules → ∃ keyword, ¬ Holds rules place.2 keyword ∧ ¬ TooLenient rules place.2 keyword

def Somewhere (sort : Rules → Value → Keyword → Prop) (schema value : Value) : Prop :=
  ∃ place, Places Enters (schema, value) place ∧ ∃ rules keyword, place.1 = .object rules ∧ sort rules place.2 keyword

/-- The validator reads the schema as it is meant, as far as the value shows: it implements every keyword and type it
    meets, and either a keyword that is read as it is meant is violated, or keywords are read too strictly and too
    leniently both or neither. -/
def ReadAsMeant (schema value : Value) : Prop :=
  (∀ place, Places Enters (schema, value) place → ∀ rules, place.1 = .object rules → Understood rules) ∧
    ((∃ place, Places Enters (schema, value) place ∧ Violated place) ∨
      (Somewhere TooStrict schema value ↔ Somewhere TooLenient schema value))

/-- The validator never fails with an unsupported keyword or type, and accepts exactly the values that satisfy the
    schema. -/
def Faithful [F64Display] (schema value : Value) : Prop :=
  (∀ issue ∈ validate schema "$" value,
      (∀ keyword, issue.fault ≠ .unsupportedKeyword keyword) ∧ ∀ kind, issue.fault ≠ .unsupportedType kind) ∧
    (basicValidate schema value = .ok () ↔ Satisfies schema value)

def objectFaults (rules : Rules) (value : Value) : List Fault :=
  match value with
  | .object fields =>
    requiredFaults rules fields ++ (fields.filter fun (key, _) =>
      (propertySchema rules key).isNone && rules.lookup "additionalProperties" matches some (.bool false)).map
        (.additionalProperty ·.1)
  | _ => []

def kindFaults (rules : Rules) (value : Value) : List Fault :=
  textFaults rules value ++ numberFaults rules value ++ arrayFaults rules value ++ objectFaults rules value

def ownFaults (schema value : Value) : List Fault :=
  match schema with
  | .object rules =>
    match unsupportedKeyword rules with
    | some keyword => [.unsupportedKeyword keyword]
    | none =>
      constFaults rules value ++ enumFaults rules value ++ (typeFaults rules value).1 ++
        if (typeFaults rules value).2 then kindFaults rules value else []
  | _ => [.notAnObject]

def Among (fault : Fault) (issues : List Issue) : Prop := ∃ path, ⟨path, fault⟩ ∈ issues

variable {fault : Fault} {schema value child : Value} {rules : Rules} {path : String} {place next : Value × Value}
  {enters : Rules → Value → Prop}

theorem among_append {issues issues' : List Issue} :
    Among fault (issues ++ issues') ↔ Among fault issues ∨ Among fault issues' := by
  simp only [Among, mem_append, exists_or]

theorem among_map (faults : List Fault) : Among fault (faults.map (Issue.mk path)) ↔ fault ∈ faults := by
  constructor
  · rintro ⟨at_, hmem⟩
    obtain ⟨fault', hfault, heq⟩ := mem_map.mp hmem
    cases heq
    exact hfault
  · exact fun h => ⟨path, mem_map_of_mem h⟩

def Found (fault : Fault) (from_ : Value × Value) : Prop :=
  ∃ place, Places Enters from_ place ∧ fault ∈ ownFaults place.1 place.2

theorem found_iff : Found fault place ↔
    fault ∈ ownFaults place.1 place.2 ∨ ∃ free next, Child Enters free place next ∧ Found fault next := by
  constructor
  · rintro ⟨last, hreach, hfault⟩
    rcases hreach.cases_head with rfl | ⟨next, ⟨free, hchild⟩, hreach⟩
    · exact .inl hfault
    · exact .inr ⟨free, next, hchild, last, hreach, hfault⟩
  · rintro (hfault | ⟨free, next, hchild, last, hreach, hfault⟩)
    · exact ⟨place, .refl, hfault⟩
    · exact ⟨last, .head ⟨free, hchild⟩ hreach, hfault⟩

def FieldFound (fault : Fault) (rules : Rules) (key : String) (child : Value) : Prop :=
  (∃ childSchema, propertySchema rules key = some childSchema ∧ Found fault (childSchema, child)) ∨
    propertySchema rules key = none ∧
      (rules.lookup "additionalProperties" = some (.bool false) ∧ fault = .additionalProperty key ∨
        ∃ additional, rules.lookup "additionalProperties" = some (.object additional) ∧
          Found fault (.object additional, child))

def PartFound (fault : Fault) (rules : Rules) (value : Value) : Prop :=
  (∃ items itemSchema, value = .array items ∧ rules.lookup "items" = some itemSchema ∧
      ∃ child ∈ items, Found fault (itemSchema, child)) ∨
    ∃ fields, value = .object fields ∧ ∃ key child, (key, child) ∈ fields ∧ FieldFound fault rules key child

theorem found_object (henters : Enters rules value) : Found fault (.object rules, value) ↔
    fault ∈ constFaults rules value ++ enumFaults rules value ++ (typeFaults rules value).1 ++
      (textFaults rules value ++ numberFaults rules value ++ arrayFaults rules value) ∨
      (∃ fields, value = .object fields ∧ fault ∈ requiredFaults rules fields) ∨ PartFound fault rules value := by
  rw [found_iff]
  simp only [ownFaults, henters.1, henters.2, if_true, kindFaults, append_assoc, mem_append]
  constructor
  · rintro (hown | ⟨free, next, hchild, hfound⟩)
    · rcases hown with h | h | h | h | h | h | h
      · exact .inl (.inl h)
      · exact .inl (.inr (.inl h))
      · exact .inl (.inr (.inr (.inl h)))
      · exact .inl (.inr (.inr (.inr (.inl h))))
      · exact .inl (.inr (.inr (.inr (.inr (.inl h)))))
      · exact .inl (.inr (.inr (.inr (.inr (.inr h)))))
      · cases value with
        | object fields =>
          simp only [objectFaults, mem_append, mem_map, mem_filter, Bool.and_eq_true,
            Option.isNone_iff_eq_none] at h
          rcases h with h | ⟨⟨key, child⟩, ⟨hfield, hnone, hforbidden⟩, rfl⟩
          · exact .inr (.inl ⟨fields, rfl, h⟩)
          · refine .inr (.inr (.inr ⟨fields, rfl, key, child, hfield, .inr ⟨hnone, .inl ⟨?_, rfl⟩⟩⟩))
            split at hforbidden
            · assumption
            · cases hforbidden
        | _ => cases h
    · cases hchild with
      | item _ hitems hchild => exact .inr (.inr (.inl ⟨_, _, rfl, hitems, _, hchild, hfound⟩))
      | property _ hfield hschema => exact .inr (.inr (.inr ⟨_, rfl, _, _, hfield, .inl ⟨_, hschema, hfound⟩⟩))
      | additional _ hfield hschema hadditional =>
        exact .inr (.inr (.inr ⟨_, rfl, _, _, hfield, .inr ⟨hschema, .inr ⟨_, hadditional, hfound⟩⟩⟩))
  · rintro (hown | ⟨fields, rfl, hrequired⟩ | ⟨items, itemSchema, rfl, hitems, child, hchild, hfound⟩ |
      ⟨fields, rfl, key, child, hfield, ⟨childSchema, hschema, hfound⟩ | ⟨hschema, ⟨hforbidden, rfl⟩ |
        ⟨additional, hadditional, hfound⟩⟩⟩)
    · rcases hown with h | h | h | h | h | h
      · exact .inl (.inl h)
      · exact .inl (.inr (.inl h))
      · exact .inl (.inr (.inr (.inl h)))
      · exact .inl (.inr (.inr (.inr (.inl h))))
      · exact .inl (.inr (.inr (.inr (.inr (.inl h)))))
      · exact .inl (.inr (.inr (.inr (.inr (.inr (.inl h))))))
    · exact .inl (.inr (.inr (.inr (.inr (.inr (.inr (mem_append_left _ hrequired)))))))
    · exact .inr ⟨_, _, .item henters hitems hchild, hfound⟩
    · exact .inr ⟨_, _, .property henters hfield hschema, hfound⟩
    · refine .inl (.inr (.inr (.inr (.inr (.inr (.inr (mem_append_right _ (mem_map.mpr ⟨(key, child), ?_, rfl⟩))))))))
      exact mem_filter.mpr ⟨hfield, by simp [hschema, hforbidden]⟩
    · exact .inr ⟨_, _, .additional henters hfield hschema hadditional, hfound⟩

theorem found_own (h : ∀ rules, place.1 = .object rules → ¬ Enters rules place.2) :
    Found fault place ↔ fault ∈ ownFaults place.1 place.2 := by
  rw [found_iff]
  refine or_iff_left ?_
  rintro ⟨free, next, hchild, -⟩
  cases hchild with
  | item henters => exact h _ rfl henters
  | property henters => exact h _ rfl henters
  | additional henters => exact h _ rfl henters

mutual

theorem among_validate (schema : Value) (path : String) (value : Value) :
    Among fault (validate schema path value) ↔ Found fault (schema, value) := by
  cases schema with
  | object rules =>
    cases hkeyword : unsupportedKeyword rules with
    | some keyword =>
      rw [found_own (by rintro _ ⟨⟩ henters; rw [henters.1] at hkeyword; cases hkeyword)]
      rw [validate.eq_def]
      simp only [hkeyword, ownFaults]
      exact among_map [.unsupportedKeyword keyword]
    | none =>
      cases htype : (typeFaults rules value).2 with
      | false =>
        rw [found_own (by rintro _ ⟨⟩ henters; rw [henters.2] at htype; cases htype)]
        rw [validate.eq_def]
        simp only [hkeyword, ownFaults, htype, Bool.false_eq_true, if_false, append_nil]
        exact among_map _
      | true =>
        rw [found_object ⟨hkeyword, htype⟩, validate.eq_def]
        simp only [hkeyword, htype, if_true, among_append, among_map, mem_append, ← or_assoc]
        rw [or_assoc (c := PartFound fault rules value)]
        refine or_congr Iff.rfl ?_
        cases value with
        | array items =>
          simp only [PartFound, Value.array.injEq, reduceCtorEq, false_and, exists_false, or_false, false_or]
          cases hitems : rules.lookup "items" with
          | none => simp [Among]
          | some itemSchema =>
            dsimp only
            rw [among_validateItems itemSchema path 0 items]
            simp
        | object fields =>
          simp only [among_append, among_map, among_validateFields rules path fields, PartFound, reduceCtorEq, false_and,
            exists_false, Value.object.injEq, exists_eq_left', false_or]
        | _ => simp [PartFound, Among]
  | _ =>
    rw [found_own (by rintro _ ⟨⟩)]
    simp only [validate, ownFaults]
    exact among_map [.notAnObject]

theorem among_validateItems (itemSchema : Value) (path : String) : ∀ index items,
    Among fault (validateItems itemSchema path index items) ↔ ∃ child ∈ items, Found fault (itemSchema, child)
  | index, [] => by simp [validateItems, Among]
  | index, child :: rest => by
    rw [validateItems, among_append, among_validate itemSchema _ child, among_validateItems itemSchema path _ rest]
    simp only [mem_cons, exists_eq_or_imp]

theorem among_validateFields (rules : Rules) (path : String) : ∀ fields,
    Among fault (validateFields rules path fields) ↔ ∃ key child, (key, child) ∈ fields ∧ FieldFound fault rules key child
  | [] => by simp [validateFields, Among]
  | (key, child) :: rest => by
    rw [validateFields, among_append, among_validateFields rules path rest]
    have hcons : (∃ key' child', (key', child') ∈ (key, child) :: rest ∧ FieldFound fault rules key' child') ↔
        FieldFound fault rules key child ∨ ∃ key' child', (key', child') ∈ rest ∧ FieldFound fault rules key' child' := by
      constructor
      · rintro ⟨key', child', hmem, h⟩
        rcases mem_cons.mp hmem with heq | hmem
        · cases heq
          exact .inl h
        · exact .inr ⟨key', child', hmem, h⟩
      · rintro (h | ⟨key', child', hmem, h⟩)
        · exact ⟨key, child, mem_cons_self, h⟩
        · exact ⟨key', child', mem_cons_of_mem _ hmem, h⟩
    rw [hcons]
    refine or_congr ?_ Iff.rfl
    cases hschema : propertySchema rules key with
    | some childSchema =>
      simp only [FieldFound, hschema, Option.some.injEq, exists_eq_left', reduceCtorEq, false_and, or_false]
      exact among_validate childSchema _ child
    | none =>
      simp only [FieldFound, hschema, reduceCtorEq, false_and, exists_false, true_and, false_or]
      split
      · rename_i hadditional
        simp [hadditional, Among]
      · rename_i additional hadditional
        simp only [hadditional, Option.some.injEq, reduceCtorEq, false_and, false_or, Value.object.injEq, exists_eq_left']
        exact among_validate (.object additional) _ child
      · rename_i hflag hobject
        refine iff_of_false (fun h => ?_) ?_
        · obtain ⟨_, hmem⟩ := h
          cases hmem
        · rintro (⟨hforbidden, -⟩ | ⟨additional, hadditional, -⟩)
          · exact hflag hforbidden
          · exact hobject _ hadditional

end

def Passes (rules : Rules) (value : Value) : Keyword → Prop
  | .const => constFaults rules value = []
  | .enum => enumFaults rules value = []
  | .type => (typeFaults rules value).1 = []
  | .bound b => ∀ limit measure l, rules.lookup b.keyword = some limit → b.measure value = some measure →
      b.read limit = some l → b.Within l (b.seen measure)
  | .required => ∀ fields, value = .object fields → requiredFaults rules fields = []
  | .properties => True
  | .additionalProperties => ∀ fields, value = .object fields →
      rules.lookup "additionalProperties" = some (.bool false) → ∀ key child, (key, child) ∈ fields →
        propertySchema rules key ≠ none

theorem limitFaults_eq_nil {α : Type} {limit : Option α} {violated : α → Bool} {fault : α → Fault} :
    limitFaults limit violated fault = [] ↔ ∀ l, limit = some l → violated l = false := by
  cases limit with
  | none => simp [limitFaults]
  | some l => cases hl : violated l <;> simp [limitFaults, Option.filter, hl]

theorem boundFaults_eq_nil : textFaults rules value ++ numberFaults rules value ++ arrayFaults rules value = [] ↔
    ∀ b, Passes rules value (.bound b) := by
  have hnat : ∀ {keyword : String} {P : Nat → Prop}, (∀ l, boundU64 rules keyword = some l → P l) ↔
      ∀ limit n, rules.lookup keyword = some limit → limit.asU64 = some n → P n := by
    intro keyword P
    simp only [boundU64, Option.bind_eq_some_iff, forall_exists_index, and_imp]
    exact forall_comm
  have hrat : ∀ {keyword : String} {P : ℚ → Prop}, (∀ l, boundF64 rules keyword = some l → P l) ↔
      ∀ limit n, rules.lookup keyword = some limit → limit.asNumber = some n → P n.asF64 := by
    intro keyword P
    simp only [boundF64, Option.map_eq_some_iff, Option.bind_eq_some_iff, forall_exists_index, and_imp]
    constructor
    · intro h limit n hlimit hn
      exact h _ n limit hlimit hn rfl
    · rintro h _ n limit hlimit hn rfl
      exact h limit n hlimit hn
  cases value with
  | string text =>
    simp only [textFaults, numberFaults, arrayFaults, append_nil, append_eq_nil_iff, limitFaults_eq_nil,
      decide_eq_false_iff_not, not_lt, hnat]
    constructor
    · rintro ⟨hmin, hmax⟩ b limit measure l hlimit hmeasure hread
      cases b <;> cases hmeasure <;>
        obtain ⟨n, hn, rfl⟩ := Option.map_eq_some_iff.mp hread
      · exact Nat.cast_le.mpr (hmin limit n hlimit hn)
      · exact Nat.cast_le.mpr (hmax limit n hlimit hn)
    · intro h
      exact ⟨fun limit n hlimit hn => Nat.cast_le.mp (h .minLength limit _ n hlimit rfl (by simp [Bound.read, hn])),
        fun limit n hlimit hn => Nat.cast_le.mp (h .maxLength limit _ n hlimit rfl (by simp [Bound.read, hn]))⟩
  | array items =>
    simp only [textFaults, numberFaults, arrayFaults, nil_append, append_eq_nil_iff, limitFaults_eq_nil,
      decide_eq_false_iff_not, not_lt, hnat]
    constructor
    · rintro ⟨hmin, hmax⟩ b limit measure l hlimit hmeasure hread
      cases b <;> cases hmeasure <;>
        obtain ⟨n, hn, rfl⟩ := Option.map_eq_some_iff.mp hread
      · exact Nat.cast_le.mpr (hmin limit n hlimit hn)
      · exact Nat.cast_le.mpr (hmax limit n hlimit hn)
    · intro h
      exact ⟨fun limit n hlimit hn => Nat.cast_le.mp (h .minItems limit _ n hlimit rfl (by simp [Bound.read, hn])),
        fun limit n hlimit hn => Nat.cast_le.mp (h .maxItems limit _ n hlimit rfl (by simp [Bound.read, hn]))⟩
  | number number =>
    simp only [textFaults, numberFaults, arrayFaults, nil_append, append_nil, append_eq_nil_iff,
      limitFaults_eq_nil, decide_eq_false_iff_not, not_lt, hrat]
    constructor
    · rintro ⟨hmin, hmax⟩ b limit measure l hlimit hmeasure hread
      cases b <;> cases hmeasure <;>
        obtain ⟨n, hn, rfl⟩ := Option.map_eq_some_iff.mp hread
      · exact hmin limit n hlimit hn
      · exact hmax limit n hlimit hn
    · intro h
      exact ⟨fun limit n hlimit hn => h .minimum limit _ _ hlimit rfl (by simp [Bound.read, hn]),
        fun limit n hlimit hn => h .maximum limit _ _ hlimit rfl (by simp [Bound.read, hn])⟩
  | _ =>
    refine iff_of_true rfl fun b limit measure l hlimit hmeasure => ?_
    cases b <;> cases hmeasure

theorem ownFaults_eq_nil (hkeyword : unsupportedKeyword rules = none) :
    ownFaults (.object rules) value = [] ↔ ∀ keyword, Passes rules value keyword := by
  have htype : (typeFaults rules value).1 = [] → (typeFaults rules value).2 = true := by
    intro h
    unfold typeFaults at h ⊢
    split at h
    · rfl
    · split at h
      · cases h
      · split at h
        · simp_all
        · cases h
  have hobject : objectFaults rules value = [] ↔
      Passes rules value .required ∧ Passes rules value .additionalProperties := by
    cases value with
    | object fields =>
      simp only [objectFaults, append_eq_nil_iff, map_eq_nil_iff, filter_eq_nil_iff, Bool.and_eq_true,
        Option.isNone_iff_eq_none, not_and, Passes, Value.object.injEq, forall_eq']
      refine and_congr Iff.rfl ⟨fun h hforbidden key child hfield hnone => ?_, fun h field hfield hnone => ?_⟩
      · exact h (key, child) hfield hnone (by simp [hforbidden])
      · split
        · rename_i hforbidden
          exact absurd hnone (h hforbidden field.1 field.2 hfield)
        · exact Bool.false_ne_true
    | _ => simp [objectFaults, Passes]
  simp only [ownFaults, hkeyword, kindFaults, append_eq_nil_iff]
  constructor
  · rintro ⟨⟨⟨hconst, henum⟩, htype'⟩, hkind⟩ keyword
    rw [if_pos (htype htype')] at hkind
    obtain ⟨hbound, hown⟩ := append_eq_nil_iff.mp hkind
    cases keyword with
    | const => exact hconst
    | enum => exact henum
    | type => exact htype'
    | bound b => exact boundFaults_eq_nil.mp hbound b
    | required => exact (hobject.mp hown).1
    | properties => trivial
    | additionalProperties => exact (hobject.mp hown).2
  · intro h
    refine ⟨⟨⟨h .const, h .enum⟩, h .type⟩, ?_⟩
    rw [if_pos (htype (h .type))]
    exact append_eq_nil_iff.mpr ⟨boundFaults_eq_nil.mpr fun b => h (.bound b),
      hobject.mpr ⟨h .required, h .additionalProperties⟩⟩

theorem typeTest_iff (value : Value) {kind : String} {test : Value → Bool} (h : typeTest kind = some test) :
    test value = true ↔
    HasType kind value ∧ ¬ (kind = "integer" ∧ ∃ (text : String) (z : ℤ), value = .number (.float text) ∧
      (Number.float text).value = z) := by
  have hposInt : ∀ n, ∃ z : ℤ, (Number.posInt n).value = z := fun n => ⟨n, by simp [Number.value]⟩
  have hnegInt : ∀ n, ∃ z : ℤ, (Number.negInt n).value = z := fun n => ⟨n, by simp [Number.value]⟩
  unfold typeTest at h
  split at h <;> cases h
  case h_5 =>
    cases value with
    | number n =>
      cases n with
      | float text => simp [HasType]
      | _ => simp [HasType, hposInt, hnegInt]
    | _ => simp [HasType]
  all_goals cases value <;> simp [HasType]

theorem holds_of_tooStrict {keyword : Keyword} (h : TooStrict rules value keyword) : Holds rules value keyword := by
  cases keyword with
  | const =>
    obtain ⟨expected, hlookup, hmeans, -⟩ := h
    intro expected' hlookup'
    rw [hlookup] at hlookup'
    cases hlookup'
    exact hmeans
  | enum =>
    obtain ⟨items, hlookup, hmeans, -⟩ := h
    intro allowed hlookup'
    rw [hlookup] at hlookup'
    cases hlookup'
    exact ⟨items, rfl, hmeans⟩
  | type =>
    obtain ⟨hlookup, text, z, rfl, hz⟩ := h
    intro kind hlookup'
    rw [hlookup] at hlookup'
    cases hlookup'
    exact ⟨_, rfl, .inr ⟨rfl, z, hz⟩⟩
  | _ => exact h.elim

theorem not_holds_of_tooLenient {keyword : Keyword} (h : TooLenient rules value keyword) : ¬ Holds rules value keyword := by
  intro hholds
  cases keyword with
  | const => exact h
  | enum =>
    obtain ⟨allowed, hlookup, hnone⟩ := h
    obtain ⟨items, rfl, -⟩ := hholds allowed hlookup
    cases hnone
  | type =>
    obtain ⟨kind, hlookup, hnone⟩ := h
    obtain ⟨name, rfl, -⟩ := hholds kind hlookup
    cases hnone
  | bound b =>
    obtain ⟨limit, measure, hlookup, hmeasure, -, hnot⟩ := h
    exact hnot (hholds limit measure hlookup hmeasure)
  | required =>
    obtain ⟨required, fields, hlookup, hvalue, hnot, -⟩ := h
    obtain ⟨names, hnames, -⟩ := hholds required fields hlookup hvalue
    exact hnot ⟨names, hnames⟩
  | properties =>
    obtain ⟨properties, fields, hlookup, hvalue, hnot⟩ := h
    exact hnot (hholds properties fields hlookup hvalue)
  | additionalProperties =>
    obtain ⟨additional, fields, hlookup, hvalue, ⟨key, child, hfield, hnone⟩, hbool, hobject⟩ := h
    rcases hholds additional fields hlookup hvalue key child hfield hnone with heq | ⟨schema, heq⟩
    · exact hbool _ heq
    · exact hobject _ heq

theorem within_seen {b : Bound} {n : Number} {measure l : ℚ} (hmeasure : b.measure value = some measure)
    (hread : b.read (.number n) = some l) (h : b.Within n.value measure) : b.Within l (b.seen measure) := by
  cases b
  case minimum | maximum =>
    cases hread
    exact roundF64_mono h
  all_goals
    cases n <;> cases hread
    exact h

theorem requiredFaults_eq_nil {fields : List (String × Value)} : requiredFaults rules fields = [] ↔
    ∀ items name, rules.lookup "required" = some (.array items) → .string name ∈ items → (fields.lookup name).isSome := by
  simp only [requiredFaults, map_eq_nil_iff, filter_eq_nil_iff, mem_filterMap, Option.isNone_iff_eq_none,
    forall_exists_index, and_imp, ← ne_eq, Option.ne_none_iff_isSome]
  constructor
  · intro h items name hlookup hname
    exact h name (.string name) (by simpa [hlookup, Value.asArray] using hname) rfl
  · intro h name item hitem hname
    cases item <;> cases hname
    cases hlookup : rules.lookup "required" with
    | none => simp [hlookup] at hitem
    | some required =>
      cases required with
      | array items => exact h items name hlookup (by simpa [hlookup, Value.asArray] using hitem)
      | _ => simp [hlookup, Value.asArray] at hitem

theorem passes_iff (hrules : Understood rules) {keyword : Keyword} : Passes rules value keyword ↔
    Holds rules value keyword ∧ ¬ TooStrict rules value keyword ∨ TooLenient rules value keyword := by
  cases keyword with
  | const =>
    simp only [Passes, constFaults, Holds, TooStrict, TooLenient, or_false]
    cases hlookup : rules.lookup "const" with
    | none => simp
    | some expected =>
      cases hsame : expected.same value with
      | true => simp [hsame, Value.means_of_same hsame]
      | false => simp [hsame]
  | enum =>
    simp only [Passes, enumFaults, Holds, TooStrict, TooLenient]
    cases hlookup : rules.lookup "enum" with
    | none => simp
    | some allowed =>
      cases allowed with
      | array items =>
        simp only [Option.bind_some, Value.asArray, Option.some.injEq, forall_eq', Value.array.injEq, exists_eq_left',
          reduceCtorEq, or_false]
        cases hany : items.any (·.same value) with
        | true =>
          obtain ⟨item, hitem, hsame⟩ := any_eq_true.mp hany
          refine iff_of_true rfl ⟨⟨item, hitem, Value.means_of_same hsame⟩, fun h => ?_⟩
          rw [h.2 item hitem] at hsame
          cases hsame
        | false =>
          refine iff_of_false (by simp) fun h => h.2 ⟨h.1, fun item hitem => ?_⟩
          exact Bool.eq_false_iff.mpr (any_eq_false.mp hany item hitem)
      | _ => simp [Value.asArray]
  | type =>
    simp only [Passes, typeFaults, Holds, TooStrict, TooLenient]
    cases hlookup : rules.lookup "type" with
    | none => simp
    | some kind =>
      cases kind with
      | string name =>
        obtain ⟨test, htest⟩ := Option.ne_none_iff_exists'.mp (hrules.2 name hlookup)
        have hiff := typeTest_iff value htest
        simp only [Option.bind_some, Value.asStr, htest, Option.some.injEq, forall_eq', Value.string.injEq, exists_eq_left',
          reduceCtorEq, or_false]
        rw [← hiff]
        cases test value <;> simp
      | _ => simp [Value.asStr]
  | bound b =>
    simp only [TooStrict, not_false_eq_true, and_true]
    constructor
    · intro h
      by_cases hholds : Holds rules value (.bound b)
      · exact .inl hholds
      · simp only [Holds, not_forall] at hholds
        obtain ⟨limit, measure, hlookup, hmeasure, hnot⟩ := hholds
        exact .inr ⟨limit, measure, hlookup, hmeasure, fun l hread => h limit measure l hlookup hmeasure hread, hnot⟩
    · rintro (h | ⟨limit, measure, hlookup, hmeasure, hseen, -⟩) limit' measure' l hlookup' hmeasure' hread
      · obtain ⟨n, rfl, hwithin⟩ := h limit' measure' hlookup' hmeasure'
        exact within_seen hmeasure' hread hwithin
      · rw [hlookup] at hlookup'
        rw [hmeasure] at hmeasure'
        cases hlookup'
        cases hmeasure'
        exact hseen l hread
  | required =>
    simp only [Passes, TooStrict, not_false_eq_true, and_true, requiredFaults_eq_nil]
    constructor
    · intro h
      by_cases hholds : Holds rules value .required
      · exact .inl hholds
      · simp only [Holds, not_forall] at hholds
        obtain ⟨required, fields, hlookup, hvalue, hnot⟩ := hholds
        refine .inr ⟨required, fields, hlookup, hvalue, ?_, ?_⟩
        · rintro ⟨names, rfl⟩
          exact hnot ⟨names, rfl, fun name hname => h fields hvalue _ name hlookup (mem_map_of_mem hname)⟩
        · rintro items name rfl hname
          exact h fields hvalue items name hlookup hname
    · rintro (h | ⟨required, fields, hlookup, hvalue, -, hall⟩) fields' hvalue' items name hlookup' hname
      · obtain ⟨names, heq, hall⟩ := h _ fields' hlookup' hvalue'
        cases heq
        obtain ⟨name', hname', heq⟩ := mem_map.mp hname
        cases heq
        exact hall name hname'
      · rw [hlookup] at hlookup'
        rw [hvalue] at hvalue'
        cases hlookup'
        cases hvalue'
        exact hall items name rfl hname
  | properties =>
    simp only [Passes, TooStrict, not_false_eq_true, and_true, true_iff]
    by_cases hholds : Holds rules value .properties
    · exact .inl hholds
    · simp only [Holds, not_forall] at hholds
      obtain ⟨properties, fields, hlookup, hvalue, hnot⟩ := hholds
      exact .inr ⟨properties, fields, hlookup, hvalue, hnot⟩
  | additionalProperties =>
    simp only [Passes, TooStrict, not_false_eq_true, and_true]
    constructor
    · intro h
      by_cases hholds : Holds rules value .additionalProperties
      · exact .inl hholds
      · simp only [Holds, not_forall, not_or, not_exists] at hholds
        obtain ⟨additional, fields, hlookup, hvalue, key, child, hfield, hnone, htrue, hobject⟩ := hholds
        refine .inr ⟨additional, fields, hlookup, hvalue, ⟨key, child, hfield, hnone⟩, ?_, hobject⟩
        rintro (_ | _) rfl
        · exact h fields hvalue hlookup key child hfield hnone
        · exact htrue rfl
    · rintro (h | ⟨additional, fields, hlookup, hvalue, -, hbool, -⟩) fields' hvalue' hlookup' key child hfield hnone
      · rcases h _ fields' hlookup' hvalue' key child hfield hnone with heq | ⟨schema, heq⟩ <;> cases heq
      · rw [hlookup] at hlookup'
        cases hlookup'
        exact hbool _ rfl

theorem not_found_iff (hrules : ∀ rules, place.1 = .object rules → Understood rules) :
    ownFaults place.1 place.2 = [] ↔ ∃ rules, place.1 = .object rules ∧ ∀ keyword, Passes rules place.2 keyword := by
  obtain ⟨schema, value⟩ := place
  cases schema with
  | object rules =>
    rw [ownFaults_eq_nil (hrules rules rfl).1]
    simp only [Value.object.injEq, exists_eq_left']
  | _ => simp [ownFaults]

theorem validate_eq_nil : validate schema path value = [] ↔
    ∀ place, Places Enters (schema, value) place → ownFaults place.1 place.2 = [] := by
  constructor
  · intro h place hplace
    refine eq_nil_iff_forall_not_mem.mpr fun fault hfault => ?_
    obtain ⟨at_, hmem⟩ := (among_validate schema path value).mpr ⟨place, hplace, hfault⟩
    rw [h] at hmem
    cases hmem
  · intro h
    refine eq_nil_iff_forall_not_mem.mpr fun issue hissue => ?_
    obtain ⟨place, hplace, hfault⟩ := (among_validate schema path value).mp ⟨issue.path, hissue⟩
    rw [h place hplace] at hfault
    cases hfault

theorem basicValidate_ok [F64Display] : basicValidate schema value = .ok () ↔ validate schema "$" value = [] := by
  unfold basicValidate
  split
  · simp [*]
  · rename_i hne
    exact iff_of_false nofun hne

theorem enters_of_holds (hrules : Understood rules) (hvalue : ∀ n, value ≠ .number n)
    (h : Holds rules value .type) : Enters rules value := by
  refine ⟨hrules.1, ?_⟩
  unfold typeFaults
  split
  · rfl
  · rename_i kind hkind
    obtain ⟨kindValue, hlookup, hstr⟩ := Option.bind_eq_some_iff.mp hkind
    obtain ⟨name, rfl, htype⟩ := h kindValue hlookup
    cases hstr
    obtain ⟨test, htest⟩ := Option.ne_none_iff_exists'.mp (hrules.2 _ hlookup)
    have hpass : test value = true := (typeTest_iff _ htest).mpr ⟨htype, fun ⟨_, text, _, hnumber, _⟩ => hvalue _ hnumber⟩
    simp [htest, hpass]

theorem places_enters (hunderstood : ∀ place, Places Enters (schema, value) place → ∀ rules, place.1 = .object rules →
      Understood rules)
    (hholds : ∀ place, Places Enters (schema, value) place → ∀ rules, place.1 = .object rules →
      ∀ keyword, Holds rules place.2 keyword) (h : Places (fun _ _ => True) (schema, value) place) :
    Places Enters (schema, value) place := by
  induction h with
  | refl => exact .refl
  | tail _ hchild ih =>
    have henters : ∀ rules parts, (∀ n, parts ≠ Value.number n) → Places Enters (schema, value) (.object rules, parts) →
        Enters rules parts := fun rules parts hparts hplace =>
      enters_of_holds (hunderstood _ hplace rules rfl) hparts (hholds _ hplace rules rfl .type)
    obtain ⟨free, hchild⟩ := hchild
    refine ih.tail ⟨free, ?_⟩
    cases hchild with
    | item _ hitems hchild => exact .item (henters _ _ nofun ih) hitems hchild
    | property _ hfield hschema => exact .property (henters _ _ nofun ih) hfield hschema
    | additional _ hfield hschema hadditional => exact .additional (henters _ _ nofun ih) hfield hschema hadditional

theorem places_all (h : Places Enters (schema, value) place) : Places (fun _ _ => True) (schema, value) place := by
  refine Relation.ReflTransGen.mono (fun _ _ => ?_) _ _ h
  rintro ⟨free, hchild⟩
  refine ⟨free, ?_⟩
  cases hchild with
  | item _ hitems hchild => exact .item trivial hitems hchild
  | property _ hfield hschema => exact .property trivial hfield hschema
  | additional _ hfield hschema hadditional => exact .additional trivial hfield hschema hadditional

theorem mem_limitFaults {α : Type} {limit : Option α} {violated : α → Bool} {fault' : α → Fault}
    (h : fault ∈ limitFaults limit violated fault') : ∃ l, fault = fault' l := by
  unfold limitFaults at h
  split at h
  · exact ⟨_, mem_singleton.mp h⟩
  · cases h

theorem ownFaults_supported (hrules : Understood rules) (h : fault ∈ ownFaults (.object rules) value) :
    (∀ keyword, fault ≠ .unsupportedKeyword keyword) ∧ ∀ kind, fault ≠ .unsupportedType kind := by
  simp only [ownFaults, hrules.1, mem_append] at h
  rcases h with ((h | h) | h) | h
  · unfold constFaults at h
    split at h
    · split at h
      · cases h
      · simp [mem_singleton.mp h]
    · cases h
  · unfold enumFaults at h
    split at h
    · split at h
      · cases h
      · simp [mem_singleton.mp h]
    · cases h
  · unfold typeFaults at h
    split at h
    · cases h
    · rename_i kind hkind
      obtain ⟨kindValue, hlookup, hstr⟩ := Option.bind_eq_some_iff.mp hkind
      split at h
      · rename_i htest
        cases kindValue <;> cases hstr
        exact absurd htest (hrules.2 _ hlookup)
      · split at h
        · cases h
        · simp [mem_singleton.mp h]
  · split at h
    · simp only [kindFaults, mem_append] at h
      rcases h with ((h | h) | h) | h
      · unfold textFaults at h
        split at h
        · rcases mem_append.mp h with h | h <;> obtain ⟨l, rfl⟩ := mem_limitFaults h <;> simp
        · cases h
      · unfold numberFaults at h
        split at h
        · rcases mem_append.mp h with h | h <;> obtain ⟨l, rfl⟩ := mem_limitFaults h <;> simp
        · cases h
      · unfold arrayFaults at h
        split at h
        · rcases mem_append.mp h with h | h <;> obtain ⟨l, rfl⟩ := mem_limitFaults h <;> simp
        · cases h
      · unfold objectFaults at h
        split at h
        · rcases mem_append.mp h with h | h <;> obtain ⟨_, -, rfl⟩ := mem_map.mp h <;> simp
        · cases h
    · cases h

theorem supported_iff : (∀ issue ∈ validate schema path value,
      (∀ keyword, issue.fault ≠ .unsupportedKeyword keyword) ∧ ∀ kind, issue.fault ≠ .unsupportedType kind) ↔
    ∀ place, Places Enters (schema, value) place → ∀ rules, place.1 = .object rules → Understood rules := by
  constructor
  · rintro h ⟨_, value'⟩ hplace rules ⟨⟩
    have hfault : ∀ fault ∈ ownFaults (.object rules) value',
        (∀ keyword, fault ≠ .unsupportedKeyword keyword) ∧ ∀ kind, fault ≠ .unsupportedType kind := by
      intro fault hfault
      obtain ⟨at_, hmem⟩ := (among_validate schema path value).mpr ⟨_, hplace, hfault⟩
      exact h _ hmem
    have hkeyword : unsupportedKeyword rules = none := by
      cases hkeyword : unsupportedKeyword rules with
      | none => rfl
      | some keyword => exact absurd rfl ((hfault (.unsupportedKeyword keyword) (by simp [ownFaults, hkeyword])).1 keyword)
    refine ⟨hkeyword, fun kind hkind htest => ?_⟩
    exact (hfault (.unsupportedType kind) (by simp [ownFaults, hkeyword, typeFaults, hkind, Value.asStr, htest])).2 kind rfl
  · intro h issue hissue
    obtain ⟨⟨schema', value'⟩, hplace, hfault⟩ := (among_validate schema path value).mp ⟨issue.path, hissue⟩
    cases schema' with
    | object rules => exact ownFaults_supported (h _ hplace rules rfl) hfault
    | _ =>
      obtain heq := mem_singleton.mp hfault
      simp [heq]

theorem faithful_iff [F64Display] : Faithful schema value ↔ ReadAsMeant schema value := by
  unfold Faithful ReadAsMeant
  rw [supported_iff, basicValidate_ok, validate_eq_nil]
  refine and_congr_right fun hunderstood => ?_
  by_cases hviolated : ∃ place, Places Enters (schema, value) place ∧ Violated place
  · refine iff_of_true ?_ (.inl hviolated)
    obtain ⟨place, hplace, hviolated⟩ := hviolated
    refine iff_of_false (fun h => ?_) fun h => ?_
    · obtain ⟨rules, hrules, hpass⟩ := (not_found_iff (hunderstood place hplace)).mp (h place hplace)
      obtain ⟨keyword, hnot, hlenient⟩ := hviolated rules hrules
      rcases (passes_iff (hunderstood place hplace rules hrules)).mp (hpass keyword) with ⟨hholds, -⟩ | hlenient'
      · exact hnot hholds
      · exact hlenient hlenient'
    · obtain ⟨rules, hrules, hholds⟩ := h place (places_all hplace)
      obtain ⟨keyword, hnot, -⟩ := hviolated rules hrules
      exact hnot (hholds keyword)
  · have hread : ∀ place, Places Enters (schema, value) place → ∃ rules, place.1 = .object rules ∧
        ∀ keyword, Holds rules place.2 keyword ∨ TooLenient rules place.2 keyword := by
      intro place hplace
      by_contra hnot
      refine hviolated ⟨place, hplace, fun rules hrules => ?_⟩
      by_contra hall
      refine hnot ⟨rules, hrules, fun keyword => ?_⟩
      by_contra hneither
      exact hall ⟨keyword, not_or.mp hneither⟩
    have haccepted : (∀ place, Places Enters (schema, value) place → ownFaults place.1 place.2 = []) ↔
        ¬ Somewhere TooStrict schema value := by
      constructor
      · rintro h ⟨place, hplace, rules, keyword, hrules, hstrict⟩
        obtain ⟨rules', hrules', hpass⟩ := (not_found_iff (hunderstood place hplace)).mp (h place hplace)
        obtain rfl : rules = rules' := Value.object.inj (hrules.symm.trans hrules')
        rcases (passes_iff (hunderstood place hplace rules hrules)).mp (hpass keyword) with ⟨-, hnot⟩ | hlenient
        · exact hnot hstrict
        · exact not_holds_of_tooLenient hlenient (holds_of_tooStrict hstrict)
      · intro h place hplace
        obtain ⟨rules, hrules, hall⟩ := hread place hplace
        refine (not_found_iff (hunderstood place hplace)).mpr ⟨rules, hrules, fun keyword => ?_⟩
        refine (passes_iff (hunderstood place hplace rules hrules)).mpr ((hall keyword).imp_left fun hholds => ?_)
        exact ⟨hholds, fun hstrict => h ⟨place, hplace, rules, keyword, hrules, hstrict⟩⟩
    have hsatisfied : Satisfies schema value ↔ ¬ Somewhere TooLenient schema value := by
      constructor
      · rintro h ⟨place, hplace, rules, keyword, hrules, hlenient⟩
        obtain ⟨rules', hrules', hholds⟩ := h place (places_all hplace)
        obtain rfl : rules = rules' := Value.object.inj (hrules.symm.trans hrules')
        exact not_holds_of_tooLenient hlenient (hholds keyword)
      · intro h
        have hholds : ∀ place, Places Enters (schema, value) place → ∃ rules, place.1 = .object rules ∧
            ∀ keyword, Holds rules place.2 keyword := by
          intro place hplace
          obtain ⟨rules, hrules, hall⟩ := hread place hplace
          exact ⟨rules, hrules, fun keyword => (hall keyword).resolve_right fun hlenient =>
            h ⟨place, hplace, rules, keyword, hrules, hlenient⟩⟩
        intro place hplace
        refine hholds place (places_enters hunderstood (fun place hplace rules hrules => ?_) hplace)
        obtain ⟨rules', hrules', hall⟩ := hholds place hplace
        obtain rfl : rules = rules' := Value.object.inj (hrules.symm.trans hrules')
        exact hall
    rw [haccepted, hsatisfied, or_iff_right hviolated, not_iff_not]

open WorkflowCompiler

theorem reject_eq_nil {bad : Bool} {code message : String} : reject bad path code message = [] ↔ bad = false := by
  cases bad <;> simp [reject]

theorem checkItems_eq_nil (h : checkItems path rules = []) {itemSchema : Value}
    (hitems : rules.lookup "items" = some itemSchema) : checkSchemaValue (path ++ ".items") itemSchema = [] := by
  induction rules with
  | nil => cases hitems
  | cons rule rest ih =>
    obtain ⟨key, child⟩ := rule
    rw [checkItems] at h
    split at h
    · rename_i hkey
      subst hkey
      rw [lookup_cons_self] at hitems
      cases hitems
      exact h
    · rename_i hkey
      rw [lookup_cons, beq_false_of_ne (Ne.symm hkey)] at hitems
      exact ih h hitems

theorem checkProperties_eq_nil (h : checkProperties path rules = []) {properties : Value}
    (hproperties : rules.lookup "properties" = some properties) : checkPropertyMap path properties = [] := by
  induction rules with
  | nil => cases hproperties
  | cons rule rest ih =>
    obtain ⟨key, child⟩ := rule
    rw [checkProperties] at h
    split at h
    · rename_i hkey
      subst hkey
      rw [lookup_cons_self] at hproperties
      cases hproperties
      exact h
    · rename_i hkey
      rw [lookup_cons, beq_false_of_ne (Ne.symm hkey)] at hproperties
      exact ih h hproperties

theorem checkEachProperty_eq_nil {schemas : Rules} (h : checkEachProperty path schemas = []) {key : String}
    (hkey : schemas.lookup key = some child) : ∃ path, checkSchemaValue path child = [] := by
  induction schemas with
  | nil => cases hkey
  | cons field rest ih =>
    obtain ⟨name, schema⟩ := field
    rw [checkEachProperty, append_eq_nil_iff] at h
    rw [lookup_cons] at hkey
    split at hkey
    · cases hkey
      exact ⟨_, h.1⟩
    · exact ih h.2 hkey

theorem typeTest_of_primitive {kind : String} (h : primitiveTypes.contains kind = true) : typeTest kind ≠ none := by
  simp only [primitiveTypes, contains_iff_mem, mem_cons, not_mem_nil, or_false] at h
  rcases h with rfl | rfl | rfl | rfl | rfl | rfl | rfl <;> exact nofun

theorem strings_of_all {items : List Value} (h : ∀ item ∈ items, item.asStr.isSome) :
    ∃ names : List String, items = names.map .string := by
  induction items with
  | nil => exact ⟨[], rfl⟩
  | cons item rest ih =>
    obtain ⟨names, rfl⟩ := ih fun item' hitem' => h item' (mem_cons_of_mem _ hitem')
    have hitem := h item mem_cons_self
    cases item with
    | string name => exact ⟨name :: names, rfl⟩
    | _ => cases hitem

def Accepted (schema : Value) : Prop := ∃ path, checkSchemaValue path schema = []

theorem accepted_object (h : Accepted schema) : ∃ rules, schema = .object rules ∧ Understood rules ∧
    ∀ value keyword, TooLenient rules value keyword → ∃ b, keyword = .bound b := by
  obtain ⟨path, h⟩ := h
  cases schema with
  | object rules =>
    simp only [checkSchemaValue, append_eq_nil_iff] at h
    obtain ⟨⟨⟨⟨⟨⟨hkeywords, htype⟩, hrequired⟩, hproperties⟩, hitems⟩, hadditional⟩, henum⟩ := h
    refine ⟨rules, rfl, ⟨?_, fun kind hkind => ?_⟩, fun value keyword hlenient => ?_⟩
    · simp only [unsupportedKeyword, Option.map_eq_none_iff, List.find?_eq_none, Bool.not_eq_true', Bool.not_eq_false]
      intro rule hrule
      have hnone := flatMap_eq_nil_iff.mp hkeywords rule hrule
      simpa using reject_eq_nil.mp hnone
    · rw [checkType, hkind] at htype
      have hprimitive := reject_eq_nil.mp htype
      exact typeTest_of_primitive (by simpa [Value.asStr] using hprimitive)
    · cases keyword with
      | const => exact hlenient.elim
      | enum =>
        obtain ⟨allowed, hlookup, hnone⟩ := hlenient
        simp only [checkEnum, hlookup] at henum
        cases allowed with
        | array items => cases hnone
        | _ => exact absurd henum (cons_ne_nil _ _)
      | type =>
        obtain ⟨kind, hlookup, hnone⟩ := hlenient
        rw [checkType, hlookup] at htype
        have hprimitive := reject_eq_nil.mp htype
        simp [hnone] at hprimitive
      | bound b => exact ⟨b, rfl⟩
      | required =>
        obtain ⟨required, fields, hlookup, -, hnot, -⟩ := hlenient
        rw [checkRequired, hlookup] at hrequired
        cases required with
        | array items =>
          have hstrings := reject_eq_nil.mp hrequired
          obtain ⟨names, hnames⟩ := strings_of_all (by simpa using hstrings)
          exact absurd ⟨names, congrArg Value.array hnames⟩ hnot
        | _ => exact absurd hrequired (cons_ne_nil _ _)
      | properties =>
        obtain ⟨properties, fields, hlookup, -, hnot⟩ := hlenient
        have hmap := checkProperties_eq_nil hproperties hlookup
        cases properties with
        | object schemas => exact absurd ⟨schemas, rfl⟩ hnot
        | _ => exact absurd hmap (cons_ne_nil _ _)
      | additionalProperties =>
        obtain ⟨additional, fields, hlookup, -, -, hbool, hobject⟩ := hlenient
        simp only [checkAdditionalProperties, hlookup] at hadditional
        cases additional with
        | bool b => exact absurd rfl (hbool b)
        | object schema => exact absurd rfl (hobject schema)
        | _ => exact absurd hadditional (cons_ne_nil _ _)
  | _ => exact absurd h (cons_ne_nil _ _)

theorem accepted_child (h : Accepted place.1) (hchild : Child enters false place next) : Accepted next.1 := by
  obtain ⟨path, h⟩ := h
  cases hchild with
  | item _ hitems _ =>
    simp only [checkSchemaValue, append_eq_nil_iff] at h
    exact ⟨_, checkItems_eq_nil h.1.1.2 hitems⟩
  | property _ _ hschema =>
    simp only [checkSchemaValue, append_eq_nil_iff] at h
    obtain ⟨properties, hlookup, hget⟩ := Option.bind_eq_some_iff.mp hschema
    have hmap := checkProperties_eq_nil h.1.1.1.2 hlookup
    cases properties with
    | object schemas => exact checkEachProperty_eq_nil hmap hget
    | _ => exact absurd hmap (cons_ne_nil _ _)

def Named (schema value : Value) : Value × Value → Prop := Relation.ReflTransGen (Child Enters false) (schema, value)

theorem accepted_named (h : Accepted schema) (hnamed : Named schema value place) : Accepted place.1 := by
  induction hnamed with
  | refl => exact h
  | tail _ hchild ih => exact accepted_child ih hchild

/-- For every schema the compiler accepts, the validator judges a value as the schema means it exactly if it reads the
    schema as it is meant there; outside of additional properties it meets no unsupported keyword or type, and takes no
    keyword but a bound too leniently. -/
theorem schema_meaning_iff [F64Display] {schema path} (haccepted : checkSchemaValue path schema = []) (value : Value) :
    (Faithful schema value ↔ ReadAsMeant schema value) ∧
      ∀ place, Named schema value place → ∃ rules, place.1 = .object rules ∧ Understood rules ∧
        ∀ keyword, TooLenient rules place.2 keyword → ∃ b, keyword = .bound b := by
  refine ⟨faithful_iff, fun place hplace => ?_⟩
  obtain ⟨rules, hrules, hunderstood, hlenient⟩ := accepted_object (accepted_named ⟨path, haccepted⟩ hplace)
  exact ⟨rules, hrules, hunderstood, hlenient place.2⟩

namespace Misread

scoped instance display : F64Display := ⟨fun value => toString value⟩

def numbers : Value :=
  .object [("items", .object [("minimum", .number (.posInt 3)), ("type", .string "integer")]), ("type", .string "array")]

theorem numbers_meaning_iff : checkSchemaValue "input_schema" numbers = [] ∧
    (Faithful numbers (.array [.number (.posInt 4), .number (.posInt 2)]) ↔
      ReadAsMeant numbers (.array [.number (.posInt 4), .number (.posInt 2)])) := by
  have haccepted : checkSchemaValue "input_schema" numbers = [] := by rfl
  exact ⟨haccepted, (schema_meaning_iff haccepted (.array [.number (.posInt 4), .number (.posInt 2)])).1⟩

/-- A keyword of the schema for additional properties is not checked when the workflow is compiled, and a bound that is
    no number is ignored. -/
theorem accepted_misread :
    (checkSchemaValue "input_schema" (.object [("additionalProperties", .object [("format", .string "uuid")])]) = [] ∧
        ¬ Faithful (.object [("additionalProperties", .object [("format", .string "uuid")])])
          (.object [("id", .string "x")])) ∧
      checkSchemaValue "input_schema" (.object [("minimum", .string "3")]) = [] ∧
        ¬ Faithful (.object [("minimum", .string "3")]) (.number (.posInt 1)) := by
  refine ⟨⟨rfl, fun h => ?_⟩, rfl, fun h => ?_⟩
  · have hissue : (⟨"$/id", .unsupportedKeyword "format"⟩ : Issue) ∈ validate
        (.object [("additionalProperties", .object [("format", .string "uuid")])]) "$" (.object [("id", .string "x")]) :=
      mem_singleton_self _
    exact (h.1 _ hissue).1 "format" rfl
  · have haccepts : basicValidate (.object [("minimum", .string "3")]) (.number (.posInt 1)) = .ok () := rfl
    obtain ⟨rules, hrules, hholds⟩ := h.2.mp haccepts _ .refl
    cases hrules
    obtain ⟨n, hn, -⟩ := hholds (.bound .minimum) (.string "3") _ rfl rfl
    cases hn

end Misread

end RustyCore.Schema
