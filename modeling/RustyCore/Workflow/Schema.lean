import RustyCore.Protocol.Number
import RustyCore.Workflow.Compiler

/-! Checking a value against a schema, reporting every violation at once. The checks run in a fixed order (`const`,
    `enum`, `type`, then the keywords of the value's own kind). -/

namespace RustyCore

namespace Schema

abbrev Rules := List (String × Value)

/-- One way in which a value violates the rules of a schema, or in which these cannot be applied. -/
inductive Fault where
  | notAnObject
  | unsupportedKeyword (keyword : String)
  | unsupportedType (kind : String)
  | notConst (expected : Value)
  | notInEnum (value : Value) (allowed : List Value)
  | wrongType (kind got : String)
  | belowMinLength (length minimum : Nat)
  | exceedsMaxLength (length maximum : Nat)
  | belowMinimum (number minimum : ℚ)
  | exceedsMaximum (number maximum : ℚ)
  | belowMinItems (count minimum : Nat)
  | exceedsMaxItems (count maximum : Nat)
  | missingProperty (key : String)
  | additionalProperty (key : String)

def Fault.message [F64Display] : Fault → String
  | .notAnObject => "schema must be an object"
  | .unsupportedKeyword keyword => "unsupported schema keyword " ++ keyword
  | .unsupportedType kind => "unsupported schema type " ++ kind
  | .notConst expected => "must equal " ++ expected.display
  | .notInEnum value allowed => value.display ++ " is not one of " ++ (Value.array allowed).display
  | .wrongType kind got => "expected " ++ kind ++ ", got " ++ got
  | .belowMinLength length minimum => "length " ++ toString length ++ " is below minLength " ++ toString minimum
  | .exceedsMaxLength length maximum => "length " ++ toString length ++ " exceeds maxLength " ++ toString maximum
  | .belowMinimum number minimum => F64Display.display number ++ " is below minimum " ++ F64Display.display minimum
  | .exceedsMaximum number maximum => F64Display.display number ++ " exceeds maximum " ++ F64Display.display maximum
  | .belowMinItems count minimum => toString count ++ " items is below minItems " ++ toString minimum
  | .exceedsMaxItems count maximum => toString count ++ " items exceeds maxItems " ++ toString maximum
  | .missingProperty key => "required property " ++ key ++ " is missing"
  | .additionalProperty key => "additional property " ++ key ++ " is not allowed"

structure Issue where
  path : String
  fault : Fault

def Issue.text [F64Display] (issue : Issue) : String := issue.path ++ ": " ++ issue.fault.message

def typeName : Value → String
  | .null => "null"
  | .bool _ => "boolean"
  | .number _ => "number"
  | .string _ => "string"
  | .array _ => "array"
  | .object _ => "object"

def typeTest (kind : String) : Option (Value → Bool) :=
  match kind with
  | "object" => some fun value => (value matches .object _)
  | "array" => some fun value => (value matches .array _)
  | "string" => some fun value => (value matches .string _)
  | "number" => some fun value => (value matches .number _)
  | "integer" => some fun value => (value matches .number (.posInt _) | .number (.negInt _))
  | "boolean" => some fun value => (value matches .bool _)
  | "null" => some fun value => (value matches .null)
  | _ => none

def unsupportedKeyword (rules : Rules) : Option String :=
  (rules.find? fun rule => !WorkflowCompiler.supportedSchemaKeywords.contains rule.1).map (·.1)

def typeFaults (rules : Rules) (value : Value) : List Fault × Bool :=
  match (rules.lookup "type").bind Value.asStr with
  | none => ([], true)
  | some kind =>
    match typeTest kind with
    | none => ([.unsupportedType kind], false)
    | some test => if test value then ([], true) else ([.wrongType kind (typeName value)], false)

def constFaults (rules : Rules) (value : Value) : List Fault :=
  match rules.lookup "const" with
  | some expected => if expected.same value then [] else [.notConst expected]
  | none => []

def enumFaults (rules : Rules) (value : Value) : List Fault :=
  match (rules.lookup "enum").bind Value.asArray with
  | some allowed => if allowed.any (·.same value) then [] else [.notInEnum value allowed]
  | none => []

def limitFaults {α : Type} (limit : Option α) (violated : α → Bool) (fault : α → Fault) : List Fault :=
  match limit.filter violated with
  | some limit => [fault limit]
  | none => []

def boundU64 (rules : Rules) (keyword : String) : Option Nat := (rules.lookup keyword).bind Value.asU64

def boundF64 (rules : Rules) (keyword : String) : Option ℚ := ((rules.lookup keyword).bind Value.asNumber).map Number.asF64

def textFaults (rules : Rules) (value : Value) : List Fault :=
  match value with
  | .string text =>
    limitFaults (boundU64 rules "minLength") (text.length < ·) (.belowMinLength text.length) ++
      limitFaults (boundU64 rules "maxLength") (· < text.length) (.exceedsMaxLength text.length)
  | _ => []

def numberFaults (rules : Rules) (value : Value) : List Fault :=
  match value with
  | .number number =>
    limitFaults (boundF64 rules "minimum") (number.asF64 < ·) (.belowMinimum number.asF64) ++
      limitFaults (boundF64 rules "maximum") (· < number.asF64) (.exceedsMaximum number.asF64)
  | _ => []

def arrayFaults (rules : Rules) (value : Value) : List Fault :=
  match value with
  | .array items =>
    limitFaults (boundU64 rules "minItems") (items.length < ·) (.belowMinItems items.length) ++
      limitFaults (boundU64 rules "maxItems") (· < items.length) (.exceedsMaxItems items.length)
  | _ => []

def requiredFaults (rules : Rules) (fields : List (String × Value)) : List Fault :=
  let required := (((rules.lookup "required").bind Value.asArray).getD []).filterMap Value.asStr
  (required.filter fun key => (fields.lookup key).isNone).map .missingProperty

def propertySchema (rules : Rules) (key : String) : Option Value := (rules.lookup "properties").bind (·.get key)

mutual

def validate (schema : Value) (path : String) (value : Value) : List Issue :=
  match schema with
  | .object rules =>
    match unsupportedKeyword rules with
    | some keyword => [⟨path, .unsupportedKeyword keyword⟩]
    | none =>
      let (typeFaults, matching) := typeFaults rules value
      let general := (constFaults rules value ++ enumFaults rules value ++ typeFaults).map (Issue.mk path)
      if matching then
        general ++ (textFaults rules value ++ numberFaults rules value ++ arrayFaults rules value).map (Issue.mk path) ++
          match value with
          | .array items =>
            match rules.lookup "items" with
            | some itemSchema => validateItems itemSchema path 0 items
            | none => []
          | .object fields => (requiredFaults rules fields).map (Issue.mk path) ++ validateFields rules path fields
          | _ => []
      else general
  | _ => [⟨path, .notAnObject⟩]

def validateItems (itemSchema : Value) (path : String) : Nat → List Value → List Issue
  | _, [] => []
  | index, child :: rest =>
    validate itemSchema (path ++ "/" ++ toString index) child ++ validateItems itemSchema path (index + 1) rest

def validateFields (rules : Rules) (path : String) : List (String × Value) → List Issue
  | [] => []
  | (key, child) :: rest =>
    (match propertySchema rules key with
      | some childSchema => validate childSchema (path ++ "/" ++ key) child
      | none =>
        match rules.lookup "additionalProperties" with
        | some (.bool false) => [⟨path, .additionalProperty key⟩]
        | some (.object additional) => validate (.object additional) (path ++ "/" ++ key) child
        | _ => []) ++ validateFields rules path rest

end

/-- `BasicSchemaValidator`: the error is the text of every issue. -/
def basicValidate [F64Display] (schema value : Value) : Except String Unit :=
  match validate schema "$" value with
  | [] => .ok ()
  | issues => .error (Text.join "; " (issues.map Issue.text))

end Schema

end RustyCore
