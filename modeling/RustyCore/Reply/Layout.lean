import RustyCore.Behavior.Definition
import RustyCore.Lib.Search
import RustyCore.Protocol.Number

/-! What the output schema of a step asks of a Markdown reply, the layout of the reply (headings and the sections they
    open), and how a piece of its text is fitted to a scalar of the schema. -/

namespace RustyCore

namespace Reply

open Text

abbrev Line := List Char

/-- `str::parse::<f64>`, with the number that `serde_json` makes of it (`none` for those it has none for), and
    `char::to_uppercase`. -/
class ReplyExternals where
  parseFloat : Line → Option (Option Number)
  toUppercase : Char → List Char

def bodyFields : List String :=
  ["text", "instructions", "evidence", "summary", "description", "content", "message", "finding", "detail"]

inductive Kind where
  | scalar
  | list
  | items
  | object
deriving DecidableEq

def typeName (schema : Value) : Option String := (schema.get "type").bind Value.asStr

/-- Whether `kind` finds a scalar; arrays and objects are none, whatever they hold. -/
def isScalar (schema : Value) : Bool :=
  match typeName schema with
  | some kind => kind != "array" && kind != "object"
  | none => (schema.get "properties").isNone && (schema.get "items").isNone

def kind (schema : Value) : Kind :=
  match typeName schema with
  | some "array" => if (schema.get "items").all isScalar then .list else .items
  | some "object" => .object
  | some _ => .scalar
  | none =>
    if (schema.get "properties").isSome then .object
    else if (schema.get "items").isSome then .items
    else .scalar

def propertyMap (schema : Value) : List (String × Value) :=
  match schema.get "properties" with
  | some (.object fields) => fields
  | _ => []

def requiredNames (schema : Value) : List String :=
  (((schema.get "required").bind Value.asArray).getD []).filterMap Value.asStr

def addProperty (ordered : List (String × Value)) (field : String × Value) : List (String × Value) :=
  if ordered.any (·.1 == field.1) then ordered else ordered ++ [field]

def properties (schema : Value) : List (String × Value) :=
  let map := propertyMap schema
  let required := (requiredNames schema).filterMap fun name => (map.lookup name).map (name, ·)
  map.foldl addProperty required

def enumValues (schema : Value) : List String :=
  (((schema.get "enum").bind Value.asArray).getD []).map fun value => value.asStr.getD value.display

def bodyField (schema : Value) : Option String :=
  bodyFields.find? fun wanted =>
    (properties schema).any fun (name, value) => name == wanted && kind value == .scalar && (enumValues value).isEmpty

/-- `{id, text}`: written as one bullet per item. -/
def isPair (schema : Value) : Bool :=
  let props := properties schema
  props.length == 2 && props.any (·.1 == "id") &&
    (bodyField schema).any (fun body => props.any (·.1 == body)) &&
    props.all fun (_, value) => kind value == .scalar

/-- `str::trim_start_matches` with a set of characters. -/
def trimStartOf (set : String) (line : Line) : Line := line.dropWhile set.toList.contains

def isFence (line : Line) : Bool := "```".toList.isPrefixOf (line.dropWhile isWhitespace)

/-- `# `-style heading: its level and title. -/
def headingOf (line : Line) : Option (Nat × Line) :=
  let trimmed := line.dropWhile isWhitespace
  let level := (trimmed.takeWhile (· == '#')).length
  if 1 ≤ level && level ≤ 6 then
    (stripPrefix [' '] (trimmed.drop level)).map fun rest => (level, trimMatches isWhitespace rest)
  else none

structure Heading where
  index : Nat
  level : Nat
  title : Line

def headingsOf (lines : List Line) : List Heading := go false 0 lines
where
  go (fenced : Bool) (index : Nat) : List Line → List Heading
    | [] => []
    | line :: rest =>
      if isFence line then go (!fenced) (index + 1) rest
      else
        let found := if fenced then none else headingOf line
        (found.map fun (level, title) => ⟨index, level, title⟩).toList ++ go fenced (index + 1) rest

def headings (text : Line) : List Heading := headingsOf (lines text)

def unlines (lines : List Line) : Line := ['\n'].intercalate lines

def sections (text : Line) (level : Nat) : List (Line × Line) :=
  let ls := lines text
  let marks := (headings text).filter (·.level == level)
  marks.zipIdx.map fun (mark, position) =>
    let stop := match marks[position + 1]? with
      | some next => next.index
      | none => ls.length
    (mark.title, unlines ((ls.take stop).drop (mark.index + 1)))

variable [Externals]

/-- The comparable form of a name: without markup, in lower case, with `_` for blanks and dashes. -/
def normalize (name : Line) : String :=
  let plain := trimMatches "*`:# ".toList.contains (trimMatches isWhitespace name)
  let lower := (Externals.toLowercase (String.ofList plain)).toList
  String.ofList (lower.map fun c => if c == ' ' || c == '-' then '_' else c)

/-- `str::parse::<i64>`. -/
def parseI64 (text : Line) : Option Int :=
  let digits := match text with
    | '-' :: digits | '+' :: digits => digits
    | digits => digits
  if digits.isEmpty || !digits.all Char.isDigit then none
  else if -2 ^ 63 ≤ signedValue text && signedValue text < 2 ^ 63 then some (signedValue text)
  else none

def intValue (n : Int) : Value := .number (if 0 ≤ n then .posInt n.toNat else .negInt n)

variable [CharTables]

def firstWord (plain : String) : String :=
  let pieces := splitOn (fun c => !(CharTables.isAlphanumeric c || c == '_')) plain.toList
  String.ofList ((pieces.find? fun word => !word.isEmpty).getD [])

/-- The value of an enumeration that a text means: the one it is, that it begins with, or whose form its first word
    is (`failed`, `passed`). -/
def enumMatch (values : List String) (text : Line) : Option String :=
  let plain := normalize text
  let first := firstWord plain
  (values.find? fun value => normalize value.toList == plain) <|>
    (values.find? fun value => normalize value.toList == first) <|>
    values.find? fun value => !first.isEmpty && startsWith first (normalize value.toList)

variable [ReplyExternals]

def readNumber (text : Line) : Option Value :=
  let number := trimMatches "`".toList.contains (trimMatches isWhitespace text)
  match parseI64 number with
  | some n => some (intValue n)
  | none => (ReplyExternals.parseFloat number).map fun n => (n.map Value.number).getD .null

def typedValue (schema : Value) (text : Line) : Option Value :=
  match typeName schema with
  | some "integer" | some "number" => readNumber text
  | some "boolean" => some (.bool (["true", "yes", "y", "1"].contains (normalize text)))
  | _ => none

def coerce (schema : Value) (text : Line) : Value :=
  match typedValue schema text with
  | some value => value
  | none => .string ((enumMatch (enumValues schema) text).getD (String.ofList text))

end Reply

end RustyCore
