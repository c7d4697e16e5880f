import RustyCore.Reply.Layout

/-! Reading a Markdown reply back into the value of its schema: list items, the sections of an object, and the repair of
    what is almost right. How a scalar is read, and how the object nested in an item, are parameters of the readers. -/

namespace RustyCore

namespace Value

mutual

def depth : Value → Nat
  | .array items => depthItems items + 1
  | .object fields => depthFields fields + 1
  | _ => 1

def depthItems : List Value → Nat
  | [] => 0
  | v :: rest => max (depth v) (depthItems rest)

def depthFields : List (String × Value) → Nat
  | [] => 0
  | (_, v) :: rest => max (depth v) (depthFields rest)

end

end Value

namespace Reply

open Text

abbrev Fields := List (String × Value)

def extend (fields more : Fields) : Fields := more.foldl (fun fields (key, value) => Value.insertField key value fields) fields

section

variable [ReplyExternals]

/-- `R` for requirements, `T` for tasks, `C` for criteria. -/
def idPrefix (name : String) : String :=
  match name.toList with
  | [] => "N"
  | c :: _ => String.ofList (ReplyExternals.toUppercase c)

def numbered (name : String) (index : Nat) : String := idPrefix name ++ toString (index + 1)

end

/-- A short code such as `R1`, `T-2`, `C1.a`; never a sentence. -/
def looksLikeId (token : Line) : Bool :=
  let token := trimMatches isWhitespace token
  !token.isEmpty && (String.ofList token).utf8ByteSize ≤ 12 && !token.any isWhitespace && token.any Char.isDigit

def cleanId (raw : Line) : Line := trimMatches "*`: ".toList.contains (trimMatches isWhitespace raw)

def cutWord (text : Line) : Line × Line := text.span fun c => !(isWhitespace c || c == ':')

/-- The ID a bullet starts with, and the text after it. Only the first word is looked at, so a colon later in the text
    is not mistaken for the end of the ID. -/
def bulletId (bullet : Line) : Option (Line × Line) :=
  let (word, rest) := cutWord (trimStartOf "*`" bullet)
  if looksLikeId (cleanId word) then
    some (cleanId word, trimMatches isWhitespace (rest.dropWhile fun c => isWhitespace c || ":*-–—".toList.contains c))
  else none

/-- The rest of a title after a word such as `Requirement`, in any case, with a blank behind it. -/
def stripKind (title : Line) : Line :=
  let words := ["requirement", "criterion", "criteria", "task", "step"].map String.toList
  match words.find? fun word => (word ++ [' ']).isPrefixOf (title.map Char.toLower) with
  | some word => (title.drop word.length).dropWhile isWhitespace
  | none => title

/-- `R1`, `R1: Show it`, `Requirement R1 - Show it`: the ID, and any words after it. -/
def splitTitle (title : Line) : Option Line × Line :=
  let (word, rest) := cutWord (stripKind (trimMatches isWhitespace title))
  if looksLikeId (cleanId word) then
    (some (cleanId word),
      trimMatches isWhitespace (rest.dropWhile fun c => isWhitespace c || ":.-–—*`".toList.contains c))
  else (none, trimMatches isWhitespace title)

/-- What follows the marker of a bullet: `- `, `* `, `• `, or a number with `. ` or `) `. -/
def bulletText (line : Line) : Option Line :=
  let marked := ["- ", "* ", "• "].findSome? fun marker => stripPrefix marker.toList line
  let digits := (line.takeWhile Char.isDigit).length
  let after := line.drop digits
  let counted := if digits = 0 then none else stripPrefix ". ".toList after <|> stripPrefix ") ".toList after
  (marked <|> counted).map (trimMatches isWhitespace)

def addBullet (found : List Line × List Line) (line : Line) : List Line × List Line :=
  let (items, plain) := found
  let trimmed := trimMatches isWhitespace line
  if trimmed.isEmpty then found
  else
    match bulletText trimmed with
    | some text => (items ++ [text], plain)
    | none =>
      let items := match items.getLast? with
        | some last => items.dropLast ++ [last ++ '\n' :: trimmed]
        | none => []
      (items, plain ++ [trimmed])

def bullets (body : Line) : List Line :=
  let (items, plain) := (lines body).foldl addBullet ([], [])
  if items.isEmpty then plain else items

section

variable [Externals]

/-- A short line that names a property inline, such as `status: complete`, with the name and what is stated. -/
def inlineName (props : List (String × Value)) (line : Line) : Option (String × Line) :=
  match splitOnce [':'] line with
  | some (name, value) =>
    let name := normalize (trimStartOf "-# " name)
    let value := trimMatches isWhitespace value
    if props.any (fun (prop, property) => prop == name && kind property == .scalar && !(enumValues property).isEmpty) &&
        !value.isEmpty then some (name, value) else none
  | none => none

/-- `status` / `**Summary:**` alone on a line becomes `## status`; a short `status: complete` line for an enum property
    too. -/
def promoteBareNames (schema : Value) (text : Line) : Line := unlines (go false (lines text))
where
  go (fenced : Bool) : List Line → List Line
    | [] => []
    | line :: rest =>
      let fenced := if isFence line then !fenced else fenced
      let key := normalize line
      let plain := !(['#'].isPrefixOf (line.dropWhile isWhitespace))
      let promoted :=
        if !fenced && plain then
          if (properties schema).any (·.1 == key) then "## ".toList ++ key.toList
          else match inlineName (properties schema) line with
            | some (name, value) => "## ".toList ++ name.toList ++ '\n' :: value
            | none => line
        else line
      promoted :: go fenced rest

end

section

variable [Externals] [ReplyExternals] (read : Value → Line → Value) (nested : Value → Line → Fields)

/-- The field that a `key: value` line of an item states: its name, its schema and the text. -/
def itemField (schema : Value) (line : Line) : Option (String × Value × Line) :=
  match splitOnce [':'] line with
  | some (key, value) =>
    let key := normalize (trimStartOf "-* " key)
    ((properties schema).find? fun (name, property) =>
      name == key && some name != bodyField schema && (kind property == .scalar || kind property == .list)).map
      fun (name, property) => (name, property, trimMatches isWhitespace value)
  | none => none

def readField (property : Value) (value : Line) : Value :=
  if kind property = .list then
    .array ((((splitOn (· == ',') value).map (trimMatches isWhitespace)).filter (!·.isEmpty)).map
      (read ((property.get "items").getD .null)))
  else read property value

/-- The lines before the first nested heading: fields are inserted, other lines are the item's own text. -/
def readLine (schema : Value) (found : Fields × List Line) (line : Line) : Fields × List Line :=
  match itemField schema line with
  | some (name, property, value) => (Value.insertField name (readField read property value) found.1, found.2)
  | none => (found.1, found.2 ++ [line])

def bodyText (text : List Line) (titleWords id : Line) : Line :=
  let body := trimMatches isWhitespace (unlines text)
  if !body.isEmpty then body else if !titleWords.isEmpty then titleWords else id

def addEmptyList (out : Fields) (prop : String × Value) : Fields :=
  if (out.lookup prop.1).isNone && (kind prop.2 == .list || kind prop.2 == .items) then
    Value.insertField prop.1 (.array []) out
  else out

def idField (schema : Value) (id : Line) : Fields :=
  if (properties schema).any (·.1 == "id") then [("id", .string (String.ofList id))] else []

def parseItem (schema : Value) (title body : Line) (fallbackId : String) : Value :=
  let found := splitTitle title
  let id := found.1.getD fallbackId.toList
  let ls := lines body
  let firstHeading := (headings body).head?.map (·.index)
  let split := firstHeading.getD ls.length
  let stated := (ls.take split).foldl (readLine read schema) (idField schema id, [])
  let out := match bodyField schema with
    | some name => Value.insertField name (.string (String.ofList (bodyText stated.2 found.2 id))) stated.1
    | none => stated.1
  let out := if firstHeading.isSome then extend out (nested schema (unlines (ls.drop split))) else out
  .object ((properties schema).foldl addEmptyList out)

/-- A bullet that is a pair: `C1: text` carries its own ID; a plain bullet gets one. -/
def pairItem (name bodyName : String) (index : Nat) (bullet : Line) : Value :=
  let found := (bulletId bullet).getD ((numbered name index).toList, bullet)
  .object (Value.insertField bodyName (.string (String.ofList found.2)) [("id", .string (String.ofList found.1))])

def parseItems (name : String) (items : Value) (body : Line) (level : Nat) : List Value :=
  if isPair items && (headings body).all (·.level ≤ level) then
    (bullets body).zipIdx.map fun (bullet, index) => pairItem name ((bodyField items).getD "") index bullet
  else
    match (((headings body).map (·.level)).filter (level < ·)).min? with
    | none => []
    | some itemLevel =>
      (sections body itemLevel).zipIdx.map fun ((title, text), index) =>
        parseItem read nested items title text (numbered name index)

def parseValue (name : String) (schema : Value) (body : Line) (level : Nat) : Option Value :=
  match kind schema with
  | .scalar => some (read schema (trimMatches isWhitespace body))
  | .list => some (.array ((bullets body).map (read ((schema.get "items").getD .null))))
  | .items => (schema.get "items").map fun items => .array (parseItems read nested name items body level)
  | .object =>
    let fields := nested schema body
    if fields.isEmpty then none else some (.object fields)

def readSection (props : List (String × Value)) (level : Nat) (out : Fields) (part : Line × Line) : Fields :=
  match props.find? (·.1 == normalize part.1) with
  | some (name, property) =>
    match parseValue read nested name property part.2 level with
    | some value => Value.insertField name value out
    | none => out
  | none => out

end

section

variable [Externals] [ReplyExternals] (read : Value → Line → Value)

/-- Reads the sections of an object. The first argument is how deep the schema is nested. -/
def parseObjectAt : Nat → Value → Line → Fields
  | 0, _, _ => []
  | depth + 1, schema, text =>
    let props := properties schema
    -- the shallowest heading that names one of the expected properties
    let named := (headings text).filter fun heading => props.any (·.1 == normalize heading.title)
    match (named.map (·.level)).min? with
    | none => []
    | some level => (sections text level).foldl (readSection read (parseObjectAt depth) props level) []

def parseObject (schema : Value) (text : Line) : Fields := parseObjectAt read schema.depth schema text

end

section

variable [Externals]

def isRequired (schema : Value) (name : String) : Bool := (requiredNames schema).contains name

def namedValue (name : String) (values : List String) (text : Line) : Option String :=
  let found := (lines text).findSome? fun line =>
    let line := normalize (trimStartOf "-* " line)
    let line := String.ofList ((stripPrefix (name ++ "_").toList line.toList).getD line.toList)
    values.find? fun value => normalize value.toList == line
  values.head?.map fun first => found.getD first

def inferredVerdict (map : Fields) : String :=
  let passing : Bool := match map.lookup "criteria" with
    | some (.array items) => !items.isEmpty && items.all fun item => (item.get "status").any (· == .string "pass")
    | _ => false
  if passing then "pass" else "fail: the reply did not report every criterion as passing"

def filling (map : Fields) (text : Line) (name : String) (property : Value) : Option Value :=
  match kind property with
  | .list | .items => some (.array [])
  | .scalar =>
    if !(enumValues property).isEmpty then (namedValue name (enumValues property) text).map .string
    else if bodyFields.contains name then some (.string (String.ofList text))
    else if name = "verdict" then some (.string (inferredVerdict map))
    else none
  | .object => none

def fillMissing (schema : Value) (text : Line) (map : Fields) : Fields :=
  (properties schema).foldl (fun map (name, property) =>
    if (map.lookup name).isSome || !isRequired schema name then map
    else match filling map text name property with
      | some filled => Value.insertField name filled map
      | none => map) map

end

def needsText (schema : Value) : Bool := 0 < (((schema.get "minLength").bind Value.asU64).getD 0)

/-- The value read for a status the enumeration does not list. An unclear check result is `unverified`. -/
def fallback (values : List String) : String :=
  if values.contains "unverified" then "unverified" else values.head?.getD ""

def repairText (schema : Value) (text : String) : String :=
  let values := enumValues schema
  let text := if !values.isEmpty && !values.contains text then fallback values else text
  if isBlank text && needsText schema then "(not stated)" else text

def takeId (id : Option String) (property : Value) (field : Value) : Value :=
  match field, id with
  | .string text, some id => if isBlank text && needsText property then .string id else field
  | _, _ => field

def modifyField (name : String) (change : Value → Value) (fields : Fields) : Fields :=
  fields.map fun (key, value) => (key, if key = name then change value else value)

def repairAt : Nat → Value → Value → Value
  | 0, _, value => value
  | depth + 1, schema, value =>
    match value with
    | .string text => .string (repairText schema text)
    | .array items =>
      match schema.get "items" with
      | some itemSchema => .array (items.map (repairAt depth itemSchema))
      | none => .array items
    | .object fields =>
      let id := (fields.lookup "id").bind Value.asStr
      .object ((properties schema).foldl (fun fields (name, property) =>
        modifyField name (fun field => repairAt depth property (takeId id property field)) fields) fields)
    | value => value

def repair (schema value : Value) : Value := repairAt schema.depth schema value

variable [CharTables] [Externals] [ReplyExternals]

def parse (schema : Value) (text : Line) : Except String Value :=
  let text := trimMatches isWhitespace text
  if text.isEmpty then .error "the reply was empty"
  else
    -- a bare `status` / `summary` line counts as a section heading
    let map := parseObject coerce schema (promoteBareNames schema text)
    .ok (repair schema (.object (fillMissing schema text map)))

end Reply

end RustyCore
