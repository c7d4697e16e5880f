import RustyCore.Specs.Merge

/-! The store of the specs: text files by path, the listing of folders, moving a folder, and where the specs are in it. -/

namespace RustyCore.Specs

open Text

abbrev Path := Line

structure Store where
  files : List (Path × List Char)

abbrev SpecError := List Char

/-- `str::trim_end_matches('/')`. -/
def trimSlashes (path : Path) : Path := path.rdropWhile (· == '/')

def startsWith (path head : Path) : Bool := head.isPrefixOf path

def safe (path : Path) : Except SpecError Unit :=
  if path.isEmpty || startsWith path "/".toList || path.contains '\\' ||
      (splitOn (· == '/') path).any (fun part => part == "..".toList || part.isEmpty) then
    .error ("'".toList ++ path ++ "' is not a path inside the repository".toList)
  else .ok ()

namespace Store

def read (store : Store) (path : Path) : Option (List Char) := store.files.lookup path

def write (store : Store) (path : Path) (text : List Char) : Store :=
  ⟨(path, text) :: store.files.filter (·.1 != path)⟩

/-- The names of the folders one level below a path; in the source sorted and without repetition. -/
def dirs (store : Store) (path : Path) : List Line :=
  (store.files.filterMap fun file => stripPrefix (trimSlashes path ++ ['/']) file.1).filterMap fun rest =>
    (splitOnce ['/'] rest).map Prod.fst

def moved (old new path : Path) : Path := if startsWith path old then new ++ path.drop old.length else path

def moveDir (store : Store) (source target : Path) : Except SpecError Store :=
  match safe source, safe target with
  | .error e, _ => .error e
  | .ok _, .error e => .error e
  | .ok _, .ok _ =>
    let old := trimSlashes source ++ ['/']
    let new := trimSlashes target ++ ['/']
    if store.files.any fun file => startsWith file.1 new then .error (target ++ " already exists".toList)
    else .ok ⟨store.files.map fun file => (moved old new file.1, file.2)⟩

end Store

def defaultRoot : Line := "specs".toList

def configPath : Path := ".rusty/specs.json".toList

def cleanRoot (raw : Line) : Option Line :=
  let normalized := (trimMatches isWhitespace raw).map fun c => if c = '\\' then '/' else c
  let parts := (splitOn (· == '/') normalized).filter (!·.isEmpty)
  if !parts.isEmpty && !startsWith normalized "/".toList &&
      !parts.any (fun part => part == "..".toList || part == ".".toList || part.contains ':') then
    some (List.intercalate ['/'] parts)
  else none

/-- What stands under `root` in the text of the configuration, when it is JSON with a string there. -/
class ConfigReader where
  root : List Char → Option Line

def resolveRoot [ConfigReader] (store : Store) : Line :=
  (((store.read configPath).bind ConfigReader.root).bind cleanRoot).getD defaultRoot

namespace Layout

def of [ConfigReader] (store : Store) : Layout := ⟨resolveRoot store⟩

def readme (layout : Layout) : Path := layout.root ++ "/README.md".toList

def project (layout : Layout) : Path := layout.root ++ "/project.md".toList

def changes (layout : Layout) : Path := layout.root ++ "/changes".toList

def change (layout : Layout) (dir : Line) : Path := layout.root ++ "/changes/".toList ++ dir

def archive (layout : Layout) : Path := layout.root ++ "/archive".toList

def onboarding (layout : Layout) : Path := layout.root ++ "/onboarding.md".toList

end Layout

def stripDatePrefix (name : Line) : Line :=
  let digits := [0, 1, 2, 3, 5, 6, 8, 9].all fun i => ((name[i]?).map Char.isDigit).getD false
  let dashes := [4, 7, 10].all fun i => name[i]? == some '-'
  if name.length > 11 && digits && dashes then name.drop 11 else name

/-- `str::parse` of a `u32`, of digits. -/
def parseU32 (digits : Line) : Option Nat :=
  let n := digits.foldl (fun n c => n * 10 + (c.toNat - '0'.toNat)) 0
  if n < 2 ^ 32 then some n else none

def parseDirName (name : Line) : Option (Nat × Line) :=
  (splitOnce ['-'] (stripDatePrefix name)).bind fun (number, slug) =>
    if number.length < 4 || !number.all Char.isDigit || slug.isEmpty then none
    else (parseU32 number).map fun n => (n, slug)

end RustyCore.Specs

/-! The readers of a change: the fields at the top of `change.md` and their edits, the requirements of `spec.md`, and
    the boxes of `tasks.md`. -/

namespace RustyCore.Specs

open Text

inductive Status where
  | draft
  | specified
  | planned
  | building
  | verifying
  | done
  | archived
deriving DecidableEq

namespace Status

def word : Status → Line
  | draft => "draft".toList
  | specified => "specified".toList
  | planned => "planned".toList
  | building => "building".toList
  | verifying => "verifying".toList
  | done => "done".toList
  | archived => "archived".toList

def all : List Status := [draft, specified, planned, building, verifying, done, archived]

def parse (word : Line) : Option Status :=
  all.find? fun status => status.word == (trimMatches isWhitespace word).map Char.toLower

def rank : Status → Nat
  | draft => 0
  | specified => 1
  | planned => 2
  | building => 3
  | verifying => 4
  | done => 5
  | archived => 6

def max (a b : Status) : Status := if a.rank < b.rank then b else a

end Status

namespace Front

def unquote (value : Line) : Line :=
  let quoted (q : Char) := value.head? == some q && value.getLast? == some q
  if value.length ≥ 2 && (quoted '"' || quoted '\'') then (value.drop 1).dropLast else value

/-- The fields on the lines up to the closing `---`, the last one of a name first, and how many lines that takes. -/
def fieldsFrom : List (Line × Line) → Nat → List Line → Option (List (Line × Line) × Nat)
  | _, _, [] => none
  | fields, n, line :: rest =>
    if trimMatches isWhitespace line == "---".toList then some (fields, n + 1)
    else match splitOnce [':'] line with
      | some (key, value) =>
        fieldsFrom (((trimMatches isWhitespace key).map Char.toLower, unquote (trimMatches isWhitespace value)) :: fields)
          (n + 1) rest
      | none => fieldsFrom fields (n + 1) rest

def split (text : List Char) : List (Line × Line) × Nat :=
  match lines text with
  | [] => ([], 0)
  | first :: rest =>
    if trimMatches isWhitespace first == "---".toList then (fieldsFrom [] 1 rest).getD ([], 0) else ([], 0)

def status (text : List Char) : Option Status :=
  (((split text).1.lookup "status".toList).filter (!·.isEmpty)).bind Status.parse

def finish (ls : List Line) (original : List Char) : List Char :=
  let newline := if (before "\r\n".toList original).isSome then "\r\n".toList else "\n".toList
  List.intercalate newline ls ++ newline

/-- The text with a field set; the field is added when missing and a block is created when there is none. -/
def setField (text : List Char) (key value : Line) : List Char :=
  let consumed := (split text).2
  let line := key ++ ": ".toList ++ value
  if consumed = 0 then "---\n".toList ++ line ++ "\n---\n".toList ++ text
  else
    let ls := lines text
    let fields := (ls.take (consumed - 1)).drop 1
    let isField (l : Line) : Bool :=
      match splitOnce [':'] l with
      | some (k, _) => eqIgnoreAsciiCase (trimMatches isWhitespace k) key
      | none => false
    match fields.findIdx? isField with
    | some place => finish (ls.set (place + 1) line) text
    | none => finish (ls.insertIdx (consumed - 1) line) text

/-- The end of the history that starts after line `start`, without the blank lines there. -/
def historyEnd (ls : List Line) (start : Nat) : Nat :=
  let entries := (ls.drop (start + 1)).takeWhile (!startsWith · "#".toList)
  start + 1 + (entries.rdropWhile isBlankLine).length

/-- The text with an entry at the end of the `## History` section, created when missing. -/
def addHistory (text : List Char) (entry : Line) : List Char :=
  let ls := lines text
  let bullet := "- ".toList ++ entry
  match ls.findIdx? fun l => eqIgnoreAsciiCase (trimMatches isWhitespace l) "## history".toList with
  | some start => finish (ls.insertIdx (historyEnd ls start) bullet) text
  | none =>
    let spaced := if (ls.getLast?.map (!isBlankLine ·)).getD false then ls ++ [[]] else ls
    finish (spaced ++ ["## History".toList, bullet]) text

def renderChange (id title : Line) (status : Status) (created : Line) : List Char :=
  "---\nid: \"".toList ++ id ++ "\"\ntitle: ".toList ++ title ++ "\nstatus: ".toList ++ status.word ++
    "\ncreated: ".toList ++ created ++ "\ncapabilities: []\n---\n# ".toList ++ title ++ "\n\n## History\n".toList

end Front

def wordsFrom : Nat → Option (Nat × Line) → List Char → List (Nat × Line)
  | _, none, [] => []
  | _, some (start, word), [] => [(start, word)]
  | n, none, c :: cs => if c.isAlphanum then wordsFrom (n + 1) (some (n, [c])) cs else wordsFrom (n + 1) none cs
  | n, some (start, word), c :: cs =>
    if c.isAlphanum then wordsFrom (n + 1) (some (start, word ++ [c])) cs
    else (start, word) :: wordsFrom (n + 1) none cs

def idsWithPrefix (text : List Char) (letter : Char) : List (Nat × Line) :=
  (wordsFrom 0 none text).filter fun found =>
    match found.2 with
    | [] => false
    | c :: digits => c == letter && !digits.isEmpty && digits.all Char.isDigit

def leadingId (text : Line) (letter : Char) : Option (Line × Line) :=
  (splitOnce [':'] text).bind fun (first, rest) =>
    (idsWithPrefix first letter).head?.bind fun (place, id) =>
      if place = 0 ∧ id.length = (trimMatches isWhitespace first).length then some (id, trimMatches isWhitespace rest)
      else none

def decimal (n : Nat) : Line := (toString n).toList

/-- `R1: Title`, or a title that is numbered by its position. -/
def splitHeading (heading : Line) (position : Nat) : Line × Line :=
  (leadingId (trimMatches isWhitespace heading) 'R').getD
    ('R' :: decimal position, trimMatches isWhitespace heading)

/-- The text of `C1: WHEN … THEN …`, or of a bare `WHEN …`. -/
def criterion (bullet : Line) : Option Line :=
  match leadingId bullet 'C' with
  | some (_, text) => some text
  | none =>
    if startsWith (bullet.dropWhile isWhitespace) "WHEN ".toList then some (trimMatches isWhitespace bullet) else none

def addDetail (detail : List Char) (line : Line) : List Char :=
  if line.isEmpty then detail else if detail.isEmpty then line else detail ++ '\n' :: line

def Requirement.readLine (requirement : Requirement) (line : Line) : Requirement :=
  let trimmed := trimMatches isWhitespace line
  match stripPrefix "Capability:".toList trimmed with
  | some rest => { requirement with capability := some (trimMatches isWhitespace rest) }
  | none =>
    match (stripPrefix "- ".toList trimmed).bind criterion with
    | some text => { requirement with criteria := requirement.criteria ++ [text] }
    | none => { requirement with detail := addDetail requirement.detail trimmed }

/-- The section a line of `spec.md` is in, and the requirements so far. -/
structure SpecReading where
  sectionName : Line := []
  requirements : List Requirement := []

def SpecReading.line (reading : SpecReading) (line : Line) : SpecReading :=
  if startsWith line "# ".toList then reading
  else match stripPrefix "## ".toList line with
    | some name => { reading with sectionName := (trimMatches isWhitespace name).map Char.toLower }
    | none =>
      if reading.sectionName = "requirements".toList then
        match stripPrefix "### ".toList line with
        | some heading =>
          let (id, title) := splitHeading heading (reading.requirements.length + 1)
          { reading with requirements := reading.requirements ++ [⟨id, title, none, [], []⟩] }
        | none =>
          { reading with requirements := reading.requirements.modifyLast (Requirement.readLine · line) }
      else reading

def parseRequirements (text : List Char) : List Requirement :=
  ((lines text).foldl SpecReading.line {}).requirements

def header (line : Line) : Option Bool :=
  (stripPrefix "- [".toList line).bind fun
    | mark :: ']' :: ' ' :: _ =>
      if mark = ' ' then some false else if mark = 'x' ∨ mark = 'X' then some true else none
    | _ => none

def taskBoxes (text : List Char) : List Bool := (lines text).filterMap header

end RustyCore.Specs
