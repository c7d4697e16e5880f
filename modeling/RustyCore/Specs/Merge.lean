import RustyCore.Lib.Search

/-! The merge of a finished change into the capability specs: what the `Capability:` line of a requirement refers to, the
    spec of a capability as a head and its requirement blocks, and the new texts of the specs that a change names. -/

namespace RustyCore.Specs

open Text

abbrev Line := List Char

structure Requirement where
  id : Line
  title : Line
  capability : Option Line
  detail : List Char
  criteria : List Line

inductive Action where
  | adds
  | changes
  | removes
deriving DecidableEq

structure CapabilityRef where
  capability : Line
  action : Action
  requirement : Option Line
deriving DecidableEq

def maxSlugChars : Nat := 48

def slugStep (slug : Line) (c : Char) : Line :=
  if c.isAlphanum then slug ++ [c.toLower]
  else if slug.getLast? != some '-' && !slug.isEmpty then slug ++ ['-']
  else slug

def slugify (text : Line) : Line :=
  let slug := trimMatches (· == '-') ((text.foldl slugStep []).take maxSlugChars)
  if slug.isEmpty then "change".toList else slug

def actionOf (word : Line) : Action :=
  let word := word.map Char.toLower
  if word = "changes".toList ∨ word = "change".toList ∨ word = "modifies".toList then .changes
  else if word = "removes".toList ∨ word = "remove".toList ∨ word = "deletes".toList then .removes
  else .adds

def isQuote (c : Char) : Bool := c == '"' || c == '\'' || c == '“' || c == '”'

def splitReference (line : Line) : Line × Line :=
  match splitOnce ['('] line with
  | some (name, rest) => (trimMatches isWhitespace name, trimMatches isWhitespace (rest.rdropWhile (· == ')')))
  | none => (line, [])

/-- `albums (adds "Album creation")`, `albums (changes "X")`, `albums (removes "X")`, or just `albums`. -/
def capabilityRef (line : Line) : Option CapabilityRef :=
  let (name, rest) := splitReference (trimMatches isWhitespace line)
  if name.isEmpty then none
  else
    let word := rest.takeWhile (!isWhitespace ·)
    let quoted := (rest.dropWhile (!isWhitespace ·)).drop 1
    let requirement := trimMatches isWhitespace (trimMatches isQuote (trimMatches isWhitespace quoted))
    some
      { capability := slugify name
        action := actionOf word
        requirement := if requirement.isEmpty then none else some requirement }

structure Block where
  name : Line
  lines : List Line
deriving DecidableEq

structure Document where
  head : List Line
  blocks : List Block
deriving DecidableEq

def Block.fromRequirement (name : Line) (requirement : Requirement) (dir date : Line) : Block where
  name := name
  lines :=
    ("### Requirement: ".toList ++ name) ::
      (Text.lines requirement.detail ++ [[], "#### Scenarios".toList] ++
        requirement.criteria.map ("- ".toList ++ ·) ++
        [[], "_Changed by ".toList ++ dir ++ " (".toList ++ date ++ ")._".toList])

def capitalized : Line → Line
  | [] => []
  | c :: cs => c.toUpper :: cs

/-- The words of a folder name, each with a capital; `slugify` leaves only ASCII in it. -/
def titleOf (capability : Line) : Line :=
  let words := (splitOn (· == '-') capability).filter (!·.isEmpty)
  List.intercalate [' '] (words.map capitalized)

namespace Document

def template (capability : Line) : Document where
  head := ["# ".toList ++ titleOf capability, [], "Purpose: ".toList, [], "## Requirements".toList, []]
  blocks := []

/-- Takes the next line in: a requirement heading opens a block, and any other line, that of a new section included,
    joins the last block, or the head when there is none. -/
def push (doc : Document) (line : Line) : Document :=
  match stripPrefix "### Requirement:".toList line with
  | some name => { doc with blocks := doc.blocks ++ [⟨trimMatches isWhitespace name, [line]⟩] }
  | none =>
    if doc.blocks.isEmpty then { doc with head := doc.head ++ [line] }
    else { doc with blocks := doc.blocks.modifyLast fun block => { block with lines := block.lines ++ [line] } }

def parse (text : List Char) (capability : Line) : Document :=
  if isBlankLine text then template capability else (Text.lines text).foldl push ⟨[], []⟩

def layOut (doc : Document) : List Line :=
  doc.head.rdropWhile isBlankLine ++ doc.blocks.flatMap fun block => [] :: block.lines.rdropWhile isBlankLine

def render (doc : Document) : List Char := List.intercalate ['\n'] doc.layOut ++ ['\n']

end Document

def eqIgnoreAsciiCase (a b : Line) : Bool := a.map Char.toLower == b.map Char.toLower

/-- The capability text after the requirement is applied; `current` is none for a new capability. -/
def apply (current : Option (List Char)) (capability : Line) (action : Action) (name : Line)
    (requirement : Requirement) (dir date : Line) : Except (List Char) (List Char) :=
  let doc := Document.parse (current.getD []) capability
  let block := Block.fromRequirement name requirement dir date
  match action, doc.blocks.findIdx? (eqIgnoreAsciiCase ·.name name) with
  | .adds, some _ =>
    .error (capability ++ " already has a requirement named \"".toList ++ name ++ "\"; use (changes \"".toList ++ name ++
      "\")".toList)
  | .adds, none => .ok { doc with blocks := doc.blocks ++ [block] }.render
  | .changes, some place => .ok { doc with blocks := doc.blocks.set place block }.render
  | .removes, some place => .ok { doc with blocks := doc.blocks.eraseIdx place }.render
  | .changes, none =>
    .error (capability ++ " has no requirement named \"".toList ++ name ++ "\" to change".toList)
  | .removes, none =>
    .error (capability ++ " has no requirement named \"".toList ++ name ++ "\" to remove".toList)

structure Layout where
  root : Line

def Layout.capabilitySpec (layout : Layout) (name : Line) : Line :=
  layout.root ++ "/capabilities/".toList ++ name ++ "/spec.md".toList

/-- The new text of each capability spec, by path, and what else the merge has found so far. -/
structure Merging where
  texts : Line → Option (List Char) := fun _ => none
  names : List Line := []
  unmerged : List Line := []
  problems : List (List Char) := []

structure Merges where
  texts : Line → Option (List Char)
  names : List Line
  unmerged : List Line

section

variable (read : Line → Option (List Char)) (layout : Layout) (dir date : Line)

def mergeStep (merging : Merging) (requirement : Requirement) : Merging :=
  match requirement.capability.bind capabilityRef with
  | none => { merging with unmerged := merging.unmerged ++ [requirement.title] }
  | some reference =>
    let path := layout.capabilitySpec reference.capability
    let current := (merging.texts path).or (read path)
    let name := reference.requirement.getD requirement.title
    match apply current reference.capability reference.action name requirement dir date with
    | .ok text =>
      { merging with
        texts := Function.update merging.texts path (some text)
        names := if reference.capability ∈ merging.names then merging.names
          else merging.names ++ [reference.capability] }
    | .error problem => { merging with problems := merging.problems ++ [requirement.id ++ ": ".toList ++ problem] }

def mergeAll (requirements : List Requirement) : Except (List Char) Merges :=
  let merging := requirements.foldl (mergeStep read layout dir date) {}
  if merging.problems.isEmpty then .ok ⟨merging.texts, merging.names, merging.unmerged⟩
  else
    .error ("The requirements cannot be merged: ".toList ++ List.intercalate "; ".toList merging.problems)

end

end RustyCore.Specs
