import Mathlib
import RustyCore.Lib.Machine
import RustyCore.Specs.Record

/-! Creating a change from templates, and the life of the changes of a project: each is created into the next free number
    and archived under a date. -/

namespace RustyCore.Specs

open Text

namespace Store

def folders (store : Store) (path : Path) : List Line :=
  ((store.dirs path).insertionSort (· ≤ ·)).destutter (· ≠ ·)

def fileNames (store : Store) (path : Path) : List Line :=
  (((store.files.filterMap fun file => stripPrefix (trimSlashes path ++ ['/']) file.1).filter
    (!·.contains '/')).insertionSort (· ≤ ·)).destutter (· ≠ ·)

end Store

def maxU32 : Nat := 2 ^ 32 - 1

/-- The next free number after those of the folders; there is none after the highest of a `u32`. -/
def nextNumber (names : List Line) : Option Nat :=
  match (names.filterMap parseDirName).map Prod.fst with
  | [] => some 1
  | n :: rest =>
    let highest := rest.foldl max n
    if highest < maxU32 then some (highest + 1) else none

inductive Failure where
  | refused (e : SpecError)
  | crash

structure Progress (ρ : Type) where
  store : Store
  report : ρ
  failure : Option Failure := none

namespace Progress

variable {ρ : Type}

def next (p : Progress ρ) (step : Store → ρ → Progress ρ) : Progress ρ :=
  match p.failure with
  | some _ => p
  | none => step p.store p.report

def write (p : Progress ρ) (path : Path) (text : List Char) (note : ρ → ρ) : Progress ρ :=
  p.next fun store report =>
    match safe path with
    | .error e => ⟨store, report, some (.refused e)⟩
    | .ok () => ⟨store.write path text, note report, none⟩

end Progress

def changeDirName (number : Nat) (slug : Line) : Line := padded number ++ '-' :: slug

def branchName (dir : Line) : Line := "spec/".toList ++ dir

structure ChangeFront where
  id : Option Line := none
  title : Option Line := none
  status : Option Status := none
  created : Option Line := none
  branch : Option Line := none
  capabilities : List Line := []
  main : Option Line := none
  links : List Line := []

def frontField (key value : Line) : List Char := key ++ ": ".toList ++ value ++ ['\n']

def frontList (items : List Line) : Line := '[' :: List.intercalate ", ".toList items ++ [']']

def ChangeFront.render (front : ChangeFront) (history : List Line) : List Char :=
  "---\n".toList ++ frontField "id".toList ('"' :: front.id.getD [] ++ ['"']) ++
    frontField "title".toList (front.title.getD []) ++
    frontField "status".toList (front.status.getD .draft).word ++
    frontField "created".toList (front.created.getD []) ++
    (front.branch.map (frontField "branch".toList)).getD [] ++
    frontField "capabilities".toList (frontList front.capabilities) ++
    (front.main.map (frontField "main".toList)).getD [] ++
    (if front.links.isEmpty then [] else frontField "links".toList (frontList front.links)) ++
    "---\n# ".toList ++ front.title.getD [] ++ "\n\n## History\n".toList ++
    history.flatMap fun entry => "- ".toList ++ entry ++ ['\n']

def specTemplate (title : Line) (description : List Char) : List Char :=
  let why := if isBlankLine description then "Why this change is needed.".toList else trimMatches isWhitespace description
  "# ".toList ++ title ++ "\n\n## Why\n".toList ++ why ++ ("\n\n## What changes\nWhat will be different when this is done.\n\n" ++
    "## User stories\n- As a …, I want …, so that ….\n\n## Requirements\n\n### R1: \nCapability: \n\n" ++
    "- C1: WHEN … THEN ….\n\n## Out of scope\n\n## Clarifications\n\n## Open questions\n").toList

structure NewChange where
  number : Nat
  slug : Line
  dir : Line
  branch : Line

structure LinkedRequest where
  main : Line
  links : List Line

structure ChangeRequest where
  title : Line
  description : List Char
  date : Line
  branch : Option Line
  linked : Option LinkedRequest

def ChangeRequest.front (request : ChangeRequest) (number : Nat) : ChangeFront where
  id := some (padded number)
  title := some (trimMatches isWhitespace request.title)
  status := some .draft
  created := some request.date
  branch := request.branch
  main := request.linked.map (·.main)
  links := (request.linked.map (·.links)).getD []

def ChangeRequest.history (request : ChangeRequest) : List Line :=
  [request.date ++ " Created.".toList] ++
    (request.branch.map fun branch => request.date ++ " Branch ".toList ++ branch ++ " created.".toList).toList ++
    (request.linked.map fun linked =>
      request.date ++ " Linked with ".toList ++ List.intercalate ", ".toList linked.links ++ ['.']).toList

section

variable [ConfigReader]

def planChange (store : Store) (title : Line) : Option (Nat × Line) :=
  let layout := Layout.of store
  (nextNumber (store.folders layout.changes ++ store.folders layout.archive)).map fun number => (number, slugify title)

def newChange (store : Store) (title : Line) : Option NewChange :=
  (planChange store title).map fun (number, slug) =>
    let dir := changeDirName number slug
    ⟨number, slug, dir, branchName dir⟩

/-- Writes `change.md` and `spec.md` of a change, unless there is one. -/
def createChange (store : Store) (plan : NewChange) (request : ChangeRequest) : Progress (List Path) :=
  let base := (Layout.of store).change plan.dir
  if !(store.fileNames base).isEmpty then ⟨store, [], some (.refused (plan.dir ++ " already exists".toList))⟩
  else
    [(base ++ "/change.md".toList, (request.front plan.number).render request.history),
      (base ++ "/spec.md".toList, specTemplate (trimMatches isWhitespace request.title) request.description)].foldl
      (fun p file => p.write file.1 file.2 (· ++ [file.1])) ⟨store, [], none⟩

inductive ChangeCall where
  | create (request : ChangeRequest)
  | archive (dir date : Line) (force : Bool)

inductive ChangeEvent where
  | created (dir : Line)
  | archived (dir : Path)
  | refused
  | crashed
deriving DecidableEq

def changing : Machine Store ChangeCall ChangeEvent where
  step store
    | .create request =>
      match newChange store request.title with
      | none => (store, [.crashed])
      | some plan =>
        let p := createChange store plan request
        (p.store, [if p.failure.isSome then .refused else .created plan.dir])
    | .archive dir date force =>
      match archive store dir date force with
      | (store, .ok done) => (store, [.archived done.archivedDir])
      | (store, .error _) => (store, [.refused])

end

end RustyCore.Specs
