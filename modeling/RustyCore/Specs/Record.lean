import RustyCore.Specs.Front

/-! The operations that write into the specs: a workflow step's documents into a change, the survey of a project, the
    spec of one capability, and the archiving of a finished change. Each gives the store it leaves, also with an error. -/

namespace RustyCore.Specs

open Text

inductive Step where
  | specify
  | plan
  | implement
  | start
  | capability
deriving DecidableEq

namespace Step

def documents : Step → List Line
  | specify => ["research.md".toList, "spec.md".toList, "checklist.md".toList]
  | plan => ["research.md".toList, "design.md".toList, "tasks.md".toList]
  | implement => []
  | start => ["project.md".toList, "onboarding.md".toList]
  | capability => ["spec.md".toList]

def history : Step → Line
  | specify => "Spec written by Specify.".toList
  | plan => "Design and tasks written by Plan.".toList
  | implement => "Implemented.".toList
  | start => "Project surveyed by Start specs.".toList
  | capability => "Capability written.".toList

end Step

structure DocumentInput where
  name : Line
  text : List Char

structure Recorded where
  written : List Path
  status : Status

/-- The texts of the files that `init` adds. -/
class Templates where
  readme : Line → List Char
  project : List Char

def withoutFence (text : List Char) : List Char :=
  if startsWith text "```".toList && "```".toList.isSuffixOf text && (lines text).length ≥ 2 then
    trimMatches isWhitespace (List.intercalate ['\n'] ((lines text).drop 1).dropLast)
  else text

def clean (reply : List Char) : List Char :=
  let text := withoutFence (trimMatches isWhitespace reply)
  let text :=
    match ((lines text).take 8).findIdx? fun line => startsWith line "# ".toList with
    | some place => if 0 < place then List.intercalate ['\n'] ((lines text).drop place) else text
    | none => text
  if text.isEmpty then text else text ++ ['\n']

def surveyed (text : List Char) : List Line :=
  ((lines text).filterMap fun line =>
    (stripPrefix "## ".toList line).map fun heading =>
      trimMatches (fun c => c == (Char.ofNat 96)) (trimMatches isWhitespace heading)).filter (!·.isEmpty)

def refusal (step : Step) (document : DocumentInput) : Option SpecError :=
  if !step.documents.contains document.name then some (document.name ++ " cannot be written by this step".toList)
  else if isBlankLine (clean document.text) then
    some ("the step returned nothing for ".toList ++ document.name)
  else if step = .start ∧ document.name = "onboarding.md".toList ∧ (surveyed (clean document.text)).isEmpty then
    some "the survey listed no capability (## name sections with Purpose: and Paths:)".toList
  else none

def writeDocuments (step : Step) (path : Line → Path) :
    Store → List Path → List DocumentInput → Store × Except SpecError (List Path)
  | store, written, [] => (store, .ok written)
  | store, written, document :: rest =>
    match refusal step document with
    | some e => (store, .error e)
    | none =>
      writeDocuments step path (store.write (path document.name) (clean document.text))
        (written ++ [path document.name]) rest

section

variable [ConfigReader] [Templates]

def padded (n : Nat) : Line := List.replicate (4 - (decimal n).length) '0' ++ decimal n

/-- A `change.md` for a folder that was written by hand. -/
def freshChange (dir date : Line) : List Char :=
  let name := (parseDirName dir).getD (0, dir)
  Front.renderChange (padded name.1) (name.2.map fun c => if c = '-' then ' ' else c) .draft date

def moveOn (store : Store) (base dir : Path) (step : Step) (documents : List DocumentInput) (date : Line) :
    Store × Status :=
  let path := base ++ "/change.md".toList
  let text := (store.read path).getD (freshChange dir date)
  let current := (Front.status text).getD .draft
  let target :=
    match step with
    | .specify => .specified
    | .plan => if documents.any fun d => d.name == "tasks.md".toList then .planned else current
    | .implement | .start | .capability => current
  let status := current.max target
  let text := if status ≠ current then Front.setField text "status".toList status.word else text
  (store.write path (Front.addHistory text (date ++ " ".toList ++ step.history)), status)

def init (store : Store) : Store :=
  let layout := Layout.of store
  let store :=
    if (store.read layout.readme).isNone then store.write layout.readme (Templates.readme layout.root) else store
  if (store.read layout.project).isNone then store.write layout.project Templates.project else store

def surveyPath (layout : Layout) (name : Line) : Path :=
  if name = "project.md".toList then layout.project else layout.onboarding

def recordStart (store : Store) (documents : List DocumentInput) : Store × Except SpecError Recorded :=
  let layout := Layout.of store
  let written := writeDocuments .start (surveyPath layout) (init store) [] documents
  (written.1, written.2.map fun paths => ⟨paths, .draft⟩)

def recordCapability (store : Store) (name : Line) (documents : List DocumentInput) :
    Store × Except SpecError Recorded :=
  let layout := Layout.of store
  if name.isEmpty || slugify name != name then
    (store, .error ("'".toList ++ name ++ "' is not a capability folder name".toList))
  else match documents with
    | [document] =>
      let written := writeDocuments .capability (fun _ => layout.capabilitySpec name) store [] [document]
      (written.1, written.2.map fun paths => ⟨paths, .draft⟩)
    | _ => (store, .error "a capability has exactly one spec.md".toList)

/-- Writes documents into a change and updates `change.md`. -/
def recordChange (store : Store) (dir : Line) (step : Step) (documents : List DocumentInput) (date : Line) :
    Store × Except SpecError Recorded :=
  let layout := Layout.of store
  if !(store.dirs layout.changes).contains dir then (store, .error (dir ++ " is not a change".toList))
  else
    let base := layout.change dir
    match writeDocuments step (fun name => base ++ '/' :: name) store [] documents with
    | (store, .error e) => (store, .error e)
    | (store, .ok written) =>
      let moved := moveOn store base dir step documents date
      (moved.1, .ok ⟨written, moved.2⟩)

def record (store : Store) (dir : Line) (step : Step) (documents : List DocumentInput) (date : Line) :
    Store × Except SpecError Recorded :=
  match step with
  | .start => recordStart store documents
  | .capability => recordCapability store dir documents
  | .specify | .plan | .implement => recordChange store dir step documents date

structure Archived where
  archivedDir : Path
  merged : List Line
  unmerged : List Line

def finishedReasons (status : Status) (boxes : List Bool) : List Line :=
  let opened := (boxes.filter (!·)).length
  (if status ≠ .done then ["its status is ".toList ++ status.word ++ ", not done".toList] else []) ++
    if 0 < opened then [decimal opened ++ " of ".toList ++ decimal boxes.length ++ " tasks are not ticked".toList] else []

def checkFinished (store : Store) (base : Path) : Except SpecError Unit :=
  let status := ((store.read (base ++ "/change.md".toList)).bind Front.status).getD .draft
  let boxes := ((store.read (base ++ "/tasks.md".toList)).map taskBoxes).getD []
  let reasons := finishedReasons status boxes
  if reasons.isEmpty then .ok ()
  else .error ("The change is not finished: ".toList ++ List.intercalate " and ".toList reasons ++ ".".toList)

def writeMerges (layout : Layout) (merges : Merges) (store : Store) : Store :=
  merges.names.foldl (fun store name =>
    match merges.texts (layout.capabilitySpec name) with
    | some text => store.write (layout.capabilitySpec name) text
    | none => store) store

def finishedText (text : List Char) (date : Line) : List Char :=
  Front.addHistory (Front.setField text "status".toList Status.archived.word)
    (date ++ " Archived; requirements merged into the capabilities.".toList)

def finishChangeRecord (store : Store) (base : Path) (dir date : Line) : Store :=
  let path := base ++ "/change.md".toList
  store.write path (finishedText ((store.read path).getD ("# ".toList ++ dir ++ "\n".toList)) date)

def archiveTarget (layout : Layout) (dir date : Line) : Path :=
  layout.archive ++ "/".toList ++ date ++ "-".toList ++ dir

def archiveChecks (store : Store) (dir date : Line) (force : Bool) : Except SpecError Merges :=
  let layout := Layout.of store
  let base := layout.change dir
  if !(store.dirs layout.changes).contains dir then .error (dir ++ " is not a change".toList)
  else match if force then .ok () else checkFinished store base with
    | .error e => .error e
    | .ok () =>
      mergeAll store.read layout dir date (((store.read (base ++ "/spec.md".toList)).map parseRequirements).getD [])

def archive (store : Store) (dir date : Line) (force : Bool) : Store × Except SpecError Archived :=
  let layout := Layout.of store
  match archiveChecks store dir date force with
  | .error e => (store, .error e)
  | .ok merges =>
    let store := finishChangeRecord (writeMerges layout merges store) (layout.change dir) dir date
    match store.moveDir (layout.change dir) (archiveTarget layout dir date) with
    | .error e => (store, .error e)
    | .ok store => (store, .ok ⟨archiveTarget layout dir date, merges.names, merges.unmerged⟩)

end

end RustyCore.Specs
