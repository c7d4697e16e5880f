import RustyCore.Protocol.Json

/-! The patch text of `git.diff` and `git.show`: pathspec and hunk filters, file, hunk and byte caps, and the summary
    of every file. A diff is what the git library reports of it: its deltas and, for each, the patch with its hunks. -/

namespace RustyCore.GitPatch

inductive DeltaStatus where
  | unmodified
  | added
  | deleted
  | modified
  | renamed
  | copied
  | ignored
  | untracked
  | typechange
  | unreadable
  | conflicted
deriving DecidableEq

def DeltaStatus.text : DeltaStatus → String
  | .unmodified => "unmodified"
  | .added => "added"
  | .deleted => "deleted"
  | .modified => "modified"
  | .renamed => "renamed"
  | .copied => "copied"
  | .ignored => "ignored"
  | .untracked => "untracked"
  | .typechange => "typechange"
  | .unreadable => "unreadable"
  | .conflicted => "conflicted"

/-- Paths are as `to_string_lossy` reads them. -/
structure DiffDelta where
  oldPath : Option String
  newPath : Option String
  status : DeltaStatus
  isBinary : Bool

/-- The content is as `from_utf8_lossy` reads it. -/
structure DiffLine where
  origin : Char
  content : String

structure DiffHunk where
  header : String
  lines : List (Except String DiffLine)

structure Patch where
  hunks : List (Except String DiffHunk)
  lineStats : Except String (Nat × Nat)

structure DiffFile where
  delta : DiffDelta
  patch : Except String (Option Patch)

def maxDiffBytes : Nat := 50000

def defaultMaxFiles : Nat := 50

def maxFilesLimit : Nat := 200

def maxSummaryFiles : Nat := 500

/-- A file cut off by the byte budget is still included when at least this much of it fits. -/
def minPartialFileBytes : Nat := 200

def truncationMarker : String := "\n... (diff truncated)"

/-- `paths` become pathspecs of the diff before it is rendered. -/
structure DiffFilters where
  hunkContains : Option String := none
  maxHunksPerFile : Option Nat := none
  maxFiles : Option Nat := none
  maxBytes : Option Nat := none
  summaryOnly : Bool := false

namespace DiffFilters

def fileLimit (filters : DiffFilters) : Nat :=
  (filters.maxFiles.map fun n => max 1 (min n maxFilesLimit)).getD defaultMaxFiles

def byteLimit (filters : DiffFilters) : Nat :=
  (filters.maxBytes.map fun n => max 1 (min n maxDiffBytes)).getD maxDiffBytes

/-- Without a request there is no limit but that of `usize`. -/
def hunkLimit (filters : DiffFilters) : Nat := (filters.maxHunksPerFile.map (max 1)).getD (2 ^ 64 - 1)

def needle (filters : DiffFilters) : Option String := filters.hunkContains.filter fun needle => !needle.isEmpty

end DiffFilters

def truncateAtCharBoundary (text : String) (maxBytes : Nat) : String :=
  if text.utf8ByteSize ≤ maxBytes then text else String.ofList (Text.takeBytes maxBytes text.toList)

/-- One file's rendered patch (nothing when every hunk was filtered out) and how many of its hunks it shows. -/
structure FileBlock where
  text : Option String
  hunksShown : Nat
  omittedHunks : Nat

structure Hunks where
  text : String := ""
  shown : Nat := 0
  omitted : Nat := 0

def diffHeader (delta : DiffDelta) : String :=
  let old := delta.oldPath.map ("a/" ++ ·)
  let new := delta.newPath.map ("b/" ++ ·)
  "diff --git " ++ (old.or new).getD "a/?" ++ " " ++ (new.or old).getD "b/?" ++ "\n"

/-- The `---` and `+++` lines; an added file has no old side and a deleted one no new side. -/
def fileMarkers (delta : DiffDelta) : String :=
  let name (path : Option String) (side : String) (present : Bool) : String :=
    if present then (path.map fun path => side ++ "/" ++ path).getD "" else "/dev/null"
  "--- " ++ name delta.oldPath "a" (delta.status ≠ .added) ++ "\n+++ " ++
    name delta.newPath "b" (delta.status ≠ .deleted) ++ "\n"

def changed (line : DiffLine) : Bool := line.origin == '+' || line.origin == '-'

def lineText (line : DiffLine) : String :=
  if changed line || line.origin == ' ' then String.singleton line.origin ++ line.content else line.content

/-- One hunk's text, and whether it matches: always, with no needle; otherwise when an added or removed line contains
    it. -/
def hunkText (needle : Option String) (hunk : Except String DiffHunk) : Except String (String × Bool) := do
  let hunk ← hunk
  hunk.lines.foldlM (fun (text, found) line => do
    let line ← line
    pure (text ++ lineText line, found || needle.any fun needle => changed line && Text.contains line.content needle))
    (hunk.header, needle.isNone)

def selectHunk (needle : Option String) (maxHunks : Nat) (hunks : Hunks) (hunk : Except String DiffHunk) :
    Except String Hunks := do
  let (text, found) ← hunkText needle hunk
  if !found then pure hunks
  else if maxHunks ≤ hunks.shown then pure { hunks with omitted := hunks.omitted + 1 }
  else pure { hunks with text := hunks.text ++ text, shown := hunks.shown + 1 }

def selectHunks (patch : Patch) (needle : Option String) (maxHunks : Nat) : Except String Hunks :=
  patch.hunks.foldlM (selectHunk needle maxHunks) {}

def binaryBlock (header : String) (needle : Option String) : FileBlock :=
  if needle.isSome then ⟨none, 0, 0⟩ else ⟨some (header ++ "Binary files differ\n"), 0, 0⟩

def fileBlock (delta : DiffDelta) (patch : Option Patch) (needle : Option String) (maxHunks : Nat) :
    Except String FileBlock :=
  match patch with
  | none => .ok (binaryBlock (diffHeader delta) needle)
  | some patch => do
    let hunks ← selectHunks patch needle maxHunks
    if needle.isSome && hunks.shown == 0 then pure ⟨none, 0, hunks.omitted⟩
    else
      let note := if 0 < hunks.omitted then "... (" ++ toString hunks.omitted ++ " more matching hunk(s) omitted)\n" else ""
      pure ⟨some (diffHeader delta ++ fileMarkers delta ++ hunks.text ++ note), hunks.shown, hunks.omitted⟩

inductive PatchState where
  | full
  | partly
  | omitted
  | filteredOut
  | summary
deriving DecidableEq

def PatchState.asStr : PatchState → String
  | .full => "full"
  | .partly => "partial"
  | .omitted => "omitted"
  | .filteredOut => "filtered_out"
  | .summary => "summary"

structure FileFacts where
  oldPath : Option String
  newPath : Option String
  binary : Bool
  additions : Nat
  deletions : Nat
  hunksTotal : Nat

def fileFacts (delta : DiffDelta) (patch : Option Patch) : Except String FileFacts :=
  match patch with
  | none => .ok ⟨delta.oldPath, delta.newPath, true, 0, 0, 0⟩
  | some patch => do
    let (additions, deletions) ← patch.lineStats
    pure ⟨delta.oldPath, delta.newPath, delta.isBinary, additions, deletions, patch.hunks.length⟩

def FileFacts.path (facts : FileFacts) : String := (facts.newPath.or facts.oldPath).getD ""

def count (n : Nat) : Value := .number (.posInt n)

def fileSummary (delta : DiffDelta) (facts : FileFacts) (state : PatchState) (hunksShown : Option Nat) : Value :=
  .object ([("additions", count facts.additions)] ++
    (if facts.binary then [("binary", .bool true)] else []) ++
    [("deletions", count facts.deletions), ("hunks", count facts.hunksTotal)] ++
    ((hunksShown.filter (· ≠ facts.hunksTotal)).map fun shown => ("hunks_shown", count shown)).toList ++
    (if facts.oldPath.isSome && facts.oldPath ≠ facts.newPath then
      (facts.oldPath.map fun path => ("old_path", .string path)).toList else []) ++
    [("patch", .string state.asStr), ("path", .string facts.path), ("status", .string delta.status.text)])

structure Omissions where
  maxBytes : Option Nat
  omittedFiles : Nat
  omittedHunks : Nat
  unlistedFiles : Nat

def Omissions.intoLimits (omissions : Omissions) : Option Value :=
  let counted (key : String) (n : Nat) : List (String × Value) := if 0 < n then [(key, count n)] else []
  let hint : String × Value := ("hint", .string
    "Narrow with paths, hunk_contains, or max_hunks_per_file, or use summary_only to see every file.")
  let bytes := (omissions.maxBytes.map fun n => ("max_bytes", count n)).toList
  let rest := bytes ++ counted "omitted_files" omissions.omittedFiles ++ counted "omitted_hunks" omissions.omittedHunks ++
    counted "unlisted_files" omissions.unlistedFiles
  if rest.isEmpty then none else some (.object (hint :: rest))

structure Render where
  includePatch : Bool
  maxFiles : Nat
  maxBytes : Nat
  maxHunks : Nat
  needle : Option String
  text : String := ""
  files : List Value := []
  patchedFiles : Nat := 0
  omittedFiles : Nat := 0
  omittedHunks : Nat := 0
  bytesTruncated : Bool := false

namespace Render

def new (filters : DiffFilters) (includePatch : Bool) : Render where
  includePatch := includePatch
  maxFiles := filters.fileLimit
  maxBytes := filters.byteLimit
  maxHunks := filters.hunkLimit
  needle := filters.needle

/-- Appends the whole block if it fits; otherwise as much of it as leaves room for the truncation marker, provided that
    is worth showing; otherwise none of it. -/
def appendWithinBudget (run : Render) (block : String) : Render × PatchState :=
  let remaining := run.maxBytes - run.text.utf8ByteSize
  if block.utf8ByteSize ≤ remaining then
    ({ run with text := run.text ++ block, patchedFiles := run.patchedFiles + 1 }, .full)
  else
    let room := remaining - truncationMarker.utf8ByteSize
    if room < minPartialFileBytes then
      ({ run with bytesTruncated := true, omittedFiles := run.omittedFiles + 1 }, .omitted)
    else
      ({ run with
          bytesTruncated := true
          text := run.text ++ truncateAtCharBoundary block room ++ truncationMarker
          patchedFiles := run.patchedFiles + 1 }, .partly)

/-- Adds the file's patch text if the file and byte budgets allow, and says what happened. -/
def placePatch (run : Render) (delta : DiffDelta) (patch : Option Patch) :
    Except String (Render × PatchState × Option Nat) :=
  if run.maxFiles ≤ run.patchedFiles || run.bytesTruncated then
    .ok ({ run with omittedFiles := run.omittedFiles + 1 }, .omitted, none)
  else do
    let block ← fileBlock delta patch run.needle run.maxHunks
    let run := { run with omittedHunks := run.omittedHunks + block.omittedHunks }
    match block.text with
    | none => pure (run, .filteredOut, some block.hunksShown)
    | some text =>
      let (run, state) := run.appendWithinBudget text
      pure (run, state, some block.hunksShown)

def addFile (run : Render) (file : DiffFile) : Except String Render := do
  let patch ← file.patch
  let facts ← fileFacts file.delta patch
  let (run, state, hunksShown) ←
    (if run.includePatch then run.placePatch file.delta patch else .ok (run, .summary, none))
  if run.files.length < maxSummaryFiles then
    pure { run with files := run.files ++ [fileSummary file.delta facts state hunksShown] }
  else pure run

def intoFields (run : Render) (totalFiles : Nat) : List (String × Value) :=
  let omissions : Omissions :=
    { maxBytes := if run.bytesTruncated then some run.maxBytes else none
      omittedFiles := run.omittedFiles
      omittedHunks := run.omittedHunks
      unlistedFiles := totalFiles - run.files.length }
  [("diff", .string run.text), ("files", .array run.files)] ++
    (omissions.intoLimits.map fun limits => ("limits", limits)).toList ++ [("total_files", count totalFiles)]

end Render

def render (diff : List DiffFile) (filters : DiffFilters) (includePatch : Bool) :
    Except String (List (String × Value)) := do
  let run ← diff.foldlM Render.addFile (Render.new filters (includePatch && !filters.summaryOnly))
  pure (run.intoFields diff.length)

end RustyCore.GitPatch
