import RustyCore.Lib.FileTree
import RustyCore.Lib.Text

/-! Writing a file below a workspace root: the guard of the path, the parent directories, and the write by a rename. -/

namespace RustyCore.Workspace

open FileTree

inductive PathComponent where
  | normal (name : String)
  | curDir
  | parentDir
  | rootDir
deriving DecidableEq

def component (part : List Char) : PathComponent :=
  if part = "..".toList then .parentDir else .normal (String.ofList part)

/-- `Path::components`: empty parts are dropped, and so is a `.` anywhere but at the start of a relative path. -/
def pathComponents (relative : List Char) : List PathComponent :=
  let parts := (Text.splitOn (· == '/') relative).filter (· ≠ [])
  let kept := fun parts : List (List Char) => (parts.filter (· ≠ ".".toList)).map component
  if relative.head? = some '/' then .rootDir :: kept parts
  else if parts.head? = some ".".toList then .curDir :: kept parts.tail
  else kept parts

inductive WorkspaceError where
  | pathTraversal (root : Location) (relative : List PathComponent)
  | io (errno : Errno)

/-- Moves up one level; none when there is nowhere to go or the new position is neither the root nor one of its
    ancestors. -/
def stepUp (root : Location) : Location → Option Location
  | [] => none
  | _ :: up => if up.isSuffixOf root then some up else none

def follow (root : Location) : Location → List PathComponent → Option Location
  | resolved, [] => some resolved
  | resolved, .normal name :: rest => follow root (name :: resolved) rest
  | resolved, .curDir :: rest => follow root resolved rest
  | resolved, .parentDir :: rest => (stepUp root resolved).bind fun up => follow root up rest
  | _, .rootDir :: _ => none

/-- Resolves `relative` under `root` by path arithmetic alone. -/
def resolveLexically (root : Location) (relative : List PathComponent) : Except WorkspaceError Location :=
  match follow root root relative with
  | none => .error (.pathTraversal root relative)
  | some resolved => if root.isSuffixOf resolved then .ok resolved else .error (.pathTraversal root relative)

/-- No link is found on the way through the names from a position on; the first that is not there ends it. -/
def withoutSymlinks (tree : Tree) : Location → List String → Bool
  | _, [] => true
  | current, name :: rest =>
    match tree.lstat (name :: current) with
    | .ok (.link _) => false
    | .ok _ => withoutSymlinks tree (name :: current) rest
    | .error _ => true

def belowRoot (root resolved : Location) : List String := (resolved.take (resolved.length - root.length)).reverse

def resolveWithoutSymlinks (tree : Tree) (root : Location) (relative : List PathComponent) :
    Except WorkspaceError Location :=
  match resolveLexically root relative with
  | .error e => .error e
  | .ok resolved =>
    if withoutSymlinks tree root (belowRoot root resolved) then .ok resolved
    else .error (.pathTraversal root relative)

/-- The final location for `relative`, with its parent directories created: the trees passed through, and the
    result. Parents are created before the symlink check. -/
def prepareTarget (tree : Tree) (root : Location) (relative : List PathComponent) :
    List Tree × Except WorkspaceError Location :=
  match resolveLexically root relative with
  | .error e => ([], .error e)
  | .ok [] => ([], resolveWithoutSymlinks tree root relative)
  | .ok (_ :: parent) =>
    match tree.createDirAll parent with
    | (passed, .error e) => (passed, .error (.io e))
    | (passed, .ok ()) => (passed, resolveWithoutSymlinks (tree.last passed) root relative)

def temporaryName (target : Location) (uuid : String) : String := "." ++ target.head?.getD "write" ++ ".tmp-" ++ uuid

/-- Writes to a temporary file next to `target` and renames it into place. -/
def writeAtomically (tree : Tree) (root target : Location) (content uuid : String) :
    List Tree × Except WorkspaceError Unit :=
  let directory :=
    match target with
    | [] => root
    | _ :: up => up
  let temporary := temporaryName target uuid :: directory
  match tree.writeFile temporary content with
  | .error e => ([], .error (.io e))
  | .ok written =>
    match written.renameFile temporary target with
    | .ok renamed => ([written, renamed], .ok ())
    | .error e =>
      match written.unlink temporary with
      | .ok removed => ([written, removed], .error (.io e))
      | .error _ => ([written], .error (.io e))

def write (tree : Tree) (root : Location) (relative : List PathComponent) (content uuid : String) :
    List Tree × Except WorkspaceError Unit :=
  match prepareTarget tree root relative with
  | (passed, .error e) => (passed, .error e)
  | (passed, .ok target) =>
    (passed ++ (writeAtomically (tree.last passed) root target content uuid).1,
      (writeAtomically (tree.last passed) root target content uuid).2)

end RustyCore.Workspace
