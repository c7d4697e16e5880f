import Mathlib.Data.Prod.Lex
import RustyCore.Lib.OrdMap
import RustyCore.Lib.Sorting

/-! Near copies of functions across a repository: functions whose syntax trees have the same shape are grouped, and each
    function then knows the other places it exists. -/

namespace RustyCore.CodeHealth

open Sorting

structure FunctionMetrics where
  qualifiedName : String
  startLine : Nat
  endLine : Nat
  nloc : Nat
  test : Bool := false
  shape : Nat
  shapeNodes : Nat

structure FileMetrics where
  functions : List FunctionMetrics

structure DuplicatedCodeConfig where
  minNloc : Nat := 6
  minNodes : Nat := 40

structure Site where
  path : String
  function : String
  start : Nat
  finish : Nat
  nloc : Nat
deriving DecidableEq

structure DuplicateSite where
  path : String
  function : String
  line : Nat
deriving DecidableEq

structure Duplicate where
  function : String
  startLine : Nat
  endLine : Nat
  nloc : Nat
  copies : List DuplicateSite
deriving DecidableEq

namespace Duplicate

def span (d : Duplicate) : Nat × Nat := (d.startLine, d.endLine)

def place (d : Duplicate) : Nat ×ₗ String := toLex (d.startLine, d.function)

def sortCopies (d : Duplicate) : Duplicate :=
  { d with copies := sortOn (fun copy => toLex (copy.path, copy.line)) d.copies }

def inside (d other : Duplicate) : Bool :=
  other.span != d.span && other.startLine ≤ d.startLine && d.endLine ≤ other.endLine

end Duplicate

/-- Sorts a file's duplicates and drops closures that sit inside another copied function: they are part of the same
    copy. -/
def settle (list : List Duplicate) : List Duplicate :=
  let list := (sortOn Duplicate.place list).map Duplicate.sortCopies
  list.filter fun d => !list.any d.inside

class HashOrder where
  values : OrdMap Nat (List Site) → List (List Site)
  perm (groups : OrdMap Nat (List Site)) : (values groups).Perm groups.values

structure DuplicateIndex where
  byPath : OrdMap String (List Duplicate)
  sites : OrdMap Nat (List Site)

abbrev SourceFile := String × FileMetrics × Bool

section

variable (config : DuplicatedCodeConfig)

def skipped (f : FunctionMetrics) : Bool :=
  f.shape == 0 || f.test || f.nloc < config.minNloc || f.shapeNodes < config.minNodes

def comparable (f : FunctionMetrics) : Bool :=
  f.shape != 0 && !f.test && config.minNloc ≤ f.nloc && config.minNodes ≤ f.shapeNodes

def siteOf (path : String) (f : FunctionMetrics) : Site := ⟨path, f.qualifiedName, f.startLine, f.endLine, f.nloc⟩

def addFunction (path : String) (groups : OrdMap Nat (List Site)) (f : FunctionMetrics) : OrdMap Nat (List Site) :=
  if skipped config f then groups else groups.upsert f.shape fun sites => sites.getD [] ++ [siteOf path f]

def addFile (groups : OrdMap Nat (List Site)) (file : SourceFile) : OrdMap Nat (List Site) :=
  if file.2.2 then groups else file.2.1.functions.foldl (addFunction config file.1) groups

def group (files : List SourceFile) : OrdMap Nat (List Site) := files.foldl (addFile config) .empty

end

namespace Site

def duplicateSite (site : Site) : DuplicateSite := ⟨site.path, site.function, site.start⟩

def duplicate (site : Site) (copies : List DuplicateSite) : Duplicate :=
  ⟨site.function, site.start, site.finish, site.nloc, copies⟩

end Site

/-- Files the functions of one shape under their paths, each with the others as its copies. -/
def addGroup (byPath : OrdMap String (List Duplicate)) (sites : List Site) : OrdMap String (List Duplicate) :=
  sites.zipIdx.foldl (fun byPath (site, i) =>
    let copies := (sites.zipIdx.filter fun (_, j) => j != i).map fun (other, _) => other.duplicateSite
    byPath.upsert site.path fun list => list.getD [] ++ [site.duplicate copies]) byPath

namespace DuplicateIndex

def build [HashOrder] (files : List SourceFile) (config : DuplicatedCodeConfig) : DuplicateIndex :=
  let groups := group config files
  let byPath := ((HashOrder.values groups).filter fun sites => sites.length > 1).foldl addGroup .empty
  ⟨byPath.mapEntries fun _ list => settle list, groups⟩

def duplicatesIn (index : DuplicateIndex) (path : String) : List Duplicate := (index.byPath.get? path).getD []

/-- The duplicates of a file as it is now against the rest of the repository as the index last saw it. -/
def duplicatesFor (index : DuplicateIndex) (path : String) (metrics : FileMetrics) (config : DuplicatedCodeConfig) :
    List Duplicate :=
  let functions := (metrics.functions.filter (comparable config)).zipIdx
  settle (functions.filterMap fun (f, i) =>
    let copies := (((index.sites.get? f.shape).getD []).filter (·.path != path)).map (·.duplicateSite) ++
      (functions.filter fun (other, j) => j != i && other.shape == f.shape).map fun (other, _) =>
        (siteOf path other).duplicateSite
    if copies.isEmpty then none else some ((siteOf path f).duplicate copies))

end DuplicateIndex

end RustyCore.CodeHealth
