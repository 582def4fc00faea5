import FsServer.LocalStorage
import FsServer.Lib.LinkTree

/-!
# Local storage over a tree with symbolic links

`ValidatePath` as the code has it, with `filepath.Abs` and `filepath.EvalSymlinks`, and what opening a
file for writing does to the tree. An absolute clean path is kept as the list of its names. Both
`EvalSymlinks` and the operating system replace links by their targets as they meet them, but
`EvalSymlinks` fails where the last name is missing, while a file may be created there.
-/

namespace FsServer

open Lib GoPath

def IsName (segment : Segment) : Prop :=
  segment ≠ [] ∧ segment ≠ ['.'] ∧ segment ≠ ['.', '.'] ∧ '/' ∉ segment

instance (segment : Segment) : Decidable (IsName segment) :=
  inferInstanceAs (Decidable (_ ∧ _ ∧ _ ∧ _))

abbrev Name := { segment : Segment // IsName segment }

def pathStep (segment : Segment) : PathStep Name :=
  if h : IsName segment then .down ⟨segment, h⟩
  else if segment = ['.', '.'] then .up
  else .here

def pathSteps (path : Path) : List (PathStep Name) := (segments path).map pathStep

/-- The target of a link as its text says. An empty text, which Linux refuses, is the directory of the
link. -/
def linkTarget (text : Path) : LinkTarget Name := ⟨isRooted text, pathSteps text⟩

def absoluteText (place : List Name) : Path := '/' :: join (place.map Subtype.val)

/-- The storage of a process that works in the directory `cwd`, which `os.Getwd` gives by its place. -/
structure LinkedStorage where
  rootDir : Path
  tree : LinkTree Name
  cwd : List Name
  cwd_directory : tree.node cwd = some .directory

namespace LinkedStorage

variable (storage : LinkedStorage)

def getFullPath (path : Path) : Path := joinPath storage.rootDir path

def start (path : Path) : List Name := if isRooted path then [] else storage.cwd

/-- `filepath.Abs`, which joins a relative path to the working directory and cleans the text. -/
def abs (path : Path) : List Name := (pathSteps path).foldl PathStep.apply (storage.start path)

/-- `filepath.EvalSymlinks` of an absolute path: the last name has to exist, and more than 255 links
are too many. -/
def evalSymlinks (path : List Name) : Option (List Name) :=
  match storage.tree.walk 255 (path.map .down) [] with
  | .directory place | .file place => some place
  | .missing _ | .failed => none

/-- The loop of `resolveExistingAncestor`; `dir` has its last name first. -/
def resolveAncestorOf (path : List Name) : (dir tail : List Name) → List Name
  | [], tail =>
    match storage.evalSymlinks [] with
    | some resolved => resolved ++ tail
    | none => path
  | base :: parent, tail =>
    match storage.evalSymlinks (base :: parent).reverse with
    | some resolved => resolved ++ tail
    | none => resolveAncestorOf path parent (base :: tail)

def resolveExistingAncestor (path : List Name) : List Name :=
  storage.resolveAncestorOf path path.reverse []

def resolvedRoot : List Name :=
  let absRoot := storage.abs storage.rootDir
  match storage.evalSymlinks absRoot with
  | some resolvedRoot => resolvedRoot
  | none => absRoot

def validatePath (path : Path) : Except StorageError Unit :=
  let absRoot := storage.resolvedRoot
  let absFull := storage.abs (storage.getFullPath path)
  let resolved :=
    match storage.evalSymlinks absFull with
    | some resolved => resolved
    | none => storage.resolveExistingAncestor absFull
  if ¬ (absoluteText absRoot ++ ['/'] <+: absoluteText resolved) ∧
      absoluteText resolved ≠ absoluteText absRoot then
    .error (.pathTraversal path)
  else .ok ()

/-- `MAXSYMLINKS` of Linux. -/
def maxSymlinks : Nat := 40

def openForWriting (path : Path) : Option (List Name) :=
  if path = [] then none
  else
    match storage.tree.walk maxSymlinks (pathSteps path) (storage.start path) with
    | .file place | .missing place => some place
    | .directory _ | .failed => none

end LinkedStorage

end FsServer
