import Mathlib.Data.List.Basic
import Mathlib.Algebra.Order.Ring.Nat
import Mathlib.Data.List.Infix

/-!
# Paths

`utils.go` and the functions of Go's `path` package it rests on. A path is its list of characters;
only `/`, `.` and `\` and the control characters are ever looked at.
-/

namespace FsServer

abbrev Path := List Char

abbrev Segment := List Char

namespace GoPath

def segments (path : Path) : List Segment := path.splitOn '/'

def join (parts : List Segment) : Path := ['/'].intercalate parts

def cleanStep (rooted : Bool) (kept : List Segment) (segment : Segment) : List Segment :=
  if segment = [] ∨ segment = ['.'] then kept
  else if segment = ['.', '.'] then
    match kept.getLast? with
    | none => if rooted then [] else [segment]
    | some last => if last = ['.', '.'] then kept ++ [segment] else kept.dropLast
  else kept ++ [segment]

def isRooted (path : Path) : Bool := path.head? = some '/'

def cleanSegments (path : Path) : List Segment :=
  (segments path).foldl (cleanStep (isRooted path)) []

def clean (path : Path) : Path :=
  if isRooted path then '/' :: join (cleanSegments path)
  else if cleanSegments path = [] then ['.']
  else join (cleanSegments path)

def base (path : Path) : Path :=
  if path = [] then ['.']
  else
    match (segments path).reverse.dropWhile (· = []) with
    | [] => ['/']
    | last :: _ => last

def dir (path : Path) : Path :=
  clean (path.reverse.dropWhile (· ≠ '/')).reverse

/-- `filepath.Join` of two elements: empty ones are left out. -/
def joinPath (first second : Path) : Path :=
  if first ≠ [] then clean (first ++ '/' :: second)
  else if second ≠ [] then clean second
  else []

end GoPath

open GoPath

def normalizePath (path : Path) : Path := (clean path).dropWhile (· = '/')

def getFileName (path : Path) : Path := base path

def getDirectory (path : Path) : Path := dir path

/-- Names are limited in bytes, not in characters. -/
def byteLength (name : Path) : Nat := (name.map Char.utf8Size).sum

def isValidFileName (name : Path) : Bool :=
  if name = [] then false
  else if byteLength name > 255 then false
  else if name = ['.', '.'] ∨ name = ['.'] then false
  else if ['.', '.'] <:+: name then false
  else if name.any fun c => c = '/' ∨ c = '\\' then false
  else name.all fun c => ¬ c.val < 0x20

def isValidFilePath (path : Path) : Bool :=
  if path = [] ∨ path = ['/'] then false
  else
    let stripped := path.dropWhile (· = '/')
    if stripped = [] then false
    else if clean stripped = ['.'] ∨ clean stripped = ['.', '.'] ∨ clean stripped = ['/'] then false
    else (segments stripped).all fun part => ¬ (part = ['.', '.'] ∨ part = [])

end FsServer
