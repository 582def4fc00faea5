import FsServer.LocalStorage
import FsServer.Lib.KeyedLocks
import Mathlib.Data.Char
import Mathlib.Data.List.Lex

/-!
# The path locks of local storage

`storage/local.go` as it works among concurrent calls: every call of the operating system, every
access to the map of path locks and every operation on a mutex is one step. A call validates its paths
before it locks them, and everything it does then is done with the mutexes locked. `Rename` locks two,
in the order of the path strings.
-/

namespace FsServer

open Lib Program GoPath

abbrev FileHandle := Nat

/-- The calls of the operating system and of `path/filepath` that look at it. An absolute clean path is
the list of its names. -/
inductive OsCall : Type → Type where
  | abs (path : Path) : OsCall (Except OsError (List Segment))
  | evalSymlinks (place : List Segment) : OsCall (Except OsError (List Segment))
  | tempDir : OsCall Path
  | stat (path : Path) : OsCall (Except OsError Unit)
  | mkdirAll (path : Path) : OsCall (Except OsError Unit)
  | writeFile (path : Path) (data : Bytes) : OsCall (Except OsError Unit)
  | openRead (path : Path) : OsCall (Except OsError FileHandle)
  | openWrite (path : Path) (truncate : Bool) : OsCall (Except OsError FileHandle)
  | writeAt (file : FileHandle) (data : Bytes) (offset : Int) : OsCall (Except OsError Unit)
  | copyFile (dst src : FileHandle) : OsCall (Except OsError Unit)
  | copyReader (dst : FileHandle) (reader : Reader) : OsCall (Except OsError Unit)
  | close (file : FileHandle) : OsCall Unit
  | rename (oldPath newPath : Path) : OsCall (Except OsError Unit)
  | remove (path : Path) : OsCall (Except OsError Unit)
  | removeAll (path : Path) : OsCall (Except OsError Unit)

inductive LocalError where
  | invalidRoot (cause : OsError)
  | invalidPath (cause : OsError)
  | pathTraversal (path : Path)
  | invalidTempPath (cause : OsError)
  | tempFilePath (path : Path)
  | createDirectory (cause : OsError)
  | writeFile (cause : OsError)
  | openFile (cause : OsError)
  | writeAtOffset (cause : OsError)
  | openTempFile (cause : OsError)
  | createDestination (cause : OsError)
  | copyFile (cause : OsError)
  | removeTempFile (cause : OsError)
  | createFile (cause : OsError)
  | writeFromReader (cause : OsError)
  | removeFile (cause : OsError)
  | rename (cause : OsError)
  | removeDirectory (cause : OsError)

def wrapOsError (wrap : OsError → LocalError) : Except OsError Unit → Except LocalError Unit
  | .ok () => .ok ()
  | .error cause => .error (wrap cause)

namespace PathLocks

/-! ### Before the locks -/

def placeText (place : List Segment) : Path := '/' :: join place

/-- The loop of `resolveExistingAncestor`; `dir` has its last name first. -/
def resolveAncestorOf (path : List Segment) :
    (dir tail : List Segment) → Program OsCall (List Segment)
  | [], tail => do
    match ← perform (.evalSymlinks []) with
    | .ok resolved => return resolved ++ tail
    | .error _ => return path
  | base :: parent, tail => do
    match ← perform (.evalSymlinks (base :: parent).reverse) with
    | .ok resolved => return resolved ++ tail
    | .error _ => resolveAncestorOf path parent (base :: tail)

def resolveExistingAncestor (path : List Segment) : Program OsCall (List Segment) :=
  resolveAncestorOf path path.reverse []

variable (rootDir : Path)

def getFullPath (path : Path) : Path := joinPath rootDir path

def validatePath (path : Path) : Program OsCall (Except LocalError Unit) := do
  match ← perform (.abs rootDir) with
  | .error cause => return .error (.invalidRoot cause)
  | .ok absRoot =>
    let resolvedRoot ← perform (.evalSymlinks absRoot)
    let absRoot := match resolvedRoot with
      | .ok resolvedRoot => resolvedRoot
      | .error _ => absRoot
    match ← perform (.abs (getFullPath rootDir path)) with
    | .error cause => return .error (.invalidPath cause)
    | .ok absFull =>
      let resolved ← match ← perform (.evalSymlinks absFull) with
        | .ok resolved => pure resolved
        | .error _ => resolveExistingAncestor absFull
      if ¬ (placeText absRoot ++ ['/'] <+: placeText resolved) ∧
          placeText resolved ≠ placeText absRoot then
        return .error (.pathTraversal path)
      else
        return .ok ()

def validateTempFilePath (tempFilePath : Path) : Program OsCall (Except LocalError Unit) := do
  match ← perform (.abs tempFilePath) with
  | .error cause => return .error (.invalidTempPath cause)
  | .ok absTemp =>
    let tempDir ← perform .tempDir
    if ¬ (tempDir <+: placeText absTemp) ∧ ¬ (['/', 't', 'm', 'p', '/'] <+: placeText absTemp) then
      return .error (.tempFilePath tempFilePath)
    else
      return .ok ()

/-! ### With the locks -/

def ensureDirectoryExists (dirPath : Path) : Program OsCall (Except OsError Unit) := do
  match ← perform (.stat dirPath) with
  | .error .notExist => perform (.mkdirAll dirPath)
  | _ => return .ok ()

def inDirectory (fullPath : Path) (rest : Program OsCall (Except LocalError Unit)) :
    Program OsCall (Except LocalError Unit) := do
  match ← ensureDirectoryExists (dir fullPath) with
  | .error cause => return .error (.createDirectory cause)
  | .ok () => rest

def writeBody (path : Path) (data : Bytes) : Program OsCall (Except LocalError Unit) :=
  let fullPath := getFullPath rootDir path
  inDirectory fullPath do
    return wrapOsError .writeFile (← perform (.writeFile fullPath data))

def writeAtBody (path : Path) (data : Bytes) (offset : Int) :
    Program OsCall (Except LocalError Unit) :=
  let fullPath := getFullPath rootDir path
  inDirectory fullPath do
    match ← perform (.openWrite fullPath false) with
    | .error cause => return .error (.openFile cause)
    | .ok file =>
      let written ← perform (.writeAt file data offset)
      perform (.close file)
      return wrapOsError .writeAtOffset written

/-- Across file systems the move fails, and the file is copied. -/
def copyTempFile (fullPath tempFilePath : Path) : Program OsCall (Except LocalError Unit) := do
  match ← perform (.openRead tempFilePath) with
  | .error cause => return .error (.openTempFile cause)
  | .ok src =>
    match ← perform (.openWrite fullPath true) with
    | .error cause =>
      perform (.close src)
      return .error (.createDestination cause)
    | .ok dst =>
      let result ← match ← perform (.copyFile dst src) with
        | .error cause => pure (.error (.copyFile cause))
        | .ok () => do
          return wrapOsError .removeTempFile (← perform (.remove tempFilePath))
      perform (.close dst)
      perform (.close src)
      return result

def writeFromTempFileBody (path tempFilePath : Path) : Program OsCall (Except LocalError Unit) :=
  let fullPath := getFullPath rootDir path
  inDirectory fullPath do
    match ← perform (.rename tempFilePath fullPath) with
    | .ok () => return .ok ()
    | .error _ => copyTempFile fullPath tempFilePath

def writeFromReaderBody (path : Path) (reader : Reader) : Program OsCall (Except LocalError Unit) :=
  let fullPath := getFullPath rootDir path
  inDirectory fullPath do
    match ← perform (.openWrite fullPath true) with
    | .error cause => return .error (.createFile cause)
    | .ok file =>
      let copied ← perform (.copyReader file reader)
      perform (.close file)
      return wrapOsError .writeFromReader copied

def removeBody (path : Path) : Program OsCall (Except LocalError Unit) := do
  return wrapOsError .removeFile (← perform (.remove (getFullPath rootDir path)))

def createDirectoryBody (path : Path) : Program OsCall (Except LocalError Unit) := do
  return wrapOsError .createDirectory (← perform (.mkdirAll (getFullPath rootDir path)))

def removeDirectoryBody (path : Path) : Program OsCall (Except LocalError Unit) := do
  return wrapOsError .removeDirectory (← perform (.removeAll (getFullPath rootDir path)))

def renameBody (oldPath newPath : Path) : Program OsCall (Except LocalError Unit) :=
  let fullNewPath := getFullPath rootDir newPath
  inDirectory fullNewPath do
    return wrapOsError .rename (← perform (.rename (getFullPath rootDir oldPath) fullNewPath))

/-! ### The calls -/

abbrev Locking := Program (LockCall Path OsCall)

def getLock (path : Path) : Locking MutexAddress := perform (.mutex (.loadOrStore path))

def lock (path : Path) (mu : MutexAddress) : Locking Unit := perform (.mutex (.lock path mu))

def unlock (path : Path) (mu : MutexAddress) : Locking Unit := perform (.mutex (.unlock path mu))

def withLock (path : Path) (check body : Program OsCall (Except LocalError Unit)) :
    Locking (Except LocalError Unit) := do
  match ← check.aside with
  | .error cause => return .error cause
  | .ok () =>
    let mu ← getLock path
    lock path mu
    let result ← body.aside
    unlock path mu
    return result

def write (path : Path) (data : Bytes) : Locking (Except LocalError Unit) :=
  withLock path (validatePath rootDir path) (writeBody rootDir path data)

def writeAt (path : Path) (data : Bytes) (offset : Int) : Locking (Except LocalError Unit) :=
  withLock path (validatePath rootDir path) (writeAtBody rootDir path data offset)

def writeFromTempFile (path tempFilePath : Path) : Locking (Except LocalError Unit) :=
  withLock path
    (do
      match ← validatePath rootDir path with
      | .error cause => return .error cause
      | .ok () => validateTempFilePath tempFilePath)
    (writeFromTempFileBody rootDir path tempFilePath)

def writeFromReader (path : Path) (reader : Reader) : Locking (Except LocalError Unit) :=
  withLock path (validatePath rootDir path) (writeFromReaderBody rootDir path reader)

def remove (path : Path) : Locking (Except LocalError Unit) :=
  withLock path (validatePath rootDir path) (removeBody rootDir path)

def createDirectory (path : Path) : Locking (Except LocalError Unit) :=
  withLock path (validatePath rootDir path) (createDirectoryBody rootDir path)

def removeDirectory (path : Path) : Locking (Except LocalError Unit) :=
  withLock path (validatePath rootDir path) (removeDirectoryBody rootDir path)

def rename (oldPath newPath : Path) : Locking (Except LocalError Unit) := do
  match ← (validatePath rootDir oldPath).aside with
  | .error cause => return .error cause
  | .ok () =>
    match ← (validatePath rootDir newPath).aside with
    | .error cause => return .error cause
    | .ok () =>
      if oldPath = newPath then
        return .ok ()
      else
        let oldMu ← getLock oldPath
        let newMu ← getLock newPath
        if oldPath < newPath then
          lock oldPath oldMu
          lock newPath newMu
        else
          lock newPath newMu
          lock oldPath oldMu
        let result ← (renameBody rootDir oldPath newPath).aside
        unlock newPath newMu
        unlock oldPath oldMu
        return result

end PathLocks

inductive StorageRequest where
  | write (path : Path) (data : Bytes)
  | writeAt (path : Path) (data : Bytes) (offset : Int)
  | writeFromTempFile (path tempFilePath : Path)
  | writeFromReader (path : Path) (reader : Reader)
  | remove (path : Path)
  | createDirectory (path : Path)
  | removeDirectory (path : Path)
  | rename (oldPath newPath : Path)

def StorageRequest.program (rootDir : Path) : StorageRequest → PathLocks.Locking (Except LocalError Unit)
  | write path data => PathLocks.write rootDir path data
  | writeAt path data offset => PathLocks.writeAt rootDir path data offset
  | writeFromTempFile path tempFilePath => PathLocks.writeFromTempFile rootDir path tempFilePath
  | writeFromReader path reader => PathLocks.writeFromReader rootDir path reader
  | remove path => PathLocks.remove rootDir path
  | createDirectory path => PathLocks.createDirectory rootDir path
  | removeDirectory path => PathLocks.removeDirectory rootDir path
  | rename oldPath newPath => PathLocks.rename rootDir oldPath newPath

end FsServer
