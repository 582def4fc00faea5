import FsServer.PathLocks

/-!
# Temporary directories

`SetTempDir`, the paths of the temporary files that a completed upload hands to the storage, and
`validateTempFilePath` with the answers of the operating system.
-/

namespace FsServer

open Lib Program GoPath

/-- `$TMPDIR` and the working directory. -/
structure OsPaths where
  tmpdir : Path
  wd : Path
  rooted : isRooted wd = true

namespace OsPaths

variable (os : OsPaths)

/-- `os.TempDir`. -/
def tempDir : Path := if os.tmpdir = [] then ['/', 't', 'm', 'p'] else os.tmpdir

def abs (path : Path) : List Segment :=
  cleanSegments (if isRooted path then path else os.wd ++ '/' :: path)

def handle : Handler Unit OsCall Unit := fun _ _ call _ =>
  match call with
  | .abs path => some (.ok (os.abs path), ())
  | .tempDir => some (os.tempDir, ())
  | _ => none

/-- `validateTempFilePath` returns nil. -/
def Accepts (path : Path) : Prop :=
  (PathLocks.validateTempFilePath path).run os.handle () () = some (.ok (), ())

/-- The path is in the directory, component by component. -/
def Inside (directory path : Path) : Prop := os.abs directory <+: os.abs path

end OsPaths

def setTempDir (mkdirAll : Path → Except OsError Unit) (tempDir dir : Path) : Except OsError Path :=
  if dir = [] then .ok tempDir
  else match mkdirAll dir with
    | .error cause => .error cause
    | .ok () => .ok dir

/-- The text of a UUID. -/
def IsSessionID (sessionID : List Char) : Prop :=
  sessionID.length = 36 ∧
    ∀ c ∈ sessionID, c = '-' ∨ c.isDigit = true ∨ c ∈ ['a', 'b', 'c', 'd', 'e', 'f']

def uploadTempPath (tempDir : Path) (sessionID : List Char) : Path :=
  joinPath tempDir (sessionID ++ ['.', 't', 'm', 'p'])

def encryptedTempPath (tempDir : Path) (sessionID : List Char) : Path :=
  uploadTempPath tempDir sessionID ++ ['.', 'e', 'n', 'c']

end FsServer
