import FsServer.FileManager

/-!
# The directory manager

`directory/manager.go` with a local store or none, and with the distributed lock or without. The
recursive delete goes through the rows under the directory in batches; `rounds` bounds the number of
batches a run may take, and `none` is returned when it runs out.
-/

namespace FsServer

open Lib Service

inductive DirectoryError where
  | lock (path : Path)
  | exists (path : Path)
  | createMetadata (cause : CreateError)
  | notFound (path : Path)
  | notEmpty (path : Path)
  | queryMetadata (cause : SqlError)
  | checkContents (cause : SqlError)
  | queryFiles (cause : SqlError)
  | queryDirectories (cause : SqlError)
  | deleteFiles (cause : SqlError)
  | deleteDirectories (cause : SqlError)
  | removeMetadata (cause : SqlError)
  | targetExists (path : Path)
  | rename (cause : SqlError)
  deriving DecidableEq

namespace DirectoryMetadataService

def create (metadata : DirectoryMetadata) : Service (Except CreateError Unit) := do
  let row := { metadata with path := normalizePath metadata.path }
  match ← sql (.deletedDirectoryId row.path) with
  | .ok (some _) =>
    match ← sql (.restoreDirectory row) with
    | .ok () => return .ok ()
    | .error cause => return .error (.restore cause)
  | _ =>
    match ← sql (.insertDirectory row) with
    | .ok () => return .ok ()
    | .error cause => return .error (.insert cause)

def getByPath (path : Path) : Service (Except SqlError (Option DirectoryMetadata)) :=
  sql (.directoryByPath (normalizePath path))

end DirectoryMetadataService

structure DirectoryManager where
  hasStore : Bool
  hasLock : Bool

namespace DirectoryManager

variable (dm : DirectoryManager)

/-- `dm.store` called for its effect alone: its errors are logged. -/
def attempt (call : StorageCall (Except StorageError Unit)) : Service Unit := do
  if dm.hasStore then
    let _ ← storage call
    return ()
  else return ()

def withDirectoryLock {α : Type} (ctx : Context) (path : Path)
    (body : Service (Except DirectoryError α)) : Service (Except DirectoryError α) := do
  if dm.hasLock then
    if ← acquire (.directory path) ctx.token then
      let result ← body
      unlock (.directory path) ctx.token
      return result
    else return .error (.lock path)
  else body

def directoryExists (path : Path) : Service Bool := do
  match ← sql (.directoryExists (normalizePath (normalizePath path))) with
  | .ok found => return found
  | .error _ => return false

def getDirectoryMetadata (path : Path) : Service (Except DirectoryError DirectoryMetadata) := do
  let path := normalizePath path
  match ← DirectoryMetadataService.getByPath path with
  | .error cause => return .error (.queryMetadata cause)
  | .ok none => return .error (.notFound path)
  | .ok (some metadata) => return .ok metadata

def newMetadata (ctx : Context) (path : Path) : DirectoryMetadata where
  id := ctx.id
  path := path
  name := getFileName path
  createdAt := ctx.now
  updatedAt := ctx.now
  isDeleted := false

def createDirectoryBody (ctx : Context) (path : Path) : Service (Except DirectoryError Unit) := do
  if ← directoryExists path then return .error (.exists path)
  else
    match ← DirectoryMetadataService.create (newMetadata ctx path) with
    | .error cause => return .error (.createMetadata cause)
    | .ok () =>
      dm.attempt (.createDirectory path)
      return .ok ()

def createDirectory (ctx : Context) (path : Path) : Service (Except DirectoryError Unit) :=
  let path := normalizePath path
  dm.withDirectoryLock ctx path (dm.createDirectoryBody ctx path)

def removeRow (ctx : Context) (path : Path) : Service (Except DirectoryError Unit) := do
  match ← DirectoryMetadataService.getByPath path with
  | .error cause => return .error (.queryMetadata cause)
  | .ok none => return .error (.notFound path)
  | .ok (some metadata) =>
    match ← sql (.removeDirectory metadata.id ctx.now) with
    | .error cause => return .error (.removeMetadata cause)
    | .ok () => return .ok ()

def deleteEmpty (ctx : Context) (path : Path) : Service (Except DirectoryError Unit) := do
  match ← sql (.filesUnder path) with
  | .error cause => return .error (.checkContents cause)
  | .ok (_ :: _) => return .error (.notEmpty path)
  | .ok [] =>
    match ← sql (.directoriesUnder path) with
    | .error cause => return .error (.checkContents cause)
    | .ok (_ :: _) => return .error (.notEmpty path)
    | .ok [] => removeRow ctx path

def batchSize : Nat := 500

def attemptAll : List (StorageCall (Except StorageError Unit)) → Service Unit
  | [] => return ()
  | call :: rest => do
    dm.attempt call
    attemptAll rest

def deleteFiles (ctx : Context) (path : Path) : Nat → Service (Option (Except DirectoryError Unit))
  | 0 => return none
  | rounds + 1 => do
    match ← sql (.filesUnder path) with
    | .error cause => return some (.error (.queryFiles cause))
    | .ok found =>
      let entries := found.take batchSize
      if entries.isEmpty then return some (.ok ())
      else
        match ← sql (.removeFiles (entries.map Entry.id) ctx.now) with
        | .error cause => return some (.error (.deleteFiles cause))
        | .ok () =>
          dm.attemptAll (entries.map fun entry => .remove entry.path)
          deleteFiles ctx path rounds

def deleteDirectories (ctx : Context) (path : Path) :
    Nat → Service (Option (Except DirectoryError Unit))
  | 0 => return none
  | rounds + 1 => do
    match ← sql (.directoriesUnder path) with
    | .error cause => return some (.error (.queryDirectories cause))
    | .ok found =>
      let entries := found.take batchSize
      if entries.isEmpty then return some (.ok ())
      else
        match ← sql (.removeDirectories (entries.map Entry.id) ctx.now) with
        | .error cause => return some (.error (.deleteDirectories cause))
        | .ok () =>
          dm.attemptAll (entries.map fun entry => .removeDirectory entry.path)
          deleteDirectories ctx path rounds

def deleteRecursively (ctx : Context) (path : Path) (rounds : Nat) :
    Service (Option (Except DirectoryError Unit)) := do
  match ← dm.deleteFiles ctx path rounds with
  | some (.ok ()) =>
    match ← dm.deleteDirectories ctx path rounds with
    | some (.ok ()) => return some (← removeRow ctx path)
    | stopped => return stopped
  | stopped => return stopped

def deleteDirectoryBody (ctx : Context) (path : Path) (recursive : Bool) (rounds : Nat) :
    Service (Option (Except DirectoryError Unit)) := do
  if ← directoryExists path then
    if recursive then dm.deleteRecursively ctx path rounds
    else return some (← deleteEmpty ctx path)
  else return some (.error (.notFound path))

/-- `none` while the batches have not run out after the given number of rounds. -/
def deleteDirectory (ctx : Context) (path : Path) (recursive : Bool) (rounds : Nat) :
    Service (Option (Except DirectoryError Unit)) := do
  let path := normalizePath path
  if dm.hasLock then
    if ← acquire (.directory path) ctx.token then
      let result ← dm.deleteDirectoryBody ctx path recursive rounds
      unlock (.directory path) ctx.token
      return result
    else return some (.error (.lock path))
  else dm.deleteDirectoryBody ctx path recursive rounds

/-- `newPath + e.path[len(oldPath):]`. -/
def movedPath (oldPath newPath path : Path) : Path := newPath ++ path.drop oldPath.length

def moveEntry (oldPath newPath : Path) (now : String) (entry : Entry) : PathUpdate where
  id := entry.id
  path := movedPath oldPath newPath entry.path
  name := getFileName (movedPath oldPath newPath entry.path)
  updatedAt := now

def renameDirectoryBody (ctx : Context) (oldPath newName : Path) :
    Service (Except DirectoryError Unit) := do
  match ← getDirectoryMetadata oldPath with
  | .error cause => return .error cause
  | .ok metadata =>
    let newPath := FileManager.renamedPath oldPath newName
    if ← directoryExists newPath then return .error (.targetExists newPath)
    else
      match ← sql (.filesUnder oldPath) with
      | .error cause => return .error (.queryFiles cause)
      | .ok files =>
        match ← sql (.directoriesUnder oldPath) with
        | .error cause => return .error (.queryDirectories cause)
        | .ok directories =>
          match ← sql (.renameAll (files.map (moveEntry oldPath newPath ctx.now))
            (directories.map (moveEntry oldPath newPath ctx.now)
              ++ [⟨metadata.id, newPath, newName, ctx.now⟩])) with
          | .error cause => return .error (.rename cause)
          | .ok () =>
            dm.attemptAll (files.map fun entry =>
              .rename entry.path (movedPath oldPath newPath entry.path))
            dm.attempt (.rename oldPath newPath)
            return .ok ()

def renameDirectory (ctx : Context) (oldPath newName : Path) :
    Service (Except DirectoryError Unit) :=
  let oldPath := normalizePath oldPath
  dm.withDirectoryLock ctx oldPath (dm.renameDirectoryBody ctx oldPath newName)

end DirectoryManager

end FsServer
