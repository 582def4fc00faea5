import FsServer.Faults
import FsServer.Listing
import FsServer.Lib.TreeCover

/-!
# Physical deletion

The services over tables in which deleting is deleting: the statements that would mark a row remove
it, and with the row of a directory goes the directory in the storage, if the directory manager has
one. Everything else is as before, so the difference to the system is in these statements alone.
-/

namespace FsServer

open Lib

namespace World

/-- The directory of a removed row, with the directories in it; the storage root stays, and so does a
directory with a file. -/
def removeStored (world : World) (path : Path) : World :=
  if world.storage.validatePath path ∧ world.storage.getFullPath path ≠ world.storage.rootDir then
    { world with
      storage := { world.storage with
        tree := world.storage.tree.prune (world.storage.getFullPath path) } }
  else world

def deleteFileRows (world : World) (select : FileMetadata → Bool) : World :=
  { world with db := { world.db with files := world.db.files.delete select } }

def deleteDirectoryRows (world : World) (select : DirectoryMetadata → Bool) : World :=
  { world with db := { world.db with directories := world.db.directories.delete select } }

def physicalSql (hasStore : Bool) (env : Env) (world : World) : {β : Type} → SqlCall β → β × World
  | _, .removeFile id _ => (.ok (), world.deleteFileRows fun row => row.id = id)
  | _, .removeFiles ids _ => (.ok (), world.deleteFileRows fun row => row.id ∈ ids)
  | _, .removeDirectory id _ =>
    let after := world.deleteDirectoryRows fun row => row.id = id
    match world.db.directories.byId id with
    | some row => (.ok (), if hasStore then after.removeStored row.path else after)
    | none => (.ok (), after)
  | _, .removeDirectories ids _ => (.ok (), world.deleteDirectoryRows fun row => row.id ∈ ids)
  | _, call =>
    let outcome := world.db.exec env call
    (outcome.1, { world with db := outcome.2 })

def physical (hasStore : Bool) : Handler Env Call World := fun _ env call world =>
  match call with
  | .sql call => some (world.physicalSql hasStore env call)
  | other => calm _ env other world

end World

/-! ### Calls on files, directories and their rows -/

inductive CatalogCall where
  | createDirectory (ctx : Context) (path : Path)
  | deleteDirectory (ctx : Context) (path : Path) (recursive : Bool) (rounds : Nat)
  | renameDirectory (ctx : Context) (oldPath newName : Path)
  | uploadFile (ctx : Context) (path : Path) (data : Bytes)
  | deleteFile (ctx : Context) (path : Path)
  | renameFile (ctx : Context) (oldPath newName : Path)
  | getFileMetadata (path : Path)
  | fileExists (path : Path)
  | getDirectoryMetadata (path : Path)
  | directoryExists (path : Path)
  | listFiles (query : ListQuery) (page : Int)
  | listFilesWithTotal (query : ListQuery) (page : Int)

/-- `unfinished` is the delete of a directory that has not come to its end yet. -/
inductive CatalogReply where
  | directory (result : Except DirectoryError Unit)
  | unfinished
  | file (result : Except FileError Unit)
  | fileMetadata (result : Except FileError FileMetadata)
  | directoryMetadata (result : Except DirectoryError DirectoryMetadata)
  | found (result : Bool)
  | list (result : Except ListError FileListResult)

def CatalogCall.service (sha256 : Bytes → String) (collation : Collation) (dm : DirectoryManager) :
    CatalogCall → Service CatalogReply
  | .createDirectory ctx path => do return .directory (← dm.createDirectory ctx path)
  | .deleteDirectory ctx path recursive rounds => do
    match ← dm.deleteDirectory ctx path recursive rounds with
    | some result => return .directory result
    | none => return .unfinished
  | .renameDirectory ctx oldPath newName => do
    return .directory (← dm.renameDirectory ctx oldPath newName)
  | .uploadFile ctx path data => do
    return .fileMetadata (← FileManager.uploadFile sha256 ctx path data)
  | .deleteFile ctx path => do return .file (← FileManager.deleteFile ctx path)
  | .renameFile ctx oldPath newName => do
    return .file (← FileManager.renameFile ctx oldPath newName)
  | .getFileMetadata path => do return .fileMetadata (← FileManager.getFileMetadata path)
  | .fileExists path => do return .found (← FileManager.fileExists path)
  | .getDirectoryMetadata path => do
    return .directoryMetadata (← DirectoryManager.getDirectoryMetadata path)
  | .directoryExists path => do return .found (← DirectoryManager.directoryExists path)
  | .listFiles query page => do return .list (← FileListService.listFiles collation query page)
  | .listFilesWithTotal query page => do
    return .list (← FileListService.listFilesWithTotal collation query page)

end FsServer
