import FsServer.Metadata
import FsServer.Lib.FileTree

/-!
# Local storage

`LocalStorage` over the operating system's tree. `rootDir` is the absolute path of the storage root;
a storage path is joined to it and cleaned, so a path with leading `..` elements may leave the root
and come back into it under the root's own name, which `validatePath` accepts.
-/

namespace FsServer

open Lib

abbrev Tree := FileTree Segment Bytes

structure LocalStorage where
  rootDir : List Segment
  tree : Tree

inductive StorageError where
  | pathTraversal (path : Path)
  | createDirectory (cause : OsError)
  | writeFile (cause : OsError)
  | createFile (cause : OsError)
  | createDestination (cause : OsError)
  | tempFilePath (path : Path)
  | openTempFile (cause : OsError)
  | readFile (cause : OsError)
  | invalidReadSize (size : Int)
  | invalidReadOffset (offset : Int)
  | openFile (cause : OsError)
  | removeFile (cause : OsError)
  | getSize (cause : OsError)
  | rename (cause : OsError)
  | removeDirectory (cause : OsError)
  | readerFailed
  | fault
  deriving DecidableEq

def StorageError.isNotExist : StorageError → Bool
  | .createDirectory cause | .writeFile cause | .createFile cause | .createDestination cause
  | .openTempFile cause | .readFile cause | .openFile cause | .removeFile cause | .getSize cause
  | .rename cause | .removeDirectory cause => cause = .notExist
  | _ => false

namespace LocalStorage

/-- `filepath.Join(rootDir, path)`. -/
def getFullPath (storage : LocalStorage) (path : Path) : List Segment :=
  (GoPath.segments path).foldl (GoPath.cleanStep true) storage.rootDir

/-- The root itself, or a place whose text starts with the root's and a slash. At the root `/` that
start is `//`, which no place has. -/
def validatePath (storage : LocalStorage) (path : Path) : Bool :=
  storage.getFullPath path = storage.rootDir ∨
    storage.rootDir ≠ [] ∧ storage.rootDir <+: storage.getFullPath path

def ensureDirectoryExists (tree : Tree) (dir : List Segment) : Except OsError Tree :=
  match tree.stat dir with
  | .error .notExist => tree.mkdirAll dir
  | _ => .ok tree

def place (storage : LocalStorage) (path : Path) (data : Bytes)
    (failed : OsError → StorageError) : Except StorageError LocalStorage :=
  if storage.validatePath path then
    let fullPath := storage.getFullPath path
    match ensureDirectoryExists storage.tree fullPath.dropLast with
    | .error cause => .error (.createDirectory cause)
    | .ok tree =>
      match tree.writeFile fullPath data with
      | .error cause => .error (failed cause)
      | .ok written => .ok { storage with tree := written }
  else .error (.pathTraversal path)

def write (storage : LocalStorage) (path : Path) (data : Bytes) :
    Except StorageError LocalStorage :=
  storage.place path data .writeFile

def writeFromReader (storage : LocalStorage) (path : Path) (data : Bytes) :
    Except StorageError LocalStorage :=
  storage.place path data .createFile

def writeFromTempFile (storage : LocalStorage) (path : Path) (content : Bytes) :
    Except StorageError LocalStorage :=
  storage.place path content .createDestination

def read (storage : LocalStorage) (path : Path) : Except StorageError Bytes :=
  if storage.validatePath path then
    match storage.tree.stat (storage.getFullPath path) with
    | .ok (.file content) => .ok content
    | .ok .directory => .error (.readFile .isDirectory)
    | .error cause => .error (.readFile cause)
  else .error (.pathTraversal path)

def readAt (storage : LocalStorage) (path : Path) (size offset : Int) : Except StorageError Bytes :=
  if storage.validatePath path then
    if size ≤ 0 then .error (.invalidReadSize size)
    else if offset < 0 then .error (.invalidReadOffset offset)
    else
      match storage.tree.stat (storage.getFullPath path) with
      | .ok (.file content) => .ok ((content.drop offset.toNat).take size.toNat)
      | .ok .directory => .error (.openFile .isDirectory)
      | .error cause => .error (.openFile cause)
  else .error (.pathTraversal path)

def getSize (storage : LocalStorage) (path : Path) : Except StorageError Int :=
  if storage.validatePath path then
    match storage.tree.stat (storage.getFullPath path) with
    | .ok (.file content) => .ok content.length
    | .ok .directory => .ok 0
    | .error cause => .error (.getSize cause)
  else .error (.pathTraversal path)

def remove (storage : LocalStorage) (path : Path) : Except StorageError LocalStorage :=
  if storage.validatePath path then
    match storage.tree.remove (storage.getFullPath path) with
    | .ok tree => .ok { storage with tree := tree }
    | .error cause => .error (.removeFile cause)
  else .error (.pathTraversal path)

def rename (storage : LocalStorage) (oldPath newPath : Path) : Except StorageError LocalStorage :=
  if ¬ storage.validatePath oldPath then .error (.pathTraversal oldPath)
  else if ¬ storage.validatePath newPath then .error (.pathTraversal newPath)
  else if oldPath = newPath then .ok storage
  else
    let fullNewPath := storage.getFullPath newPath
    match ensureDirectoryExists storage.tree fullNewPath.dropLast with
    | .error cause => .error (.createDirectory cause)
    | .ok tree =>
      match tree.rename (storage.getFullPath oldPath) fullNewPath with
      | .error cause => .error (.rename cause)
      | .ok moved => .ok { storage with tree := moved }

def createDirectory (storage : LocalStorage) (path : Path) : Except StorageError LocalStorage :=
  if storage.validatePath path then
    match storage.tree.mkdirAll (storage.getFullPath path) with
    | .ok tree => .ok { storage with tree := tree }
    | .error cause => .error (.createDirectory cause)
  else .error (.pathTraversal path)

def removeDirectory (storage : LocalStorage) (path : Path) : Except StorageError LocalStorage :=
  if storage.validatePath path then
    match storage.tree.removeAll (storage.getFullPath path) with
    | .ok tree => .ok { storage with tree := tree }
    | .error cause => .error (.removeDirectory cause)
  else .error (.pathTraversal path)

end LocalStorage

def LocalStorage.storageType : String := "local"

/-- The bytes a reader delivers and whether it then ends or fails. -/
structure Reader where
  data : Bytes
  fails : Bool

inductive StorageCall : Type → Type where
  | write (path : Path) (data : Bytes) : StorageCall (Except StorageError Unit)
  | writeFromReader (path : Path) (reader : Reader) : StorageCall (Except StorageError Unit)
  | read (path : Path) : StorageCall (Except StorageError Bytes)
  | readAt (path : Path) (size offset : Int) : StorageCall (Except StorageError Bytes)
  | getSize (path : Path) : StorageCall (Except StorageError Int)
  | remove (path : Path) : StorageCall (Except StorageError Unit)
  | rename (oldPath newPath : Path) : StorageCall (Except StorageError Unit)
  | createDirectory (path : Path) : StorageCall (Except StorageError Unit)
  | removeDirectory (path : Path) : StorageCall (Except StorageError Unit)

namespace LocalStorage

def apply (storage : LocalStorage) (result : Except StorageError LocalStorage) :
    Except StorageError Unit × LocalStorage :=
  match result with
  | .ok changed => (.ok (), changed)
  | .error cause => (.error cause, storage)

/-- What a rename leaves behind when it fails: the directory above the target may have been made. -/
def afterFailedRename (storage : LocalStorage) (newPath : Path) : StorageError → LocalStorage
  | .rename _ =>
    match ensureDirectoryExists storage.tree (storage.getFullPath newPath).dropLast with
    | .ok tree => { storage with tree := tree }
    | .error _ => storage
  | _ => storage

def exec (storage : LocalStorage) : {β : Type} → StorageCall β → β × LocalStorage
  | _, .write path data => storage.apply (storage.write path data)
  | _, .writeFromReader path reader =>
    -- the target is truncated before the reader is read, so a reader that fails leaves its data
    match storage.writeFromReader path reader.data with
    | .ok written => (if reader.fails then .error .readerFailed else .ok (), written)
    | .error cause => (.error cause, storage)
  | _, .read path => (storage.read path, storage)
  | _, .readAt path size offset => (storage.readAt path size offset, storage)
  | _, .getSize path => (storage.getSize path, storage)
  | _, .remove path => storage.apply (storage.remove path)
  | _, .rename oldPath newPath =>
    match storage.rename oldPath newPath with
    | .ok renamed => (.ok (), renamed)
    | .error cause => (.error cause, storage.afterFailedRename newPath cause)
  | _, .createDirectory path => storage.apply (storage.createDirectory path)
  | _, .removeDirectory path => storage.apply (storage.removeDirectory path)

end LocalStorage

end FsServer
