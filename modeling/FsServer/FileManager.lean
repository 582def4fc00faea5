import FsServer.System
import FsServer.Crypto

/-!
# The file manager

`filemanager/manager.go` and the parts of `database/metadata.go` it calls. A call carries the
instance it runs on and the values it draws while it runs: the token of its locks, an identifier, the
time and the nonce of an encryption.
-/

namespace FsServer

open Lib Service

structure Context where
  inst : Nat
  token : Token
  id : String
  now : String
  nonce : Nonce

inductive CreateError where
  | restore (cause : SqlError)
  | insert (cause : SqlError)
  deriving DecidableEq

inductive FileError where
  | lock (path : Path)
  | overwrite (cause : StorageError)
  | write (cause : StorageError)
  | writeFromReader (cause : StorageError)
  | createMetadata (cause : CreateError)
  | updateMetadata (cause : SqlError)
  | queryMetadata (cause : SqlError)
  | notFound (path : Path)
  | read (cause : StorageError)
  | readAt (cause : StorageError)
  | deleteStorage (cause : StorageError)
  | deleteMetadata (cause : SqlError)
  | targetExists (path : Path)
  | renameStorage (cause : StorageError)
  deriving DecidableEq

namespace FileMetadataService

/-- A soft-deleted row of the same path is taken over. A query that fails counts as no such row. -/
def create (metadata : FileMetadata) : Service (Except CreateError Unit) := do
  let row := { metadata with path := normalizePath metadata.path }
  match ← sql (.deletedFileId row.path) with
  | .ok (some _) =>
    match ← sql (.restoreFile row) with
    | .ok () => return .ok ()
    | .error cause => return .error (.restore cause)
  | _ =>
    match ← sql (.insertFile row) with
    | .ok () => return .ok ()
    | .error cause => return .error (.insert cause)

def update (metadata : FileMetadata) : Service (Except SqlError Unit) := sql (.updateFile metadata)

def remove (id now : String) : Service (Except SqlError Unit) := sql (.removeFile id now)

def getByPath (path : Path) : Service (Except SqlError (Option FileMetadata)) :=
  sql (.fileByPath (normalizePath path))

/-- The row of a path for a caller that takes a failed query for an absent row. -/
def existing (path : Path) : Service (Option FileMetadata) := do
  match ← getByPath path with
  | .ok metadata => return metadata
  | .error _ => return none

end FileMetadataService

namespace FileManager

def getFileMetadata (path : Path) : Service (Except FileError FileMetadata) := do
  let path := normalizePath path
  match ← FileMetadataService.getByPath path with
  | .error cause => return .error (.queryMetadata cause)
  | .ok none => return .error (.notFound path)
  | .ok (some metadata) => return .ok metadata

def fileExists (path : Path) : Service Bool := do
  match ← sql (.fileExists (normalizePath (normalizePath path))) with
  | .ok found => return found
  | .error _ => return false

/-- The body of a call between its locks: the instance's mutex for the path, then the distributed
lock. -/
def withFileLock {α : Type} (ctx : Context) (path : Path)
    (body : Service (Except FileError α)) : Service (Except FileError α) := do
  acquireMutex (.fileMutex ctx.inst path) ctx.token
  if ← acquire (.file path) ctx.token then
    let result ← body
    unlock (.file path) ctx.token
    unlock (.fileMutex ctx.inst path) ctx.token
    return result
  else
    unlock (.fileMutex ctx.inst path) ctx.token
    return .error (.lock path)

def newMetadata (ctx : Context) (path name : Path) (size : Int) (hash : String) : FileMetadata where
  id := ctx.id
  path := path
  name := name
  size := size
  hash := hash
  storageType := LocalStorage.storageType
  storageLocation := ""
  createdAt := ctx.now
  updatedAt := ctx.now
  isDeleted := false

def refreshed (metadata : FileMetadata) (size : Int) (hash now : String) : FileMetadata :=
  { metadata with size := size, hash := hash, updatedAt := now, isDeleted := false }

def createRow (metadata : FileMetadata) (path : Path) : Service (Except FileError FileMetadata) := do
  match ← FileMetadataService.create metadata with
  | .ok () => return .ok { metadata with path := normalizePath metadata.path }
  | .error cause =>
    let _ ← storage (.remove path)
    return .error (.createMetadata cause)

def updateRow (metadata : FileMetadata) : Service (Except FileError FileMetadata) := do
  match ← FileMetadataService.update metadata with
  | .ok () => return .ok metadata
  | .error cause => return .error (.updateMetadata cause)

def replacedRow (path : Path) : Service (Option FileMetadata) := do
  if ← fileExists path then FileMetadataService.existing path else return none

def storedSize (path : Path) : Service Int := do
  match ← storage (.getSize path) with
  | .ok size => return size
  | .error _ => return 0

section Uploads

variable (sha256 : Bytes → String)

def uploadFileBody (ctx : Context) (path : Path) (data : Bytes) :
    Service (Except FileError FileMetadata) := do
  match ← replacedRow path with
  | some metadata =>
    match ← storage (.write path data) with
    | .error cause => return .error (.overwrite cause)
    | .ok () => updateRow (refreshed metadata data.length (sha256 data) ctx.now)
  | none =>
    match ← storage (.write path data) with
    | .error cause => return .error (.write cause)
    | .ok () =>
      createRow (newMetadata ctx path (getFileName path) data.length (sha256 data)) path

def uploadFile (ctx : Context) (path : Path) (data : Bytes) :
    Service (Except FileError FileMetadata) :=
  let path := normalizePath path
  withFileLock ctx path (uploadFileBody sha256 ctx path data)

def uploadFileFromReaderBody (ctx : Context) (path : Path) (reader : Reader) :
    Service (Except FileError FileMetadata) := do
  match ← storage (.writeFromReader path reader) with
  | .error cause => return .error (.writeFromReader cause)
  | .ok () =>
    let size ← storedSize path
    match ← FileMetadataService.existing path with
    | some metadata => updateRow (refreshed metadata size (sha256 reader.data) ctx.now)
    | none =>
      createRow (newMetadata ctx path (getFileName path) size (sha256 reader.data)) path

def uploadFileFromReader (ctx : Context) (path : Path) (reader : Reader) :
    Service (Except FileError FileMetadata) :=
  let path := normalizePath path
  withFileLock ctx path (uploadFileFromReaderBody sha256 ctx path reader)

end Uploads

def downloadFile (path : Path) : Service (Except FileError Bytes) := do
  let path := normalizePath path
  match ← getFileMetadata path with
  | .error cause => return .error cause
  | .ok _ =>
    match ← storage (.read path) with
    | .ok data => return .ok data
    | .error cause => return .error (.read cause)

def downloadFileAt (path : Path) (size offset : Int) : Service (Except FileError Bytes) := do
  let path := normalizePath path
  match ← getFileMetadata path with
  | .error cause => return .error cause
  | .ok _ =>
    match ← storage (.readAt path size offset) with
    | .ok data => return .ok data
    | .error cause => return .error (.readAt cause)

def deleteFileBody (ctx : Context) (path : Path) : Service (Except FileError Unit) := do
  match ← getFileMetadata path with
  | .error cause => return .error cause
  | .ok metadata =>
    match ← storage (.remove path) with
    | .error cause => return .error (.deleteStorage cause)
    | .ok () =>
      match ← FileMetadataService.remove metadata.id ctx.now with
      | .error cause => return .error (.deleteMetadata cause)
      | .ok () => return .ok ()

def deleteFile (ctx : Context) (path : Path) : Service (Except FileError Unit) :=
  let path := normalizePath path
  withFileLock ctx path (deleteFileBody ctx path)

def renamedPath (oldPath newName : Path) : Path :=
  normalizePath (getDirectory oldPath ++ ['/'] ++ newName)

def renameFileBody (ctx : Context) (oldPath newName : Path) : Service (Except FileError Unit) := do
  match ← getFileMetadata oldPath with
  | .error cause => return .error cause
  | .ok metadata =>
    let newPath := renamedPath oldPath newName
    if ← fileExists newPath then return .error (.targetExists newPath)
    else
      match ← storage (.rename oldPath newPath) with
      | .error cause => return .error (.renameStorage cause)
      | .ok () =>
        match ← FileMetadataService.update
          { metadata with path := newPath, name := newName, updatedAt := ctx.now } with
        | .ok () => return .ok ()
        | .error cause =>
          let _ ← storage (.rename newPath oldPath)
          return .error (.updateMetadata cause)

def renameFile (ctx : Context) (oldPath newName : Path) : Service (Except FileError Unit) :=
  let oldPath := normalizePath oldPath
  withFileLock ctx oldPath (renameFileBody ctx oldPath newName)

/-- `DownloadFileDataAt`: the bytes for a row that the caller has already read. -/
def downloadFileDataAt (metadata : FileMetadata) (size offset : Int) :
    Service (Except FileError Bytes) := do
  match ← storage (.readAt (normalizePath metadata.path) size offset) with
  | .ok data => return .ok data
  | .error cause => return .error (.readAt cause)

end FileManager

end FsServer
