import FsServer.Expiry
import FsServer.Directory

/-!
# Whole transfers

The sequences of calls by which a client transfers a file: it opens a session, sends its chunks or
parts one after another whether they are accepted or not, and completes the session. Then the single
calls on upload sessions, files and directories.
-/

namespace FsServer

open Lib Service FileTransferService

structure ChunkCall where
  ctx : Context
  data : Bytes
  offset : Int

structure PartCall extends ChunkCall where
  partNumber : Int

structure Announcement where
  filePath : Path
  fileName : Path
  totalSize : Int
  clientID : String
  hash : String

section Transfers

variable (sha256 : Bytes → String) (crypto : Option CryptoService)

def sendChunks (sessionID : String) : List ChunkCall → Service (List ChunkCall)
  | [] => return []
  | chunk :: rest => do
    let result ← uploadChunk chunk.ctx sessionID chunk.data chunk.offset
    let accepted ← sendChunks sessionID rest
    match result with
    | .ok () => return chunk :: accepted
    | .error _ => return accepted

def chunkedUpload (opening closing : Context) (file : Announcement) (chunks : List ChunkCall) :
    Service (Except TransferError (List ChunkCall × CompleteUploadResult)) := do
  match ← createUploadSession opening file.filePath file.fileName file.totalSize file.clientID
    file.hash with
  | .error cause => return .error cause
  | .ok sessionID =>
    let accepted ← sendChunks sessionID chunks
    match ← completeUpload sha256 crypto closing sessionID with
    | .error cause => return .error cause
    | .ok result => return .ok (accepted, result)

def sendParts (sessionID : String) : List PartCall → Service (List PartCall)
  | [] => return []
  | part :: rest => do
    let result ← uploadPartData sha256 part.ctx sessionID part.partNumber part.offset part.data
    let accepted ← sendParts sessionID rest
    match result with
    | .ok () => return part :: accepted
    | .error _ => return accepted

end Transfers

/-! ### Calls on upload sessions -/

inductive TransferCall where
  | createUploadSession (file : Announcement)
  | createMultipartUpload (file : Announcement)
  | uploadChunk (sessionID : String) (data : Bytes) (offset : Int)
  | uploadPartData (sessionID : String) (partNumber offset : Int) (data : Bytes)
  | completeUpload (sessionID : String)
  | completeMultipartUpload (sessionID : String)
  | abortUpload (sessionID : String)
  | abortMultipartUpload (sessionID : String)
  | cleanupExpiredSessions (expired : String → Bool)

def TransferCall.service (sha256 : Bytes → String) (crypto : Option CryptoService) (ctx : Context) :
    TransferCall → Service Bool
  | .createUploadSession file => do
    return (← FileTransferService.createUploadSession ctx file.filePath file.fileName
      file.totalSize file.clientID file.hash).isOk
  | .createMultipartUpload file => do
    return (← FileTransferService.createMultipartUpload ctx file.filePath file.fileName
      file.totalSize file.clientID file.hash).isOk
  | .uploadChunk sessionID data offset => do
    return (← FileTransferService.uploadChunk ctx sessionID data offset).isOk
  | .uploadPartData sessionID partNumber offset data => do
    return (← FileTransferService.uploadPartData sha256 ctx sessionID partNumber offset data).isOk
  | .completeUpload sessionID => do
    return (← FileTransferService.completeUpload sha256 crypto ctx sessionID).isOk
  | .completeMultipartUpload sessionID => do
    return (← FileTransferService.completeMultipartUpload sha256 crypto ctx sessionID).isOk
  | .abortUpload sessionID => do return (← FileTransferService.abortUpload ctx sessionID).isOk
  | .abortMultipartUpload sessionID => do
    return (← FileTransferService.abortMultipartUpload ctx sessionID).isOk
  | .cleanupExpiredSessions expired => do
    FileTransferService.cleanupExpiredSessions ctx.inst expired
    return true

/-- The calls on one session, of which any instance can get any. -/
inductive SessionAction where
  | uploadChunk (data : Bytes) (offset : Int)
  | completeUpload
  | abortUpload

def SessionAction.call (sessionID : String) : SessionAction → TransferCall
  | .uploadChunk data offset => .uploadChunk sessionID data offset
  | .completeUpload => .completeUpload sessionID
  | .abortUpload => .abortUpload sessionID

structure SessionRequest where
  ctx : Context
  action : SessionAction

def SessionRequest.service (sha256 : Bytes → String) (crypto : Option CryptoService)
    (sessionID : String) (request : SessionRequest) : Service Bool :=
  (request.action.call sessionID).service sha256 crypto request.ctx

/-! ### Calls on the file manager -/

inductive FileCall where
  | upload (ctx : Context) (path : Path) (data : Bytes)
  | uploadFromReader (ctx : Context) (path : Path) (reader : Reader)
  | download (path : Path)
  | downloadAt (path : Path) (size offset : Int)
  | getMetadata (path : Path)
  | delete (ctx : Context) (path : Path)
  | rename (ctx : Context) (oldPath newName : Path)

inductive FileReply where
  | metadata (row : FileMetadata)
  | content (bytes : Bytes)
  | done

def FileCall.service (sha256 : Bytes → String) : FileCall → Service (Except FileError FileReply)
  | .upload ctx path data => do
    return (← FileManager.uploadFile sha256 ctx path data).map .metadata
  | .uploadFromReader ctx path reader => do
    return (← FileManager.uploadFileFromReader sha256 ctx path reader).map .metadata
  | .download path => do return (← FileManager.downloadFile path).map .content
  | .downloadAt path size offset => do
    return (← FileManager.downloadFileAt path size offset).map .content
  | .getMetadata path => do return (← FileManager.getFileMetadata path).map .metadata
  | .delete ctx path => do return (← FileManager.deleteFile ctx path).map fun _ => .done
  | .rename ctx oldPath newName => do
    return (← FileManager.renameFile ctx oldPath newName).map fun _ => .done

/-! ### Calls on files and directories -/

inductive TreeCall where
  | file (call : FileCall)
  | createDirectory (ctx : Context) (path : Path)
  | deleteDirectory (ctx : Context) (path : Path) (recursive : Bool) (rounds : Nat)
  | renameDirectory (ctx : Context) (oldPath newName : Path)

/-- `unfinished` is the delete of a directory that has not come to its end yet. -/
inductive TreeReply where
  | file (result : Except FileError FileReply)
  | directory (result : Except DirectoryError Unit)
  | unfinished

def TreeCall.service (sha256 : Bytes → String) (dm : DirectoryManager) :
    TreeCall → Service TreeReply
  | .file call => do return .file (← call.service sha256)
  | .createDirectory ctx path => do return .directory (← dm.createDirectory ctx path)
  | .deleteDirectory ctx path recursive rounds => do
    match ← dm.deleteDirectory ctx path recursive rounds with
    | some result => return .directory result
    | none => return .unfinished
  | .renameDirectory ctx oldPath newName => do
    return .directory (← dm.renameDirectory ctx oldPath newName)

end FsServer
