import FsServer.Client
import FsServer.Lib.Fault

/-!
# One failing call

The uploads with one of their SQL statements or storage calls failing. A statement that fails has no
effect. A storage call that writes may fail after it has got some of the bytes to their place, be it
because of the disk or because of the reader it takes them from; every other storage call fails
without an effect. Everything else works: no lock, session store or temporary file fails.
-/

namespace FsServer

open Lib Program

inductive Fault where
  | query
  | create
  | update
  | write (kept : Option Nat)
  | getSize
  | remove
  deriving DecidableEq

def SqlCall.Fails (fault : Fault) : {β : Type} → SqlCall β → β → Prop
  | _, .fileExists _, reply => fault = .query ∧ reply = .error .fault
  | _, .fileByPath _, reply => fault = .query ∧ reply = .error .fault
  | _, .deletedFileId _, reply => fault = .query ∧ reply = .error .fault
  | _, .insertFile _, reply => fault = .create ∧ reply = .error .fault
  | _, .restoreFile _, reply => fault = .create ∧ reply = .error .fault
  | _, .updateFile _, reply => fault = .update ∧ reply = .error .fault
  | _, _, _ => False

def LocalStorage.PartlyWritten (storage after : LocalStorage) (path : Path) (data : Bytes)
    (failed : OsError → StorageError) : Fault → Prop
  | .write none => after = storage
  | .write (some kept) => storage.place path (data.take kept) failed = .ok after
  | _ => False

def StorageCall.Fails (fault : Fault) (storage after : LocalStorage) :
    {β : Type} → StorageCall β → β → Prop
  | _, .write path data, reply =>
    storage.PartlyWritten after path data .writeFile fault ∧ reply = .error .fault
  | _, .writeFromReader path reader, reply =>
    storage.PartlyWritten after path reader.data .createFile fault ∧
      (reply = .error .fault ∨ reply = .error .readerFailed)
  | _, .getSize _, reply => fault = .getSize ∧ reply = .error .fault ∧ after = storage
  | _, .remove _, reply => fault = .remove ∧ reply = .error .fault ∧ after = storage
  | _, _, _ => False

def MoveCall.Fails (fault : Fault) (world after : World) : {β : Type} → MoveCall β → β → Prop
  | _, .writeFromTempFile path temp, reply =>
    reply = .error .fault ∧ ∃ storage, after = { world with storage := storage } ∧
      ((fault = .write none ∧ storage = world.storage) ∨
        ∃ content, world.sessions.fileOf temp = some content ∧
          world.storage.PartlyWritten storage path content .createDestination fault)

def World.Fails : Failure Fault Call World := fun _ fault call world reply after =>
  match call with
  | .sql call => call.Fails fault reply ∧ after = world
  | .storage call =>
    ∃ storage, call.Fails fault world.storage storage reply ∧
      after = { world with storage := storage }
  | .move call => call.Fails fault world after reply
  | .session _ => False
  | .lock _ => False

/-- The handler with nothing failing but for the state it meets. -/
def World.calm : Handler Env Call World := fun _ env call world =>
  World.handle _ { env with fault := none } call world

inductive UploadOperation where
  | uploadFile (ctx : Context) (path : Path) (data : Bytes)
  | uploadFileFromReader (ctx : Context) (path : Path) (data : Bytes)
  | completeUpload (ctx : Context) (sessionID : String)
  | completeMultipartUpload (ctx : Context) (sessionID : String)

namespace UploadOperation

def service (sha256 : Bytes → String) (crypto : Option CryptoService) :
    UploadOperation → Service Bool
  | .uploadFile ctx path data => do
    return (← FileManager.uploadFile sha256 ctx path data).isOk
  | .uploadFileFromReader ctx path data => do
    return (← FileManager.uploadFileFromReader sha256 ctx path ⟨data, false⟩).isOk
  | .completeUpload ctx sessionID => do
    return (← FileTransferService.completeUpload sha256 crypto ctx sessionID).isOk
  | .completeMultipartUpload ctx sessionID => do
    return (← FileTransferService.completeMultipartUpload sha256 crypto ctx sessionID).isOk

def target (world : World) : UploadOperation → Path
  | .uploadFile _ path _ | .uploadFileFromReader _ path _ => normalizePath path
  | .completeUpload ctx sessionID =>
    match (world.sessions.instances ctx.inst).uploadSessions.lookup sessionID with
    | some address => (world.sessions.uploads address).filePath
    | none => ((world.sessions.uploadStore.lookup sessionID).getD default).filePath
  | .completeMultipartUpload ctx sessionID =>
    match (world.sessions.instances ctx.inst).multipartSessions.lookup sessionID with
    | some address => (world.sessions.multiparts address).filePath
    | none => []

/-- The temporary file of a session as it is stored. -/
def sealed (crypto : Option CryptoService) (nonce : Nonce) (content : Bytes) : Bytes :=
  match crypto with
  | some service => service.encrypt nonce content
  | none => content

def bytes (crypto : Option CryptoService) (world : World) : UploadOperation → Bytes
  | .uploadFile _ _ data | .uploadFileFromReader _ _ data => data
  | .completeUpload ctx sessionID | .completeMultipartUpload ctx sessionID =>
    sealed crypto ctx.nonce ((world.sessions.fileOf (.upload sessionID)).getD [])

end UploadOperation

end FsServer
