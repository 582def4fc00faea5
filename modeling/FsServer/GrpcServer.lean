import FsServer.Download

/-!
# The gRPC server

`api/grpc/server.go`, `UploadFile` and `DownloadFile`. An upload is a stream of messages: the metadata,
then chunks. A stream of one chunk that is the whole file goes to the file manager, every other one
through an upload session. The calls that the handler makes on the services draw their own values.
-/

namespace FsServer

open Lib Service

structure UploadMetadata where
  path : Path
  name : Path
  totalSize : Int
  hash : String

/-- `UploadRequest`, whose `oneof` may also be unset. -/
inductive UploadMessage where
  | metadata (metadata : UploadMetadata)
  | chunk (data : Bytes) (offset : Int)
  | unset

structure DownloadResponse where
  data : Bytes
  offset : Int
  totalSize : Int

inductive StreamEnd where
  | eof
  | failed
  deriving DecidableEq

inductive GrpcError where
  | receiveMetadata
  | metadataFirst
  | invalidPath
  | invalidName
  | totalSize
  | exceedsMaximum (megabytes : Int)
  | noChunk
  | receiveFirstChunk
  | expectedChunk
  | hashMismatch (expected got : String)
  | uploadFile (cause : FileError)
  | createSession (cause : TransferError)
  | uploadChunk (cause : TransferError)
  | receive
  | expectedChunkLater
  | completeUpload (cause : TransferError)
  | metadataAfterUpload (cause : FileError)
  | fileMetadata (cause : FileError)
  | readChunk (cause : FileError)
  | sendChunk
  deriving DecidableEq

structure GrpcServer where
  inst : Nat
  sha256 : Bytes → String
  crypto : Option CryptoService
  maxUploadSizeMB : Int

structure UploadDraws where
  opening : Context
  chunk : Nat → Context
  closing : Context

def grpcFastPathMaxSize : Int := 16 * 1024 * 1024

namespace GrpcServer

variable (server : GrpcServer)

/-- Every call of a handler is on the server's own instance. -/
def here (ctx : Context) : Context := { ctx with inst := server.inst }

def maxUploadSize : Int := int64 (server.maxUploadSizeMB * 1024 * 1024)

def uploadFileFastPath (draws : UploadDraws) (file : UploadMetadata) (data : Bytes) :
    Service (Except GrpcError FileMetadata) := do
  if file.hash ≠ "" ∧ server.sha256 data ≠ file.hash then
    return .error (.hashMismatch file.hash (server.sha256 data))
  else
    match ← FileManager.uploadFile server.sha256 (server.here draws.opening) file.path data with
    | .ok metadata => return .ok metadata
    | .error cause => return .error (.uploadFile cause)

def giveUp (draws : UploadDraws) (sessionID : String) (cause : GrpcError) :
    Service (Except GrpcError Unit) := do
  let _ ← FileTransferService.abortUpload (server.here draws.closing) sessionID
  return .error cause

def receiveChunk (draws : UploadDraws) (sessionID : String) (count : Nat) (data : Bytes)
    (offset : Int) (rest : Service (Except GrpcError Unit)) : Service (Except GrpcError Unit) := do
  match ← FileTransferService.uploadChunk (server.here (draws.chunk count)) sessionID data offset with
  | .ok () => rest
  | .error cause => server.giveUp draws sessionID (.uploadChunk cause)

def receiveRest (draws : UploadDraws) (sessionID : String) (ending : StreamEnd) :
    Nat → List UploadMessage → Service (Except GrpcError Unit)
  | _, [] =>
    match ending with
    | .eof => return .ok ()
    | .failed => server.giveUp draws sessionID .receive
  | count, .chunk data offset :: rest =>
    server.receiveChunk draws sessionID count data offset
      (receiveRest draws sessionID ending (count + 1) rest)
  | _, _ :: _ => server.giveUp draws sessionID .expectedChunkLater

/-- The second message has been read before the session was made. It is passed over if it is not a
chunk. -/
def receiveProbed (draws : UploadDraws) (sessionID : String) (messages : List UploadMessage)
    (ending : StreamEnd) : Service (Except GrpcError Unit) :=
  match messages with
  | .metadata _ :: rest | .unset :: rest => server.receiveRest draws sessionID ending 1 rest
  | messages => server.receiveRest draws sessionID ending 1 messages

def uploadFileSession (draws : UploadDraws) (file : UploadMetadata) (data : Bytes) (offset : Int)
    (messages : List UploadMessage) (ending : StreamEnd) :
    Service (Except GrpcError FileMetadata) := do
  match ← FileTransferService.createUploadSession (server.here draws.opening) file.path file.name
    file.totalSize "" file.hash with
  | .error cause => return .error (.createSession cause)
  | .ok sessionID =>
    match ← server.receiveChunk draws sessionID 0 data offset
      (server.receiveProbed draws sessionID messages ending) with
    | .error cause => return .error cause
    | .ok () =>
      match ← FileTransferService.completeUpload server.sha256 server.crypto
        (server.here draws.closing) sessionID with
      | .error cause => return .error (.completeUpload cause)
      | .ok _ =>
        match ← FileManager.getFileMetadata file.path with
        | .error cause => return .error (.metadataAfterUpload cause)
        | .ok metadata => return .ok metadata

def isFastPath (file : UploadMetadata) (data : Bytes) (offset : Int) (messages : List UploadMessage)
    (ending : StreamEnd) : Bool :=
  messages.isEmpty && decide (ending = .eof) && decide (offset = 0) &&
    decide ((data.length : Int) = file.totalSize) &&
    decide ((data.length : Int) ≤ grpcFastPathMaxSize)

def checkMetadata (file : UploadMetadata) : Except GrpcError Unit :=
  if ¬ isValidFilePath file.path then .error .invalidPath
  else if ¬ isValidFileName file.name then .error .invalidName
  else if file.totalSize ≤ 0 then .error .totalSize
  else if 0 < server.maxUploadSize ∧ server.maxUploadSize < file.totalSize then
    .error (.exceedsMaximum server.maxUploadSizeMB)
  else .ok ()

/-- `UploadFile` on the messages of a stream. The reply is the row that the response is made from. -/
def uploadFile (draws : UploadDraws) (messages : List UploadMessage) (ending : StreamEnd) :
    Service (Except GrpcError FileMetadata) := do
  match messages with
  | [] => return .error .receiveMetadata
  | .metadata file :: rest =>
    match server.checkMetadata file with
    | .error cause => return .error cause
    | .ok () =>
      match rest with
      | [] =>
        match ending with
        | .eof => return .error .noChunk
        | .failed => return .error .receiveFirstChunk
      | .chunk data offset :: later =>
        if isFastPath file data offset later ending then
          server.uploadFileFastPath draws file data
        else server.uploadFileSession draws file data offset later ending
      | _ :: _ => return .error .expectedChunk
  | _ :: _ => return .error .metadataFirst

/-- What a client sends after the metadata: consecutive chunks from this offset on. -/
def consecutive : Int → List Bytes → List UploadMessage
  | _, [] => []
  | offset, part :: rest => .chunk part offset :: consecutive (offset + part.length) rest

/-- The loop of `DownloadFile`: the messages it sends and what it returns, or `none` after too many
rounds. `takes` says which messages the stream takes. -/
def sendFrom (takes : DownloadResponse → Bool) (metadata : FileMetadata) (chunkSize : Int) :
    Nat → Int → Service (List DownloadResponse × Option (Except GrpcError Unit))
  | 0, _ => return ([], none)
  | rounds + 1, offset => do
    if offset < metadata.size then
      match ← FileManager.downloadFileDataAt metadata chunkSize offset with
      | .error cause => return ([], some (.error (.readChunk cause)))
      | .ok data =>
        if data = [] then return ([], some (.ok ()))
        else if takes ⟨data, offset, metadata.size⟩ then
          let later ← sendFrom takes metadata chunkSize rounds (offset + data.length)
          return (⟨data, offset, metadata.size⟩ :: later.1, later.2)
        else return ([], some (.error .sendChunk))
    else return ([], some (.ok ()))

def downloadChunkSize (requested : Int) : Int :=
  let size := if requested ≤ 0 then 1024 * 1024 else requested
  if size > 32 * 1024 * 1024 then 32 * 1024 * 1024 else size

def downloadFile (takes : DownloadResponse → Bool) (rounds : Nat) (path : Path)
    (chunkSize offset : Int) :
    Service (List DownloadResponse × Option (Except GrpcError Unit)) := do
  if ¬ isValidFilePath path then return ([], some (.error .invalidPath))
  else
    match ← FileManager.getFileMetadata path with
    | .error cause => return ([], some (.error (.fileMetadata cause)))
    | .ok metadata =>
      let start := if offset > 0 then offset else 0
      sendFrom takes metadata (downloadChunkSize chunkSize) rounds start

end GrpcServer

end FsServer
