import FsServer.FileManager

/-!
# Chunked transfers

`transfer/service.go`. `CompleteUpload` is cut at the places where its exits differ: the session is
closed, the hash is checked, the temporary file is encrypted, the result is moved into storage under
the file's lock and recorded in the table.
-/

namespace FsServer

open Lib Service

inductive TransferError where
  | tooManySessions
  | createTempFile
  | preallocate
  | sessionNotFound (sessionID : String)
  | sessionLock
  | sessionClosed (sessionID : String)
  | sessionNotActive (sessionID : String)
  | partNumberTooLarge (partNumber : Int)
  | invalidOffset (offset : Int)
  | beyondFileSize (offset length total : Int)
  | openTempFile
  | writeChunk
  | incomplete (expected got : Int)
  | gaps (total : Int)
  | partNotCompleted (partNumber : Int) (status : SessionStatus)
  | syncTempFile
  | closeTempFile
  | computeHash
  | hashMismatch (expected got : String)
  | encrypt
  | encryptedHash
  | lock (path : Path)
  | writeFromTemp (cause : StorageError)
  | updateMetadata (cause : SqlError)
  | createMetadata (cause : CreateError)
  | queryMetadata (cause : SqlError)
  | fileNotFound (path : Path)
  | createEncrypted
  | openStored (cause : StorageError)
  | stream
  | decrypt
  | openDecrypted
  | beyondDownload (offset total : Int)
  | readDecrypted
  | readChunk (cause : StorageError)
  deriving DecidableEq

structure CompleteUploadResult where
  fileID : String
  hashProvided : Bool
  hashVerified : Bool
  uploadedSize : Int
  storageType : String
  deriving DecidableEq

namespace FileTransferService

def releaseSessionSlot (inst : Nat) : Service Unit := do
  let _ ← session (.addSessionCount inst (-1))
  return ()

def acquireSessionSlot (inst : Nat) : Service Bool := do
  let count ← session (.addSessionCount inst 1)
  let maxSessions ← session .maxSessions
  if count > maxSessions then
    releaseSessionSlot inst
    return false
  else return true

def newUploadSession (ctx : Context) (filePath fileName : Path) (totalSize : Int)
    (clientID hash : String) (tempFile : Inode) : UploadSession where
  sessionID := ctx.id
  fileID := ""
  filePath := normalizePath filePath
  fileName := fileName
  totalSize := totalSize
  uploadedSize := 0
  hash := hash
  clientID := clientID
  status := .active
  createdAt := ctx.now
  updatedAt := ctx.now
  chunkCount := 0
  tempFile := some tempFile
  hashWriter := if hash ≠ "" then some [] else none
  lastOffset := 0
  hashValid := hash ≠ ""
  closed := false

def preallocate (file : Inode) (totalSize : Int) : Service Bool :=
  if totalSize > 0 then session (.truncateTemp file totalSize) else return true

def createUploadSession (ctx : Context) (filePath fileName : Path) (totalSize : Int)
    (clientID hash : String) : Service (Except TransferError String) := do
  if ← acquireSessionSlot ctx.inst then
    match ← session (.createTemp (.upload ctx.id)) with
    | none =>
      releaseSessionSlot ctx.inst
      return .error .createTempFile
    | some file =>
      if ← preallocate file totalSize then
        let created := newUploadSession ctx filePath fileName totalSize clientID hash file
        session (.storeUpload ctx.inst ctx.id created)
        session (.setUploadRecord ctx.id created.toUploadRecord)
        return .ok ctx.id
      else
        session (.removeTemp (.upload ctx.id))
        releaseSessionSlot ctx.inst
        return .error .preallocate
  else return .error .tooManySessions

/-- The session of the instance, or a copy of the stored record, without a hash writer; the first of
several restorers wins. -/
def uploadSession (inst : Nat) (sessionID : String) : Service (Option Address) := do
  match ← session (.loadUpload inst sessionID) with
  | some address => return some address
  | none =>
    match ← session (.getUploadRecord sessionID) with
    | none => return none
    | some record =>
      let file ← session (.openTemp (.upload sessionID))
      let address ← session (.loadOrStoreUpload inst sessionID (record.restore file))
      return some address

/-- The running hash takes the chunk if it continues where the last one ended; otherwise it is given
up for good. -/
def updateHash (address : Address) (data : Bytes) (offset : Int) : Service Unit := do
  let current ← session (.readUpload address)
  if current.hashWriter.isSome ∧ current.hashValid then
    if offset = current.lastOffset then
      let _ ← session (.changeUpload address (.feedHash data))
      let _ ← session (.changeUpload address (.setLastOffset (int64 (offset + data.length))))
      return ()
    else
      let _ ← session (.changeUpload address .invalidateHash)
      return ()
  else return ()

def uploadChunkBody (ctx : Context) (address : Address) (sessionID : String) (data : Bytes)
    (offset : Int) : Service (Except TransferError Unit) := do
  let current ← session (.readUpload address)
  if current.closed then return .error (.sessionClosed sessionID)
  else if offset < 0 then return .error (.invalidOffset offset)
  else if int64 (offset + data.length) > current.totalSize then
    return .error (.beyondFileSize offset data.length current.totalSize)
  else
    match ← session (.writeChunk address sessionID data offset) with
    | .notOpened => return .error .openTempFile
    | .failed => return .error .writeChunk
    | .written =>
      updateHash address data offset
      let _ ← session (.changeUpload address (.addUploaded data.length))
      let counted ← session (.changeUpload address .countChunk)
      if counted.chunkCount % 8 = 0 then
        let touched ← session (.changeUpload address (.touch ctx.now))
        session (.setUploadRecord sessionID touched.toUploadRecord)
        return .ok ()
      else return .ok ()

def uploadChunk (ctx : Context) (sessionID : String) (data : Bytes) (offset : Int) :
    Service (Except TransferError Unit) := do
  match ← uploadSession ctx.inst sessionID with
  | none => return .error (.sessionNotFound sessionID)
  | some address =>
    if ← acquire (.upload sessionID) ctx.token then
      let result ← uploadChunkBody ctx address sessionID data offset
      unlock (.upload sessionID) ctx.token
      return result
    else return .error .sessionLock

def discardUpload (inst : Nat) (sessionID : String) : Service Unit := do
  session (.deleteUpload inst sessionID)
  releaseSessionSlot inst

section Complete

variable (sha256 : Bytes → String) (crypto : Option CryptoService)

/-- The bytes whose hash is checked: those of the running hash while it is valid, else those of the
temporary file. -/
def hashedBytes (address : Address) (sessionID : String) : Service (Option Bytes) := do
  let current ← session (.readUpload address)
  if current.hashWriter.isSome ∧ current.hashValid then
    let fed ← session (.readUpload address)
    return some (fed.hashWriter.getD [])
  else session (.hashTemp (.upload sessionID))

def verifyHash (address : Address) (sessionID expected : String) :
    Service (Except TransferError Bool) := do
  if expected ≠ "" then
    match ← hashedBytes address sessionID with
    | none => return .error .computeHash
    | some bytes =>
      if sha256 bytes = expected then return .ok true
      else return .error (.hashMismatch expected (sha256 bytes))
  else return .ok false

def encryptTempFile (nonce : Nonce) (sessionID hash : String) :
    Service (Except TransferError (TempName × String)) := do
  match crypto with
  | some service =>
    if service.enabled then
      match ← session (.readTemp (.upload sessionID)) with
      | none =>
        session (.removeTemp (.upload sessionID))
        return .error .encrypt
      | some data =>
        if ← session (.writeTemp (.uploadEncrypted sessionID) (service.encrypt nonce data)) then
          session (.removeTemp (.upload sessionID))
          match ← session (.hashTemp (.uploadEncrypted sessionID)) with
          | none =>
            session (.removeTemp (.uploadEncrypted sessionID))
            return .error .encryptedHash
          | some stored => return .ok (.uploadEncrypted sessionID, sha256 stored)
        else
          session (.removeTemp (.upload sessionID))
          return .error .encrypt
    else return .ok (.upload sessionID, hash)
  | none => return .ok (.upload sessionID, hash)

def recordUpload (ctx : Context) (filePath fileName : Path) (size : Int) (hash : String) :
    Service (Except TransferError FileMetadata) := do
  match ← FileMetadataService.existing filePath with
  | some metadata =>
    let updated := FileManager.refreshed metadata size hash ctx.now
    match ← FileMetadataService.update updated with
    | .ok () => return .ok updated
    | .error cause => return .error (.updateMetadata cause)
  | none =>
    let created := FileManager.newMetadata ctx filePath fileName size hash
    match ← FileMetadataService.create created with
    | .ok () => return .ok created
    | .error cause =>
      let _ ← storage (.remove filePath)
      return .error (.createMetadata cause)

/-- The steps of `CompleteUpload` under the file's lock. -/
def storeUpload (ctx : Context) (address : Address) (current : UploadSession)
    (sessionID : String) (hashVerified : Bool) (temp : TempName) (hash : String) :
    Service (Except TransferError CompleteUploadResult) := do
  match ← writeFromTempFile current.filePath temp with
  | .error cause =>
    session (.removeTemp temp)
    discardUpload ctx.inst sessionID
    return .error (.writeFromTemp cause)
  | .ok () =>
    match ← recordUpload ctx current.filePath current.fileName current.totalSize hash with
    | .error cause =>
      discardUpload ctx.inst sessionID
      return .error cause
    | .ok metadata =>
      let _ ← session (.changeUpload address (.finish metadata.id ctx.now))
      discardUpload ctx.inst sessionID
      session (.removeTemp temp)
      session (.deleteUploadRecord sessionID)
      return .ok {
        fileID := metadata.id
        hashProvided := current.hash ≠ ""
        hashVerified := hashVerified
        uploadedSize := current.totalSize
        storageType := LocalStorage.storageType }

/-- `CompleteUpload` once the sizes agree and the session is closed. -/
def finishUpload (ctx : Context) (address : Address) (current : UploadSession)
    (sessionID : String) : Service (Except TransferError CompleteUploadResult) := do
  match ← session (.closeTempFile address) with
  | .syncFailed =>
    session (.removeTemp (.upload sessionID))
    discardUpload ctx.inst sessionID
    return .error .syncTempFile
  | .closeFailed =>
    discardUpload ctx.inst sessionID
    return .error .closeTempFile
  | .closed =>
    match ← verifyHash sha256 address sessionID current.hash with
    | .error cause =>
      session (.removeTemp (.upload sessionID))
      discardUpload ctx.inst sessionID
      return .error cause
    | .ok hashVerified =>
      match ← encryptTempFile sha256 crypto ctx.nonce sessionID current.hash with
      | .error cause =>
        discardUpload ctx.inst sessionID
        return .error cause
      | .ok (temp, hash) =>
        if ← acquire (.file current.filePath) ctx.token then
          let result ← storeUpload ctx address current sessionID hashVerified temp hash
          unlock (.file current.filePath) ctx.token
          return result
        else
          session (.removeTemp temp)
          discardUpload ctx.inst sessionID
          return .error (.lock current.filePath)

def completeUpload (ctx : Context) (sessionID : String) :
    Service (Except TransferError CompleteUploadResult) := do
  match ← uploadSession ctx.inst sessionID with
  | none => return .error (.sessionNotFound sessionID)
  | some address =>
    let current ← session (.readUpload address)
    if current.uploadedSize ≠ current.totalSize then
      let again ← session (.readUpload address)
      return .error (.incomplete current.totalSize again.uploadedSize)
    else
      let _ ← session (.changeUpload address .close)
      finishUpload sha256 crypto ctx address current sessionID

end Complete

def abortUpload (ctx : Context) (sessionID : String) : Service (Except TransferError Unit) := do
  match ← session (.loadUpload ctx.inst sessionID) with
  | none => return .error (.sessionNotFound sessionID)
  | some address =>
    let _ ← session (.changeUpload address .close)
    let _ ← session (.closeTempFile address)
    let _ ← session (.changeUpload address (.abort ctx.now))
    discardUpload ctx.inst sessionID
    session (.removeTemp (.upload sessionID))
    session (.deleteUploadRecord sessionID)
    return .ok ()

end FileTransferService

end FsServer
