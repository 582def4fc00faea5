import FsServer.Transfer

/-!
# Multipart transfers

`transfer/multipart.go`. A multipart session lives on the instance that created it; parts are written
straight into the temporary file and their ranges merged under `partsMu`.
-/

namespace FsServer

open Lib Service

namespace FileTransferService

def suggestedPartSize (totalSize : Int) : Int :=
  if totalSize ≤ 100 * 1024 * 1024 then 8 * 1024 * 1024
  else if totalSize ≤ 1024 * 1024 * 1024 then 16 * 1024 * 1024
  else if totalSize ≤ 10 * 1024 * 1024 * 1024 then 64 * 1024 * 1024
  else 128 * 1024 * 1024

def newMultipartSession (ctx : Context) (filePath fileName : Path) (totalSize : Int)
    (clientID hash : String) (tempFile : Inode) : MultipartUploadSession where
  sessionID := ctx.id
  filePath := normalizePath filePath
  fileName := fileName
  totalSize := totalSize
  hash := hash
  clientID := clientID
  status := .active
  createdAt := ctx.now
  updatedAt := ctx.now
  tempFile := some tempFile
  parts := ∅
  uploadedSize := 0
  chunkCount := 0
  closed := false
  coveredRanges := []

/-- The session identifier and the suggested part size. The entry this call makes in the session
store is never read back. -/
def createMultipartUpload (ctx : Context) (filePath fileName : Path) (totalSize : Int)
    (clientID hash : String) : Service (Except TransferError (String × Int)) := do
  if ← acquireSessionSlot ctx.inst then
    match ← session (.createTemp (.upload ctx.id)) with
    | none =>
      releaseSessionSlot ctx.inst
      return .error .createTempFile
    | some file =>
      if ← session (.truncateTemp file totalSize) then
        session (.storeMultipart ctx.inst ctx.id
          (newMultipartSession ctx filePath fileName totalSize clientID hash file))
        return .ok (ctx.id, suggestedPartSize totalSize)
      else
        session (.removeTemp (.upload ctx.id))
        releaseSessionSlot ctx.inst
        return .error .preallocate
  else return .error .tooManySessions

section Parts

variable (sha256 : Bytes → String) (crypto : Option CryptoService)

def uploadPartBody (ctx : Context) (address : Address) (sessionID : String)
    (partNumber offset : Int) (data : Bytes) : Service (Except TransferError Unit) := do
  let current ← session (.readMultipart address)
  if current.closed then return .error (.sessionClosed sessionID)
  else if current.status ≠ .active then return .error (.sessionNotActive sessionID)
  else if partNumber > 10000 then return .error (.partNumberTooLarge partNumber)
  else if offset < 0 then return .error (.invalidOffset offset)
  else if int64 (offset + data.length) > current.totalSize then
    return .error (.beyondFileSize offset data.length current.totalSize)
  else
    match ← session (.writePart address data offset) with
    | .written =>
      let _ ← session (.changeMultipart address
        (.recordPart partNumber offset data.length (sha256 data)))
      let _ ← session (.changeMultipart address (.addUploaded data.length))
      let counted ← session (.changeMultipart address .countChunk)
      if counted.chunkCount % 8 = 0 then
        let _ ← session (.changeMultipart address (.touch ctx.now))
        return .ok ()
      else return .ok ()
    | _ => return .error .writeChunk

def uploadPartData (ctx : Context) (sessionID : String) (partNumber offset : Int) (data : Bytes) :
    Service (Except TransferError Unit) := do
  match ← session (.loadMultipart ctx.inst sessionID) with
  | none => return .error (.sessionNotFound sessionID)
  | some address => uploadPartBody sha256 ctx address sessionID partNumber offset data

def incompletePart (current : MultipartUploadSession) : Option UploadPart :=
  (current.parts.entries.map Sigma.snd).find? fun part => part.status ≠ .completed

/-- The size, coverage and part checks of `CompleteMultipartUpload`. -/
def checkMultipart (address : Address) : Service (Except TransferError Unit) := do
  let sized ← session (.readMultipart address)
  if sized.uploadedSize ≠ sized.totalSize then
    return .error (.incomplete sized.totalSize sized.uploadedSize)
  else
    let covered ← session (.readMultipart address)
    if isFullyCovered covered.coveredRanges covered.totalSize then
      let recorded ← session (.readMultipart address)
      match incompletePart recorded with
      | some part => return .error (.partNotCompleted part.partNumber part.status)
      | none => return .ok ()
    else return .error (.gaps covered.totalSize)

def discardMultipart (inst : Nat) (sessionID : String) : Service Unit := do
  session (.deleteMultipart inst sessionID)
  releaseSessionSlot inst

def verifyMultipartHash (sessionID expected : String) : Service (Except TransferError Unit) := do
  if expected ≠ "" then
    match ← session (.hashTemp (.upload sessionID)) with
    | none => return .error .computeHash
    | some bytes =>
      if sha256 bytes = expected then return .ok ()
      else return .error (.hashMismatch expected (sha256 bytes))
  else return .ok ()

def storeMultipart (ctx : Context) (address : Address) (current : MultipartUploadSession)
    (sessionID : String) (temp : TempName) (hash : String) :
    Service (Except TransferError Unit) := do
  match ← writeFromTempFile current.filePath temp with
  | .error cause =>
    session (.removeTemp temp)
    discardMultipart ctx.inst sessionID
    return .error (.writeFromTemp cause)
  | .ok () =>
    match ← recordUpload ctx current.filePath current.fileName current.totalSize hash with
    | .error cause =>
      session (.removeTemp temp)
      discardMultipart ctx.inst sessionID
      return .error cause
    | .ok _ =>
      let _ ← session (.changeMultipart address (.finish ctx.now))
      discardMultipart ctx.inst sessionID
      session (.removeTemp temp)
      return .ok ()

/-- `CompleteMultipartUpload` once its checks have passed and the session is closed. -/
def finishMultipart (ctx : Context) (address : Address) (current : MultipartUploadSession)
    (sessionID : String) : Service (Except TransferError Unit) := do
  if ← session (.syncMultipart address) then
    if ← session (.closeMultipart address) then
      match ← verifyMultipartHash sha256 sessionID current.hash with
      | .error cause =>
        session (.removeTemp (.upload sessionID))
        discardMultipart ctx.inst sessionID
        return .error cause
      | .ok () =>
        match ← encryptTempFile sha256 crypto ctx.nonce sessionID current.hash with
        | .error cause =>
          discardMultipart ctx.inst sessionID
          return .error cause
        | .ok (temp, hash) =>
          if ← acquire (.file current.filePath) ctx.token then
            let result ← storeMultipart ctx address current sessionID temp hash
            unlock (.file current.filePath) ctx.token
            return result
          else
            session (.removeTemp temp)
            discardMultipart ctx.inst sessionID
            return .error (.lock current.filePath)
    else
      session (.removeTemp (.upload sessionID))
      discardMultipart ctx.inst sessionID
      return .error .closeTempFile
  else
    let _ ← session (.closeMultipart address)
    session (.removeTemp (.upload sessionID))
    discardMultipart ctx.inst sessionID
    return .error .syncTempFile

def completeMultipartUpload (ctx : Context) (sessionID : String) :
    Service (Except TransferError Unit) := do
  match ← session (.loadMultipart ctx.inst sessionID) with
  | none => return .error (.sessionNotFound sessionID)
  | some address =>
    match ← checkMultipart address with
    | .error cause => return .error cause
    | .ok () =>
      let current ← session (.changeMultipart address .close)
      finishMultipart sha256 crypto ctx address current sessionID

end Parts

def abortMultipartUpload (ctx : Context) (sessionID : String) :
    Service (Except TransferError Unit) := do
  match ← session (.loadMultipart ctx.inst sessionID) with
  | none => return .error (.sessionNotFound sessionID)
  | some address =>
    let _ ← session (.changeMultipart address .close)
    let _ ← session (.closeMultipart address)
    let _ ← session (.changeMultipart address (.abort ctx.now))
    discardMultipart ctx.inst sessionID
    session (.removeTemp (.upload sessionID))
    return .ok ()

end FileTransferService

end FsServer
