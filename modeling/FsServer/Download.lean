import FsServer.Transfer

/-!
# Download sessions

The download half of `transfer/service.go`. With encryption on, the stored file is decrypted into a
temporary file when the session is made, and chunks are read from there; a session that another
instance restores from the session store has no such file.
-/

namespace FsServer

open Lib Service

namespace FileTransferService

variable (crypto : Option CryptoService)

def decryptToTemp (service : CryptoService) (filePath : Path) (sessionID : String) :
    Service (Except TransferError (Inode × Int)) := do
  let encrypted := TempName.downloadEncrypted sessionID
  let decrypted := TempName.downloadDecrypted sessionID
  match ← session (.createTemp encrypted) with
  | none => return .error .createEncrypted
  | some _ =>
    match ← storage (.read filePath) with
    | .error cause =>
      session (.removeTemp encrypted)
      -- a directory can be opened but not read
      if cause = .readFile .isDirectory then return .error .stream
      else return .error (.openStored cause)
    | .ok stored =>
      if ← session (.writeTemp encrypted stored) then
        match ← session (.readTemp encrypted) with
        | none =>
          session (.removeTemp encrypted)
          return .error .decrypt
        | some data =>
          match service.decrypt data with
          | .error _ =>
            session (.removeTemp encrypted)
            return .error .decrypt
          | .ok plaintext =>
            if ← session (.writeTemp decrypted plaintext) then
              session (.removeTemp encrypted)
              match ← session (.openTemp decrypted) with
              | none =>
                session (.removeTemp decrypted)
                return .error .openDecrypted
              | some file => return .ok (file, plaintext.length)
            else
              session (.removeTemp encrypted)
              return .error .decrypt
      else
        session (.removeTemp encrypted)
        return .error .stream

def newDownloadSession (ctx : Context) (metadata : FileMetadata) (filePath : Path)
    (clientID : String) (totalSize : Int) (decryptedFile : Option Inode) : DownloadSession where
  sessionID := ctx.id
  fileID := metadata.id
  filePath := filePath
  totalSize := totalSize
  downloadedSize := 0
  clientID := clientID
  status := .active
  createdAt := ctx.now
  updatedAt := ctx.now
  chunkCount := 0
  decryptedFile := decryptedFile

def prepareDownload (metadata : FileMetadata) (filePath : Path) (sessionID : String) :
    Service (Except TransferError (Int × Option Inode)) := do
  match crypto with
  | some service =>
    if service.enabled then
      match ← decryptToTemp service filePath sessionID with
      | .error cause => return .error cause
      | .ok (file, size) => return .ok (size, some file)
    else return .ok (metadata.size, none)
  | none => return .ok (metadata.size, none)

def createDownloadSession (ctx : Context) (filePath : Path) (clientID : String) :
    Service (Except TransferError String) := do
  let filePath := normalizePath filePath
  match ← FileMetadataService.getByPath filePath with
  | .error cause => return .error (.queryMetadata cause)
  | .ok none => return .error (.fileNotFound filePath)
  | .ok (some metadata) =>
    match ← prepareDownload crypto metadata filePath ctx.id with
    | .error cause => return .error cause
    | .ok (totalSize, file) =>
      let created := newDownloadSession ctx metadata filePath clientID totalSize file
      let _ ← session (.storeDownload ctx.inst ctx.id created)
      session (.setDownloadRecord ctx.id created.toDownloadRecord)
      return .ok ctx.id

def DownloadRecord.restore (record : DownloadRecord) : DownloadSession :=
  { record with chunkCount := 0, decryptedFile := none }

def downloadSession (inst : Nat) (sessionID : String) : Service (Option Address) := do
  match ← session (.loadDownload inst sessionID) with
  | some address => return some address
  | none =>
    match ← session (.getDownloadRecord sessionID) with
    | none => return none
    | some record =>
      let address ← session (.storeDownload inst sessionID (DownloadRecord.restore record))
      return some address

def readDownloadChunk (current : DownloadSession) (size offset : Int) :
    Service (Except TransferError Bytes) := do
  match current.decryptedFile with
  | some file =>
    match ← session (.readInode file size offset) with
    | some data => return .ok data
    | none => return .error .readDecrypted
  | none =>
    match ← storage (.readAt current.filePath size offset) with
    | .ok data => return .ok data
    | .error cause => return .error (.readChunk cause)

def downloadChunk (ctx : Context) (sessionID : String) (size offset : Int) :
    Service (Except TransferError Bytes) := do
  match ← downloadSession ctx.inst sessionID with
  | none => return .error (.sessionNotFound sessionID)
  | some address =>
    let current ← session (.readDownload address)
    if offset < 0 then return .error (.invalidOffset offset)
    else if offset ≥ current.totalSize then
      return .error (.beyondDownload offset current.totalSize)
    else
      match ← readDownloadChunk current size offset with
      | .error cause => return .error cause
      | .ok data =>
        let _ ← session (.changeDownload address (.addDownloaded data.length))
        let _ ← session (.changeDownload address .countChunk)
        let counted ← session (.readDownload address)
        if counted.chunkCount % 8 = 0 then
          let touched ← session (.changeDownload address (.touch ctx.now))
          session (.setDownloadRecord sessionID touched.toDownloadRecord)
          return .ok data
        else return .ok data

def removeDecrypted (ended : DownloadSession) (sessionID : String) : Service Unit :=
  if ended.decryptedFile.isSome then session (.removeTemp (.downloadDecrypted sessionID))
  else return ()

end FileTransferService

end FsServer
