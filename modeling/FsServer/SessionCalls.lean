import FsServer.Session

/-!
# The calls on the session state

One call per step that other calls can come between: an access to a session map, an atomic access to
a session object, a section under its mutex, a request to the session store, an operation on a
temporary file.
-/

namespace FsServer

open Lib

inductive WriteOutcome where
  | written
  | notOpened
  | failed
  deriving DecidableEq

inductive CloseOutcome where
  | closed
  | syncFailed
  | closeFailed
  deriving DecidableEq

inductive SessionCall : Type → Type where
  | maxSessions : SessionCall Int
  | addSessionCount (inst : Nat) (delta : Int) : SessionCall Int
  | loadUpload (inst : Nat) (sessionID : String) : SessionCall (Option Address)
  | storeUpload (inst : Nat) (sessionID : String) (session : UploadSession) : SessionCall Unit
  | loadOrStoreUpload (inst : Nat) (sessionID : String) (session : UploadSession) :
      SessionCall Address
  | deleteUpload (inst : Nat) (sessionID : String) : SessionCall Unit
  | rangeUploads (inst : Nat) : SessionCall (List (String × Address))
  | readUpload (address : Address) : SessionCall UploadSession
  | changeUpload (address : Address) (change : UploadChange) : SessionCall UploadSession
  | writeChunk (address : Address) (sessionID : String) (data : Bytes) (offset : Int) :
      SessionCall WriteOutcome
  | closeTempFile (address : Address) : SessionCall CloseOutcome
  | getUploadRecord (sessionID : String) : SessionCall (Option UploadRecord)
  | setUploadRecord (sessionID : String) (record : UploadRecord) : SessionCall Unit
  | deleteUploadRecord (sessionID : String) : SessionCall Unit
  | loadMultipart (inst : Nat) (sessionID : String) : SessionCall (Option Address)
  | storeMultipart (inst : Nat) (sessionID : String) (session : MultipartUploadSession) :
      SessionCall Unit
  | deleteMultipart (inst : Nat) (sessionID : String) : SessionCall Unit
  | rangeMultiparts (inst : Nat) : SessionCall (List (String × Address))
  | readMultipart (address : Address) : SessionCall MultipartUploadSession
  | changeMultipart (address : Address) (change : MultipartChange) :
      SessionCall MultipartUploadSession
  | writePart (address : Address) (data : Bytes) (offset : Int) : SessionCall WriteOutcome
  | syncMultipart (address : Address) : SessionCall Bool
  | closeMultipart (address : Address) : SessionCall Bool
  | loadDownload (inst : Nat) (sessionID : String) : SessionCall (Option Address)
  | storeDownload (inst : Nat) (sessionID : String) (session : DownloadSession) :
      SessionCall Address
  | deleteDownload (inst : Nat) (sessionID : String) : SessionCall Unit
  | rangeDownloads (inst : Nat) : SessionCall (List (String × Address))
  | readDownload (address : Address) : SessionCall DownloadSession
  | changeDownload (address : Address) (change : DownloadChange) : SessionCall DownloadSession
  | getDownloadRecord (sessionID : String) : SessionCall (Option DownloadRecord)
  | setDownloadRecord (sessionID : String) (record : DownloadRecord) : SessionCall Unit
  | deleteDownloadRecord (sessionID : String) : SessionCall Unit
  | createTemp (name : TempName) : SessionCall (Option Inode)
  | truncateTemp (inode : Inode) (size : Int) : SessionCall Bool
  | openTemp (name : TempName) : SessionCall (Option Inode)
  | removeTemp (name : TempName) : SessionCall Unit
  | readTemp (name : TempName) : SessionCall (Option Bytes)
  | hashTemp (name : TempName) : SessionCall (Option Bytes)
  | writeTemp (name : TempName) (data : Bytes) : SessionCall Bool
  | readInode (inode : Inode) (size offset : Int) : SessionCall (Option Bytes)

namespace Sessions

def setInstance (sessions : Sessions) (inst : Nat) (changed : Instance) : Sessions :=
  { sessions with instances := Function.update sessions.instances inst changed }

def setUpload (sessions : Sessions) (address : Address) (session : UploadSession) : Sessions :=
  { sessions with uploads := Function.update sessions.uploads address session }

def setMultipart (sessions : Sessions) (address : Address) (session : MultipartUploadSession) :
    Sessions :=
  { sessions with multiparts := Function.update sessions.multiparts address session }

def setDownload (sessions : Sessions) (address : Address) (session : DownloadSession) : Sessions :=
  { sessions with downloads := Function.update sessions.downloads address session }

def setInode (sessions : Sessions) (inode : Inode) (content : Bytes) : Sessions :=
  { sessions with inodes := Function.update sessions.inodes inode content }

def fileOf (sessions : Sessions) (name : TempName) : Option Bytes :=
  (sessions.temps.lookup name).map sessions.inodes

/-- `os.Create`: an existing file is emptied. -/
def create (sessions : Sessions) (name : TempName) : Inode × Sessions :=
  match sessions.temps.lookup name with
  | some inode => (inode, sessions.setInode inode [])
  | none =>
    (sessions.nextInode,
      { sessions with
        temps := sessions.temps.insert name sessions.nextInode
        inodes := Function.update sessions.inodes sessions.nextInode []
        nextInode := sessions.nextInode + 1 })

/-- `File.WriteAt`. A write that fails may have got part of its bytes into the file. -/
def writeAt (env : Env) (sessions : Sessions) (inode : Inode) (data : Bytes) (offset : Int) :
    WriteOutcome × Sessions :=
  if offset < 0 ∨ offset + data.length > maxInt64 then (.failed, sessions)
  else
    let content := sessions.inodes inode
    match env.fault with
    | none => (.written, sessions.setInode inode (overwrite 0 content data offset.toNat))
    | some n =>
      (.failed, sessions.setInode inode (overwrite 0 content (data.take n) offset.toNat))

def truncate (content : Bytes) (size : Nat) : Bytes :=
  content.take size ++ List.replicate (size - content.length) 0

end Sessions

namespace Sessions

/-- The write of `UploadChunk` under `tempFileMu`, through the session's handle or one opened for
this write. -/
def writeChunk (env : Env) (sessions : Sessions) (address : Address) (sessionID : String)
    (data : Bytes) (offset : Int) : WriteOutcome × Sessions :=
  match (sessions.uploads address).tempFile with
  | some inode => sessions.writeAt env inode data offset
  | none =>
    match sessions.temps.lookup (.upload sessionID) with
    | some inode => sessions.writeAt env inode data offset
    | none => (.notOpened, sessions)

def writePart (env : Env) (sessions : Sessions) (address : Address) (data : Bytes) (offset : Int) :
    WriteOutcome × Sessions :=
  match (sessions.multiparts address).tempFile with
  | some inode => sessions.writeAt env inode data offset
  | none => (.failed, sessions)

def closeTempFile (env : Env) (sessions : Sessions) (address : Address) : CloseOutcome × Sessions :=
  let session := sessions.uploads address
  match session.tempFile with
  | none => (.closed, sessions)
  | some _ =>
    let closed := sessions.setUpload address { session with tempFile := none }
    match env.fault with
    | none => (.closed, closed)
    | some 0 => (.syncFailed, closed)
    | some _ => (.closeFailed, closed)

/-- The bytes that `SHA256File` reads. An error after the file is opened ends the reading without
being reported. -/
def hashTemp (env : Env) (sessions : Sessions) (name : TempName) : Option Bytes :=
  match env.fault with
  | none => sessions.fileOf name
  | some 0 => none
  | some (n + 1) => (sessions.fileOf name).map (·.take n)

def range (map : AList fun _ : String => Address) : List (String × Address) :=
  map.entries.map fun entry => (entry.1, entry.2)

def exec (env : Env) (sessions : Sessions) : {β : Type} → SessionCall β → β × Sessions
  | _, .maxSessions => (sessions.maxSessions, sessions)
  | _, .addSessionCount inst delta =>
    let old := sessions.instances inst
    let count := int64 (old.sessionCount + delta)
    (count, sessions.setInstance inst { old with sessionCount := count })
  | _, .loadUpload inst sessionID =>
    ((sessions.instances inst).uploadSessions.lookup sessionID, sessions)
  | _, .storeUpload inst sessionID session =>
    let old := sessions.instances inst
    let address := sessions.nextAddress
    ((), { (sessions.setUpload address session).setInstance inst
      { old with uploadSessions := old.uploadSessions.insert sessionID address } with
      nextAddress := address + 1 })
  | _, .loadOrStoreUpload inst sessionID session =>
    let old := sessions.instances inst
    match old.uploadSessions.lookup sessionID with
    | some address => (address, sessions)
    | none =>
      let address := sessions.nextAddress
      (address, { (sessions.setUpload address session).setInstance inst
        { old with uploadSessions := old.uploadSessions.insert sessionID address } with
        nextAddress := address + 1 })
  | _, .deleteUpload inst sessionID =>
    let old := sessions.instances inst
    ((), sessions.setInstance inst
      { old with uploadSessions := old.uploadSessions.erase sessionID })
  | _, .rangeUploads inst => (range (sessions.instances inst).uploadSessions, sessions)
  | _, .readUpload address => (sessions.uploads address, sessions)
  | _, .changeUpload address change =>
    let changed := (sessions.uploads address).change change
    (changed, sessions.setUpload address changed)
  | _, .writeChunk address sessionID data offset =>
    sessions.writeChunk env address sessionID data offset
  | _, .closeTempFile address => sessions.closeTempFile env address
  | _, .getUploadRecord sessionID =>
    (if env.fault.isSome then none else sessions.uploadStore.lookup sessionID, sessions)
  | _, .setUploadRecord sessionID record =>
    ((), if env.fault.isSome then sessions
      else { sessions with uploadStore := sessions.uploadStore.insert sessionID record })
  | _, .deleteUploadRecord sessionID =>
    ((), if env.fault.isSome then sessions
      else { sessions with uploadStore := sessions.uploadStore.erase sessionID })
  | _, .loadMultipart inst sessionID =>
    ((sessions.instances inst).multipartSessions.lookup sessionID, sessions)
  | _, .storeMultipart inst sessionID session =>
    let old := sessions.instances inst
    let address := sessions.nextAddress
    ((), { (sessions.setMultipart address session).setInstance inst
      { old with multipartSessions := old.multipartSessions.insert sessionID address } with
      nextAddress := address + 1 })
  | _, .deleteMultipart inst sessionID =>
    let old := sessions.instances inst
    ((), sessions.setInstance inst
      { old with multipartSessions := old.multipartSessions.erase sessionID })
  | _, .rangeMultiparts inst => (range (sessions.instances inst).multipartSessions, sessions)
  | _, .readMultipart address => (sessions.multiparts address, sessions)
  | _, .changeMultipart address change =>
    let changed := (sessions.multiparts address).change change
    (changed, sessions.setMultipart address changed)
  | _, .writePart address data offset => sessions.writePart env address data offset
  | _, .syncMultipart address =>
    ((sessions.multiparts address).tempFile.isSome && env.fault.isNone, sessions)
  | _, .closeMultipart address =>
    let session := sessions.multiparts address
    (session.tempFile.isSome && env.fault.isNone,
      sessions.setMultipart address { session with tempFile := none })
  | _, .loadDownload inst sessionID =>
    ((sessions.instances inst).downloadSessions.lookup sessionID, sessions)
  | _, .storeDownload inst sessionID session =>
    let old := sessions.instances inst
    let address := sessions.nextAddress
    (address, { (sessions.setDownload address session).setInstance inst
      { old with downloadSessions := old.downloadSessions.insert sessionID address } with
      nextAddress := address + 1 })
  | _, .deleteDownload inst sessionID =>
    let old := sessions.instances inst
    ((), sessions.setInstance inst
      { old with downloadSessions := old.downloadSessions.erase sessionID })
  | _, .rangeDownloads inst => (range (sessions.instances inst).downloadSessions, sessions)
  | _, .readDownload address => (sessions.downloads address, sessions)
  | _, .changeDownload address change =>
    let changed := (sessions.downloads address).change change
    (changed, sessions.setDownload address changed)
  | _, .getDownloadRecord sessionID =>
    (if env.fault.isSome then none else sessions.downloadStore.lookup sessionID, sessions)
  | _, .setDownloadRecord sessionID record =>
    ((), if env.fault.isSome then sessions
      else { sessions with downloadStore := sessions.downloadStore.insert sessionID record })
  | _, .deleteDownloadRecord sessionID =>
    ((), if env.fault.isSome then sessions
      else { sessions with downloadStore := sessions.downloadStore.erase sessionID })
  | _, .createTemp name =>
    if env.fault.isSome then (none, sessions)
    else
      let created := sessions.create name
      (some created.1, created.2)
  | _, .truncateTemp inode size =>
    if size < 0 ∨ env.fault.isSome then (false, sessions)
    else (true, sessions.setInode inode (truncate (sessions.inodes inode) size.toNat))
  | _, .openTemp name =>
    (if env.fault.isSome then none else sessions.temps.lookup name, sessions)
  | _, .removeTemp name =>
    ((), if env.fault.isSome then sessions
      else { sessions with temps := sessions.temps.erase name })
  | _, .readTemp name => (if env.fault.isSome then none else sessions.fileOf name, sessions)
  | _, .hashTemp name => (sessions.hashTemp env name, sessions)
  | _, .writeTemp name data =>
    let created := sessions.create name
    match env.fault with
    | none => (true, created.2.setInode created.1 data)
    | some 0 => (false, sessions)
    | some (n + 1) => (false, created.2.setInode created.1 (data.take n))
  | _, .readInode inode size offset =>
    (if size < 0 ∨ offset < 0 ∨ env.fault.isSome then none
      else some (((sessions.inodes inode).drop offset.toNat).take size.toNat), sessions)

end Sessions

end FsServer
