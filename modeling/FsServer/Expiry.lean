import FsServer.Multipart
import FsServer.Download

/-!
# Expired sessions

`CleanupExpiredSessions`. Whether a session's `CreatedAt` is a timestamp from before the expiry time is
asked of a predicate; a text that is no timestamp is not.
-/

namespace FsServer

open Lib Service

namespace FileTransferService

variable (inst : Nat) (expired : String → Bool)

def expireUpload (sessionID : String) (address : Address) : Service Unit := do
  let current ← session (.readUpload address)
  if expired current.createdAt then
    let _ ← session (.changeUpload address .expire)
    let _ ← session (.changeUpload address .close)
    let _ ← session (.closeTempFile address)
    session (.removeTemp (.upload sessionID))
    session (.deleteUpload inst sessionID)
    releaseSessionSlot inst
    session (.deleteUploadRecord sessionID)
  else return ()

def expireDownload (sessionID : String) (address : Address) : Service Unit := do
  let current ← session (.readDownload address)
  if expired current.createdAt then
    let ended ← session (.changeDownload address .expire)
    removeDecrypted ended sessionID
    session (.deleteDownload inst sessionID)
    session (.deleteDownloadRecord sessionID)
  else return ()

def expireMultipart (sessionID : String) (address : Address) : Service Unit := do
  let current ← session (.readMultipart address)
  if expired current.createdAt then
    let _ ← session (.changeMultipart address .expire)
    let _ ← session (.changeMultipart address .close)
    let _ ← session (.closeMultipart address)
    session (.removeTemp (.upload sessionID))
    session (.deleteMultipart inst sessionID)
    releaseSessionSlot inst
  else return ()

def visitAll (visit : String → Address → Service Unit) : List (String × Address) → Service Unit
  | [] => return ()
  | (sessionID, address) :: rest => do
    visit sessionID address
    visitAll visit rest

def cleanupExpiredSessions : Service Unit := do
  let uploads ← session (.rangeUploads inst)
  visitAll (expireUpload inst expired) uploads
  let downloads ← session (.rangeDownloads inst)
  visitAll (expireDownload inst expired) downloads
  let multiparts ← session (.rangeMultiparts inst)
  visitAll (expireMultipart inst expired) multiparts

end FileTransferService

end FsServer
