import FsServer.Metadata
import FsServer.Lib.Int64
import FsServer.Lib.Overwrite
import Mathlib.Data.List.AList

/-!
# Upload sessions

The state the transfer service keeps between calls: the session objects an instance holds in memory,
the records of the shared session store, and the temporary files. A session object is reached through
an address, because a call that has loaded one goes on using it after another call has dropped it
from the map. A temporary file has a name and an inode, because an open handle outlives the name.
The steps that the code takes under a mutex or with one atomic instruction are one call each.
-/

namespace FsServer

open Lib

abbrev Address := Nat

abbrev Inode := Nat

inductive SessionStatus where
  | active
  | completed
  | aborted
  | expired
  deriving DecidableEq, Inhabited

/-- The exported fields of `UploadSession`, which are what its JSON form holds. -/
structure UploadRecord where
  sessionID : String
  fileID : String
  filePath : Path
  fileName : Path
  totalSize : Int
  uploadedSize : Int
  hash : String
  clientID : String
  status : SessionStatus
  createdAt : String
  updatedAt : String
  deriving DecidableEq, Inhabited

/-- `hashWriter` is the bytes written into the running SHA-256 so far. -/
structure UploadSession extends UploadRecord where
  chunkCount : Int
  tempFile : Option Inode
  hashWriter : Option Bytes
  lastOffset : Int
  hashValid : Bool
  closed : Bool
  deriving DecidableEq, Inhabited

/-- A session read back from its JSON form: the other fields are zero. -/
def UploadRecord.restore (record : UploadRecord) (tempFile : Option Inode) : UploadSession :=
  { record with
    chunkCount := 0, tempFile := tempFile, hashWriter := none, lastOffset := 0, hashValid := false,
    closed := false }

structure UploadPart where
  partNumber : Int
  offset : Int
  size : Int
  uploadedSize : Int
  hash : String
  status : SessionStatus
  deriving DecidableEq, Inhabited

structure ByteRange where
  start : Int
  stop : Int
  deriving DecidableEq

structure MultipartUploadSession where
  sessionID : String
  filePath : Path
  fileName : Path
  totalSize : Int
  hash : String
  clientID : String
  status : SessionStatus
  createdAt : String
  updatedAt : String
  tempFile : Option Inode
  parts : AList fun _ : Int => UploadPart
  uploadedSize : Int
  chunkCount : Int
  closed : Bool
  coveredRanges : List ByteRange
  deriving Inhabited

structure DownloadRecord where
  sessionID : String
  fileID : String
  filePath : Path
  totalSize : Int
  downloadedSize : Int
  clientID : String
  status : SessionStatus
  createdAt : String
  updatedAt : String
  deriving DecidableEq, Inhabited

structure DownloadSession extends DownloadRecord where
  chunkCount : Int
  decryptedFile : Option Inode
  deriving DecidableEq, Inhabited

inductive TempName where
  | upload (sessionID : String)
  | uploadEncrypted (sessionID : String)
  | downloadEncrypted (sessionID : String)
  | downloadDecrypted (sessionID : String)
  deriving DecidableEq

structure Instance where
  uploadSessions : AList fun _ : String => Address
  multipartSessions : AList fun _ : String => Address
  downloadSessions : AList fun _ : String => Address
  sessionCount : Int

def Instance.empty : Instance where
  uploadSessions := ∅
  multipartSessions := ∅
  downloadSessions := ∅
  sessionCount := 0

/-- `tempDirAllowed` says whether `validateTempFilePath` accepts the temporary directory. -/
structure Sessions where
  tempDirAllowed : Bool
  maxSessions : Int
  instances : Nat → Instance
  uploads : Address → UploadSession
  multiparts : Address → MultipartUploadSession
  downloads : Address → DownloadSession
  nextAddress : Address
  uploadStore : AList fun _ : String => UploadRecord
  downloadStore : AList fun _ : String => DownloadRecord
  temps : AList fun _ : TempName => Inode
  inodes : Inode → Bytes
  nextInode : Inode

def Sessions.empty : Sessions where
  tempDirAllowed := true
  maxSessions := 1000
  instances := fun _ => .empty
  uploads := default
  multiparts := default
  downloads := default
  nextAddress := 0
  uploadStore := ∅
  downloadStore := ∅
  temps := ∅
  inodes := fun _ => []
  nextInode := 0

/-! ### What a call changes in a session object -/

inductive UploadChange where
  | close
  | feedHash (data : Bytes)
  | setLastOffset (offset : Int)
  | invalidateHash
  | addUploaded (length : Int)
  | countChunk
  | touch (now : String)
  | finish (fileID : String) (now : String)
  | abort (now : String)
  | expire

def UploadSession.change (session : UploadSession) : UploadChange → UploadSession
  | .close => { session with closed := true }
  | .feedHash data => { session with hashWriter := session.hashWriter.map (· ++ data) }
  | .setLastOffset offset => { session with lastOffset := offset }
  | .invalidateHash => { session with hashValid := false }
  | .addUploaded length => { session with uploadedSize := int64 (session.uploadedSize + length) }
  | .countChunk => { session with chunkCount := int64 (session.chunkCount + 1) }
  | .touch now => { session with updatedAt := now }
  | .finish fileID now =>
    { session with fileID := fileID, status := .completed, updatedAt := now }
  | .abort now => { session with status := .aborted, updatedAt := now }
  | .expire => { session with status := .expired }

structure RangeMerge where
  start : Int
  stop : Int
  inserted : Bool
  merged : List ByteRange

def RangeMerge.next (merge : RangeMerge) (r : ByteRange) : RangeMerge :=
  if r.stop < merge.start then { merge with merged := merge.merged ++ [r] }
  else if r.start > merge.stop then
    if merge.inserted then { merge with merged := merge.merged ++ [r] }
    else
      { merge with
        inserted := true, merged := merge.merged ++ [⟨merge.start, merge.stop⟩] ++ [r] }
  else
    { merge with
      start := if r.start < merge.start then r.start else merge.start
      stop := if r.stop > merge.stop then r.stop else merge.stop }

def addCoveredRange (coveredRanges : List ByteRange) (start stop : Int) : List ByteRange :=
  if start ≥ stop then coveredRanges
  else
    let merge := coveredRanges.foldl RangeMerge.next ⟨start, stop, false, []⟩
    if merge.inserted then merge.merged else merge.merged ++ [⟨merge.start, merge.stop⟩]

def adjacent : List ByteRange → Bool
  | first :: second :: rest => second.start = first.stop && adjacent (second :: rest)
  | _ => true

def isFullyCovered (coveredRanges : List ByteRange) (totalSize : Int) : Bool :=
  match coveredRanges.head?, coveredRanges.getLast? with
  | some first, some last =>
    first.start = 0 && last.stop = totalSize && adjacent coveredRanges
  | _, _ => totalSize = 0

inductive MultipartChange where
  | recordPart (partNumber offset : Int) (length : Int) (hash : String)
  | addUploaded (length : Int)
  | countChunk
  | touch (now : String)
  | close
  | finish (now : String)
  | abort (now : String)
  | expire

def UploadPart.extend (part : UploadPart) (length : Int) (hash : String) : UploadPart :=
  let uploadedSize := int64 (part.uploadedSize + length)
  { part with
    uploadedSize := uploadedSize, hash := hash,
    status := if uploadedSize ≥ part.size then .completed else part.status }

def MultipartUploadSession.recordPart (session : MultipartUploadSession)
    (partNumber offset length : Int) (hash : String) : MultipartUploadSession :=
  let part : UploadPart :=
    match session.parts.lookup partNumber with
    | none => ⟨partNumber, offset, length, length, hash, .completed⟩
    | some part => part.extend length hash
  { session with
    parts := session.parts.insert partNumber part
    coveredRanges := addCoveredRange session.coveredRanges offset (int64 (offset + length)) }

def MultipartUploadSession.change (session : MultipartUploadSession) :
    MultipartChange → MultipartUploadSession
  | .recordPart partNumber offset length hash =>
    session.recordPart partNumber offset length hash
  | .addUploaded length => { session with uploadedSize := int64 (session.uploadedSize + length) }
  | .countChunk => { session with chunkCount := int64 (session.chunkCount + 1) }
  | .touch now => { session with updatedAt := now }
  | .close => { session with closed := true }
  | .finish now => { session with status := .completed, updatedAt := now }
  | .abort now => { session with status := .aborted, updatedAt := now }
  | .expire => { session with status := .expired }

inductive DownloadChange where
  | addDownloaded (length : Int)
  | countChunk
  | touch (now : String)
  | finish (status : SessionStatus) (now : String)
  | expire

def DownloadSession.change (session : DownloadSession) : DownloadChange → DownloadSession
  | .addDownloaded length =>
    { session with downloadedSize := int64 (session.downloadedSize + length) }
  | .countChunk => { session with chunkCount := int64 (session.chunkCount + 1) }
  | .touch now => { session with updatedAt := now }
  | .finish status now => { session with status := status, updatedAt := now }
  | .expire => { session with status := .expired }

end FsServer
