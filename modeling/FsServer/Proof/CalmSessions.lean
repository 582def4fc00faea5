import FsServer.Proof.CalmUploads
import FsServer.Proof.FailedUpload

/-!
# Upload sessions without faults

One client sends a file through a session, chunk after chunk in order. The temporary file then holds
what has been sent and zeros after it, the counter and the running hash are those of the bytes sent,
and the completion stores the file under the row that the client has named.
-/

namespace FsServer

open Lib Program World FileTransferService Sessions

variable {α β : Type} {post : α → World → Prop}

/-- The instance has this session with these bytes in its temporary file, and rows and objects are
those of the world before. -/
structure Holding (base : World) (inst : Nat) (sessionID : String) (address : Address)
    (session : UploadSession) (content : Bytes) (world : World) : Prop where
  db : world.db = base.db
  storage : world.storage = base.storage
  allowed : world.sessions.tempDirAllowed = base.sessions.tempDirAllowed
  loaded : (world.sessions.instances inst).uploadSessions.lookup sessionID = some address
  held : world.sessions.uploads address = session
  fileOf : world.sessions.fileOf (.upload sessionID) = some content
  handle : ∀ inode, session.tempFile = some inode →
    world.sessions.temps.lookup (.upload sessionID) = some inode

variable {rest : Unit → Service α} {inode : Inode}

section Holding

variable {base world : World} {inst : Nat} {sessionID : String} {address : Address}
  {session : UploadSession} {content : Bytes}

theorem Holding.setLocks (h : Holding base inst sessionID address session content world)
    (locks : LockKey → Option Token) :
    Holding base inst sessionID address session content { world with locks := locks } :=
  ⟨h.db, h.storage, h.allowed, h.loaded, h.held, h.fileOf, h.handle⟩

theorem Holding.setUpload (h : Holding base inst sessionID address session content world)
    (changed : UploadSession)
    (hhandle : ∀ inode, changed.tempFile = some inode → session.tempFile = some inode) :
    Holding base inst sessionID address changed content
      { world with sessions := world.sessions.setUpload address changed } where
  db := h.db
  storage := h.storage
  allowed := h.allowed
  loaded := h.loaded
  held := Function.update_self ..
  fileOf := h.fileOf
  handle := fun inode hinode => h.handle inode (hhandle inode hinode)

theorem UploadSession.tempFile_change (session : UploadSession) (change : UploadChange) :
    (session.change change).tempFile = session.tempFile := by
  cases change <;> rfl

variable {offset : Int}

section

variable (h : Holding base inst sessionID address session content world)
include h

theorem Holding.calm_read {rest : UploadSession → Service α}
    (hrest : (rest session).Ensures calm post world) :
    (Service.session (.readUpload address) >>= rest).Ensures calm post world := by
  rw [calm_readUpload, h.held]
  exact hrest

theorem Holding.calm_change {change : UploadChange} {rest : UploadSession → Service α}
    (hrest : ∀ after, Holding base inst sessionID address (session.change change) content after →
      (rest (session.change change)).Ensures calm post after) :
    (Service.session (.changeUpload address change) >>= rest).Ensures calm post world := by
  have hcall : ∀ env : Env, env.fault = none →
      world.sessions.exec env (.changeUpload address change)
        = (session.change change, world.sessions.setUpload address (session.change change)) := by
    intro env _
    simp only [exec, h.held]
  rw [calm_outcome hcall]
  refine hrest _ (h.setUpload _ fun inode hinode => ?_)
  rw [← hinode, session.tempFile_change]

theorem Holding.calm_setRecord {key : String} {record : UploadRecord}
    (hrest : ∀ after, Holding base inst sessionID address session content after →
      (rest ()).Ensures calm post after) :
    (Service.session (.setUploadRecord key record) >>= rest).Ensures calm post world := by
  refine calm_session fun env hcalm => hrest _ ?_
  simp only [exec, hcalm, Option.isSome_none, Bool.false_eq_true, if_false]
  exact ⟨h.db, h.storage, h.allowed, h.loaded, h.held, h.fileOf, h.handle⟩

theorem Holding.calm_uploadSession {rest : Option Address → Service α}
    (hrest : (rest (some address)).Ensures calm post world) :
    (uploadSession inst sessionID >>= rest).Ensures calm post world := by
  unfold uploadSession
  rw [bind_bind]
  refine calm_session fun env _ => ?_
  simp only [exec, h.loaded]
  exact hrest

theorem Holding.calm_writeChunk (hinode : session.tempFile = some inode) {data : Bytes}
    (hoffset : 0 ≤ offset) (hend : offset + data.length ≤ maxInt64)
    {rest : WriteOutcome → Service α} (hrest : ∀ after,
      Holding base inst sessionID address session (overwrite 0 content data offset.toNat) after →
        (rest .written).Ensures calm post after) :
    (Service.session (.writeChunk address sessionID data offset) >>= rest).Ensures calm post
      world := by
  have hcontent : world.sessions.inodes inode = content := by
    have hfile := h.fileOf
    rw [Sessions.fileOf, h.handle inode hinode, Option.map_some, Option.some.injEq] at hfile
    exact hfile
  have hcall : ∀ env : Env, env.fault = none →
      world.sessions.exec env (.writeChunk address sessionID data offset)
        = (.written, world.sessions.setInode inode (overwrite 0 content data offset.toNat)) := by
    intro env hcalm
    have hrange : ¬ (offset < 0 ∨ offset + data.length > maxInt64) := by omega
    simp only [exec, writeChunk, h.held, hinode, writeAt, hrange,
      if_false, hcalm, hcontent]
  rw [calm_outcome hcall]
  refine hrest _ ⟨h.db, h.storage, h.allowed, h.loaded, h.held, ?_, h.handle⟩
  rw [Sessions.fileOf]
  dsimp only [setInode]
  rw [h.handle inode hinode, Option.map_some, Function.update_self]

end

def UploadSession.hashed (session : UploadSession) (data : Bytes) (offset : Int) : UploadSession :=
  if session.hashWriter.isSome ∧ session.hashValid then
    if offset = session.lastOffset then
      (session.change (.feedHash data)).change (.setLastOffset (int64 (offset + data.length)))
    else session.change .invalidateHash
  else session

theorem Holding.calm_updateHash (h : Holding base inst sessionID address session content world)
    {data : Bytes}
    (hrest : ∀ after, Holding base inst sessionID address (session.hashed data offset) content after →
      (rest ()).Ensures calm post after) :
    (updateHash address data offset >>= rest).Ensures calm post world := by
  unfold UploadSession.hashed at hrest
  unfold updateHash
  rw [bind_bind]
  refine h.calm_read ?_
  split_ifs at hrest ⊢ with hactive hnext
  · rw [bind_bind]
    refine h.calm_change fun fed hfed => ?_
    rw [bind_bind]
    exact hfed.calm_change hrest
  · rw [bind_bind]
    exact h.calm_change hrest
  · exact hrest world h

end Holding

/-! ### Chunks in order -/

/-- The session of this file after these bytes. -/
structure UploadSession.Streams (session : UploadSession) (file : UploadMetadata) (received : Bytes) :
    Prop where
  filePath : session.filePath = normalizePath file.path
  fileName : session.fileName = file.name
  totalSize : session.totalSize = file.totalSize
  hash : session.hash = file.hash
  uploadedSize : session.uploadedSize = received.length
  opened : session.tempFile.isSome = true
  unclosed : session.closed = false
  hashWriter : session.hashWriter = if file.hash ≠ "" then some received else none
  lastOffset : file.hash ≠ "" → session.lastOffset = received.length
  hashValid : file.hash ≠ "" → session.hashValid = true

def padded (totalSize : Int) (received : Bytes) : Bytes :=
  received ++ List.replicate (totalSize.toNat - received.length) 0

variable {totalSize : Int}

theorem padded_eq_self {received : Bytes} (h : (received.length : Int) = totalSize) :
    padded totalSize received = received := by
  have hnone : totalSize.toNat - received.length = 0 := by omega
  rw [padded, hnone, List.replicate_zero, List.append_nil]

theorem overwrite_padded {received data : Bytes}
    (h : (received.length + data.length : Int) ≤ totalSize) :
    overwrite 0 (padded totalSize received) data received.length
      = padded totalSize (received ++ data) := by
  have hlength : received.length + data.length ≤ (padded totalSize received).length := by
    rw [padded, List.length_append, List.length_replicate]
    omega
  have hleft : totalSize.toNat - received.length - data.length
      = totalSize.toNat - (received ++ data).length := by
    rw [List.length_append]
    omega
  rw [overwrite_of_le 0 hlength, padded, padded, List.take_left, ← List.drop_drop, List.drop_left,
    List.drop_replicate, hleft]

/-- The session is at this point of the file. -/
def Streaming (base : World) (inst : Nat) (sessionID : String) (file : UploadMetadata)
    (received : Bytes) (world : World) : Prop :=
  ∃ address session,
    Holding base inst sessionID address session (padded file.totalSize received) world ∧
      session.Streams file received

section Chunks

variable {base world : World} {inst : Nat} {sessionID : String} {file : UploadMetadata}
  {received data : Bytes} {session : UploadSession}

theorem UploadSession.Streams.hashed (h : session.Streams file received)
    (hend : (received.length + data.length : Int) ≤ maxInt64) :
    let hashed := session.hashed data received.length
    hashed.toUploadRecord = session.toUploadRecord ∧ hashed.tempFile = session.tempFile ∧
      hashed.closed = session.closed ∧
      hashed.hashWriter = (if file.hash ≠ "" then some (received ++ data) else none) ∧
      (file.hash ≠ "" → hashed.lastOffset = received.length + data.length ∧
        hashed.hashValid = true) := by
  intro hashed
  by_cases hhash : file.hash = ""
  · have hnone : session.hashWriter = none := by
      rw [h.hashWriter, if_neg (not_not.mpr hhash)]
    have hsame : hashed = session := by
      refine if_neg fun hactive => ?_
      rw [hnone] at hactive
      exact Bool.false_ne_true hactive.1
    rw [hsame, if_neg (not_not.mpr hhash)]
    exact ⟨rfl, rfl, rfl, hnone, fun hne => absurd hhash hne⟩
  · have hsome : session.hashWriter = some received := by
      rw [h.hashWriter, if_pos hhash]
    have hactive : session.hashWriter.isSome ∧ session.hashValid = true :=
      ⟨by rw [hsome, Option.isSome_some], h.hashValid hhash⟩
    have hfed : hashed = (session.change (.feedHash data)).change
        (.setLastOffset (int64 (received.length + data.length))) := by
      change session.hashed data received.length = _
      rw [UploadSession.hashed, if_pos hactive, if_pos (h.lastOffset hhash).symm]
    rw [hfed, if_pos hhash]
    refine ⟨rfl, rfl, rfl, ?_, fun _ => ⟨?_, hactive.2⟩⟩
    · simp only [UploadSession.change, hsome, Option.map_some]
    · exact int64_of_range (by omega) hend

theorem UploadSession.Streams.chunk (h : session.Streams file received)
    (hend : (received.length + data.length : Int) ≤ maxInt64) :
    (((session.hashed data received.length).change (.addUploaded data.length)).change
      .countChunk).Streams file (received ++ data) := by
  obtain ⟨hrecord, htemp, hclosed, hwriter, hrunning⟩ := h.hashed hend
  have hsum : ((received ++ data).length : Int) = received.length + data.length := by
    rw [List.length_append, Nat.cast_add]
  refine ⟨?_, ?_, ?_, ?_, ?_, ?_, ?_, hwriter, ?_, fun hhash => (hrunning hhash).2⟩
  · exact (congrArg UploadRecord.filePath hrecord).trans h.filePath
  · exact (congrArg UploadRecord.fileName hrecord).trans h.fileName
  · exact (congrArg UploadRecord.totalSize hrecord).trans h.totalSize
  · exact (congrArg UploadRecord.hash hrecord).trans h.hash
  · have hcount := (congrArg UploadRecord.uploadedSize hrecord).trans h.uploadedSize
    rw [hsum]
    change int64 ((session.hashed data received.length).uploadedSize + data.length) = _
    rw [hcount]
    exact int64_of_range (by omega) hend
  · exact (congrArg Option.isSome htemp).trans h.opened
  · exact hclosed.trans h.unclosed
  · intro hhash
    rw [hsum]
    exact (hrunning hhash).1

theorem UploadSession.Streams.touch (h : session.Streams file received) (now : String) :
    (session.change (.touch now)).Streams file received :=
  ⟨h.filePath, h.fileName, h.totalSize, h.hash, h.uploadedSize, h.opened, h.unclosed, h.hashWriter,
    h.lastOffset, h.hashValid⟩

variable {address : Address}

theorem calm_uploadChunkBody
    (h : Holding base inst sessionID address session (padded file.totalSize received) world)
    (hstreams : session.Streams file received) (ctx : Context)
    (hroom : (received.length + data.length : Int) ≤ file.totalSize)
    (hmax : file.totalSize ≤ maxInt64) :
    (uploadChunkBody ctx address sessionID data received.length).Ensures calm
      (fun result after => result = .ok () ∧
        Streaming base inst sessionID file (received ++ data) after) world := by
  have hend : (received.length + data.length : Int) ≤ maxInt64 := hroom.trans hmax
  obtain ⟨inode, hinode⟩ := Option.isSome_iff_exists.mp hstreams.opened
  have hnext := hstreams.chunk hend
  unfold uploadChunkBody
  refine h.calm_read ?_
  have hinside : ¬ int64 (received.length + data.length) > session.totalSize := by
    rw [int64_of_range (by omega) hend, hstreams.totalSize]
    omega
  rw [if_neg (by rw [hstreams.unclosed]; exact Bool.false_ne_true), if_neg (by omega),
    if_neg hinside]
  refine h.calm_writeChunk hinode (by omega) hend fun written hwritten => ?_
  rw [Int.toNat_natCast, overwrite_padded hroom] at hwritten
  refine hwritten.calm_updateHash fun hashed hhashed => ?_
  refine hhashed.calm_change fun added hadded => hadded.calm_change fun counted hcounted => ?_
  split_ifs
  · refine hcounted.calm_change fun touched htouched => htouched.calm_setRecord fun after hafter => ?_
    exact ⟨rfl, _, _, hafter, hnext.touch _⟩
  · exact ⟨rfl, _, _, hcounted, hnext⟩

theorem calm_uploadChunk (h : Streaming base inst sessionID file received world) {ctx : Context}
    (hinst : ctx.inst = inst) (hroom : (received.length + data.length : Int) ≤ file.totalSize)
    (hmax : file.totalSize ≤ maxInt64) :
    (uploadChunk ctx sessionID data received.length).Ensures calm
      (fun result after => result = .ok () ∧
        Streaming base inst sessionID file (received ++ data) after) world := by
  obtain ⟨address, session, hholding, hstreams⟩ := h
  unfold uploadChunk
  rw [hinst]
  refine hholding.calm_uploadSession (calm_acquire ?_)
  rw [if_pos rfl, ensures_bind]
  refine (calm_uploadChunkBody (hholding.setLocks _) hstreams ctx hroom hmax).mono _ ?_
  rintro result after ⟨rfl, address, session, hholding, hstreams⟩
  rw [calm_unlock]
  refine ⟨rfl, address, session, ?_, hstreams⟩
  split_ifs
  · exact hholding.setLocks _
  · exact hholding

end Chunks

/-! ### Opening -/

def World.slotFree (world : World) (inst : Nat) : Bool :=
  decide (int64 ((world.sessions.instances inst).sessionCount + 1) ≤ world.sessions.maxSessions)

section Opening

variable {world : World} {ctx : Context} {file : UploadMetadata} {clientID : String}

theorem calm_acquireSessionSlot {inst : Nat} {rest : Bool → Service α}
    (hfree : world.slotFree inst = true → ∀ sessions : Sessions,
      sessions.tempDirAllowed = world.sessions.tempDirAllowed →
        (rest true).Ensures calm post { world with sessions := sessions })
    (hfull : world.slotFree inst = false → ∀ sessions,
      (rest false).Ensures calm post { world with sessions := sessions }) :
    (acquireSessionSlot inst >>= rest).Ensures calm post world := by
  unfold acquireSessionSlot
  rw [bind_bind, calm_outcome fun _ _ => rfl, bind_bind, calm_outcome fun _ _ => rfl]
  split_ifs with hcount
  · unfold releaseSessionSlot
    rw [bind_bind, bind_bind, calm_outcome fun _ _ => rfl]
    refine hfull ?_ _
    rw [slotFree, decide_eq_false_iff_not, not_le]
    exact hcount
  · refine hfree ?_ _ rfl
    rw [slotFree, decide_eq_true_eq]
    exact not_lt.mp hcount

theorem streams_newUploadSession (inode : Inode) :
    (newUploadSession ctx file.path file.name file.totalSize clientID file.hash inode).Streams file
      [] where
  filePath := rfl
  fileName := rfl
  totalSize := rfl
  hash := rfl
  uploadedSize := rfl
  opened := rfl
  unclosed := rfl
  hashWriter := rfl
  lastOffset := fun _ => rfl
  hashValid := fun hhash => decide_eq_true hhash

theorem create_named (sessions : Sessions) (name : TempName) :
    (sessions.create name).2.temps.lookup name = some (sessions.create name).1 ∧
      (sessions.create name).2.inodes (sessions.create name).1 = [] ∧
      (sessions.create name).2.tempDirAllowed = sessions.tempDirAllowed := by
  unfold create
  cases hname : sessions.temps.lookup name with
  | none => simp
  | some inode => simp [setInode, hname]

variable {env : Env} {sessions : Sessions}

theorem holding_stored {inst : Nat} {sessionID : String} {session : UploadSession} {content : Bytes}
    (hcontent : sessions.inodes inode = content)
    (hallowed : sessions.tempDirAllowed = world.sessions.tempDirAllowed)
    (hnamed : sessions.temps.lookup (.upload sessionID) = some inode)
    (hhandle : session.tempFile = some inode) :
    Holding world inst sessionID sessions.nextAddress session content
      { world with sessions := (sessions.exec env (.storeUpload inst sessionID session)).2 } where
  db := rfl
  storage := rfl
  allowed := hallowed
  loaded := by
    simp [exec, setInstance, setUpload]
  held := Function.update_self ..
  fileOf := by
    simp [exec, setInstance, setUpload, Sessions.fileOf, hnamed, hcontent]
  handle := by
    intro other hother
    rw [hhandle, Option.some.injEq] at hother
    rw [← hother]
    exact hnamed

theorem truncate_nil (totalSize : Int) : truncate [] totalSize.toNat = padded totalSize [] := by
  rw [truncate, padded, List.take_nil, List.length_nil]

theorem holding_storeUpload {inst : Nat} {sessionID : String} {session : UploadSession}
    (hallowed : sessions.tempDirAllowed = world.sessions.tempDirAllowed)
    (hnamed : sessions.temps.lookup (.upload sessionID) = some inode)
    (hempty : sessions.inodes inode = []) (hhandle : session.tempFile = some inode) :
    Holding world inst sessionID sessions.nextAddress session (padded totalSize [])
      { world with
        sessions := ((sessions.setInode inode
          (truncate (sessions.inodes inode) totalSize.toNat)).exec env
            (.storeUpload inst sessionID session)).2 } := by
  have hzeros : (sessions.setInode inode
      (truncate (sessions.inodes inode) totalSize.toNat)).inodes inode
        = padded totalSize [] := by
    rw [hempty, truncate_nil]
    exact Function.update_self ..
  exact holding_stored hzeros hallowed hnamed hhandle

theorem calm_createUploadSession (hsize : 0 < file.totalSize) :
    (createUploadSession ctx file.path file.name file.totalSize clientID file.hash).Ensures
      calm (fun result after =>
        (world.slotFree ctx.inst = true →
          result = .ok ctx.id ∧ Streaming world ctx.inst ctx.id file [] after) ∧
        (world.slotFree ctx.inst = false → result = .error .tooManySessions)) world := by
  unfold createUploadSession
  refine calm_acquireSessionSlot (fun hfree sessions hallowed => ?_) fun hfull sessions => ?_
  · rw [if_pos rfl]
    refine calm_session fun env hcalm => ?_
    simp only [exec, hcalm, Option.isSome_none, Bool.false_eq_true, if_false]
    obtain ⟨hnamed, hempty, hsame⟩ := create_named sessions (.upload ctx.id)
    unfold preallocate
    rw [if_pos hsize]
    refine calm_session fun env hcalm => ?_
    have hpositive : ¬ file.totalSize < 0 := by omega
    simp only [exec, hcalm, Option.isSome_none, Bool.false_eq_true, or_false, hpositive,
      if_false, if_true]
    refine calm_session fun env _ => ?_
    refine (holding_storeUpload (hsame.trans hallowed) hnamed hempty rfl).calm_setRecord
      fun after hafter => ⟨fun _ => ⟨rfl, _, _, hafter, ?_⟩, fun hfull => ?_⟩
    · exact streams_newUploadSession _
    · rw [hfree] at hfull
      cases hfull
  · refine ⟨fun hfree => ?_, fun _ => rfl⟩
    rw [hfull] at hfree
    cases hfree

end Opening

/-! ### Completing -/

def storedHash (sha256 : Bytes → String) (crypto : Option CryptoService) (nonce : Nonce)
    (content : Bytes) (hash : String) : String :=
  match crypto with
  | some service => if service.enabled then sha256 (service.encrypt nonce content) else hash
  | none => hash

section Completing

variable {world : World} {sha256 : Bytes → String} {crypto : Option CryptoService} {ctx : Context}
  {sessionID hash : String} {path name : Path} {size : Int} {content : Bytes} {temp : TempName}

theorem calm_encryptTempFile {nonce : Nonce}
    {rest : Except TransferError (TempName × String) → Service α}
    (hfile : world.sessions.fileOf (.upload sessionID) = some content)
    (hrest : ∀ temp sessions, sessions.fileOf temp = some (UploadOperation.sealed crypto nonce content) →
      sessions.tempDirAllowed = world.sessions.tempDirAllowed →
        (rest (.ok (temp, storedHash sha256 crypto nonce content hash))).Ensures calm post
          { world with sessions := sessions }) :
    (encryptTempFile sha256 crypto nonce sessionID hash >>= rest).Ensures calm post world := by
  unfold encryptTempFile
  cases crypto with
  | none => exact hrest _ world.sessions hfile rfl
  | some service =>
    dsimp only [storedHash, UploadOperation.sealed] at hrest ⊢
    split_ifs at hrest ⊢ with henabled
    · have hread : ∀ env : Env, env.fault = none →
          world.sessions.exec env (.readTemp (.upload sessionID)) = (some content, world.sessions) := by
        intro env hcalm
        simp [exec, hcalm, hfile]
      rw [bind_bind, calm_outcome hread, bind_bind]
      refine calm_session fun env hcalm => ?_
      simp only [exec, hcalm, if_true]
      rw [bind_bind]
      refine calm_session fun env hcalm => ?_
      simp only [exec, hcalm, Option.isSome_none, Bool.false_eq_true, if_false]
      rw [bind_bind]
      refine calm_session fun env hcalm => ?_
      have hsealed := (fileOf_erase ((world.sessions.create (.uploadEncrypted sessionID)).2.setInode
        (world.sessions.create (.uploadEncrypted sessionID)).1 (service.encrypt nonce content))
        (show TempName.uploadEncrypted sessionID ≠ .upload sessionID by simp)).trans
        (fileOf_writeTemp world.sessions _ _)
      simp only [exec, hashTemp, hcalm, hsealed]
      exact hrest _ _ hsealed (create_named _ _).2.2
    · refine hrest _ world.sessions ?_ rfl
      rw [hfile, CryptoService.encrypt, if_neg henabled]

def World.movable (world : World) (path : Path) : Bool :=
  world.sessions.tempDirAllowed && world.storage.accepts path

theorem calm_moveIntoPlace {rest : Except StorageError Unit → Service α}
    (hfile : world.sessions.fileOf temp = some content)
    (hok : world.movable path = true → ∀ storage sessions,
      world.storage.Stores storage (world.storage.getFullPath path) (some content) →
        (rest (.ok ())).Ensures calm post
          { world with storage := storage, sessions := sessions })
    (hfailed : world.movable path = false → ∀ cause,
      (rest (.error cause)).Ensures calm post world) :
    (Service.writeFromTempFile path temp >>= rest).Ensures calm post world := by
  have hplaced := world.storage.isOk_place path content .createDestination
  rw [calm_writeFromTempFile, writeFromTempFile]
  rw [movable, ← hplaced] at hok hfailed
  split_ifs with hvalid hallowed
  · cases hplace : world.storage.place path content .createDestination with
    | ok storage =>
      simp only [hfile, LocalStorage.writeFromTempFile, hplace]
      refine hok ?_ _ _ (LocalStorage.place_ok hplace)
      rw [hallowed, hplace]
      rfl
    | error cause =>
      simp only [hfile, LocalStorage.writeFromTempFile, hplace]
      refine hfailed ?_ _
      rw [hplace]
      exact Bool.and_false _
  · refine hfailed ?_ _
    rw [Bool.eq_false_iff.mpr hallowed]
    rfl
  · refine hfailed ?_ _
    rw [LocalStorage.place, if_neg hvalid]
    exact Bool.and_false _

theorem Outcome.rebase {base middle after : World} {ok : Bool}
    (h : Outcome middle path (uploadedRow middle ctx path name size hash) content
      (middle.movable path) ok after) (hdb : middle.db = base.db)
    (hstorage : middle.storage = base.storage)
    (hallowed : middle.sessions.tempDirAllowed = base.sessions.tempDirAllowed) :
    Outcome base path (uploadedRow base ctx path name size hash) content (base.movable path) ok
      after := by
  have hrow : uploadedRow middle ctx path name size hash = uploadedRow base ctx path name size hash := by
    rw [uploadedRow, uploadedRow, hdb]
  have hmovable : middle.movable path = base.movable path := by
    rw [movable, movable, hallowed, hstorage]
  rw [hrow, hmovable] at h
  exact h.of_same hdb hstorage

theorem calm_recordUpload {rest : Except TransferError FileMetadata → Service α}
    (hpath : Ordinary path) (hid : FreshId world ctx.id)
    (hrest : ∀ db metadata, Database.Puts world.db db path (uploadedRow world ctx path name size hash) →
      (rest (.ok metadata)).Ensures calm post { world with db := db }) :
    (recordUpload ctx path name size hash >>= rest).Ensures calm post world := by
  unfold recordUpload
  rw [bind_bind, calm_existing hpath]
  cases hlive : world.db.liveFile path with
  | some row =>
    rw [uploadedRow, hlive] at hrest
    obtain ⟨hrow, -⟩ := Database.liveFile_eq_some.mp hlive
    obtain rfl := Database.path_of_liveFile hlive
    rw [bind_bind]
    exact calm_update hrow rfl rfl fun db hputs => hrest db _ hputs
  | none =>
    rw [uploadedRow, hlive] at hrest
    rw [bind_bind]
    exact calm_create hpath rfl hlive hid fun db hputs => hrest db _ hputs

theorem calm_discardUpload {inst : Nat}
    (hrest : ∀ sessions, (rest ()).Ensures calm post { world with sessions := sessions }) :
    (discardUpload inst sessionID >>= rest).Ensures calm post world := by
  unfold discardUpload releaseSessionSlot
  rw [bind_bind]
  refine calm_session fun env _ => ?_
  rw [bind_bind]
  exact calm_session fun env _ => hrest _

theorem calm_storeUpload {address : Address} {current : UploadSession} {hashVerified : Bool}
    (hpath : Ordinary current.filePath) (hid : FreshId world ctx.id)
    (hfile : world.sessions.fileOf temp = some content) :
    (storeUpload ctx address current sessionID hashVerified temp hash).Ensures calm
      (fun result after => Outcome world current.filePath
        (uploadedRow world ctx current.filePath current.fileName current.totalSize hash) content
        (world.movable current.filePath) result.isOk after) world := by
  unfold storeUpload
  refine calm_moveIntoPlace hfile (fun hmovable storage sessions hstores => ?_)
    fun hrefused cause => ?_
  · refine calm_recordUpload hpath hid fun db metadata hputs => ?_
    refine calm_session fun env _ => calm_discardUpload fun _ => ?_
    refine calm_session fun env _ => calm_session fun env _ => ?_
    exact ⟨hmovable.symm, fun _ => ⟨hputs, hstores⟩⟩
  · refine calm_session fun env _ => calm_discardUpload fun _ => ?_
    exact .refused hrefused

end Completing

def hashMatches (sha256 : Bytes → String) (content : Bytes) (hash : String) : Bool :=
  decide (hash = "" ∨ sha256 content = hash)

section Finishing

variable {base world : World} {sha256 : Bytes → String} {crypto : Option CryptoService}
  {ctx : Context} {inst : Nat} {sessionID : String} {address : Address}
  {session current : UploadSession} {content : Bytes}

section

variable (h : Holding base inst sessionID address session content world)
include h

theorem Holding.calm_closeTempFile {rest : CloseOutcome → Service α} (hrest : ∀ after,
      Holding base inst sessionID address { session with tempFile := none } content after →
        (rest .closed).Ensures calm post after) :
    (Service.session (.closeTempFile address) >>= rest).Ensures calm post world := by
  cases hfile : session.tempFile with
  | none =>
    have hcall : ∀ env : Env, env.fault = none →
        world.sessions.exec env (.closeTempFile address) = (.closed, world.sessions) := by
      intro env _
      simp only [exec, closeTempFile, h.held, hfile]
    rw [calm_outcome hcall]
    refine hrest world ?_
    rw [← hfile]
    exact h
  | some inode =>
    have hcall : ∀ env : Env, env.fault = none →
        world.sessions.exec env (.closeTempFile address)
          = (.closed, world.sessions.setUpload address { session with tempFile := none }) := by
      intro env hcalm
      simp only [exec, closeTempFile, h.held, hfile, hcalm]
    rw [calm_outcome hcall]
    refine hrest _ (h.setUpload _ fun other hother => ?_)
    cases hother

theorem Holding.calm_verifyHash {hash : String}
    (hwriter : hash ≠ "" → session.hashWriter = some content)
    (hvalid : hash ≠ "" → session.hashValid = true) {rest : Except TransferError Bool → Service α}
    (hok : hashMatches sha256 content hash = true → ∀ verified,
      (rest (.ok verified)).Ensures calm post world)
    (hmismatch : hashMatches sha256 content hash = false → ∀ cause,
      (rest (.error cause)).Ensures calm post world) :
    (verifyHash sha256 address sessionID hash >>= rest).Ensures calm post world := by
  unfold verifyHash
  split_ifs with hhash
  · unfold hashedBytes
    rw [bind_bind, bind_bind]
    refine h.calm_read ?_
    rw [if_pos ⟨by rw [hwriter hhash, Option.isSome_some], hvalid hhash⟩, bind_bind]
    refine h.calm_read ?_
    rw [hwriter hhash]
    change ((if sha256 content = hash then _ else _ : Service (Except TransferError Bool))
      >>= rest).Ensures calm post world
    split_ifs with hequal
    · exact hok (decide_eq_true (Or.inr hequal)) _
    · exact hmismatch (decide_eq_false (not_or.mpr ⟨hhash, hequal⟩)) _
  · exact hok (decide_eq_true (Or.inl (not_not.mp hhash))) _

theorem Holding.calm_finishUpload (hpath : Ordinary current.filePath) (hid : FreshId base ctx.id)
    (hwriter : current.hash ≠ "" → session.hashWriter = some content)
    (hvalid : current.hash ≠ "" → session.hashValid = true) :
    (finishUpload sha256 crypto ctx address current sessionID).Ensures calm
      (fun result after => Outcome base current.filePath
        (uploadedRow base ctx current.filePath current.fileName current.totalSize
          (storedHash sha256 crypto ctx.nonce content current.hash))
        (UploadOperation.sealed crypto ctx.nonce content)
        (hashMatches sha256 content current.hash && base.movable current.filePath)
        result.isOk after) world := by
  unfold finishUpload
  refine h.calm_closeTempFile fun closed hclosed => ?_
  refine hclosed.calm_verifyHash hwriter hvalid (fun hmatches verified => ?_) fun hmismatch cause => ?_
  · rw [hmatches, Bool.true_and]
    refine calm_encryptTempFile hclosed.fileOf fun temp sessions hfile hallowed => calm_acquire ?_
    rw [if_pos rfl, ensures_bind]
    have hfresh : FreshId (setLock { closed with sessions := sessions }
        (.file current.filePath) (some ctx.token)) ctx.id := by
      rw [FreshId, setLock, hclosed.db]
      exact hid
    refine (calm_storeUpload hpath hfresh hfile).mono _ fun result after houtcome => ?_
    rw [calm_unlock]
    have hbase := houtcome.rebase hclosed.db hclosed.storage (hallowed.trans hclosed.allowed)
    split_ifs
    · exact hbase.setLocks _
    · exact hbase
  · refine calm_session fun env _ => calm_discardUpload fun _ => ?_
    refine .refused ?_
    rw [hmismatch, Bool.false_and]

end

theorem calm_completeUpload {file : UploadMetadata}
    (h : Streaming base inst sessionID file content world) (hinst : ctx.inst = inst)
    (hsize : (content.length : Int) = file.totalSize) (hpath : Ordinary (normalizePath file.path))
    (hid : FreshId base ctx.id) :
    (completeUpload sha256 crypto ctx sessionID).Ensures calm
      (fun result after => Outcome base (normalizePath file.path)
        (uploadedRow base ctx (normalizePath file.path) file.name file.totalSize
          (storedHash sha256 crypto ctx.nonce content file.hash))
        (UploadOperation.sealed crypto ctx.nonce content)
        (hashMatches sha256 content file.hash && base.movable (normalizePath file.path))
        result.isOk after) world := by
  obtain ⟨address, session, hholding, hstreams⟩ := h
  rw [padded_eq_self hsize] at hholding
  unfold completeUpload
  rw [hinst]
  refine hholding.calm_uploadSession (hholding.calm_read ?_)
  rw [if_neg (not_not.mpr (hstreams.uploadedSize.trans (hsize.trans hstreams.totalSize.symm)))]
  refine hholding.calm_change fun closed hclosed => ?_
  have hwriter : session.hash ≠ "" → session.hashWriter = some content := by
    rw [hstreams.hash, hstreams.hashWriter]
    exact fun hhash => if_pos hhash
  have hvalid : session.hash ≠ "" → session.hashValid = true := by
    rw [hstreams.hash]
    exact hstreams.hashValid
  rw [← hstreams.filePath] at hpath ⊢
  rw [← hstreams.fileName, ← hstreams.totalSize, ← hstreams.hash]
  exact hclosed.calm_finishUpload hpath hid hwriter hvalid

end Finishing

end FsServer
