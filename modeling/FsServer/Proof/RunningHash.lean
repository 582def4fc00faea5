import FsServer.Proof.CalmSessions
import FsServer.Proof.Upload

/-!
# The running hash

`UploadChunk` feeds each chunk to a running hash as long as the chunks come one after another, and
`CompleteUpload` then looks at it in place of the temporary file. While the running hash is in use it
has taken every byte that was counted, and the file begins with these bytes and has zeros after them.
So when all bytes are counted, the running hash has taken the file.
-/

namespace FsServer

open Lib Program World FileTransferService UploadSession

/-- A call that fails has no effect: of a write that fails no byte is in the file. -/
def World.intact : Handler Env Call World := fun _ env call world =>
  World.handle _ { env with fault := env.fault.map fun _ => 0 } call world

variable {α β : Type} {post : α → World → Prop} {middle : β → World → Prop} {world : World}

theorem intact_bind {program : Service β} {rest : β → Service α}
    (h : program.Ensures World.handle middle world)
    (hrest : ∀ value after, middle value after → (rest value).Ensures intact post after) :
    (program >>= rest).Ensures intact post world := by
  rw [ensures_bind]
  refine Ensures.mono _ ?_ hrest
  exact h.restrict _ fun hcall => ⟨_, hcall⟩

theorem ensures_perform_session {call : SessionCall β}
    (h : ∀ env, middle (world.sessions.exec env call).1
      { world with sessions := (world.sessions.exec env call).2 }) :
    (Service.session call).Ensures World.handle middle world := by
  intro env reply after hcall
  cases hcall
  exact h env

variable {key : LockKey} {token : Token}

theorem intact_acquire {rest : Bool → Service α}
    (h : ∀ granted locks, (rest granted).Ensures intact post { world with locks := locks }) :
    (Service.acquire key token >>= rest).Ensures intact post world := by
  intro env reply after hcall
  simp only [intact, World.handle, lockExec] at hcall
  split_ifs at hcall
  · cases hcall
    exact h _ world.locks
  · cases hcall
    exact h _ _

theorem intact_unlock {rest : Unit → Service α}
    (h : ∀ locks, (rest ()).Ensures intact post { world with locks := locks }) :
    (Service.unlock key token >>= rest).Ensures intact post world := by
  intro env reply after hcall
  cases hcall
  split_ifs
  · exact h _
  · exact h world.locks

variable {inode : Inode}

section Holding

variable {base : World} {inst : Nat} {sessionID : String} {address : Address}
  {session : UploadSession} {content : Bytes}

section

variable (h : Holding base inst sessionID address session content world)
include h

theorem Holding.ensures_change (change : UploadChange) :
    (Service.session (.changeUpload address change)).Ensures World.handle
      (fun reply after => reply = session.change change ∧
        Holding base inst sessionID address (session.change change) content after) world := by
  refine ensures_perform_session fun env => ?_
  simp only [Sessions.exec, h.held]
  refine ⟨trivial, h.setUpload _ fun inode hinode => ?_⟩
  rw [← hinode, session.tempFile_change]

theorem Holding.ensures_setRecord (key : String) (record : UploadRecord) :
    (Service.session (.setUploadRecord key record)).Ensures World.handle
      (fun _ after => Holding base inst sessionID address session content after) world := by
  refine ensures_perform_session fun env => ?_
  simp only [Sessions.exec]
  split_ifs
  · exact h
  · exact ⟨h.db, h.storage, h.allowed, h.loaded, h.held, h.fileOf, h.handle⟩

theorem Holding.ensures_read :
    (Service.session (.readUpload address)).Ensures World.handle
      (fun reply after => reply = session ∧ after = world) world :=
  ensures_perform_session fun _ => ⟨h.held, rfl⟩

theorem Holding.ensures_updateHash (data : Bytes) (offset : Int) :
    (updateHash address data offset).Ensures World.handle (fun _ after =>
      Holding base inst sessionID address (session.hashed data offset) content after) world := by
  unfold updateHash hashed
  rw [ensures_bind]
  refine h.ensures_read.mono _ ?_
  rintro current after ⟨rfl, rfl⟩
  split_ifs with hactive hnext
  · rw [ensures_bind]
    refine (h.ensures_change (.feedHash data)).mono _ fun fed middle hfed => ?_
    rw [ensures_bind]
    exact (hfed.2.ensures_change _).mono _ fun _ _ hset => hset.2
  · rw [ensures_bind]
    exact (h.ensures_change .invalidateHash).mono _ fun _ _ hset => hset.2
  · exact h

theorem Holding.ensures_uploadSession :
    (uploadSession inst sessionID).Ensures World.handle
      (fun found after => found = some address ∧ after = world) world := by
  unfold uploadSession
  rw [ensures_session]
  intro env
  simp only [Sessions.exec, h.loaded]
  exact ⟨rfl, rfl⟩

theorem Holding.intact_writeChunk (hinode : session.tempFile = some inode) {data : Bytes}
    {offset : Int} {rest : WriteOutcome → Service α}
    (hwritten : 0 ≤ offset → offset + data.length ≤ maxInt64 → ∀ after,
      Holding base inst sessionID address session (overwrite 0 content data offset.toNat) after →
        (rest .written).Ensures intact post after)
    (hfailed : ∀ after, Holding base inst sessionID address session content after →
      (rest .failed).Ensures intact post after) :
    (Service.session (.writeChunk address sessionID data offset) >>= rest).Ensures intact post
      world := by
  have hcontent : world.sessions.inodes inode = content := by
    have hfile := h.fileOf
    rw [Sessions.fileOf, h.handle inode hinode, Option.map_some, Option.some.injEq] at hfile
    exact hfile
  have hput : ∀ bytes, Holding base inst sessionID address session bytes
      { world with sessions := world.sessions.setInode inode bytes } := by
    intro bytes
    refine ⟨h.db, h.storage, h.allowed, h.loaded, h.held, ?_, h.handle⟩
    rw [Sessions.fileOf]
    dsimp only [Sessions.setInode]
    rw [h.handle inode hinode, Option.map_some, Function.update_self]
  intro env reply after hcall
  cases hcall
  simp only [Sessions.exec, Sessions.writeChunk, h.held, hinode, Sessions.writeAt, hcontent]
  split_ifs with hrange
  · exact hfailed _ h
  · cases env.fault with
    | none => exact hwritten (by omega) (by omega) _ (hput _)
    | some n =>
      have hkept := hput (overwrite 0 content (data.take 0) offset.toNat)
      rw [List.take_zero, overwrite_nil] at hkept
      exact hfailed _ hkept

end

end Holding

/-! ### What the running hash has taken -/

/-- While the running hash is in use, it has taken every byte that is counted, and the file has these
bytes and zeros after them. -/
def UploadSession.Tallies (session : UploadSession) (content : Bytes) : Prop :=
  ∀ fed, session.hashWriter = some fed → session.hashValid = true →
    session.lastOffset = fed.length ∧ session.uploadedSize = fed.length ∧
      content = padded session.totalSize fed

section Tallies

variable {session : UploadSession} {content data : Bytes} {offset : Int}

theorem UploadSession.tempFile_hashed :
    (session.hashed data offset).tempFile = session.tempFile := by
  unfold hashed
  split_ifs <;> rfl

/-- A chunk that is written extends what the running hash has taken, or ends its use. -/
theorem UploadSession.Tallies.chunk (h : session.Tallies content)
    (hend : offset + data.length ≤ maxInt64) (hsize : offset + data.length ≤ session.totalSize) :
    (((session.hashed data offset).change (.addUploaded data.length)).change .countChunk).Tallies
      (overwrite 0 content data offset.toNat) := by
  unfold hashed
  split_ifs with hactive hnext
  · -- the chunk begins where the last one ended
    obtain ⟨received, hreceived⟩ := Option.isSome_iff_exists.mp hactive.1
    obtain ⟨hlast, hcount, hcontent⟩ := h received hreceived hactive.2
    have hlength : ((received ++ data).length : Int) = received.length + data.length := by
      rw [List.length_append, Nat.cast_add]
    intro fed hfed _
    have hfed' : fed = received ++ data := by
      change session.hashWriter.map (· ++ data) = some fed at hfed
      rw [hreceived, Option.map_some, Option.some.injEq] at hfed
      exact hfed.symm
    subst hfed'
    rw [hlength]
    refine ⟨?_, ?_, ?_⟩
    · change int64 (offset + data.length) = _
      rw [int64_of_range (by omega) hend, hnext, hlast]
    · change int64 (session.uploadedSize + data.length) = _
      rw [hcount, int64_of_range (by omega) (by omega)]
    · rw [hnext, hlast, Int.toNat_natCast, hcontent]
      refine overwrite_padded ?_
      omega
  · intro fed _ hvalid
    exact absurd hvalid Bool.false_ne_true
  · intro fed hfed hvalid
    refine absurd ⟨?_, hvalid⟩ hactive
    change session.hashWriter = some fed at hfed
    rw [hfed, Option.isSome_some]

theorem UploadSession.Tallies.touch (h : session.Tallies content) (now : String) :
    (session.change (.touch now)).Tallies content := h

theorem tallies_newUploadSession (ctx : Context) (file : Announcement) (inode : Inode) :
    (newUploadSession ctx file.filePath file.fileName file.totalSize file.clientID file.hash
      inode).Tallies (padded file.totalSize []) := by
  intro fed hfed _
  change (if file.hash ≠ "" then some [] else none) = some fed at hfed
  split_ifs at hfed
  cases hfed
  exact ⟨rfl, rfl, rfl⟩

theorem UploadSession.Tallies.complete (h : session.Tallies content)
    (hcomplete : session.uploadedSize = session.totalSize) (hwriter : session.hashWriter.isSome)
    (hvalid : session.hashValid = true) : session.hashWriter = some content := by
  obtain ⟨fed, hfed⟩ := Option.isSome_iff_exists.mp hwriter
  obtain ⟨-, hcount, hcontent⟩ := h fed hfed hvalid
  rw [hcontent, padded_eq_self (hcount.symm.trans hcomplete)]
  exact hfed

end Tallies

/-! ### Chunks in any order -/

/-- The instance has the session open, and its running hash is right. -/
def Tallying (inst : Nat) (sessionID : String) (world : World) : Prop :=
  ∃ base address session content, Holding base inst sessionID address session content world ∧
    session.tempFile.isSome = true ∧ session.Tallies content

theorem Tallying.setLocks {inst : Nat} {sessionID : String} (h : Tallying inst sessionID world)
    (locks : LockKey → Option Token) : Tallying inst sessionID { world with locks := locks } := by
  obtain ⟨base, address, session, content, hholding, hopen, htallies⟩ := h
  exact ⟨base, address, session, content, hholding.setLocks locks, hopen, htallies⟩

theorem intact_uploadChunkBody {base : World} {inst : Nat} {sessionID : String} {address : Address}
    {session : UploadSession} {content : Bytes}
    (h : Holding base inst sessionID address session content world)
    (hopen : session.tempFile.isSome = true) (htallies : session.Tallies content) (ctx : Context)
    (data : Bytes) (offset : Int) :
    (uploadChunkBody ctx address sessionID data offset).Ensures intact
      (fun _ after => Tallying inst sessionID after) world := by
  obtain ⟨inode, hinode⟩ := Option.isSome_iff_exists.mp hopen
  have hsame : Tallying inst sessionID world := ⟨_, _, _, _, h, hopen, htallies⟩
  unfold uploadChunkBody
  refine intact_bind h.ensures_read ?_
  rintro current after ⟨rfl, rfl⟩
  split_ifs with hclosed hnegative hbeyond
  · exact hsame
  · exact hsame
  · exact hsame
  refine h.intact_writeChunk hinode (fun hoffset hend written hwritten => ?_) fun failed hfailed => ?_
  · rw [int64_of_range (by omega) hend] at hbeyond
    have hnext := htallies.chunk hend (not_lt.mp hbeyond)
    have hopened : (((current.hashed data offset).change (.addUploaded data.length)).change
        .countChunk).tempFile.isSome = true := by
      rw [tempFile_change, tempFile_change,
        tempFile_hashed]
      exact hopen
    refine intact_bind (hwritten.ensures_updateHash data offset) fun _ hashed hhashed => ?_
    refine intact_bind (hhashed.ensures_change _) ?_
    rintro added after ⟨rfl, hadded⟩
    refine intact_bind (hadded.ensures_change _) ?_
    rintro counted after ⟨rfl, hcounted⟩
    split_ifs
    · refine intact_bind (hcounted.ensures_change _) ?_
      rintro touched after ⟨rfl, htouched⟩
      refine intact_bind (htouched.ensures_setRecord _ _) fun _ after hafter => ?_
      exact ⟨_, _, _, _, hafter, hopened, hnext.touch _⟩
    · exact ⟨_, _, _, _, hcounted, hopened, hnext⟩
  · exact ⟨_, _, _, _, hfailed, hopen, htallies⟩

variable {ctx : Context}

theorem intact_uploadChunk {sessionID : String} (h : Tallying ctx.inst sessionID world)
    (data : Bytes) (offset : Int) :
    (uploadChunk ctx sessionID data offset).Ensures intact
      (fun _ after => Tallying ctx.inst sessionID after) world := by
  have hsame := h
  obtain ⟨base, address, session, content, hholding, hopen, htallies⟩ := h
  unfold uploadChunk
  refine intact_bind hholding.ensures_uploadSession ?_
  rintro found after ⟨rfl, rfl⟩
  refine intact_acquire fun granted locks => ?_
  cases granted with
  | false => exact hsame.setLocks locks
  | true =>
    rw [if_pos rfl, ensures_bind]
    refine (intact_uploadChunkBody (hholding.setLocks locks) hopen htallies ctx data
      offset).mono _ fun result last hlast => ?_
    exact intact_unlock fun locks => hlast.setLocks locks

/-- Whatever is sent and whether it is accepted or not, the running hash stays right. -/
theorem intact_sendChunks {inst : Nat} {sessionID : String} (h : Tallying inst sessionID world)
    (chunks : List ChunkCall) (hinst : ∀ chunk ∈ chunks, chunk.ctx.inst = inst) :
    (sendChunks sessionID chunks).Ensures intact
      (fun _ after => Tallying inst sessionID after) world := by
  induction chunks generalizing world with
  | nil => exact h
  | cons chunk rest ih =>
    have hhere := hinst chunk List.mem_cons_self
    unfold sendChunks
    rw [ensures_bind]
    rw [← hhere] at h
    refine (intact_uploadChunk h chunk.data chunk.offset).mono _ fun result middle hmiddle => ?_
    rw [hhere] at hmiddle
    rw [ensures_bind]
    refine (ih hmiddle fun other hother => hinst other (List.mem_cons_of_mem _ hother)).mono _ ?_
    intro accepted after hafter
    cases result with
    | ok value => exact hafter
    | error cause => exact hafter

theorem tallying_storeUpload {file : Announcement} {world : World}
    (hnamed : world.sessions.temps.lookup (.upload ctx.id) = some inode)
    (hzeros : world.sessions.inodes inode = padded file.totalSize []) :
    (do
      Service.session (.storeUpload ctx.inst ctx.id (newUploadSession ctx file.filePath file.fileName
        file.totalSize file.clientID file.hash inode))
      Service.session (.setUploadRecord ctx.id (newUploadSession ctx file.filePath file.fileName
        file.totalSize file.clientID file.hash inode).toUploadRecord)
      return .ok ctx.id : Service (Except TransferError String)).Ensures World.handle
      (fun result after => ∀ sessionID, result = .ok sessionID → Tallying ctx.inst sessionID after)
      world := by
  rw [ensures_session]
  intro env
  rw [ensures_bind]
  refine (Holding.ensures_setRecord (holding_stored hzeros rfl hnamed rfl) _ _).mono _ ?_
  intro _ after hafter sessionID hok
  cases hok
  exact ⟨_, _, _, _, hafter, rfl, tallies_newUploadSession ctx file inode⟩

theorem tallying_createUploadSession (ctx : Context) (file : Announcement) (world : World) :
    (createUploadSession ctx file.filePath file.fileName file.totalSize file.clientID
      file.hash).Ensures World.handle (fun result after => ∀ sessionID, result = .ok sessionID →
        Tallying ctx.inst sessionID after) world := by
  unfold createUploadSession
  refine ensures_acquireSessionSlot fun granted counted => ?_
  cases granted with
  | false => exact fun _ hok => by cases hok
  | true =>
    rw [if_pos rfl]
    refine ensures_createTemp ?_ ?_
    · rw [ensures_bind]
      refine Ensures.of_forall _ (fun _ _ => ?_) _ _
      exact fun _ hok => by cases hok
    · obtain ⟨hnamed, hempty, -⟩ := create_named counted.sessions (.upload ctx.id)
      unfold preallocate
      split_ifs with hsize
      · refine ensures_truncateTemp ?_ fun _ => ?_
        · rw [if_neg Bool.false_ne_true, ensures_bind]
          refine Ensures.of_forall _ (fun _ _ => ?_) _ _
          rw [ensures_bind]
          refine Ensures.of_forall _ (fun _ _ => ?_) _ _
          exact fun _ hok => by cases hok
        · rw [hempty, truncate_nil]
          exact tallying_storeUpload hnamed (Function.update_self ..)
      · have hnone : padded file.totalSize [] = [] := by
          rw [padded, List.nil_append, List.length_nil, Nat.sub_zero,
            Int.toNat_of_nonpos (not_lt.mp hsize), List.replicate_zero]
        exact tallying_storeUpload hnamed (hempty.trans hnone.symm)

/-! ### The two ways to check the hash -/

def openAndSend (opening : Context) (file : Announcement) (chunks : List ChunkCall) :
    Service (Except TransferError String) := do
  match ← createUploadSession opening file.filePath file.fileName file.totalSize file.clientID
    file.hash with
  | .error cause => return .error cause
  | .ok sessionID =>
    let _ ← sendChunks sessionID chunks
    return .ok sessionID

def World.withoutRunningHash (world : World) (address : Address) : World :=
  { world with
    sessions := world.sessions.setUpload address
      ((world.sessions.uploads address).change .invalidateHash) }

/-- What `CompleteUpload` makes of the expected hash when nothing fails. -/
def World.hashVerdict (world : World) (sha256 : Bytes → String) (address : Address)
    (sessionID expected : String) : Option (Except TransferError Bool) :=
  ((verifyHash sha256 address sessionID expected).run calm .textual world).map Prod.fst

theorem hashVerdict_of_running {world : World} {address : Address} {sessionID : String}
    {content : Bytes} (hwriter : (world.sessions.uploads address).hashWriter = some content)
    (hvalid : (world.sessions.uploads address).hashValid = true)
    (hfile : world.sessions.fileOf (.upload sessionID) = some content) (sha256 : Bytes → String)
    (expected : String) :
    world.hashVerdict sha256 address sessionID expected =
      (world.withoutRunningHash address).hashVerdict sha256 address sessionID expected := by
  have hfast : (hashedBytes address sessionID).run calm .textual world =
      some (some content, world) := by
    unfold hashedBytes
    rw [run_bind]
    change ((if (world.sessions.uploads address).hashWriter.isSome ∧
      (world.sessions.uploads address).hashValid then _ else _ : Service _).run _ _ _) = _
    rw [if_pos ⟨by rw [hwriter, Option.isSome_some], hvalid⟩]
    change some (some ((world.sessions.uploads address).hashWriter.getD []), world) = _
    rw [hwriter, Option.getD_some]
  have hslow : (hashedBytes address sessionID).run calm .textual
      (world.withoutRunningHash address) = some (some content, world.withoutRunningHash address) := by
    have hinvalid : ((world.withoutRunningHash address).sessions.uploads address).hashValid
        = false := by
      simp [withoutRunningHash, Sessions.setUpload, change]
    unfold hashedBytes
    rw [run_bind]
    change ((if ((world.withoutRunningHash address).sessions.uploads address).hashWriter.isSome ∧
      ((world.withoutRunningHash address).sessions.uploads address).hashValid then _
        else _ : Service _).run _ _ _) = _
    rw [if_neg (by rw [hinvalid]; exact fun h => Bool.false_ne_true h.2)]
    change some (world.sessions.fileOf (.upload sessionID), world.withoutRunningHash address) = _
    rw [hfile]
  unfold hashVerdict verifyHash
  split_ifs with hexpected
  · rw [run_bind, run_bind, hfast, hslow, Option.bind_some, Option.bind_some]
    dsimp only
    split_ifs <;> rfl
  · rfl

/-- **The running hash is the hash of the file.** -/
theorem runningHash_eq_file (opening : Context) (file : Announcement) (chunks : List ChunkCall)
    (hinst : ∀ chunk ∈ chunks, chunk.ctx.inst = opening.inst) (world : World) :
    (openAndSend opening file chunks).Ensures intact (fun result after =>
      ∀ sessionID, result = .ok sessionID → ∃ address,
        (after.sessions.instances opening.inst).uploadSessions.lookup sessionID = some address ∧
          ∀ session, session = after.sessions.uploads address →
            session.uploadedSize = session.totalSize → session.hashWriter.isSome = true →
            session.hashValid = true →
              after.sessions.fileOf (.upload sessionID) = session.hashWriter ∧
                ∀ sha256 expected, after.hashVerdict sha256 address sessionID expected =
                  (after.withoutRunningHash address).hashVerdict sha256 address sessionID
                    expected) world := by
  unfold openAndSend
  refine intact_bind (tallying_createUploadSession opening file world) ?_
  intro created opened hopened
  cases created with
  | error cause => exact fun _ hok => by cases hok
  | ok sessionID =>
    dsimp only
    rw [ensures_bind]
    refine (intact_sendChunks (hopened sessionID rfl) chunks hinst).mono _ ?_
    rintro accepted after ⟨base, address, session, content, hholding, -, htallies⟩ id hid
    cases hid
    refine ⟨address, hholding.loaded, ?_⟩
    rintro current hcurrent hcomplete hwriter hvalid
    have hsession : current = session := hcurrent.trans hholding.held
    subst hsession
    have hfed := htallies.complete hcomplete hwriter hvalid
    refine ⟨hholding.fileOf.trans hfed.symm, fun sha256 expected => ?_⟩
    rw [hcurrent] at hfed hvalid
    exact hashVerdict_of_running hfed hvalid hholding.fileOf sha256 expected

def bytesInOrder : List ChunkCall :=
  [⟨.sample 1 "", [7], 0⟩, ⟨.sample 2 "", [8], 1⟩]

theorem runningHash_eq_file_inOrder : ∃ after address,
    (openAndSend (.sample 1 "s") ⟨['f'], ['f'], 2, "client", "digest"⟩ bytesInOrder).Runs intact
      (initial .postgresql [['r']]) (.ok "s") after ∧
      (after.sessions.uploads address).hashValid = true ∧
      after.sessions.fileOf (.upload "s") = some [7, 8] := by
  have hruns := runs_of_run intact (rfl : (openAndSend (.sample 1 "s")
    ⟨['f'], ['f'], 2, "client", "digest"⟩ bytesInOrder).run intact .textual
      (initial .postgresql [['r']]) = some (.ok "s", _))
  have hinst : ∀ chunk ∈ bytesInOrder, chunk.ctx.inst = (Context.sample 1 "s").inst := by
    intro chunk hchunk
    simp only [bytesInOrder, List.mem_cons, List.not_mem_nil, or_false] at hchunk
    obtain rfl | rfl := hchunk <;> rfl
  obtain ⟨address, hloaded, hhash⟩ :=
    (runningHash_eq_file (.sample 1 "s") ⟨['f'], ['f'], 2, "client", "digest"⟩ bytesInOrder hinst
      (initial .postgresql [['r']])).of_runs _ hruns "s" rfl
  have haddress : address = 0 := (Option.some.inj hloaded).symm
  subst haddress
  exact ⟨_, 0, hruns, rfl, (hhash _ rfl rfl rfl rfl).1⟩

end FsServer
