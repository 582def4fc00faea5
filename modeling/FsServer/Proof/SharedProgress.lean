import FsServer.Proof.Completion
import FsServer.Proof.FinishedSession
import FsServer.Proof.Progress
import FsServer.Proof.Upload

/-!
# Upload progress over several instances

The session objects of the instances and the stored record show one board of counters, and each
accepted chunk changes it as the instance that takes the chunk does. The completeness check of an
instance looks at its own counter, or at the record if it has no copy. So it passes everywhere exactly
when the creator has taken all the chunks and, unless it is alone, their number is a multiple of eight.
-/

namespace FsServer

open Lib Program World FileTransferService ChunkCall Sessions Progress

def Sessions.held (sessions : Sessions) (sessionID : String) (inst : Nat) : Option Address :=
  (sessions.instances inst).uploadSessions.lookup sessionID

/-- The copies and the record of the session have these counts. No two instances share a copy. -/
structure Shows (sessionID : String) (totalSize : Int) (progress : Progress) (sessions : Sessions) :
    Prop where
  copies : ∀ inst, progress.copies inst = (sessions.held sessionID inst).map fun address =>
    ((sessions.uploads address).uploadedSize, (sessions.uploads address).chunkCount)
  size : ∀ inst address, sessions.held sessionID inst = some address →
    (sessions.uploads address).totalSize = totalSize
  allocated : ∀ inst address, sessions.held sessionID inst = some address →
    address < sessions.nextAddress
  apart : ∀ inst other address, sessions.held sessionID inst = some address →
    sessions.held sessionID other = some address → inst = other
  stored : ∃ record, sessions.uploadStore.lookup sessionID = some record ∧
    record.uploadedSize = progress.saved ∧ record.totalSize = totalSize

structure WorksOn (inst : Nat) (sessionID : String) (totalSize : Int) (progress : Progress)
    (address : Address) (sessions : Sessions) : Prop extends
    Shows sessionID totalSize progress sessions where
  loaded : sessions.held sessionID inst = some address

section Chunk

variable {inst : Nat} {sessionID : String} {totalSize : Int} {progress : Progress}
  {address : Address} {sessions : Sessions} {world : World}

namespace WorksOn

section

variable (h : WorksOn inst sessionID totalSize progress address sessions)
include h

theorem counts :
    progress.copies inst =
      some ((sessions.uploads address).uploadedSize, (sessions.uploads address).chunkCount) := by
  rw [h.copies, h.loaded]
  rfl

theorem copy :
    progress.copy inst =
      ((sessions.uploads address).uploadedSize, (sessions.uploads address).chunkCount) := by
  rw [Progress.copy, h.counts, Option.getD_some]

theorem inodes (inodes : Inode → Bytes) :
    WorksOn inst sessionID totalSize progress address { sessions with inodes := inodes } :=
  ⟨⟨h.copies, h.size, h.allocated, h.apart, h.stored⟩, h.loaded⟩

theorem setUpload (session : UploadSession)
    (hsize : session.totalSize = (sessions.uploads address).totalSize) :
    WorksOn inst sessionID totalSize
      (progress.put inst (session.uploadedSize, session.chunkCount)) address
      (sessions.setUpload address session) where
  loaded := h.loaded
  allocated := h.allocated
  apart := h.apart
  stored := h.stored
  size := by
    intro other held hheld
    by_cases heq : held = address
    · simp only [Sessions.setUpload, heq, Function.update_self]
      rw [hsize]
      exact h.size inst address h.loaded
    · simp only [Sessions.setUpload, Function.update_of_ne heq]
      exact h.size other held hheld
  copies := by
    intro other
    change _ = (sessions.held sessionID other).map _
    by_cases hother : other = inst
    · rw [hother, put_copies_self, h.loaded]
      simp [Sessions.setUpload]
    · rw [put_copies_of_ne _ _ _ hother, h.copies other]
      cases hheld : sessions.held sessionID other with
      | none => rfl
      | some held =>
        have hne : held ≠ address := fun heq =>
          hother (h.apart other inst address (heq ▸ hheld) h.loaded)
        simp [Sessions.setUpload, Function.update_of_ne hne]

theorem change (change : UploadChange)
    (hbytes : ∀ session : UploadSession, (session.change change).uploadedSize = session.uploadedSize)
    (hchunks : ∀ session : UploadSession, (session.change change).chunkCount = session.chunkCount)
    (hsize : ∀ session : UploadSession, (session.change change).totalSize = session.totalSize) :
    WorksOn inst sessionID totalSize progress address
      (sessions.setUpload address ((sessions.uploads address).change change)) := by
  have hput := h.setUpload ((sessions.uploads address).change change) (hsize _)
  rw [hbytes, hchunks, put_eq_self _ _ h.counts] at hput
  exact hput

theorem record :
    WorksOn inst sessionID totalSize ⟨progress.copies, (progress.copy inst).1⟩ address
      { sessions with
        uploadStore := sessions.uploadStore.insert sessionID
          (sessions.uploads address).toUploadRecord } where
  loaded := h.loaded
  copies := h.copies
  size := h.size
  allocated := h.allocated
  apart := h.apart
  stored := by
    refine ⟨_, AList.lookup_insert _, ?_, h.size inst address h.loaded⟩
    rw [h.copy]

end

end WorksOn

theorem WorksOn.ensures_changeUpload {α : Type} {post : α → World → Prop}
    {rest : UploadSession → Service α}
    (h : WorksOn inst sessionID totalSize progress address world.sessions) (change : UploadChange)
    (hsize : ((world.sessions.uploads address).change change).totalSize =
      (world.sessions.uploads address).totalSize)
    (hrest : ∀ changed after, changed = (world.sessions.uploads address).change change →
      after.sessions.uploads address = changed →
      WorksOn inst sessionID totalSize
        (progress.put inst (changed.uploadedSize, changed.chunkCount)) address after.sessions →
      (rest changed).Ensures calm post after) :
    (Service.session (.changeUpload address change) >>= rest).Ensures calm post world := by
  refine calm_session fun env _ => ?_
  exact hrest _ _ rfl (Function.update_self ..) (h.setUpload _ hsize)

theorem writeAt_inodes (env : Env) (sessions : Sessions) (inode : Inode) (data : Bytes)
    (offset : Int) :
    ∃ inodes, (sessions.writeAt env inode data offset).2 = { sessions with inodes := inodes } := by
  unfold writeAt
  split_ifs
  · exact ⟨_, rfl⟩
  · cases env.fault <;> exact ⟨_, rfl⟩

theorem writeChunk_inodes (env : Env) (sessions : Sessions) (address : Address) (sessionID : String)
    (data : Bytes) (offset : Int) :
    ∃ inodes, (sessions.writeChunk env address sessionID data offset).2 =
      { sessions with inodes := inodes } := by
  unfold writeChunk
  cases (sessions.uploads address).tempFile with
  | some inode => exact writeAt_inodes env sessions inode data offset
  | none =>
    cases sessions.temps.lookup (.upload sessionID) with
    | some inode => exact writeAt_inodes env sessions inode data offset
    | none => exact ⟨_, rfl⟩

theorem worksOn_updateHash (h : WorksOn inst sessionID totalSize progress address world.sessions)
    (data : Bytes) (offset : Int) :
    (updateHash address data offset).Ensures calm
      (fun _ after => WorksOn inst sessionID totalSize progress address after.sessions) world := by
  unfold updateHash
  rw [calm_readUpload]
  split_ifs
  · refine calm_session fun env _ => calm_session fun env _ => ?_
    have hfed := h.change (.feedHash data) (fun _ => rfl) (fun _ => rfl) (fun _ => rfl)
    exact hfed.change (.setLastOffset _) (fun _ => rfl) (fun _ => rfl) (fun _ => rfl)
  · refine calm_session fun env _ => ?_
    exact h.change .invalidateHash (fun _ => rfl) (fun _ => rfl) (fun _ => rfl)
  · exact h

theorem worksOn_uploadChunkBody
    (h : WorksOn inst sessionID totalSize progress address world.sessions) (ctx : Context)
    (data : Bytes) (offset : Int) :
    (uploadChunkBody ctx address sessionID data offset).Ensures calm
      (fun result after => result = .ok () →
        Shows sessionID totalSize (progress.chunk inst data.length) after.sessions) world := by
  unfold uploadChunkBody
  rw [calm_readUpload]
  split_ifs
  · intro hok
    cases hok
  · intro hok
    cases hok
  · intro hok
    cases hok
  refine calm_session fun env _ => ?_
  obtain ⟨inodes, hinodes⟩ :=
    writeChunk_inodes env world.sessions address sessionID data offset
  simp only [exec, hinodes]
  cases (world.sessions.writeChunk env address sessionID data offset).1 with
  | notOpened =>
    intro hok
    cases hok
  | failed =>
    intro hok
    cases hok
  | written =>
    dsimp only
    rw [ensures_bind]
    refine (worksOn_updateHash (h.inodes inodes) data offset).mono _ fun _ hashed hhashed => ?_
    refine hhashed.ensures_changeUpload _ rfl fun added _ hadded hafter hworks => ?_
    refine hworks.ensures_changeUpload _ rfl fun counted _ hcounted hafter' hworks => ?_
    have hbytes : counted.uploadedSize = int64 ((progress.copy inst).1 + data.length) := by
      rw [hcounted, hafter, hadded, hhashed.copy]
      rfl
    have hchunks : counted.chunkCount = int64 ((progress.copy inst).2 + 1) := by
      rw [hcounted, hafter, hadded, hhashed.copy]
      rfl
    rw [put_put] at hworks
    split_ifs with heighth
    · refine hworks.ensures_changeUpload _ rfl fun touched last htouched hlast hworks => ?_
      have hsame : touched.uploadedSize = counted.uploadedSize ∧
          touched.chunkCount = counted.chunkCount := by
        rw [htouched, hafter']
        exact ⟨rfl, rfl⟩
      rw [put_put, hsame.1, hsame.2, hbytes, hchunks] at hworks
      refine calm_session fun env hcalm => fun _ => ?_
      rw [hchunks] at heighth
      have hrecord := hworks.record
      rw [put_copy, hlast] at hrecord
      rw [chunk_of_dvd _ _ heighth]
      simp only [exec, hcalm, Option.isSome_none, Bool.false_eq_true, if_false]
      exact hrecord.toShows
    · intro _
      rw [hchunks] at heighth
      rw [hbytes, hchunks] at hworks
      rw [chunk_of_not_dvd _ _ heighth]
      exact hworks.toShows

/-! ### Loading and restoring -/

def Sessions.addUpload (sessions : Sessions) (inst : Nat) (sessionID : String)
    (session : UploadSession) : Sessions :=
  { (sessions.setUpload sessions.nextAddress session).setInstance inst
      { sessions.instances inst with
        uploadSessions :=
          (sessions.instances inst).uploadSessions.insert sessionID sessions.nextAddress } with
    nextAddress := sessions.nextAddress + 1 }

theorem held_addUpload_self (sessions : Sessions) (inst : Nat) (sessionID : String)
    (session : UploadSession) :
    (sessions.addUpload inst sessionID session).held sessionID inst = some sessions.nextAddress := by
  simp [addUpload, held, setInstance]

theorem held_addUpload_of_ne (sessions : Sessions) {inst other : Nat} (h : other ≠ inst)
    (sessionID : String) (session : UploadSession) :
    (sessions.addUpload inst sessionID session).held sessionID other =
      sessions.held sessionID other := by
  simp [addUpload, held, setInstance, Sessions.setUpload,
    Function.update_of_ne h]

theorem uploads_addUpload_self (sessions : Sessions) (inst : Nat) (sessionID : String)
    (session : UploadSession) :
    (sessions.addUpload inst sessionID session).uploads sessions.nextAddress = session := by
  simp [addUpload, setInstance, Sessions.setUpload]

theorem uploads_addUpload_of_lt (sessions : Sessions) (inst : Nat) (sessionID : String)
    (session : UploadSession) (h : address < sessions.nextAddress) :
    (sessions.addUpload inst sessionID session).uploads address = sessions.uploads address := by
  simp [addUpload, setInstance, Sessions.setUpload,
    Function.update_of_ne (Nat.ne_of_lt h)]

theorem Shows.addUpload (h : Shows sessionID totalSize progress sessions)
    (hfree : sessions.held sessionID inst = none) {record : UploadRecord}
    (hrecord : sessions.uploadStore.lookup sessionID = some record) (file : Option Inode) :
    WorksOn inst sessionID totalSize (progress.load inst) sessions.nextAddress
      (sessions.addUpload inst sessionID (record.restore file)) := by
  obtain ⟨stored, hstored, hsaved, hsize⟩ := h.stored
  obtain rfl : stored = record := Option.some.inj (hstored.symm.trans hrecord)
  have hcopy : progress.copy inst = (stored.uploadedSize, 0) := by
    rw [Progress.copy, h.copies, hfree, hsaved]
    rfl
  -- every copy but the new one is an old one of another instance
  have hheld : ∀ other address, (sessions.addUpload inst sessionID (stored.restore file)).held
      sessionID other = some address →
        (other = inst ∧ address = sessions.nextAddress) ∨
          (other ≠ inst ∧ sessions.held sessionID other = some address) := by
    intro other address hother
    by_cases heq : other = inst
    · rw [heq, held_addUpload_self] at hother
      exact Or.inl ⟨heq, (Option.some.inj hother).symm⟩
    · rw [held_addUpload_of_ne sessions heq] at hother
      exact Or.inr ⟨heq, hother⟩
  refine ⟨⟨fun other => ?_, fun other address hother => ?_, fun other address hother => ?_,
    fun first second address hfirst hsecond => ?_, ⟨stored, hstored, hsaved, hsize⟩⟩,
    held_addUpload_self ..⟩
  · by_cases heq : other = inst
    · rw [heq, load, put_copies_self, held_addUpload_self, Option.map_some,
        uploads_addUpload_self, hcopy]
      rfl
    · rw [load, put_copies_of_ne _ _ _ heq, held_addUpload_of_ne sessions heq, h.copies other]
      cases hold : sessions.held sessionID other with
      | none => rfl
      | some address =>
        rw [Option.map_some, Option.map_some,
          uploads_addUpload_of_lt _ _ _ _ (h.allocated other address hold)]
  · rcases hheld other address hother with ⟨-, rfl⟩ | ⟨-, hold⟩
    · rw [uploads_addUpload_self]
      exact hsize
    · rw [uploads_addUpload_of_lt _ _ _ _ (h.allocated other address hold)]
      exact h.size other address hold
  · rcases hheld other address hother with ⟨-, rfl⟩ | ⟨-, hold⟩
    · exact Nat.lt_succ_self _
    · exact Nat.lt_succ_of_lt (h.allocated other address hold)
  · rcases hheld first address hfirst with ⟨rfl, rfl⟩ | ⟨-, holdFirst⟩
    · rcases hheld second _ hsecond with ⟨rfl, -⟩ | ⟨-, hold⟩
      · rfl
      · exact absurd (h.allocated second _ hold) (lt_irrefl _)
    · rcases hheld second address hsecond with ⟨-, rfl⟩ | ⟨-, holdSecond⟩
      · exact absurd (h.allocated first _ holdFirst) (lt_irrefl _)
      · exact h.apart first second address holdFirst holdSecond

theorem Shows.uploadSession (h : Shows sessionID totalSize progress world.sessions) (inst : Nat) :
    ∃ address after, WorksOn inst sessionID totalSize (progress.load inst) address after.sessions ∧
      ∀ (α : Type) (post : α → World → Prop) (rest : Option Address → Service α),
        (uploadSession inst sessionID >>= rest).Ensures calm post world ↔
          (rest (some address)).Ensures calm post after := by
  unfold FileTransferService.uploadSession
  have hload : ∀ env : Env, env.fault = none → world.sessions.exec env (.loadUpload inst sessionID) =
      (world.sessions.held sessionID inst, world.sessions) := fun _ _ => rfl
  cases hheld : world.sessions.held sessionID inst with
  | some address =>
    have hcounts := h.copies inst
    rw [hheld, Option.map_some] at hcounts
    refine ⟨address, world, ⟨?_, hheld⟩, fun α post rest => ?_⟩
    · rw [load_eq_self _ _ hcounts]
      exact h
    · rw [bind_bind, calm_outcome hload, hheld]
      rfl
  | none =>
    obtain ⟨record, hrecord, -⟩ := h.stored
    have hworks := h.addUpload hheld hrecord (world.sessions.temps.lookup (.upload sessionID))
    refine ⟨_, { world with sessions := _ }, hworks, fun α post rest => ?_⟩
    have hread : ∀ env : Env, env.fault = none →
        world.sessions.exec env (.getUploadRecord sessionID) = (some record, world.sessions) := by
      intro env hcalm
      simp only [exec, hcalm, hrecord, Option.isSome_none, Bool.false_eq_true, if_false]
    have hopen : ∀ env : Env, env.fault = none → world.sessions.exec env
        (.openTemp (.upload sessionID)) =
          (world.sessions.temps.lookup (.upload sessionID), world.sessions) := by
      intro env hcalm
      simp only [exec, hcalm, Option.isSome_none, Bool.false_eq_true, if_false]
    have hstore : ∀ env : Env, env.fault = none → world.sessions.exec env
        (.loadOrStoreUpload inst sessionID
          (record.restore (world.sessions.temps.lookup (.upload sessionID)))) =
          (world.sessions.nextAddress, world.sessions.addUpload inst sessionID
            (record.restore (world.sessions.temps.lookup (.upload sessionID)))) := by
      intro env _
      unfold held at hheld
      simp only [exec, hheld]
      rfl
    rw [bind_bind, calm_outcome hload, hheld]
    dsimp only
    rw [bind_bind, calm_outcome hread]
    dsimp only
    rw [bind_bind, calm_outcome hopen]
    rw [bind_bind, calm_outcome hstore]
    rfl

/-! ### Whole calls -/

theorem shows_uploadChunk (h : Shows sessionID totalSize progress world.sessions) (ctx : Context)
    (data : Bytes) (offset : Int) :
    (uploadChunk ctx sessionID data offset).Ensures calm
      (fun result after => result = .ok () →
        Shows sessionID totalSize (progress.chunk ctx.inst data.length) after.sessions) world := by
  obtain ⟨address, loaded, hworks, hloads⟩ := h.uploadSession ctx.inst
  unfold uploadChunk
  rw [hloads]
  refine calm_lock fun taken locked hlocked => ?_
  cases taken with
  | false => exact fun hok => nomatch hok
  | true =>
    rw [← hlocked] at hworks
    rw [if_pos rfl, ensures_bind]
    refine (worksOn_uploadChunkBody hworks ctx data offset).mono _ fun result final hfinal => ?_
    refine calm_lock fun _ unlocked hunlocked => fun hok => ?_
    rw [load_chunk] at hfinal
    rw [hunlocked]
    exact hfinal hok

theorem length_sendChunks (sessionID : String) (chunks : List ChunkCall) (world : World) :
    (sendChunks sessionID chunks).Ensures calm
      (fun accepted _ => accepted.length ≤ chunks.length) world := by
  induction chunks generalizing world with
  | nil => exact le_refl _
  | cons chunk rest ih =>
    rw [sendChunks]
    refine calm_skip fun result after => ?_
    rw [ensures_bind]
    refine (ih after).mono _ fun accepted _ hlength => ?_
    cases result with
    | ok _ => exact Nat.succ_le_succ hlength
    | error cause => exact Nat.le_succ_of_le hlength

def ChunkCall.taken (chunk : ChunkCall) : Nat × Nat := (chunk.ctx.inst, chunk.data.length)

theorem shows_sendChunks (h : Shows sessionID totalSize progress world.sessions)
    (chunks : List ChunkCall) :
    (sendChunks sessionID chunks).Ensures calm
      (fun accepted after => accepted = chunks → Shows sessionID totalSize
        (progress.afterChunks (chunks.map taken)) after.sessions) world := by
  induction chunks generalizing progress world with
  | nil => exact fun _ => h
  | cons chunk rest ih =>
    rw [sendChunks, ensures_bind]
    refine (shows_uploadChunk h chunk.ctx chunk.data chunk.offset).mono _
      fun result after hafter => ?_
    rw [ensures_bind]
    cases result with
    | ok _ =>
      refine (ih (hafter rfl)).mono _ fun accepted final hfinal => ?_
      intro heq
      exact hfinal (List.cons_injective heq)
    | error cause =>
      refine (length_sendChunks sessionID rest after).mono _ fun accepted final hlength => ?_
      intro heq
      rw [heq, List.length_cons] at hlength
      omega

end Chunk

/-! ### Creating the session -/

theorem shows_opened {sessions : Sessions} {sessionID : String} {inst : Nat}
    (session : UploadSession) (hfree : ∀ other, sessions.held sessionID other = none)
    (hbytes : session.uploadedSize = 0) (hchunks : session.chunkCount = 0) :
    Shows sessionID session.totalSize (.opened inst)
      { sessions.addUpload inst sessionID session with
        uploadStore := sessions.uploadStore.insert sessionID session.toUploadRecord } := by
  have hheld : ∀ other address, (sessions.addUpload inst sessionID session).held sessionID other =
      some address → other = inst ∧ address = sessions.nextAddress := by
    intro other address hother
    by_cases heq : other = inst
    · rw [heq, held_addUpload_self] at hother
      exact ⟨heq, (Option.some.inj hother).symm⟩
    · rw [held_addUpload_of_ne sessions heq, hfree other] at hother
      cases hother
  refine ⟨fun other => ?_, fun other address hother => ?_, fun other address hother => ?_,
    fun first second address hfirst hsecond => ?_, ⟨_, AList.lookup_insert _, hbytes, rfl⟩⟩
  · change _ = ((sessions.addUpload inst sessionID session).held sessionID other).map _
    by_cases heq : other = inst
    · rw [heq, opened_copies_self, held_addUpload_self, Option.map_some]
      dsimp only
      rw [uploads_addUpload_self, hbytes, hchunks]
    · rw [opened_copies_of_ne heq, held_addUpload_of_ne sessions heq, hfree other]
      rfl
  · obtain ⟨-, rfl⟩ := hheld other address hother
    dsimp only
    rw [uploads_addUpload_self]
  · obtain ⟨-, rfl⟩ := hheld other address hother
    exact Nat.lt_succ_self _
  · rw [(hheld first address hfirst).1, (hheld second address hsecond).1]

theorem quiet_preallocate (file : Inode) (totalSize : Int) :
    (preallocate file totalSize).Only Quiet := by
  unfold preallocate
  split_ifs
  · exact only_perform trivial
  · trivial

theorem shows_createUploadSession (ctx : Context) (file : Announcement) {world : World}
    (hfree : ∀ inst, (world.sessions.instances inst).uploadSessions.lookup ctx.id = none) :
    (createUploadSession ctx file.filePath file.fileName file.totalSize file.clientID
      file.hash).Ensures calm
      (fun result after => result.isOk = true →
        Shows ctx.id file.totalSize (.opened ctx.inst) after.sessions) world := by
  unfold createUploadSession acquireSessionSlot
  rw [bind_bind]
  refine calm_session fun env _ => ?_
  have hcounted : ∀ other, True → ((world.sessions.exec env (.addSessionCount ctx.inst 1)).2.instances
      other).uploadSessions.lookup ctx.id = none := by
    intro other _
    by_cases heq : other = ctx.inst
    · rw [heq]
      simpa [exec, setInstance] using hfree ctx.inst
    · simpa [exec, setInstance, Function.update_of_ne heq] using hfree other
  rw [bind_bind]
  refine calm_free (only_perform trivial) hcounted fun limit _ hfree => ?_
  split_ifs
  · rw [bind_bind]
    exact calm_skip fun _ _ => fun hok => absurd hok Bool.false_ne_true
  · change (Service.session _ >>= _).Ensures _ _ _
    refine calm_free (only_perform trivial) hfree fun created _ hfree => ?_
    cases created with
    | none => exact calm_skip fun _ _ => fun hok => absurd hok Bool.false_ne_true
    | some temp =>
      refine calm_free (quiet_preallocate temp file.totalSize) hfree fun allocated _ hfree => ?_
      cases allocated with
      | false =>
        exact calm_skip fun _ _ => calm_skip fun _ _ => fun hok =>
          absurd hok Bool.false_ne_true
      | true =>
        refine calm_session fun env _ => calm_session fun env hcalm => fun _ => ?_
        simp only [exec, hcalm, Option.isSome_none, Bool.false_eq_true, if_false]
        exact shows_opened (newUploadSession ctx file.filePath file.fileName file.totalSize
          file.clientID file.hash temp) (fun other => hfree other trivial) rfl rfl

/-! ### The completeness check -/

def PassesCheck : Except TransferError CompleteUploadResult → Prop
  | .error (.incomplete _ _) => False
  | .error (.sessionNotFound _) => False
  | _ => True

theorem passesCheck_of_notEarly {result : Except TransferError CompleteUploadResult}
    (h : NotEarly result) : PassesCheck result := by
  cases result with
  | ok value => trivial
  | error cause =>
    have hnot := h cause rfl
    cases cause with
    | incomplete expected got => exact absurd trivial hnot
    | sessionNotFound sessionID => exact absurd trivial hnot
    | _ => trivial

section Check

variable (sha256 : Bytes → String) (crypto : Option CryptoService) {world : World}
  {sessionID : String}

theorem passes_finishUpload (ctx : Context) (address : Address) (current : UploadSession)
    (world : World) :
    (finishUpload sha256 crypto ctx address current sessionID).Ensures calm
      (fun result _ => PassesCheck result) world := by
  refine Ensures.mono _ (Yields.ensures _ (yields_finishUpload sha256 crypto sessionID ctx address
    current) world) ?_
  intro result _ hresult
  exact passesCheck_of_notEarly hresult

/-- The check passes exactly when the counter the instance has, or restores, is at the size. -/
theorem completeUpload_passes_iff {totalSize : Int} {progress : Progress}
    (h : Shows sessionID totalSize progress world.sessions) (ctx : Context) :
    (completeUpload sha256 crypto ctx sessionID).Ensures calm
      (fun result _ => PassesCheck result) world ↔ (progress.copy ctx.inst).1 = totalSize := by
  obtain ⟨address, loaded, hworks, hloads⟩ := h.uploadSession ctx.inst
  have hcopy := hworks.copy
  rw [load_copy] at hcopy
  have hsize := hworks.size ctx.inst address hworks.loaded
  unfold completeUpload
  rw [hloads]
  dsimp only
  rw [calm_readUpload, hcopy, hsize]
  split_ifs with hcount
  · rw [calm_readUpload]
    exact ⟨False.elim, fun heq => hcount heq⟩
  · refine ⟨fun _ => not_not.mp hcount, fun _ => ?_⟩
    exact calm_skip fun _ after => passes_finishUpload sha256 crypto ctx address _ after

end Check

/-! ### A whole session -/

/-- Non-empty chunks that share no position and together are the positions of the file. -/
structure Partitions (chunks : List ChunkCall) (totalSize : Int) : Prop where
  nonempty : ∀ chunk ∈ chunks, chunk.data ≠ []
  disjoint : (chunks.map positions).Pairwise Disjoint
  covers : covered (chunks.map positions) = Finset.Ico 0 totalSize
  size : 0 ≤ totalSize

theorem sizeSum_taken (chunks : List ChunkCall) :
    sizeSum (chunks.map positions) = ((chunks.map taken).map Prod.snd).sum := by
  induction chunks with
  | nil => rfl
  | cons chunk rest ih =>
    rw [List.map_cons, sizeSum, card_positions, ih]
    rfl

variable {chunks : List ChunkCall}

theorem Partitions.sum_taken {totalSize : Int} (h : Partitions chunks totalSize) :
    (((chunks.map taken).map Prod.snd).sum : Int) = totalSize := by
  have hcard : (covered (chunks.map positions)).card = totalSize.toNat := by
    rw [h.covers, Int.card_Ico, sub_zero]
  have hsum := (rewritten_eq_zero_iff _).mpr h.disjoint
  have hle := card_covered_le (chunks.map positions)
  have hsize := h.size
  rw [rewritten] at hsum
  rw [← sizeSum_taken]
  omega

theorem Partitions.positive {totalSize : Int} (h : Partitions chunks totalSize) :
    ∀ entry ∈ chunks.map taken, 0 < entry.2 := by
  intro entry hentry
  obtain ⟨chunk, hchunk, rfl⟩ := List.mem_map.mp hentry
  exact List.length_pos_iff.mpr (h.nonempty chunk hchunk)

/-- **The completeness check passes on every one of `n` instances exactly when the creator of the
session has taken all chunks and there is no other instance or their number is a multiple of
eight.** -/
theorem progress_shared_iff (sha256 : Bytes → String) (crypto : Option CryptoService)
    {n : Nat} {opening : Context} {file : Announcement} {chunks : List ChunkCall}
    {world opened sent : World}
    (hopening : opening.inst < n) (hmax : file.totalSize ≤ maxInt64)
    (hfresh : world.Gone opening.id) (hchunks : Partitions chunks file.totalSize)
    (hopened : Runs calm (createUploadSession opening file.filePath file.fileName
      file.totalSize file.clientID file.hash) world (.ok opening.id) opened)
    (hsent : Runs calm (sendChunks opening.id chunks) opened chunks sent) :
    (∀ closing : Context, closing.inst < n →
      (completeUpload sha256 crypto closing opening.id).Ensures calm
        (fun result _ => PassesCheck result) sent) ↔
    (∀ chunk ∈ chunks, chunk.ctx.inst = opening.inst) ∧ (n = 1 ∨ 8 ∣ chunks.length) := by
  have hcreated := (shows_createUploadSession opening file hfresh.held).of_runs _ hopened rfl
  have hboard := (shows_sendChunks hcreated chunks).of_runs _ hsent rfl
  have hpasses : ∀ closing : Context,
      (completeUpload sha256 crypto closing opening.id).Ensures calm
        (fun result _ => PassesCheck result) sent ↔
      ((Progress.opened opening.inst).afterChunks (chunks.map taken)
        |>.copy closing.inst).1 = file.totalSize :=
    fun closing => completeUpload_passes_iff sha256 crypto hboard closing
  have htaken : (∀ entry ∈ chunks.map taken, entry.1 = opening.inst) ↔
      ∀ chunk ∈ chunks, chunk.ctx.inst = opening.inst := List.forall_mem_map
  have hcreator := @creator_complete_iff opening.inst _ _ hchunks.positive
    hchunks.sum_taken hmax
  simp only [hpasses]
  constructor
  · intro hall
    have hown := hcreator.mp (hall opening hopening)
    refine ⟨htaken.mp hown, ?_⟩
    by_cases hn : n = 1
    · exact Or.inl hn
    · obtain ⟨other, hother, hne⟩ : ∃ other, other < n ∧ other ≠ opening.inst := by
        by_cases hzero : opening.inst = 0
        · exact ⟨1, by omega, by omega⟩
        · exact ⟨0, by omega, Ne.symm hzero⟩
      have hcount := (other_complete_iff hown hchunks.positive hchunks.sum_taken hmax
        hne).mp (hall { opening with inst := other } hother)
      rw [List.length_map] at hcount
      exact Or.inr hcount
  · rintro ⟨hown, hcount⟩ closing hclosing
    have hentries := htaken.mpr hown
    by_cases hsame : closing.inst = opening.inst
    · rw [hsame]
      exact hcreator.mpr hentries
    · rcases hcount with hn | hcount
      · omega
      · rw [other_complete_iff hentries hchunks.positive hchunks.sum_taken hmax hsame,
          List.length_map]
        exact hcount

def fileOfSize (totalSize : Int) : Announcement := ⟨['f'], ['f'], totalSize, "client", ""⟩

/-- One byte for each position up to this one, all taken by the first instance. -/
def byteByByte (count : Nat) : List ChunkCall :=
  (List.range count).map fun position => ⟨Context.sample 1 "s", [7], position⟩

/-- The first instance has taken the whole file, and the second one does not know of it. -/
theorem progress_lost : ∃ opened sent final, Partitions (byteByByte 1) 1 ∧
    (createUploadSession (Context.sample 1 "s") ['f'] ['f'] 1 "client" "").run calm .textual
      (initial .postgresql [['r']]) = some (.ok "s", opened) ∧
    (sendChunks "s" (byteByByte 1)).run calm .textual opened = some (byteByByte 1, sent) ∧
    (completeUpload (fun _ => "") none { Context.sample 2 "t" with inst := 1 } "s").run calm
      .textual sent = some (.error (.incomplete 1 0), final) := by
  refine ⟨_, _, _, ⟨?_, ?_, ?_, by decide⟩, rfl, rfl, rfl⟩
  · simp [byteByByte]
  · simp [byteByByte]
  · rfl

theorem progress_shared_eight :
    ∃ opened sent,
      Runs calm (createUploadSession (Context.sample 1 "s") ['f'] ['f'] 8 "client" "")
        (initial .postgresql [['r']]) (.ok "s") opened ∧
      Runs calm (sendChunks "s" (byteByByte 8)) opened (byteByByte 8) sent ∧
      ∀ closing : Context, closing.inst < 3 →
        (completeUpload (fun _ => "") none closing "s").Ensures calm
          (fun result _ => PassesCheck result) sent := by
  obtain ⟨opened, sent, hopened, hsent⟩ : ∃ opened sent,
      (createUploadSession (Context.sample 1 "s") ['f'] ['f'] 8 "client" "").run calm .textual
        (initial .postgresql [['r']]) = some (.ok "s", opened) ∧
      (sendChunks "s" (byteByByte 8)).run calm .textual opened =
        some (byteByByte 8, sent) := ⟨_, _, rfl, rfl⟩
  refine ⟨opened, sent, runs_of_run _ hopened, runs_of_run _ hsent, ?_⟩
  refine (@progress_shared_iff (fun _ => "") none 3 (Context.sample 1 "s") (fileOfSize 8)
    (byteByByte 8) _ opened sent (by decide) (by decide) ⟨fun _ => rfl, rfl⟩ ⟨?_, ?_, ?_, by decide⟩
    (runs_of_run _ hopened) (runs_of_run _ hsent)).mpr ⟨?_, Or.inr (by decide)⟩
  · simp [byteByByte]
  · decide
  · decide
  · simp [byteByByte]

end FsServer
