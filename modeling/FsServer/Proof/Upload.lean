import FsServer.Client
import FsServer.Proof.Calls
import FsServer.Lib.Coverage
import Mathlib

/-!
# What a completed upload has covered

`CompleteUpload` decides from a counter of accepted bytes. The counter is followed over a whole run of
one session on one instance, next to the ranges of the accepted chunks.
-/

namespace FsServer

open Lib Program World FileTransferService ChunkCall Sessions

/-- The instance holds the session, which has counted `total` accepted bytes. -/
structure Uploading (inst : Nat) (sessionID : String) (totalSize total : Int) (address : Address)
    (world : World) : Prop where
  loaded : (world.sessions.instances inst).uploadSessions.lookup sessionID = some address
  size : (world.sessions.uploads address).totalSize = totalSize
  counted : (world.sessions.uploads address).uploadedSize = int64 total

variable {α : Type} {post : α → World → Prop}

section Chunk

variable {inst : Nat} {sessionID : String} {totalSize total : Int} {address : Address}
  {world : World}

variable {sessions : Sessions}

section

variable (h : Uploading inst sessionID totalSize total address world)
include h

theorem Uploading.setLock (key : LockKey) (holder : Option Token) :
    Uploading inst sessionID totalSize total address (world.setLock key holder) :=
  ⟨h.loaded, h.size, h.counted⟩

theorem Uploading.sessions_eq (hinstances : sessions.instances = world.sessions.instances)
    (huploads : sessions.uploads = world.sessions.uploads) :
    Uploading inst sessionID totalSize total address { world with sessions := sessions } where
  loaded := by
    rw [hinstances]
    exact h.loaded
  size := by
    rw [huploads]
    exact h.size
  counted := by
    rw [huploads]
    exact h.counted

theorem Uploading.setUpload (session : UploadSession) {total' : Int}
    (hsize : session.totalSize = (world.sessions.uploads address).totalSize)
    (hcounted : session.uploadedSize = int64 total') :
    Uploading inst sessionID totalSize total' address
      { world with sessions := world.sessions.setUpload address session } where
  loaded := h.loaded
  size := by
    simp only [Sessions.setUpload, Function.update_self]
    rw [hsize]
    exact h.size
  counted := by
    simp only [Sessions.setUpload, Function.update_self]
    exact hcounted

theorem Uploading.change (change : UploadChange)
    (hsame : ∀ session : UploadSession, (session.change change).uploadedSize = session.uploadedSize)
    (hsize : ∀ session : UploadSession, (session.change change).totalSize = session.totalSize) :
    Uploading inst sessionID totalSize total address { world with
      sessions := world.sessions.setUpload address
        ((world.sessions.uploads address).change change) } :=
  h.setUpload _ (hsize _) ((hsame _).trans h.counted)

theorem ensures_updateHash (data : Bytes) (offset : Int) :
    (updateHash address data offset).Ensures handle
      (fun _ after => Uploading inst sessionID totalSize total address after) world := by
  unfold updateHash
  rw [ensures_readUpload]
  split_ifs
  · rw [ensures_session]
    intro env
    rw [ensures_session]
    intro env
    have hfed : Uploading inst sessionID totalSize total address _ :=
      h.change (.feedHash data) (fun _ => rfl) (fun _ => rfl)
    exact hfed.change (.setLastOffset _) (fun _ => rfl) (fun _ => rfl)
  · rw [ensures_session]
    intro env
    exact h.change .invalidateHash (fun _ => rfl) (fun _ => rfl)
  · exact h

end

/-- What a chunk call leaves behind: an accepted chunk lies inside the file and is counted, a rejected
one is not. -/
def ChunkOutcome (inst : Nat) (sessionID : String) (totalSize total : Int) (address : Address)
    (data : Bytes) (offset : Int) (result : Except TransferError Unit) (after : World) : Prop :=
  match result with
  | .ok () => 0 ≤ offset ∧ offset + data.length ≤ totalSize ∧
      Uploading inst sessionID totalSize (total + data.length) address after
  | .error _ => Uploading inst sessionID totalSize total address after

theorem writeAt_frame (env : Env) (sessions : Sessions) (inode : Inode) (data : Bytes)
    (offset : Int) :
    (sessions.writeAt env inode data offset).2.instances = sessions.instances ∧
      (sessions.writeAt env inode data offset).2.uploads = sessions.uploads := by
  unfold writeAt
  split_ifs
  · exact ⟨rfl, rfl⟩
  · cases env.fault <;> exact ⟨rfl, rfl⟩

variable {env : Env} {data : Bytes} {offset : Int}

theorem writeAt_written {inode : Inode} (h : (sessions.writeAt env inode data offset).1 = .written) :
    0 ≤ offset ∧ offset + data.length ≤ maxInt64 := by
  unfold writeAt at h
  split_ifs at h with hrange
  omega

theorem writeChunk_frame (env : Env) (sessions : Sessions) (address : Address) (sessionID : String)
    (data : Bytes) (offset : Int) :
    (sessions.writeChunk env address sessionID data offset).2.instances = sessions.instances ∧
      (sessions.writeChunk env address sessionID data offset).2.uploads = sessions.uploads := by
  unfold writeChunk
  cases (sessions.uploads address).tempFile with
  | some inode => exact writeAt_frame env sessions inode data offset
  | none =>
    cases sessions.temps.lookup (.upload sessionID) with
    | some inode => exact writeAt_frame env sessions inode data offset
    | none => exact ⟨rfl, rfl⟩

theorem writeChunk_written {address : Address} {sessionID : String}
    (h : (sessions.writeChunk env address sessionID data offset).1 = .written) :
    0 ≤ offset ∧ offset + data.length ≤ maxInt64 := by
  unfold writeChunk at h
  cases hfile : (sessions.uploads address).tempFile with
  | some inode =>
    rw [hfile] at h
    exact writeAt_written h
  | none =>
    rw [hfile] at h
    cases hname : sessions.temps.lookup (.upload sessionID) with
    | some inode =>
      simp only [hname] at h
      exact writeAt_written h
    | none => simp [hname] at h

section

variable (h : Uploading inst sessionID totalSize total address world)
include h

theorem ensures_uploadChunkBody (ctx : Context) (data : Bytes) (offset : Int) :
    (uploadChunkBody ctx address sessionID data offset).Ensures handle
      (ChunkOutcome inst sessionID totalSize total address data offset) world := by
  unfold uploadChunkBody
  rw [ensures_readUpload]
  split_ifs with hclosed hnegative hbeyond
  · exact h
  · exact h
  · exact h
  rw [ensures_session]
  intro env
  have hframe := writeChunk_frame env world.sessions address sessionID data offset
  have hwritten : Uploading inst sessionID totalSize total address { world with
      sessions := (world.sessions.writeChunk env address sessionID data offset).2 } :=
    h.sessions_eq hframe.1 hframe.2
  cases houtcome : (world.sessions.writeChunk env address sessionID data offset).1 with
  | notOpened =>
    simp only [exec, houtcome]
    exact hwritten
  | failed =>
    simp only [exec, houtcome]
    exact hwritten
  | written =>
    simp only [exec, houtcome]
    obtain ⟨hoffset, hmax⟩ := writeChunk_written houtcome
    have hinside : offset + data.length ≤ totalSize := by
      have hwrapped : int64 (offset + data.length) = offset + data.length :=
        int64_of_range (by omega) hmax
      rw [hwrapped, h.size] at hbeyond
      omega
    rw [ensures_bind]
    refine (ensures_updateHash hwritten data offset).mono _ ?_
    intro _ hashed hhashed
    rw [ensures_session]
    intro env
    have hadded : Uploading inst sessionID totalSize (total + data.length) address _ :=
      hhashed.setUpload ((hashed.sessions.uploads address).change
        (.addUploaded data.length)) rfl (by
          simp only [UploadSession.change]
          rw [hhashed.counted, int64_int64_add])
    rw [ensures_session]
    intro env
    have hcounted : Uploading inst sessionID totalSize (total + data.length) address _ :=
      hadded.change .countChunk (fun _ => rfl) (fun _ => rfl)
    split_ifs
    · rw [ensures_session]
      intro env
      have htouched : Uploading inst sessionID totalSize (total + data.length) address _ :=
        hcounted.change (.touch ctx.now) (fun _ => rfl) (fun _ => rfl)
      rw [ensures_session]
      intro env
      refine ⟨hoffset, hinside, ?_⟩
      simp only [exec]
      split_ifs
      · exact htouched
      · exact htouched.sessions_eq rfl rfl
    · exact ⟨hoffset, hinside, hcounted⟩

theorem ensures_uploadSession {rest : Option Address → Service α}
    (hrest : (rest (some address)).Ensures handle post world) :
    (uploadSession inst sessionID >>= rest).Ensures handle post world := by
  rw [ensures_bind]
  unfold uploadSession
  rw [ensures_session]
  intro env
  simp only [exec, h.loaded]
  exact hrest

variable {ctx : Context}

theorem ensures_uploadChunk (hinst : ctx.inst = inst) (data : Bytes) (offset : Int) :
    (uploadChunk ctx sessionID data offset).Ensures handle
      (ChunkOutcome inst sessionID totalSize total address data offset) world := by
  unfold uploadChunk
  rw [hinst]
  apply ensures_uploadSession h
  apply ensures_acquire
  · exact h
  · intro _
    rw [if_pos rfl, ensures_bind]
    refine (ensures_uploadChunkBody (h.setLock _ _) ctx data offset).mono _ ?_
    intro result after hafter
    apply ensures_unlock
    cases result with
    | ok value =>
      obtain ⟨hoffset, hinside, huploading⟩ := hafter
      refine ⟨hoffset, hinside, ?_⟩
      split_ifs
      · exact huploading.setLock _ _
      · exact huploading
    | error cause =>
      have huploading : Uploading inst sessionID totalSize total address after := hafter
      change Uploading inst sessionID totalSize total address _
      split_ifs
      · exact huploading.setLock _ _
      · exact huploading

theorem ensures_completeUpload (sha256 : Bytes → String) (crypto : Option CryptoService)
    (hinst : ctx.inst = inst) :
    (completeUpload sha256 crypto ctx sessionID).Ensures handle
      (fun result _ => ∀ completed, result = .ok completed → int64 total = totalSize) world := by
  unfold completeUpload
  rw [hinst]
  apply ensures_uploadSession h
  rw [ensures_readUpload]
  split_ifs with hcount
  · rw [ensures_readUpload]
    intro completed hcompleted
    cases hcompleted
  · apply Ensures.of_forall
    intro _ _ _ _
    rw [← h.counted, not_not.mp hcount]
    exact h.size

end

end Chunk

section Session

variable {totalSize : Int}

theorem ensures_acquireSessionSlot {inst : Nat} {rest : Bool → Service α} {world : World}
    (hrest : ∀ granted after, (rest granted).Ensures handle post after) :
    (acquireSessionSlot inst >>= rest).Ensures handle post world := by
  rw [ensures_bind]
  apply Ensures.of_forall
  exact hrest

theorem ensures_createUploadSession (ctx : Context) (filePath fileName : Path)
    (clientID hash : String) (world : World) :
    (createUploadSession ctx filePath fileName totalSize clientID hash).Ensures handle
      (fun result after => ∀ sessionID, result = .ok sessionID →
        ∃ address, Uploading ctx.inst sessionID totalSize 0 address after) world := by
  unfold createUploadSession
  apply ensures_acquireSessionSlot
  intro granted after
  cases granted with
  | false => simp
  | true =>
    rw [if_pos rfl, ensures_session]
    intro env
    cases (after.sessions.exec env (.createTemp (.upload ctx.id))).1 with
    | none =>
      rw [ensures_bind]
      apply Ensures.of_forall
      simp
    | some file =>
      rw [ensures_bind]
      apply Ensures.of_forall
      intro allocated prepared
      cases allocated with
      | false =>
        rw [if_neg Bool.false_ne_true, ensures_session]
        intro env
        rw [ensures_bind]
        apply Ensures.of_forall
        simp
      | true =>
        rw [if_pos rfl, ensures_session]
        intro env
        rw [ensures_session]
        intro env sessionID hsessionID
        cases hsessionID
        have hstored : Uploading ctx.inst ctx.id totalSize 0 prepared.sessions.nextAddress
            { prepared with sessions := (prepared.sessions.exec env (.storeUpload ctx.inst
              ctx.id (newUploadSession ctx filePath fileName totalSize clientID hash
                file))).2 } := by
          refine ⟨?_, ?_, ?_⟩ <;> simp [exec, setInstance,
            Sessions.setUpload, newUploadSession, int64]
        refine ⟨prepared.sessions.nextAddress, ?_⟩
        simp only [exec]
        split_ifs
        · exact hstored
        · exact hstored.sessions_eq rfl rfl

noncomputable def ChunkCall.positions (chunk : ChunkCall) : Finset Int :=
  Finset.Ico chunk.offset (chunk.offset + chunk.data.length)

theorem ChunkCall.card_positions (chunk : ChunkCall) :
    chunk.positions.card = chunk.data.length := by
  rw [positions, Int.card_Ico, add_sub_cancel_left, Int.toNat_natCast]

theorem ChunkCall.positions_subset {chunk : ChunkCall} (hoffset : 0 ≤ chunk.offset)
    (hinside : chunk.offset + chunk.data.length ≤ totalSize) :
    chunk.positions ⊆ Finset.Ico 0 totalSize :=
  Finset.Ico_subset_Ico hoffset hinside

variable {chunks : List ChunkCall}

theorem ensures_sendChunks {inst : Nat} {sessionID : String} {total : Int} {address : Address}
    {world : World} (h : Uploading inst sessionID totalSize total address world)
    (hinst : ∀ chunk ∈ chunks, chunk.ctx.inst = inst) :
    (sendChunks sessionID chunks).Ensures handle
      (fun accepted after => (∀ chunk ∈ accepted, chunk.positions ⊆ Finset.Ico 0 totalSize) ∧
        Uploading inst sessionID totalSize
          (total + sizeSum (accepted.map positions)) address after) world := by
  induction chunks generalizing total world with
  | nil => simpa [sendChunks, sizeSum] using h
  | cons chunk rest ih =>
    have hrest : ∀ other ∈ rest, other.ctx.inst = inst := fun other hother =>
      hinst other (List.mem_cons_of_mem _ hother)
    rw [sendChunks, ensures_bind]
    refine (ensures_uploadChunk h (hinst chunk (List.mem_cons_self ..)) _ _).mono _ ?_
    intro result after hafter
    rw [ensures_bind]
    cases result with
    | error cause =>
      refine (ih hafter hrest).mono _ ?_
      intro accepted final hfinal
      exact hfinal
    | ok value =>
      obtain ⟨hoffset, hinside, huploading⟩ := hafter
      refine (ih huploading hrest).mono _ ?_
      intro accepted final hfinal
      refine ⟨?_, ?_⟩
      · intro other hother
        rcases List.mem_cons.mp hother with rfl | hother
        · exact positions_subset hoffset hinside
        · exact hfinal.1 other hother
      · have hsum : total + sizeSum ((chunk :: accepted).map positions)
            = total + chunk.data.length + sizeSum (accepted.map positions) := by
          rw [List.map_cons, sizeSum, card_positions]
          omega
        rw [hsum]
        exact hfinal.2

/-- A completed upload: its accepted chunks lie inside the file, and their lengths add up to its size
as 64-bit numbers. -/
theorem ensures_chunkedUpload (sha256 : Bytes → String) (crypto : Option CryptoService)
    {opening closing : Context} {file : Announcement}
    (hchunks : ∀ chunk ∈ chunks, chunk.ctx.inst = opening.inst)
    (hclosing : closing.inst = opening.inst) (world : World) :
    (chunkedUpload sha256 crypto opening closing file chunks).Ensures handle
      (fun outcome _ => ∀ accepted result, outcome = .ok (accepted, result) →
        (∀ chunk ∈ accepted, chunk.positions ⊆ Finset.Ico 0 file.totalSize) ∧
        int64 (sizeSum (accepted.map positions)) = file.totalSize) world := by
  unfold chunkedUpload
  rw [ensures_bind]
  refine (ensures_createUploadSession opening file.filePath file.fileName file.clientID file.hash
    world).mono _ ?_
  intro created after hcreated
  cases created with
  | error cause => simp
  | ok sessionID =>
    obtain ⟨address, huploading⟩ := hcreated sessionID rfl
    rw [ensures_bind]
    refine (ensures_sendChunks huploading hchunks).mono _ ?_
    intro accepted middle hsent
    rw [ensures_bind]
    refine (ensures_completeUpload hsent.2 sha256 crypto hclosing).mono _ ?_
    intro completed final hcompleted
    cases completed with
    | error cause => simp
    | ok result =>
      intro accepted' result' heq
      cases heq
      refine ⟨hsent.1, ?_⟩
      rw [← hcompleted result rfl, zero_add]

/-- Every position of the file has been written exactly when the bytes accepted over and above the
positions they fell on are a multiple of `2 ^ 64`. -/
theorem chunkedUpload_covers_iff (sha256 : Bytes → String) (crypto : Option CryptoService)
    {opening closing : Context} {file : Announcement} {chunks accepted : List ChunkCall}
    {result : CompleteUploadResult} {world final : World}
    (hsize : 0 < file.totalSize) (hmax : file.totalSize ≤ maxInt64)
    (hchunks : ∀ chunk ∈ chunks, chunk.ctx.inst = opening.inst)
    (hclosing : closing.inst = opening.inst)
    (hruns : Runs handle (chunkedUpload sha256 crypto opening closing file chunks) world
      (.ok (accepted, result)) final) :
    ((∀ position, 0 ≤ position → position < file.totalSize → ∃ chunk ∈ accepted,
        chunk.offset ≤ position ∧ position < chunk.offset + chunk.data.length) ↔
      2 ^ 64 ∣ rewritten (accepted.map positions)) ∧
    (rewritten (accepted.map positions) = 0 ↔
      (accepted.map positions).Pairwise Disjoint) := by
  refine ⟨?_, rewritten_eq_zero_iff _⟩
  obtain ⟨hinside, hcounted⟩ :=
    (ensures_chunkedUpload sha256 crypto hchunks hclosing world).of_runs _ hruns accepted result rfl
  have hsubset : ∀ part ∈ accepted.map positions, part ⊆ Finset.Ico 0 file.totalSize := by
    intro part hpart
    obtain ⟨chunk, hchunk, rfl⟩ := List.mem_map.mp hpart
    exact hinside chunk hchunk
  have hcover : (∀ position, 0 ≤ position → position < file.totalSize → ∃ chunk ∈ accepted,
        chunk.offset ≤ position ∧ position < chunk.offset + chunk.data.length) ↔
      covered (accepted.map positions) = Finset.Ico 0 file.totalSize := by
    rw [Finset.Subset.antisymm_iff, and_iff_right (covered_subset hsubset)]
    constructor
    · intro h position hposition
      rw [Finset.mem_Ico] at hposition
      obtain ⟨chunk, hchunk, hrange⟩ := h position hposition.1 hposition.2
      exact mem_covered.mpr ⟨_, List.mem_map_of_mem hchunk, Finset.mem_Ico.mpr hrange⟩
    · intro h position hmin hlt
      obtain ⟨part, hpart, hmem⟩ := mem_covered.mp (h (Finset.mem_Ico.mpr ⟨hmin, hlt⟩))
      obtain ⟨chunk, hchunk, rfl⟩ := List.mem_map.mp hpart
      exact ⟨chunk, hchunk, Finset.mem_Ico.mp hmem⟩
  have hwhole : (Finset.Ico 0 file.totalSize).card = file.totalSize.toNat := by
    rw [Int.card_Ico, sub_zero]
  have hdvd : (2 ^ 64 : Int) ∣ sizeSum (accepted.map positions) - file.totalSize := by
    rw [← int64_eq_iff, hcounted, int64_of_range (by omega) hmax]
  have hle := card_covered_le (accepted.map positions)
  have hcard := Finset.card_le_card (covered_subset hsubset)
  rw [hcover, covered_eq_iff hsubset, hwhole, rewritten]
  unfold maxInt64 at hmax
  omega

def twoBytes : Announcement := ⟨['f'], ['f'], 2, "client", ""⟩

def firstByteTwice : List ChunkCall :=
  [⟨.sample 1 "s", [97], 0⟩, ⟨.sample 2 "s", [98], 0⟩]

/-- Both chunks are accepted, the counter reaches the size, and a byte that was never sent is stored
as a zero. -/
theorem chunkedUpload_leaves_hole :
    ∃ final, (chunkedUpload (fun _ => "") none (.sample 0 "s") (.sample 3 "f") twoBytes
        firstByteTwice).run handle .textual (initial .postgresql [['r']]) =
          some (.ok (firstByteTwice, ⟨"f", false, false, 2, "local"⟩), final) ∧
      final.storage.read ['f'] = .ok [98, 0] ∧
      ¬ ∀ position, 0 ≤ position → position < twoBytes.totalSize → ∃ chunk ∈ firstByteTwice,
        chunk.offset ≤ position ∧ position < chunk.offset + chunk.data.length := by
  refine ⟨_, rfl, rfl, ?_⟩
  intro hcovers
  have hlast := hcovers 1 (by decide) (by decide)
  revert hlast
  decide

def eachByteOnce : List ChunkCall :=
  [⟨.sample 1 "s", [97], 0⟩, ⟨.sample 2 "s", [98], 1⟩]

theorem chunkedUpload_covers_eachByteOnce :
    ∃ final result, Runs handle (chunkedUpload (fun _ => "") none (.sample 0 "s") (.sample 3 "f")
        twoBytes eachByteOnce) (initial .postgresql [['r']]) (.ok (eachByteOnce, result)) final ∧
      ∀ position, 0 ≤ position → position < twoBytes.totalSize → ∃ chunk ∈ eachByteOnce,
        chunk.offset ≤ position ∧ position < chunk.offset + chunk.data.length := by
  have hrun : ((chunkedUpload (fun _ => "") none (.sample 0 "s") (.sample 3 "f") twoBytes
      eachByteOnce).run handle .textual (initial .postgresql [['r']])).map Prod.fst =
        some (.ok (eachByteOnce, ⟨"f", false, false, 2, "local"⟩)) := rfl
  obtain ⟨⟨outcome, final⟩, hfinal, rfl⟩ := Option.map_eq_some_iff.mp hrun
  have hruns := runs_of_run _ hfinal
  refine ⟨final, _, hruns, ?_⟩
  have hsize : 0 < twoBytes.totalSize := by decide
  have hmax : twoBytes.totalSize ≤ maxInt64 := by decide
  have hchunks : ∀ chunk ∈ eachByteOnce, chunk.ctx.inst = (Context.sample 0 "s").inst := by
    simp [eachByteOnce, Context.sample]
  have hclosing : (Context.sample 3 "f").inst = (Context.sample 0 "s").inst := rfl
  have hiff := chunkedUpload_covers_iff (fun _ => "") none hsize hmax hchunks hclosing hruns
  have hdisjoint : (eachByteOnce.map positions).Pairwise Disjoint := by decide
  rw [hiff.1, hiff.2.mpr hdisjoint]
  exact ⟨0, rfl⟩

end Session

end FsServer
