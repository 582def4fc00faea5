import FsServer.Proof.Ranges
import FsServer.Proof.Upload

/-!
# What a completed multipart upload consists of

A run of accepted parts keeps three things in step with the list of parts: the counter of bytes, the
list of covered ranges and the content of the temporary file. Completion compares the first two with
the size of the file, and a count of positions then shows that no two parts overlap, as long as the
counter has not wrapped.
-/

namespace FsServer

open Lib Program World FileTransferService PartCall MultipartUploadSession Sessions

def writtenParts (totalSize : Int) (parts : List PartCall) : Bytes :=
  parts.foldl (fun content part => overwrite 0 content part.data part.offset.toNat)
    (List.replicate totalSize.toNat 0)

noncomputable def PartCall.positions (part : PartCall) : Finset Int := part.toChunkCall.positions

structure Receiving (inst : Nat) (sessionID : String) (totalSize : Int) (parts : List PartCall)
    (address : Address) (inode : Inode) (world : World) : Prop where
  loaded : (world.sessions.instances inst).multipartSessions.lookup sessionID = some address
  size : (world.sessions.multiparts address).totalSize = totalSize
  counted : (world.sessions.multiparts address).uploadedSize
    = int64 (sizeSum (parts.map positions))
  separated : Separated (world.sessions.multiparts address).coveredRanges
  ranges : ∀ position, (∃ r ∈ (world.sessions.multiparts address).coveredRanges,
    r.Holds position) ↔ position ∈ covered (parts.map positions)
  handle : (world.sessions.multiparts address).tempFile = some inode
  named : world.sessions.temps.lookup (.upload sessionID) = some inode
  content : world.sessions.inodes inode = writtenParts totalSize parts
  inside : ∀ part ∈ parts, 0 ≤ part.offset ∧ part.offset + part.data.length ≤ totalSize

variable {ι : Type}

theorem sizeSum_append [DecidableEq ι] (first second : List (Finset ι)) :
    sizeSum (first ++ second) = sizeSum first + sizeSum second := by
  induction first with
  | nil => simp [sizeSum]
  | cons part rest ih => simp [sizeSum, ih, Nat.add_assoc]

variable {part : PartCall}

variable {more : List PartCall}

section Part

variable {inst : Nat} {sessionID : String} {totalSize : Int} {parts : List PartCall}
  {address : Address} {inode : Inode} {world : World}

theorem Receiving.fileOf (h : Receiving inst sessionID totalSize parts address inode world) :
    world.sessions.fileOf (.upload sessionID) = some (writtenParts totalSize parts) := by
  rw [Sessions.fileOf, h.named, Option.map_some, h.content]

theorem covered_append_singleton (part : PartCall) (position : Int) :
    position ∈ covered ((parts ++ [part]).map positions) ↔
      position ∈ covered (parts.map positions) ∨ position ∈ part.positions := by
  simp only [mem_covered, List.map_append, List.map_cons, List.map_nil, List.mem_append,
    List.mem_singleton, or_and_right, exists_or, exists_eq_left]

section

variable (h : Receiving inst sessionID totalSize parts address inode world)
  (hmax : totalSize ≤ maxInt64)
include h hmax

theorem Receiving.accept (hoffset : 0 ≤ part.offset)
    (hinside : part.offset + part.data.length ≤ totalSize) {after : World}
    (hinstances : after.sessions.instances = world.sessions.instances)
    (htemps : after.sessions.temps = world.sessions.temps) (hcontent : after.sessions.inodes inode =
      overwrite 0 (world.sessions.inodes inode) part.data part.offset.toNat)
    (hsize : (after.sessions.multiparts address).totalSize
      = (world.sessions.multiparts address).totalSize)
    (huploaded : (after.sessions.multiparts address).uploadedSize
      = int64 ((world.sessions.multiparts address).uploadedSize + part.data.length))
    (hranges : (after.sessions.multiparts address).coveredRanges
      = addCoveredRange (world.sessions.multiparts address).coveredRanges part.offset
        (int64 (part.offset + part.data.length)))
    (hfile : (after.sessions.multiparts address).tempFile
      = (world.sessions.multiparts address).tempFile) :
    Receiving inst sessionID totalSize (parts ++ [part]) address inode after where
  loaded := by
    rw [hinstances]
    exact h.loaded
  size := hsize.trans h.size
  counted := by
    have hcard : (part.positions.card : Int) = part.data.length := by
      rw [positions, ChunkCall.card_positions]
    rw [huploaded, h.counted, int64_int64_add, List.map_append, sizeSum_append]
    simp only [List.map_cons, List.map_nil, sizeSum, Nat.add_zero, Nat.cast_add, hcard]
  separated := by
    rw [hranges]
    exact addCoveredRange_separated h.separated _ _
  ranges := by
    intro position
    rw [hranges, holds_addCoveredRange h.separated, h.ranges, covered_append_singleton,
      int64_of_range (by omega) (by omega), positions, ChunkCall.positions, Finset.mem_Ico]
  handle := hfile.trans h.handle
  named := by
    rw [htemps]
    exact h.named
  content := by
    rw [hcontent, h.content, writtenParts, writtenParts, List.foldl_append]
    rfl
  inside := by
    intro other hother
    rcases List.mem_append.mp hother with hother | hother
    · exact h.inside other hother
    · rw [List.mem_singleton.mp hother]
      exact ⟨hoffset, hinside⟩

theorem ensures_uploadPartBody (sha256 : Bytes → String) (part : PartCall) :
    (uploadPartBody sha256 part.ctx address sessionID part.partNumber part.offset
      part.data).Ensures handle
      (fun result after => result = .ok () →
        Receiving inst sessionID totalSize (parts ++ [part]) address inode after) world := by
  unfold uploadPartBody
  rw [ensures_readMultipart]
  split_ifs with hclosed hstatus hnumber hnegative hbeyond
  · simp
  · simp
  · simp
  · simp
  · simp
  rw [ensures_session]
  intro env
  simp only [exec, writePart, h.handle]
  unfold writeAt
  split_ifs with hrange
  · simp
  rw [h.size] at hbeyond
  have hwrapped : int64 (part.offset + part.data.length) = part.offset + part.data.length :=
    int64_of_range (by omega) (by omega)
  cases env.fault with
  | some n => simp
  | none =>
    dsimp only
    rw [ensures_session]
    intro env
    rw [ensures_session]
    intro env
    rw [ensures_session]
    intro env
    split_ifs
    · rw [ensures_session]
      intro env _
      refine h.accept hmax (by omega) (by omega) rfl rfl ?_ ?_ ?_ ?_ ?_
      all_goals simp [exec, setMultipart, setInode,
        change, recordPart]
    · intro _
      refine h.accept hmax (by omega) (by omega) rfl rfl ?_ ?_ ?_ ?_ ?_
      all_goals simp [exec, setMultipart, setInode,
        change, recordPart]

theorem ensures_uploadPartData (sha256 : Bytes → String) (hinst : part.ctx.inst = inst) :
    (uploadPartData sha256 part.ctx sessionID part.partNumber part.offset part.data).Ensures
      handle (fun result after => result = .ok () →
        Receiving inst sessionID totalSize (parts ++ [part]) address inode after) world := by
  unfold uploadPartData
  rw [hinst, ensures_session]
  intro env
  simp only [exec, h.loaded]
  exact ensures_uploadPartBody h hmax sha256 part

end

theorem ensures_sendParts_length (sha256 : Bytes → String) (sessionID : String)
    (more : List PartCall) (world : World) :
    (sendParts sha256 sessionID more).Ensures handle
      (fun accepted _ => accepted.length ≤ more.length) world := by
  induction more generalizing world with
  | nil => exact Nat.le_refl 0
  | cons part rest ih =>
    rw [sendParts, ensures_bind]
    apply Ensures.of_forall
    intro result after
    rw [ensures_bind]
    refine (ih after).mono _ ?_
    intro accepted final hlength
    cases result with
    | ok value => exact Nat.succ_le_succ hlength
    | error cause => exact Nat.le_succ_of_le hlength

theorem ensures_sendParts (h : Receiving inst sessionID totalSize parts address inode world)
    (hmax : totalSize ≤ maxInt64) (sha256 : Bytes → String)
    (hinst : ∀ part ∈ more, part.ctx.inst = inst) :
    (sendParts sha256 sessionID more).Ensures handle
      (fun accepted after => accepted = more →
        Receiving inst sessionID totalSize (parts ++ more) address inode after) world := by
  induction more generalizing parts world with
  | nil => simpa [sendParts] using h
  | cons part rest ih =>
    have hrest : ∀ other ∈ rest, other.ctx.inst = inst := fun other hother =>
      hinst other (List.mem_cons_of_mem _ hother)
    rw [sendParts, ensures_bind]
    refine (ensures_uploadPartData h hmax sha256 (hinst part (List.mem_cons_self ..))).mono _ ?_
    intro result after hafter
    rw [ensures_bind]
    cases result with
    | error cause =>
      refine (ensures_sendParts_length sha256 sessionID rest after).mono _ ?_
      intro accepted final hlength heq
      rw [heq, List.length_cons] at hlength
      omega
    | ok value =>
      refine (ih (hafter rfl) hrest).mono _ ?_
      intro accepted final hfinal heq
      rw [List.append_cons]
      exact hfinal (List.cons.inj heq).2

end Part

theorem length_writtenParts {totalSize : Int} {parts : List PartCall}
    (hinside : ∀ part ∈ parts, 0 ≤ part.offset ∧ part.offset + part.data.length ≤ totalSize) :
    (writtenParts totalSize parts).length = totalSize.toNat := by
  induction parts using List.reverseRecOn with
  | nil => simp [writtenParts]
  | append_singleton parts part ih =>
    have hpart := hinside part (by simp)
    have hlength := ih fun other hother => hinside other (List.mem_append_left _ hother)
    rw [writtenParts, List.foldl_append]
    simp only [List.foldl_cons, List.foldl_nil]
    rw [length_overwrite]
    · exact hlength
    · change _ ≤ (writtenParts totalSize parts).length
      omega

def Placed (totalSize : Int) (parts : List PartCall) (content : Bytes) : Prop :=
  content.length = totalSize.toNat ∧
    ∀ part ∈ parts, ∀ i < part.data.length, content[part.offset.toNat + i]? = part.data[i]?

theorem placed_writtenParts {totalSize : Int} {parts : List PartCall}
    (hinside : ∀ part ∈ parts, 0 ≤ part.offset ∧ part.offset + part.data.length ≤ totalSize)
    (hdisjoint : (parts.map positions).Pairwise Disjoint) :
    Placed totalSize parts (writtenParts totalSize parts) := by
  refine ⟨length_writtenParts hinside, ?_⟩
  induction parts using List.reverseRecOn with
  | nil => simp
  | append_singleton parts part ih =>
    have hbefore : ∀ other ∈ parts, 0 ≤ other.offset ∧
        other.offset + other.data.length ≤ totalSize := fun other hother =>
      hinside other (List.mem_append_left _ hother)
    have hpart := hinside part (by simp)
    have hlength := length_writtenParts hbefore
    rw [List.map_append, List.pairwise_append] at hdisjoint
    have hwritten : writtenParts totalSize (parts ++ [part])
        = overwrite 0 (writtenParts totalSize parts) part.data part.offset.toNat := by
      rw [writtenParts, List.foldl_append]
      rfl
    intro other hother i hi
    rw [hwritten, getElem?_overwrite 0 (by omega)]
    rcases List.mem_append.mp hother with hother | hother
    · -- the new part does not reach into an earlier one
      have hother' := hbefore other hother
      have hapart : Disjoint other.positions part.positions :=
        hdisjoint.2.2 _ (List.mem_map_of_mem hother) _ (by simp)
      rw [if_neg]
      · exact ih hbefore hdisjoint.1 other hother i hi
      · intro hinto
        have hmem : other.offset + i ∈ other.positions := Finset.mem_Ico.mpr (by omega)
        have hmem' : other.offset + i ∈ part.positions := Finset.mem_Ico.mpr (by omega)
        exact Finset.disjoint_left.mp hapart hmem hmem'
    · rw [List.mem_singleton.mp hother] at hi ⊢
      rw [if_pos (by omega), Nat.add_sub_cancel_left]

theorem Placed.unique {totalSize : Int} {parts : List PartCall} {first second : Bytes}
    (hcovered : covered (parts.map positions) = Finset.Ico 0 totalSize)
    (hinside : ∀ part ∈ parts, 0 ≤ part.offset)
    (hfirst : Placed totalSize parts first) (hsecond : Placed totalSize parts second) :
    first = second := by
  apply List.ext_getElem?
  intro i
  by_cases hi : i < totalSize.toNat
  · have hmem : (i : Int) ∈ covered (parts.map positions) := by
      rw [hcovered, Finset.mem_Ico]
      omega
    obtain ⟨positions, hpositions, hposition⟩ := mem_covered.mp hmem
    obtain ⟨part, hpart, rfl⟩ := List.mem_map.mp hpositions
    have hrange := Finset.mem_Ico.mp hposition
    have hoffset := hinside part hpart
    have hindex : part.offset.toNat + (i - part.offset.toNat) = i := by omega
    have hlt : i - part.offset.toNat < part.data.length := by omega
    rw [← hindex, hfirst.2 part hpart _ hlt, hsecond.2 part hpart _ hlt]
  · have hfirstLength := hfirst.1
    have hsecondLength := hsecond.1
    rw [List.getElem?_eq_none (by omega), List.getElem?_eq_none (by omega)]

/-- The result of a completion that got past its size, coverage and part checks. -/
def PassedChecks : Except TransferError Unit → Prop
  | .error (.sessionNotFound _) => False
  | .error (.incomplete _ _) => False
  | .error (.gaps _) => False
  | .error (.partNotCompleted _ _) => False
  | _ => True

theorem ensures_checkMultipart {inst : Nat} {sessionID : String} {totalSize : Int}
    {parts : List PartCall} {address : Address} {inode : Inode} {world : World}
    (h : Receiving inst sessionID totalSize parts address inode world) :
    (checkMultipart address).Ensures handle (fun result _ =>
      (result = .ok () → int64 (sizeSum (parts.map positions)) = totalSize ∧
        covered (parts.map positions) = Finset.Ico 0 totalSize) ∧
      (result ≠ .ok () → ¬ PassedChecks result)) world := by
  unfold checkMultipart
  rw [ensures_readMultipart]
  split_ifs with hcount
  · simp [PassedChecks]
  rw [ensures_readMultipart]
  split_ifs with hcovered
  · rw [ensures_readMultipart]
    cases incompletePart (world.sessions.multiparts address) with
    | some part => simp [PassedChecks]
    | none =>
      have hsum : int64 (sizeSum (parts.map positions)) = totalSize := by
        rw [← h.counted, not_not.mp hcount, h.size]
      have hwhole : covered (parts.map positions) = Finset.Ico 0 totalSize := by
        rw [h.size] at hcovered
        ext position
        rw [← h.ranges, holds_of_isFullyCovered h.separated hcovered, Finset.mem_Ico]
      exact ⟨fun _ => ⟨hsum, hwhole⟩, fun hne => absurd rfl hne⟩
  · simp [PassedChecks]

variable {ctx : Context}

theorem ensures_completeMultipartUpload {sessionID : String} {totalSize : Int}
    {parts : List PartCall} {address : Address} {inode : Inode} {world : World}
    (h : Receiving ctx.inst sessionID totalSize parts address inode world) (sha256 : Bytes → String)
    (crypto : Option CryptoService) :
    (completeMultipartUpload sha256 crypto ctx sessionID).Ensures handle (fun result _ =>
      PassedChecks result → int64 (sizeSum (parts.map positions)) = totalSize ∧
        covered (parts.map positions) = Finset.Ico 0 totalSize) world := by
  unfold completeMultipartUpload
  rw [ensures_session]
  intro env
  simp only [exec, h.loaded]
  rw [ensures_bind]
  refine (ensures_checkMultipart h).mono _ ?_
  intro checked after hchecked
  cases checked with
  | error cause => exact fun hpassed => absurd hpassed (hchecked.2 (by simp))
  | ok value =>
    apply Ensures.of_forall
    intro _ _ _
    exact hchecked.1 rfl

theorem create_spec (sessions : Sessions) (name : TempName) :
    (sessions.create name).2.temps.lookup name = some (sessions.create name).1 ∧
      (sessions.create name).2.inodes (sessions.create name).1 = [] := by
  unfold create
  cases hname : sessions.temps.lookup name with
  | some inode => exact ⟨hname, by simp [setInode]⟩
  | none => exact ⟨by simp, by simp⟩

theorem ensures_createMultipartUpload (ctx : Context) (filePath fileName : Path) (totalSize : Int)
    (clientID hash : String) (world : World) :
    (createMultipartUpload ctx filePath fileName totalSize clientID hash).Ensures handle
      (fun result after => ∀ sessionID partSize, result = .ok (sessionID, partSize) →
        0 ≤ totalSize ∧ ∃ address inode,
          Receiving ctx.inst sessionID totalSize [] address inode after) world := by
  unfold createMultipartUpload
  apply ensures_acquireSessionSlot
  intro granted after
  cases granted with
  | false => simp
  | true =>
    obtain ⟨hnamed, hempty⟩ := create_spec after.sessions (.upload ctx.id)
    rw [if_pos rfl]
    apply ensures_createTemp
    · rw [ensures_bind]
      apply Ensures.of_forall
      simp
    apply ensures_truncateTemp
    · rw [if_neg Bool.false_ne_true, ensures_session]
      intro env
      rw [ensures_bind]
      apply Ensures.of_forall
      simp
    intro hsize
    rw [if_pos rfl, ensures_session]
    intro env sessionID partSize hresult
    cases hresult
    refine ⟨hsize, (after.sessions.create (.upload ctx.id)).2.nextAddress,
      (after.sessions.create (.upload ctx.id)).1, ?_⟩
    refine ⟨?_, ?_, ?_, ?_, ?_, ?_, ?_, ?_, ?_⟩
    all_goals simp [exec, setInstance, setMultipart, setInode,
      newMultipartSession, int64, sizeSum, Separated.nil, covered, hnamed, hempty,
      truncate, writtenParts]

section Partition

variable {parts : List PartCall} {totalSize : Int}

theorem sizeSum_positions (parts : List PartCall) :
    sizeSum (parts.map positions) = (parts.map fun part => part.data.length).sum := by
  induction parts with
  | nil => rfl
  | cons part rest ih =>
    rw [List.map_cons, List.map_cons, sizeSum, List.sum_cons, ih, positions,
      ChunkCall.card_positions]

theorem pairwise_disjoint_iff (hsize : 0 ≤ totalSize) (hmax : totalSize ≤ maxInt64)
    (hcovered : covered (parts.map positions) = Finset.Ico 0 totalSize)
    (hsum : int64 (sizeSum (parts.map positions)) = totalSize) :
    (parts.map positions).Pairwise Disjoint ↔
      (parts.map fun part => part.data.length).sum < 2 ^ 64 := by
  have hcard : (covered (parts.map positions)).card = totalSize.toNat := by
    rw [hcovered, Int.card_Ico, sub_zero]
  have hle := card_covered_le (parts.map positions)
  have hdvd : (2 ^ 64 : Int) ∣ sizeSum (parts.map positions) - totalSize := by
    rw [← int64_eq_iff, hsum, int64_of_range (by omega) hmax]
  unfold maxInt64 at hmax
  rw [← rewritten_eq_zero_iff, rewritten, ← sizeSum_positions]
  omega

/-- The parts divide the file between them, and the temporary file is the one that has each part at
its offset, in whichever order the calls were made. -/
def Partitioned (sha256 : Bytes → String) (sessionID : String) (totalSize : Int)
    (parts : List PartCall) (created sent : World) : Prop :=
  (parts.map positions).Pairwise Disjoint ∧
  covered (parts.map positions) = Finset.Ico 0 totalSize ∧
  ∃ content, sent.sessions.fileOf (.upload sessionID) = some content ∧
    Placed totalSize parts content ∧
    ∀ reordered, reordered.Perm parts → ∀ resent,
      Runs handle (sendParts sha256 sessionID reordered) created reordered resent →
      resent.sessions.fileOf (.upload sessionID) = some content

/-- Completion passes its checks on a partition of the file exactly when the counter has not
wrapped. -/
theorem multipart_partitioned_iff (sha256 : Bytes → String) (crypto : Option CryptoService)
    {opening closing : Context} {file : Announcement} {parts : List PartCall} {sessionID : String}
    {partSize : Int} {result : Except TransferError Unit} {world created sent completed : World}
    (hmax : file.totalSize ≤ maxInt64)
    (hparts : ∀ part ∈ parts, part.ctx.inst = opening.inst) (hclosing : closing.inst = opening.inst)
    (hcreate : Runs handle (createMultipartUpload opening file.filePath file.fileName
      file.totalSize file.clientID file.hash) world (.ok (sessionID, partSize)) created)
    (hsend : Runs handle (sendParts sha256 sessionID parts) created parts sent)
    (hcomplete : Runs handle (completeMultipartUpload sha256 crypto closing sessionID) sent result
      completed)
    (hpassed : PassedChecks result) :
    Partitioned sha256 sessionID file.totalSize parts created sent ↔
      (parts.map fun part => part.data.length).sum < 2 ^ 64 := by
  obtain ⟨hsize, address, inode, hcreated⟩ := (ensures_createMultipartUpload opening file.filePath
    file.fileName file.totalSize file.clientID file.hash world).of_runs _ hcreate sessionID partSize
    rfl
  have hall : ∀ {more resent}, (∀ part ∈ more, part.ctx.inst = opening.inst) →
      Runs handle (sendParts sha256 sessionID more) created more resent →
      Receiving opening.inst sessionID file.totalSize more address inode resent := by
    intro more resent hmore hruns
    exact (ensures_sendParts hcreated hmax sha256 hmore).of_runs _ hruns rfl
  have hreceived := hall hparts hsend
  rw [← hclosing] at hreceived
  obtain ⟨hsum, hcovered⟩ :=
    (ensures_completeMultipartUpload hreceived sha256 crypto).of_runs _ hcomplete hpassed
  have hdisjoint := pairwise_disjoint_iff hsize hmax hcovered hsum
  constructor
  · intro hpartitioned
    exact hdisjoint.mp hpartitioned.1
  · intro hlt
    have hpairwise := hdisjoint.mpr hlt
    have hplaced := placed_writtenParts hreceived.inside hpairwise
    refine ⟨hpairwise, hcovered, _, hreceived.fileOf, hplaced, ?_⟩
    intro reordered hperm resent hresend
    have hagain := hall (fun part hpart => hparts part (hperm.mem_iff.mp hpart)) hresend
    have hpairwise' : (reordered.map positions).Pairwise Disjoint :=
      ((hperm.map _).pairwise_iff fun {a b} h => Disjoint.symm h).mpr hpairwise
    have hplaced' : Placed file.totalSize parts (writtenParts file.totalSize reordered) := by
      obtain ⟨hlength, hbytes⟩ := placed_writtenParts hagain.inside hpairwise'
      exact ⟨hlength, fun part hpart => hbytes part (hperm.mem_iff.mpr hpart)⟩
    rw [hagain.fileOf, hplaced'.unique hcovered (fun part hpart => (hreceived.inside part hpart).1)
      hplaced]

end Partition

/-! ### More than `2 ^ 64` bytes -/

/-- What besides the counts lets a session go on and complete. -/
structure Accepting (address : Address) (start world : World) : Prop where
  notClosed : (world.sessions.multiparts address).closed = false
  active : (world.sessions.multiparts address).status = .active
  completed : ∀ entry ∈ (world.sessions.multiparts address).parts.entries,
    entry.snd.status = .completed
  unhashed : (world.sessions.multiparts address).hash = ""
  path : (world.sessions.multiparts address).filePath = ['f']
  allowed : world.sessions.tempDirAllowed = true
  outside : world.storage = start.storage ∧ world.db = start.db ∧ world.locks = start.locks

variable {current : MultipartUploadSession}

theorem recordPart_completed (h : ∀ entry ∈ current.parts.entries, entry.snd.status = .completed)
    (partNumber offset length : Int) (hash : String) :
    ∀ entry ∈ (current.recordPart partNumber offset length hash).parts.entries,
      entry.snd.status = .completed := by
  intro entry hentry
  simp only [recordPart, AList.entries_insert, List.mem_cons] at hentry
  rcases hentry with rfl | hentry
  · cases hlookup : current.parts.lookup partNumber with
    | none => rfl
    | some part =>
      have hpart := h ⟨partNumber, part⟩ (AList.mem_lookup_iff.mp hlookup)
      simp only [UploadPart.extend]
      rw [hpart, ite_self]
  · exact h entry ((List.kerase_sublist _ _).subset hentry)

variable {start : World}

section

variable {inst : Nat} {sessionID : String} {totalSize : Int} {parts : List PartCall}
  {address : Address} {inode : Inode} {world : World}
  (h : Receiving inst sessionID totalSize parts address inode world)
  (haccepting : Accepting address start world)
include h haccepting

theorem returns_uploadPartData (hmax : totalSize ≤ maxInt64) (sha256 : Bytes → String)
    (hinst : part.ctx.inst = inst) (hnumber : part.partNumber ≤ 10000) (hoffset : 0 ≤ part.offset)
    (hinside : part.offset + part.data.length ≤ totalSize) :
    (uploadPartData sha256 part.ctx sessionID part.partNumber part.offset part.data).Returns
      handle .textual (fun result after => result = .ok () ∧ Accepting address start after)
      world := by
  have hwrapped : int64 (part.offset + part.data.length) = part.offset + part.data.length :=
    int64_of_range (by omega) (by omega)
  have hrecorded := recordPart_completed haccepting.completed part.partNumber part.offset
    part.data.length (sha256 part.data)
  unfold uploadPartData
  rw [hinst, returns_session]
  simp only [exec, h.loaded]
  unfold uploadPartBody
  rw [returns_session]
  simp only [exec, haccepting.notClosed, haccepting.active, h.size, hwrapped]
  rw [if_neg Bool.false_ne_true, if_neg (by simp), if_neg (by omega), if_neg (by omega),
    if_neg (by omega), returns_session]
  simp only [exec, writePart, h.handle]
  unfold writeAt
  rw [if_neg (by omega)]
  dsimp only [Env.textual]
  rw [returns_session, returns_session, returns_session]
  split_ifs
  · rw [returns_session]
    refine ⟨rfl, ?_, ?_, ?_, ?_, ?_, haccepting.allowed, haccepting.outside⟩
    all_goals simp only [exec, setMultipart, setInode,
      Function.update_self, change]
    exacts [haccepting.notClosed, haccepting.active, hrecorded, haccepting.unhashed,
      haccepting.path]
  · refine ⟨rfl, ?_, ?_, ?_, ?_, ?_, haccepting.allowed, haccepting.outside⟩
    all_goals simp only [exec, setMultipart, setInode,
      Function.update_self, change]
    exacts [haccepting.notClosed, haccepting.active, hrecorded, haccepting.unhashed,
      haccepting.path]

theorem returns_sendParts (hmax : totalSize ≤ maxInt64) (sha256 : Bytes → String)
    (hmore : ∀ part ∈ more, part.ctx.inst = inst ∧ part.partNumber ≤ 10000 ∧ 0 ≤ part.offset ∧
      part.offset + part.data.length ≤ totalSize) :
    (sendParts sha256 sessionID more).Returns handle .textual
      (fun accepted after => accepted = more ∧
        Receiving inst sessionID totalSize (parts ++ more) address inode after ∧
        Accepting address start after) world := by
  induction more generalizing parts world with
  | nil => simpa [sendParts] using ⟨h, haccepting⟩
  | cons part rest ih =>
    obtain ⟨hinst, hnumber, hoffset, hinside⟩ := hmore part (List.mem_cons_self ..)
    have hone := returns_uploadPartData h haccepting hmax sha256 hinst hnumber hoffset hinside
    obtain ⟨result, after, hrun, hresult, hafter⟩ := (returns_iff _).mp hone
    have hreceived := (ensures_uploadPartData h hmax sha256 hinst).of_runs _
      (runs_of_run _ hrun) hresult
    rw [sendParts, returns_bind, returns_iff]
    refine ⟨result, after, hrun, ?_⟩
    rw [returns_bind]
    refine (ih hreceived hafter fun other hother =>
      hmore other (List.mem_cons_of_mem _ hother)).mono _ ?_
    rintro accepted final ⟨rfl, hfinal⟩
    rw [hresult, List.append_cons]
    exact ⟨rfl, hfinal⟩

theorem returns_checkMultipart (hsize : 0 ≤ totalSize)
    (hsum : int64 (sizeSum (parts.map positions)) = totalSize)
    (hcovered : covered (parts.map positions) = Finset.Ico 0 totalSize) :
    (checkMultipart address).Returns handle .textual
      (fun result after => result = .ok () ∧ after = world) world := by
  have hcount : ¬ (world.sessions.multiparts address).uploadedSize
      ≠ (world.sessions.multiparts address).totalSize := by
    rw [h.counted, h.size, hsum]
    exact not_not.mpr rfl
  have hfull : isFullyCovered (world.sessions.multiparts address).coveredRanges
      (world.sessions.multiparts address).totalSize = true := by
    rw [h.size]
    apply isFullyCovered_of_holds h.separated hsize
    intro position
    rw [h.ranges, hcovered, Finset.mem_Ico]
  have hnone : incompletePart (world.sessions.multiparts address) = none := by
    rw [incompletePart, List.find?_eq_none]
    intro part hpart
    obtain ⟨entry, hentry, rfl⟩ := List.mem_map.mp hpart
    simp [haccepting.completed entry hentry]
  unfold checkMultipart
  rw [returns_readMultipart, if_neg hcount, returns_readMultipart, if_pos hfull,
    returns_readMultipart, hnone]
  exact ⟨rfl, rfl⟩

end

theorem returns_discardMultipart {α : Type} {post : α → World → Prop} {env : Env} {inst : Nat}
    {sessionID : String} {rest : Unit → Service α} {world : World}
    (h : ∀ after : World, (rest ()).Returns handle env post after) :
    (discardMultipart inst sessionID >>= rest).Returns handle env post world := by
  rw [returns_bind]
  unfold discardMultipart releaseSessionSlot
  rw [returns_session, returns_session]
  exact h _

theorem returns_storeMultipart {address : Address} {sessionID hash : String} {temp : TempName}
    {world : World} (content : Bytes) (hpath : current.filePath = ['f'])
    (hcontent : world.sessions.fileOf temp = some content)
    (hallowed : world.sessions.tempDirAllowed = true)
    (hstorage : world.storage = (initial .postgresql [['r']]).storage)
    (hdb : world.db = (initial .postgresql [['r']]).db) :
    (storeMultipart ctx address current sessionID temp hash).Returns handle .textual
      (fun result _ => result = .ok ()) world := by
  obtain ⟨stored, hstored⟩ : ∃ stored, (initial .postgresql [['r']]).storage.writeFromTempFile ['f']
      content = .ok stored := ⟨_, rfl⟩
  have hvalid : (initial .postgresql [['r']]).storage.validatePath ['f'] = true := rfl
  have hmove : world.writeFromTempFile ['f'] temp = (.ok (), { world with
      storage := stored
      sessions := { world.sessions with temps := world.sessions.temps.erase temp } }) := by
    simp only [writeFromTempFile, hstorage, hvalid, hallowed, hcontent, hstored]
    rfl
  unfold storeMultipart
  rw [hpath, returns_writeFromTempFile, hmove]
  unfold recordUpload FileMetadataService.existing FileMetadataService.getByPath
    FileMetadataService.create
  rw [returns_bind, returns_bind, returns_sql, hdb]
  change Returns handle .textual _ (Service.sql (.deletedFileId ['f']) >>= _ >>= _) _
  rw [returns_bind, returns_sql]
  change Returns handle .textual _ (Service.sql (.insertFile _) >>= _) _
  rw [returns_sql]
  change Returns handle .textual _ (Service.session (.changeMultipart address _) >>= _) _
  rw [returns_session]
  apply returns_discardMultipart
  intro after
  rw [returns_session]
  rfl

theorem returns_finishMultipart {address : Address} {sessionID : String} {content : Bytes}
    {world : World} (sha256 : Bytes → String)
    (hfile : (world.sessions.multiparts address).tempFile.isSome = true) (hhash : current.hash = "")
    (hpath : current.filePath = ['f'])
    (hcontent : world.sessions.fileOf (.upload sessionID) = some content)
    (hallowed : world.sessions.tempDirAllowed = true)
    (hstorage : world.storage = (initial .postgresql [['r']]).storage)
    (hdb : world.db = (initial .postgresql [['r']]).db) (hlocks : world.locks (.file ['f']) = none) :
    (finishMultipart sha256 none ctx address current sessionID).Returns handle .textual
      (fun result _ => result = .ok ()) world := by
  unfold finishMultipart
  rw [returns_session]
  simp only [exec, hfile]
  change Returns handle .textual _ (Service.session (.closeMultipart address) >>= _) world
  rw [returns_session]
  simp only [exec, hfile]
  unfold verifyMultipartHash
  have hclosed : (true && Env.textual.fault.isNone) = true := rfl
  rw [if_pos hclosed, returns_bind, if_neg (not_not.mpr hhash)]
  change Returns handle .textual _ (encryptTempFile _ _ _ _ _ >>= _) _
  rw [returns_bind]
  change Returns handle .textual _ (Service.acquire _ _ >>= _) _
  rw [hpath, returns_acquire rfl, if_pos rfl, returns_bind]
  · refine Returns.mono handle (returns_storeMultipart content hpath ?_ ?_ ?_ ?_) ?_
    · exact hcontent
    · exact hallowed
    · exact hstorage
    · exact hdb
    rintro result after rfl
    rw [returns_unlock]
    rfl
  · exact hlocks

theorem returns_completeMultipartUpload {sessionID : String} {totalSize : Int}
    {parts : List PartCall} {address : Address} {inode : Inode} {world : World}
    (h : Receiving ctx.inst sessionID totalSize parts address inode world)
    (haccepting : Accepting address (initial .postgresql [['r']]) world) (hsize : 0 ≤ totalSize)
    (hsum : int64 (sizeSum (parts.map positions)) = totalSize)
    (hcovered : covered (parts.map positions) = Finset.Ico 0 totalSize)
    (sha256 : Bytes → String) :
    (completeMultipartUpload sha256 none ctx sessionID).Returns handle .textual
      (fun result _ => result = .ok ()) world := by
  obtain ⟨hstorage, hdb, hlocks⟩ := haccepting.outside
  unfold completeMultipartUpload
  rw [returns_session]
  simp only [exec, h.loaded]
  rw [returns_bind]
  refine Returns.mono handle (returns_checkMultipart h haccepting hsize hsum hcovered) ?_
  rintro result after ⟨rfl, rfl⟩
  rw [returns_changeMultipart]
  apply returns_finishMultipart sha256
  · simp [setMultipart, change, h.handle]
  · exact haccepting.unhashed
  · exact haccepting.path
  · exact h.fileOf
  · exact haccepting.allowed
  · exact hstorage
  · exact hdb
  · change world.locks (.file ['f']) = none
    rw [hlocks]
    rfl

def gibibyte : Announcement := ⟨['f'], ['f'], 2 ^ 30, "client", ""⟩

def wholePart : PartCall where
  ctx := .sample 1 "s"
  data := List.replicate (2 ^ 30) 0
  offset := 0
  partNumber := 1

/-- The same part so many times that the counter has wrapped once. -/
def sixteenExbibytes : List PartCall := List.replicate (2 ^ 34 + 1) wholePart

theorem length_wholePart : wholePart.data.length = 2 ^ 30 := List.length_replicate

theorem positions_wholePart : wholePart.positions = Finset.Ico 0 (2 ^ 30) := by
  rw [positions, ChunkCall.positions, length_wholePart]
  rfl

theorem covered_replicate [DecidableEq ι] (count : Nat) (part : Finset ι) :
    covered (List.replicate (count + 1) part) = part := by
  ext position
  simp [mem_covered, List.mem_replicate]

theorem sizeSum_sixteenExbibytes : sizeSum (sixteenExbibytes.map positions) = 2 ^ 64 + 2 ^ 30 := by
  rw [sizeSum_positions, sixteenExbibytes, List.map_replicate, length_wholePart, List.sum_replicate]
  rfl

/-- The checks pass on parts that all fill the same range. -/
theorem multipart_overlap_passes_checks :
    ∃ partSize created sent completed,
      Runs handle (createMultipartUpload (.sample 0 "s") gibibyte.filePath gibibyte.fileName
        gibibyte.totalSize gibibyte.clientID gibibyte.hash) (initial .postgresql [['r']])
        (.ok ("s", partSize)) created ∧
      Runs handle (sendParts (fun _ => "") "s" sixteenExbibytes) created sixteenExbibytes sent ∧
      Runs handle (completeMultipartUpload (fun _ => "") none (.sample 2 "f") "s") sent (.ok ())
        completed ∧
      ¬ Partitioned (fun _ => "") "s" gibibyte.totalSize sixteenExbibytes created sent := by
  obtain ⟨partSize, created, hcreate, haccepting⟩ : ∃ partSize created,
      (createMultipartUpload (.sample 0 "s") gibibyte.filePath gibibyte.fileName
        gibibyte.totalSize gibibyte.clientID gibibyte.hash).run handle .textual
        (initial .postgresql [['r']]) = some (.ok ("s", partSize), created) ∧
      ∀ address, (created.sessions.instances 0).multipartSessions.lookup "s" = some address →
        Accepting address (initial .postgresql [['r']]) created := by
    refine ⟨_, _, rfl, ?_⟩
    intro address haddress
    cases (Option.some.inj haddress : (0 : Address) = address)
    exact ⟨rfl, rfl, (fun entry hentry => nomatch hentry), rfl, rfl, rfl, rfl, rfl, rfl⟩
  obtain ⟨hsize, address, inode, hreceiving⟩ := (ensures_createMultipartUpload (.sample 0 "s")
    gibibyte.filePath gibibyte.fileName gibibyte.totalSize gibibyte.clientID gibibyte.hash
    (initial .postgresql [['r']])).of_runs _ (runs_of_run _ hcreate) "s" partSize rfl
  have hparts : ∀ part ∈ sixteenExbibytes, part.ctx.inst = 0 ∧ part.partNumber ≤ 10000 ∧
      0 ≤ part.offset ∧ part.offset + part.data.length ≤ gibibyte.totalSize := by
    intro part hpart
    rw [List.eq_of_mem_replicate hpart, length_wholePart]
    exact ⟨rfl, by decide, by decide, by decide⟩
  have hmax : gibibyte.totalSize ≤ maxInt64 := by decide
  obtain ⟨accepted, sent, hsend, rfl, hreceived, hsent⟩ := (returns_iff _).mp
    (returns_sendParts hreceiving (haccepting address hreceiving.loaded) hmax (fun _ => "") hparts)
  have hcovered : covered (sixteenExbibytes.map positions) = Finset.Ico 0 gibibyte.totalSize := by
    rw [sixteenExbibytes, List.map_replicate, covered_replicate, positions_wholePart]
    rfl
  have hsum : int64 (sizeSum (sixteenExbibytes.map positions)) = gibibyte.totalSize := by
    rw [sizeSum_sixteenExbibytes]
    rfl
  have hclosing : Receiving (Context.sample 2 "f").inst "s" gibibyte.totalSize sixteenExbibytes
      address inode sent := hreceived
  obtain ⟨result, completed, hcomplete, rfl⟩ := (returns_iff _).mp
    (returns_completeMultipartUpload hclosing hsent hsize hsum hcovered (fun _ => ""))
  refine ⟨partSize, created, sent, completed, runs_of_run _ hcreate, runs_of_run _ hsend,
    runs_of_run _ hcomplete, ?_⟩
  intro hpartitioned
  have hlt := (pairwise_disjoint_iff hsize hmax hcovered hsum).mp hpartitioned.1
  rw [← sizeSum_positions, sizeSum_sixteenExbibytes] at hlt
  omega

def twoHalves : List PartCall :=
  [⟨⟨.sample 1 "s", [98], 1⟩, 2⟩, ⟨⟨.sample 2 "s", [97], 0⟩, 1⟩]

theorem multipart_partitioned_twoHalves :
    ∃ created sent, Partitioned (fun _ => "") "s" twoBytes.totalSize twoHalves created sent := by
  obtain ⟨created, sent, completed, hcreate, hsend, hcomplete⟩ : ∃ created sent completed,
      (createMultipartUpload (.sample 0 "s") twoBytes.filePath twoBytes.fileName
        twoBytes.totalSize twoBytes.clientID twoBytes.hash).run handle .textual
        (initial .postgresql [['r']]) = some (.ok ("s", 8 * 1024 * 1024), created) ∧
      (sendParts (fun _ => "") "s" twoHalves).run handle .textual created
        = some (twoHalves, sent) ∧
      (completeMultipartUpload (fun _ => "") none (.sample 3 "f") "s").run handle .textual sent
        = some (.ok (), completed) := ⟨_, _, _, rfl, rfl, rfl⟩
  have hmax : twoBytes.totalSize ≤ maxInt64 := by decide
  have hparts : ∀ part ∈ twoHalves, part.ctx.inst = (Context.sample 0 "s").inst := by
    simp [twoHalves, Context.sample]
  have hclosing : (Context.sample 3 "f").inst = (Context.sample 0 "s").inst := rfl
  have hiff := multipart_partitioned_iff (fun _ => "") none hmax hparts hclosing
    (runs_of_run _ hcreate) (runs_of_run _ hsend) (runs_of_run _ hcomplete) trivial
  exact ⟨created, sent, hiff.mpr (by decide)⟩

end FsServer
