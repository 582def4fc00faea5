import FsServer.Proof.Completion
import FsServer.Proof.Parts

/-!
# A part sent twice

A part that is sent again writes the same bytes to the same place and covers the same range, but the
counter of bytes counts it again. So a retry changes whether the completion passes its checks, unless
the part is empty, the parts do not cover the file anyway, or the counter is wrong both with and
without the retry.
-/

namespace FsServer

open Lib Program World FileTransferService Sessions

/-! ### What the checks come to -/

def PartsCompleted (address : Address) (world : World) : Prop :=
  ∀ entry ∈ (world.sessions.multiparts address).parts.entries, entry.snd.status = .completed

def SessionCall.OnParts : {β : Type} → SessionCall β → Prop
  | _, .loadMultipart _ _ => True
  | _, .readMultipart _ => True
  | _, .writePart _ _ _ => True
  | _, .changeMultipart _ _ => True
  | _, _ => False

def OnParts (β : Type) (call : Call β) : Prop :=
  match call with
  | .session call => call.OnParts
  | _ => False

theorem onParts_uploadPartData (sha256 : Bytes → String) (ctx : Context) (sessionID : String)
    (partNumber offset : Int) (data : Bytes) :
    (uploadPartData sha256 ctx sessionID partNumber offset data).Only OnParts := by
  unfold uploadPartData
  refine only_call trivial fun found => ?_
  cases found with
  | none => trivial
  | some address =>
    unfold uploadPartBody
    refine only_call trivial fun current => ?_
    split_ifs
    · trivial
    · trivial
    · trivial
    · trivial
    · trivial
    · refine only_call trivial fun outcome => ?_
      cases outcome with
      | notOpened => trivial
      | failed => trivial
      | written =>
        refine only_call trivial fun _ => only_call trivial fun _ => only_call trivial
          fun counted => ?_
        split_ifs
        · exact only_call trivial fun _ => trivial
        · trivial

theorem onParts_sendParts (sha256 : Bytes → String) (sessionID : String) (parts : List PartCall) :
    (sendParts sha256 sessionID parts).Only OnParts := by
  induction parts with
  | nil => trivial
  | cons part rest ih =>
    refine only_bind (onParts_uploadPartData sha256 part.ctx sessionID _ _ _) fun result => ?_
    refine only_bind ih fun accepted => ?_
    cases result with
    | ok value => trivial
    | error cause => trivial

theorem change_completed {current : MultipartUploadSession}
    (h : ∀ entry ∈ current.parts.entries, entry.snd.status = .completed) (change : MultipartChange) :
    ∀ entry ∈ (current.change change).parts.entries, entry.snd.status = .completed := by
  cases change with
  | recordPart partNumber offset length hash =>
    exact recordPart_completed h partNumber offset length hash
  | _ => exact h

theorem writeAt_multiparts (env : Env) (sessions : Sessions) (inode : Inode) (data : Bytes)
    (offset : Int) : (sessions.writeAt env inode data offset).2.multiparts = sessions.multiparts := by
  unfold writeAt
  split_ifs
  · rfl
  · cases env.fault with
    | none => rfl
    | some n => rfl

theorem PartsCompleted.call {address : Address} {β : Type} {env : Env} {call : Call β}
    {world after : World} {reply : β} (hkind : OnParts β call)
    (hcall : handle β env call world = some (reply, after)) (h : PartsCompleted address world) :
    PartsCompleted address after := by
  cases call with
  | storage call => exact hkind.elim
  | sql call => exact hkind.elim
  | lock call => exact hkind.elim
  | move call => exact hkind.elim
  | session call =>
    cases hcall
    cases call with
    | loadMultipart inst sessionID => exact h
    | readMultipart address => exact h
    | writePart written data offset =>
      unfold PartsCompleted
      simp only [exec, writePart]
      cases (world.sessions.multiparts written).tempFile with
      | none => exact h
      | some inode =>
        dsimp only
        rw [writeAt_multiparts]
        exact h
    | changeMultipart changed change =>
      unfold PartsCompleted
      simp only [exec, setMultipart]
      by_cases heq : address = changed
      · rw [heq, Function.update_self]
        rw [heq] at h
        exact change_completed h change
      · rw [Function.update_of_ne heq]
        exact h
    | _ => exact hkind.elim

theorem ensures_sendParts_completed {address : Address} {world : World}
    (h : PartsCompleted address world) (sha256 : Bytes → String) (sessionID : String)
    (parts : List PartCall) :
    (sendParts sha256 sessionID parts).Ensures World.handle
      (fun _ after => PartsCompleted address after) world :=
  (onParts_sendParts sha256 sessionID parts).ensures _ PartsCompleted.call h

theorem completed_createMultipartUpload (ctx : Context) (filePath fileName : Path) (totalSize : Int)
    (clientID hash : String) (world : World) :
    (createMultipartUpload ctx filePath fileName totalSize clientID hash).Ensures World.handle
      (fun result after => ∀ sessionID partSize, result = .ok (sessionID, partSize) →
        ∀ address, (after.sessions.instances ctx.inst).multipartSessions.lookup sessionID
          = some address → PartsCompleted address after) world := by
  unfold createMultipartUpload
  refine ensures_acquireSessionSlot fun granted counted => ?_
  cases granted with
  | false => exact fun _ _ hok => by cases hok
  | true =>
    rw [if_pos rfl]
    refine ensures_createTemp ?_ (ensures_truncateTemp ?_ fun _ => ?_)
    · rw [ensures_bind]
      refine Ensures.of_forall _ (fun _ _ => ?_) _ _
      exact fun _ _ hok => by cases hok
    · rw [if_neg Bool.false_ne_true, ensures_session]
      intro env
      rw [ensures_bind]
      refine Ensures.of_forall _ (fun _ _ => ?_) _ _
      exact fun _ _ hok => by cases hok
    · rw [if_pos rfl, ensures_session]
      intro env sessionID partSize hok address hloaded
      cases hok
      simp only [exec, setInstance, Function.update_self, AList.lookup_insert,
        Option.some.injEq] at hloaded
      intro entry hentry
      simp [exec, setInstance, setMultipart, ← hloaded,
        newMultipartSession] at hentry

section Passing

variable {sessionID : String} {totalSize : Int} {parts : List PartCall} {address : Address}
  {inode : Inode} {world : World}

def CompletionPasses (sha256 : Bytes → String) (crypto : Option CryptoService) (ctx : Context)
    (sessionID : String) (world : World) : Prop :=
  (completeMultipartUpload sha256 crypto ctx sessionID).Ensures World.handle
    (fun result _ => PassedChecks result) world

theorem passedChecks_of_notEarly {result : Except TransferError Unit} (h : NotEarly result) :
    PassedChecks result := by
  cases result with
  | ok value => trivial
  | error cause =>
    have hnot := h cause rfl
    cases cause with
    | sessionNotFound sessionID => exact absurd trivial hnot
    | incomplete expected got => exact absurd trivial hnot
    | gaps total => exact absurd trivial hnot
    | partNotCompleted partNumber status => exact absurd trivial hnot
    | _ => trivial

/-- The checks look at the number of bytes modulo `2 ^ 64` and at what the parts cover. -/
theorem Receiving.passes_iff {ctx : Context}
    (h : Receiving ctx.inst sessionID totalSize parts address inode world)
    (hcompleted : PartsCompleted address world) (hsize : 0 ≤ totalSize) (sha256 : Bytes → String)
    (crypto : Option CryptoService) :
    CompletionPasses sha256 crypto ctx sessionID world ↔
      int64 (sizeSum (parts.map PartCall.positions)) = totalSize ∧
        covered (parts.map PartCall.positions) = Finset.Ico 0 totalSize := by
  have hnone : incompletePart (world.sessions.multiparts address) = none := by
    rw [incompletePart, List.find?_eq_none]
    intro part hpart
    obtain ⟨entry, hentry, rfl⟩ := List.mem_map.mp hpart
    simp [hcompleted entry hentry]
  have hcovers : isFullyCovered (world.sessions.multiparts address).coveredRanges totalSize = true ↔
      covered (parts.map PartCall.positions) = Finset.Ico 0 totalSize := by
    constructor
    · intro hfull
      ext position
      rw [← h.ranges, holds_of_isFullyCovered h.separated hfull, Finset.mem_Ico]
    · intro hcovered
      refine isFullyCovered_of_holds h.separated hsize fun position => ?_
      rw [h.ranges, hcovered, Finset.mem_Ico]
  have hloads : ∀ env, (world.sessions.exec env (.loadMultipart ctx.inst sessionID))
      = (some address, world.sessions) := by
    intro env
    simp only [exec, h.loaded]
  unfold CompletionPasses completeMultipartUpload
  rw [ensures_outcome hloads]
  dsimp only
  unfold checkMultipart
  rw [bind_bind, ensures_readMultipart, h.counted, h.size]
  split_ifs with hcount
  · exact ⟨fun hpassed => hpassed.elim, fun hboth => hcount hboth.1⟩
  rw [bind_bind, ensures_readMultipart, h.size]
  split_ifs with hfull
  · rw [bind_bind, ensures_readMultipart, hnone]
    refine ⟨fun _ => ⟨not_not.mp hcount, hcovers.mp hfull⟩, fun _ => ?_⟩
    change (Service.session _ >>= _).Ensures World.handle _ _
    rw [ensures_session]
    intro env
    refine Ensures.mono _ (Yields.ensures _ (yields_finishMultipart sha256 crypto sessionID ctx
      address _) _) fun result _ hresult => ?_
    exact passedChecks_of_notEarly hresult
  · exact ⟨fun hpassed => hpassed.elim, fun hboth => hfull (hcovers.mpr hboth.2)⟩

end Passing

/-! ### The retry -/

def sentBytes (parts : List PartCall) : Nat := (parts.map fun part => part.data.length).sum

section Retry

variable {totalSize : Int} {before after : List PartCall} {part : PartCall}

theorem overwrite_twice {α : Type} (filler : α) {content data : List α} {offset : Nat}
    (hle : offset + data.length ≤ content.length) :
    overwrite filler (overwrite filler content data offset) data offset
      = overwrite filler content data offset := by
  have hlength := length_overwrite filler hle
  apply List.ext_getElem?
  intro position
  rw [getElem?_overwrite filler (hlength.symm ▸ hle), getElem?_overwrite filler hle]
  split_ifs <;> rfl

theorem writtenParts_retry (hinside : ∀ other ∈ before ++ [part], 0 ≤ other.offset ∧
    other.offset + other.data.length ≤ totalSize) :
    writtenParts totalSize (before ++ part :: part :: after)
      = writtenParts totalSize (before ++ part :: after) := by
  have hpart := hinside part (List.mem_append_right _ (List.mem_singleton_self part))
  have hlength := length_writtenParts fun other hother =>
    hinside other (List.mem_append_left [part] hother)
  have htwice : overwrite 0 (overwrite 0 (writtenParts totalSize before) part.data
      part.offset.toNat) part.data part.offset.toNat
        = overwrite 0 (writtenParts totalSize before) part.data part.offset.toNat :=
    overwrite_twice 0 (by omega)
  unfold writtenParts at htwice ⊢
  rw [List.foldl_append, List.foldl_append, List.foldl_cons, List.foldl_cons, List.foldl_cons,
    htwice]

theorem covered_retry : covered ((before ++ part :: part :: after).map PartCall.positions)
    = covered ((before ++ part :: after).map PartCall.positions) := by
  ext position
  simp [mem_covered]

theorem sentBytes_retry : sentBytes (before ++ part :: part :: after)
    = sentBytes (before ++ part :: after) + part.data.length := by
  simp only [sentBytes, List.map_append, List.map_cons, List.sum_append, List.sum_cons]
  omega

end Retry

/-- **A retry is harmless only where it changes no count.** -/
theorem retried_part_iff (sha256 : Bytes → String) (crypto : Option CryptoService)
    {opening closing : Context} {file : Announcement} {before after : List PartCall} {part : PartCall}
    {sessionID : String} {partSize : Int} {world created sent resent : World}
    (hmax : file.totalSize ≤ maxInt64)
    (hinst : ∀ other ∈ before ++ part :: after, other.ctx.inst = opening.inst)
    (hclosing : closing.inst = opening.inst)
    (hcreate : Runs handle (createMultipartUpload opening file.filePath file.fileName
      file.totalSize file.clientID file.hash) world (.ok (sessionID, partSize)) created)
    (hsend : Runs handle (sendParts sha256 sessionID (before ++ part :: after)) created
      (before ++ part :: after) sent)
    (hresend : Runs handle (sendParts sha256 sessionID (before ++ part :: part :: after)) created
      (before ++ part :: part :: after) resent) :
    (resent.sessions.fileOf (.upload sessionID) = sent.sessions.fileOf (.upload sessionID) ∧
      (CompletionPasses sha256 crypto closing sessionID resent ↔
        CompletionPasses sha256 crypto closing sessionID sent)) ↔
    (part.data = [] ∨
      covered ((before ++ part :: after).map PartCall.positions) ≠ Finset.Ico 0 file.totalSize ∨
      (int64 (sentBytes (before ++ part :: after)) ≠ file.totalSize ∧
        int64 (sentBytes (before ++ part :: after) + part.data.length) ≠ file.totalSize)) := by
  obtain ⟨hsize, address, inode, hcreated⟩ := (ensures_createMultipartUpload opening file.filePath
    file.fileName file.totalSize file.clientID file.hash world).of_runs _ hcreate sessionID partSize
    rfl
  have hempty := (completed_createMultipartUpload opening file.filePath file.fileName file.totalSize
    file.clientID file.hash world).of_runs _ hcreate sessionID partSize rfl address hcreated.loaded
  have hagain : ∀ other ∈ before ++ part :: part :: after, other.ctx.inst = opening.inst := by
    intro other hother
    refine hinst other ?_
    simpa using hother
  have hsent := (ensures_sendParts hcreated hmax sha256 hinst).of_runs _ hsend rfl
  have hresent := (ensures_sendParts hcreated hmax sha256 hagain).of_runs _ hresend rfl
  have hsentAll := (ensures_sendParts_completed hempty sha256 sessionID _).of_runs _ hsend
  have hresentAll := (ensures_sendParts_completed hempty sha256 sessionID _).of_runs _ hresend
  rw [List.nil_append, ← hclosing] at hsent hresent
  have hpart := hsent.inside part (by simp)
  have hsame : resent.sessions.fileOf (.upload sessionID) = sent.sessions.fileOf (.upload sessionID) := by
    rw [hsent.fileOf, hresent.fileOf, writtenParts_retry fun other hother => hsent.inside other ?_]
    exact List.subset_def.mp (List.append_subset.mpr ⟨List.subset_append_left _ _, by simp⟩) hother
  rw [hsent.passes_iff hsentAll hsize, hresent.passes_iff hresentAll hsize, covered_retry,
    sizeSum_positions, sizeSum_positions, and_iff_right hsame]
  change (int64 (sentBytes _) = _ ∧ _ ↔ int64 (sentBytes _) = _ ∧ _) ↔ _
  rw [sentBytes_retry, Nat.cast_add]
  by_cases hcovered : covered ((before ++ part :: after).map PartCall.positions)
      = Finset.Ico 0 file.totalSize
  · have hnil : part.data = [] ↔ part.data.length = 0 := List.length_eq_zero_iff.symm
    have hwraps : int64 (sentBytes (before ++ part :: after) + part.data.length)
        = int64 (sentBytes (before ++ part :: after)) → part.data.length = 0 := by
      rw [int64_eq_iff]
      unfold maxInt64 at hmax
      omega
    simp only [hcovered, and_true, ne_eq, not_true_eq_false, false_or]
    constructor
    · intro hiff
      by_cases hcount : int64 (sentBytes (before ++ part :: after)) = file.totalSize
      · exact .inl (hnil.mpr (hwraps ((hiff.mpr hcount).trans hcount.symm)))
      · exact .inr ⟨hcount, fun hagain => hcount (hiff.mp hagain)⟩
    · rintro (hdata | ⟨hsentCount, hresentCount⟩)
      · rw [hnil.mp hdata, Nat.cast_zero, add_zero]
      · exact ⟨fun h => absurd h hresentCount, fun h => absurd h hsentCount⟩
  · simp only [hcovered, and_false, ne_eq, not_false_eq_true, true_or, or_true]

def bothBytes : PartCall := ⟨⟨.sample 1 "s", [97, 98], 0⟩, 1⟩

/-- Two bytes were to be sent and were sent, twice: the completion refuses four. -/
theorem retried_part_refused : ∃ partSize created sent resent,
    Runs handle (createMultipartUpload (.sample 0 "s") twoBytes.filePath twoBytes.fileName
      twoBytes.totalSize twoBytes.clientID twoBytes.hash) (initial .postgresql [['r']])
      (.ok ("s", partSize)) created ∧
    Runs handle (sendParts (fun _ => "") "s" [bothBytes]) created [bothBytes] sent ∧
    Runs handle (sendParts (fun _ => "") "s" [bothBytes, bothBytes]) created [bothBytes, bothBytes]
      resent ∧
    (∃ completed, Runs handle (completeMultipartUpload (fun _ => "") none (.sample 2 "f") "s") sent
      (.ok ()) completed) ∧
    ∃ got completed, Runs handle (completeMultipartUpload (fun _ => "") none (.sample 2 "f") "s")
      resent (.error (.incomplete 2 got)) completed := by
  have hcreate := @runs_of_run Call Env World (Except TransferError (String × Int)) handle .textual
  have hsend := @runs_of_run Call Env World (List PartCall) handle .textual
  have hcomplete := @runs_of_run Call Env World (Except TransferError Unit) handle .textual
  exact ⟨_, _, _, _, hcreate rfl, hsend rfl, hsend rfl, ⟨_, hcomplete rfl⟩, _, _, hcomplete rfl⟩

def fiveBytes : Announcement := ⟨['f'], ['f'], 5, "client", ""⟩

/-- Two bytes of five: the completion is refused with and without the retry. -/
theorem retried_part_harmless : ∃ sent resent,
    resent.sessions.fileOf (.upload "s") = sent.sessions.fileOf (.upload "s") ∧
      (CompletionPasses (fun _ => "") none (.sample 2 "f") "s" resent ↔
        CompletionPasses (fun _ => "") none (.sample 2 "f") "s" sent) := by
  obtain ⟨created, sent, resent, hcreate, hsend, hresend⟩ : ∃ created sent resent,
      (createMultipartUpload (.sample 0 "s") fiveBytes.filePath fiveBytes.fileName
        fiveBytes.totalSize fiveBytes.clientID fiveBytes.hash).run handle .textual
        (initial .postgresql [['r']]) = some (.ok ("s", 8 * 1024 * 1024), created) ∧
      (sendParts (fun _ => "") "s" ([] ++ [bothBytes])).run handle .textual created
        = some ([] ++ [bothBytes], sent) ∧
      (sendParts (fun _ => "") "s" ([] ++ [bothBytes, bothBytes])).run handle .textual created
        = some ([] ++ [bothBytes, bothBytes], resent) := ⟨_, _, _, rfl, rfl, rfl⟩
  have hinst : ∀ other ∈ [] ++ [bothBytes], other.ctx.inst = (Context.sample 0 "s").inst := by
    intro other hother
    rw [List.mem_singleton.mp hother]
    rfl
  have hmax : fiveBytes.totalSize ≤ maxInt64 := by decide
  have hclosing : (Context.sample 2 "f").inst = (Context.sample 0 "s").inst := rfl
  refine ⟨sent, resent, (retried_part_iff (fun _ => "") none hmax hinst hclosing (runs_of_run _ hcreate)
    (runs_of_run _ hsend) (runs_of_run _ hresend)).mpr ?_⟩
  exact .inr (.inr ⟨by decide, by decide⟩)

end FsServer
