import FsServer.Breakdown
import FsServer.Lib.Reach
import FsServer.Proof.CalmUploads

/-!
# A delete that failed

`DeleteFile` removes the object and then marks the row. When the statement fails, the row is live and
its object is gone, and since the storage refuses to remove an object that is not there, no later
delete of the file gets past it. A failure of any other call leaves everything as it was.
-/

namespace FsServer

open Lib Program World FileManager LocalStorage

variable {α β : Type} {world : World} {fault : Breakdown}

/-! ### Rules -/

variable {ctx : Context} {path : Path}

section Rules

variable {post : α → World → Prop} {failing : Option Breakdown}

/-- A run with at most this breakdown does not return outside `post`. -/
abbrev Lib.Program.AtMost (failing : Option Breakdown) (post : α → World → Prop)
    (service : Service α) (world : World) : Prop :=
  service.EnsuresAtMost calm Breaks failing post world

variable {rest : β → Service α}

theorem atMost_sql {call : SqlCall β}
    (hbreaks : ∀ fault reply, failing = some fault → call.Breaks fault reply →
      (rest reply).Ensures calm post world)
    (h : ∀ env, (rest (world.db.exec env call).1).AtMost failing post
      { world with db := (world.db.exec env call).2 }) :
    (Service.sql call >>= rest).AtMost failing post world := by
  refine ensuresAtMost_perform ?_ fun env reply after hcall => ?_
  · rintro fault reply after hfailing ⟨hreply, rfl⟩
    exact hbreaks fault reply hfailing hreply
  · cases hcall
    exact h _

theorem atMost_storage {call : StorageCall β}
    (hbreaks : ∀ fault reply storage, failing = some fault →
      call.Breaks fault world.storage storage reply →
        (rest reply).Ensures calm post { world with storage := storage })
    (h : (rest (world.storage.exec call).1).AtMost failing post
      { world with storage := (world.storage.exec call).2 }) :
    (Service.storage call >>= rest).AtMost failing post world := by
  refine ensuresAtMost_perform ?_ fun env reply after hcall => ?_
  · rintro fault reply after hfailing ⟨storage, hreply, rfl⟩
    exact hbreaks fault reply storage hfailing hreply
  · cases hcall
    exact h

theorem calm_unlockBoth {after : World} {value : α}
    (hmutex : world.locks (.fileMutex ctx.inst path) = none)
    (hfile : world.locks (.file path) = none)
    (hlocks : after.locks = ((world.setLock (.fileMutex ctx.inst path) (some ctx.token)).setLock
      (.file path) (some ctx.token)).locks) (h : post value { after with locks := world.locks }) :
    (do
      Service.unlock (.file path) ctx.token
      Service.unlock (.fileMutex ctx.inst path) ctx.token
      return value : Service α).Ensures calm post after := by
  have hne : LockKey.fileMutex ctx.inst path ≠ .file path := by simp
  have hheld : after.locks (.file path) = some ctx.token := by
    rw [hlocks, locks_setLock, Function.update_self]
  have hmiddle : (after.setLock (.file path) none).locks
      = Function.update world.locks (.fileMutex ctx.inst path) (some ctx.token) := by
    rw [locks_setLock, hlocks, locks_setLock, locks_setLock, Function.update_idem,
      Function.update_comm hne, ← hfile, Function.update_eq_self]
  have hback : (after.setLock (.file path) none).setLock (.fileMutex ctx.inst path) none
      = { after with locks := world.locks } := by
    rw [setLock, hmiddle, Function.update_idem, ← hmutex, Function.update_eq_self]
    rfl
  rw [calm_unlock, if_pos hheld, calm_unlock, if_pos (by rw [hmiddle, Function.update_self]), hback]
  exact h

theorem broken_withFileLock {body : Service (Except FileError α)}
    {post : Except FileError α → World → Prop} (h : ∀ locks, world.locks (.file path) = none →
      body.AtMost (some fault) (fun result after => after.locks = locks ∧
        post result { after with locks := world.locks }) { world with locks := locks }) :
    (withFileLock ctx path body).AtMost (some fault) post world := by
  unfold withFileLock
  refine spared_acquireMutex id fun hmutex => ?_
  refine spared_acquire id fun hfile => ?_
  have hunheld : world.locks (.file path) = none := by
    rw [← hfile, locks_setLock, Function.update_of_ne (by simp)]
  rw [if_pos rfl]
  refine ensuresOnce_bind ?_ ?_
  · refine (h _ hunheld).mono fun result after hafter => ?_
    exact calm_unlockBoth hmutex hunheld hafter.1 hafter.2
  · refine Ensures.of_forall _ (fun result after => ?_) _ _
    exact spared_unlock id (spared_unlock id trivial)

end Rules

/-! ### What a failed delete leaves behind -/

/-- Nothing is changed, or the object is gone and the row is still there. -/
structure DeleteFailed (path : Path) (fault : Breakdown) (world failed : World) : Prop where
  locks : failed.locks = world.locks
  unheld : world.locks (.file (normalizePath path)) = none
  db : failed.db = world.db
  storage : fault ≠ .softDelete → failed.storage = world.storage
  gone : fault = .softDelete → world.storage.Stores failed.storage
    (world.storage.getFullPath (normalizePath path)) none

variable {metadata : FileMetadata}

theorem broken_getFileMetadata {post : α → World → Prop}
    {rest : Except FileError FileMetadata → Service α}
    (hlive : world.db.liveFile (normalizePath (normalizePath path)) = some metadata)
    (hbreaks : fault = .lookup → ∀ cause, (rest (.error cause)).Ensures calm post world)
    (h : (rest (.ok metadata)).AtMost (some fault) post world) :
    (getFileMetadata path >>= rest).AtMost (some fault) post world := by
  unfold getFileMetadata FileMetadataService.getByPath
  refine atMost_sql ?_ fun env => ?_
  · rintro _ reply ⟨⟩ ⟨hfault, rfl⟩
    exact hbreaks hfault _
  · rw [Database.exec_fileByPath, hlive]
    exact h

variable {content : Bytes}

theorem broken_deleteFileBody (ctx : Context)
    (hlive : world.db.liveFile (normalizePath (normalizePath path)) = some metadata)
    (hread : world.storage.read path = .ok content) :
    (deleteFileBody ctx path).AtMost (some fault)
      (fun _ failed => failed.locks = world.locks ∧ failed.db = world.db ∧
        (fault ≠ .softDelete → failed.storage = world.storage) ∧
        (fault = .softDelete →
          world.storage.Stores failed.storage (world.storage.getFullPath path) none)) world := by
  obtain ⟨hvalid, hobject⟩ := read_eq_ok.mp hread
  obtain ⟨storage, hremove, hstores⟩ := remove_object hvalid hobject
  unfold deleteFileBody
  refine broken_getFileMetadata hlive (fun hfault cause => ?_) (atMost_storage ?_ ?_)
  · exact ⟨rfl, rfl, fun _ => rfl, fun hsoft => by rw [hfault] at hsoft; cases hsoft⟩
  · rintro _ reply after ⟨⟩ ⟨hfault, rfl, rfl⟩
    exact ⟨rfl, rfl, fun _ => rfl, fun hsoft => by rw [hfault] at hsoft; cases hsoft⟩
  · simp only [exec, hremove, apply]
    refine atMost_sql ?_ fun env => ?_
    · rintro _ reply ⟨⟩ ⟨hfault, rfl⟩
      exact ⟨rfl, rfl, fun hne => absurd hfault hne, fun _ => hstores⟩
    · cases (Database.exec env world.db (.removeFile metadata.id ctx.now)).1 with
      | ok value => trivial
      | error cause => trivial

theorem broken_deleteFile (ctx : Context)
    (hlive : world.db.liveFile (normalizePath (normalizePath path)) = some metadata)
    (hread : world.storage.read (normalizePath path) = .ok content) :
    (deleteFile ctx path).AtMost (some fault)
      (fun _ failed => DeleteFailed path fault world failed) world := by
  unfold deleteFile
  refine broken_withFileLock fun locks hunheld => ?_
  rw [← normalizePath_thrice] at hlive
  have hbody : (deleteFileBody ctx (normalizePath path)).AtMost (some fault) _
      { world with locks := locks } := broken_deleteFileBody ctx hlive hread
  refine hbody.mono fun result failed hfailed => ?_
  obtain ⟨hlocks, hdb, hkept, hgone⟩ := hfailed
  exact ⟨hlocks, rfl, hunheld, hdb, hkept, hgone⟩

/-! ### The next delete -/

theorem total_calm {post : α → World → Prop} {program : Service α}
    (h : program.Total handle post world) : program.Total calm post world :=
  h.restrict _ fun env => ⟨{ env with fault := none }, fun _ _ => rfl⟩

def FileGone (path : Path) (world : World) : Prop :=
  world.db.liveFile (normalizePath (normalizePath path)) = none ∧
    world.storage.object (normalizePath path) = none

theorem total_deleteFile_live
    (hlive : world.db.liveFile (normalizePath (normalizePath path)) = some metadata)
    (hread : world.storage.read (normalizePath path) = .ok content)
    (hmutex : world.locks (.fileMutex ctx.inst (normalizePath path)) = none)
    (hfile : world.locks (.file (normalizePath path)) = none) :
    (deleteFile ctx path).Total calm
      (fun result final => result = .ok () ∧ FileGone path final) world := by
  have hbody : ∀ locks, (deleteFileBody ctx (normalizePath path)).Total handle
      (fun result after => after.locks = locks ∧ result = .ok () ∧ FileGone path after)
      { world with locks := locks } := by
    intro locks
    rw [← normalizePath_thrice] at hlive
    have hdeletes : (deleteFileBody ctx (normalizePath path)).Total handle _
        { world with locks := locks } := total_deleteFileBody_live ctx hlive hread
    refine hdeletes.mono _ ?_
    rintro result after ⟨rfl, hlocks, -, row, hdeleted, hputs, hstores⟩
    refine ⟨hlocks, rfl, ?_, hstores.object_self⟩
    rw [← normalizePath_thrice, hputs.liveFile, if_pos rfl, Option.filter_some, hdeleted]
    rfl
  have hlocked : (deleteFile ctx path).Total handle (fun result final =>
      result = .error (.lock (normalizePath path)) ∨ result = .ok () ∧ FileGone path final) world := by
    refine total_withFileLock hmutex hfile (.inl rfl) fun locks => ?_
    exact (hbody locks).mono _ fun result after h => ⟨h.1, .inr h.2⟩
  -- nothing fails, so the lock is granted
  have hgranted : (deleteFile ctx path).Ensures calm (fun result _ => result = .ok ()) world := by
    refine calm_withFileLock (fun _ _ _ h => h) fun locks => ?_
    exact (Program.Ensures.calm ((hbody locks).ensures _)).mono _ fun result after h => h.2.1
  refine ((total_calm hlocked).and_ensures _ hgranted).mono _ ?_
  rintro result final ⟨hresult | hresult, rfl⟩
  · cases hresult
  · exact hresult

theorem remove_missing {storage : LocalStorage} (hobject : storage.object path = none)
    (hdirectory : storage.tree.isDirectory (storage.getFullPath path) = false) :
    ∃ cause, storage.remove path = .error cause := by
  have hnode := FileTree.node_eq_none_iff.mpr ⟨hobject, hdirectory⟩
  have htree : storage.tree.remove (storage.getFullPath path)
      = .error (storage.tree.missing (storage.getFullPath path)) := by
    rw [FileTree.remove, hnode]
  unfold remove
  rw [htree]
  split_ifs
  · exact ⟨_, rfl⟩
  · exact ⟨_, rfl⟩

theorem calm_deleteFile_missing (hobject : world.storage.object (normalizePath path) = none)
    (hdirectory : world.storage.tree.isDirectory
      (world.storage.getFullPath (normalizePath path)) = false) :
    (deleteFile ctx path).Ensures calm (fun result _ => result ≠ .ok ()) world := by
  obtain ⟨cause, hremove⟩ := remove_missing hobject hdirectory
  refine calm_withFileLock (fun _ _ _ h => h) fun locks => ?_
  unfold deleteFileBody
  rw [ensures_bind]
  have hsame : (getFileMetadata (normalizePath path)).Ensures calm
      (fun _ after => after.storage = world.storage) { world with locks := locks } := by
    unfold getFileMetadata FileMetadataService.getByPath
    rw [calm_sql fun env => Database.exec_fileByPath _]
    cases world.db.liveFile (normalizePath (normalizePath (normalizePath path))) with
    | none => rfl
    | some row => rfl
  refine hsame.mono _ fun found after hstorage => ?_
  cases found with
  | error cause => exact fun h => by cases h
  | ok metadata =>
    dsimp only
    rw [calm_storage, hstorage]
    simp only [exec, hremove, apply]
    exact fun h => by cases h

theorem DeleteFailed.not_directory {failed : World} (h : DeleteFailed path .softDelete world failed)
    (hobject : world.storage.object (normalizePath path) = some content) :
    failed.storage.tree.isDirectory (failed.storage.getFullPath (normalizePath path)) = false := by
  have hplace := FileTree.fileAt_ne_nil hobject
  rw [Rearranges.getFullPath (h.gone rfl), Bool.eq_false_iff]
  intro hdirectory
  rcases (h.gone rfl).adds _ hdirectory with hbefore | habove
  · rw [FileTree.isDirectory_eq_false_of_fileAt hobject] at hbefore
    exact Bool.false_ne_true hbefore
  · have hlength := habove.length_le
    have hpositive := List.length_pos_iff.mpr hplace
    rw [List.length_dropLast] at hlength
    omega

/-- **A delete that failed can be made again** exactly when it was not the row's statement that
failed. -/
theorem deleteFile_retry_iff {ctx retry : Context} {path : Path} {metadata : FileMetadata}
    {content : Bytes} {cause : FileError} {failed : World}
    (hlive : world.db.liveFile (normalizePath (normalizePath path)) = some metadata)
    (hread : world.storage.read (normalizePath path) = .ok content)
    (hfails : (deleteFile ctx path).RunsOnce calm Breaks fault world
      (.error cause) failed)
    (hidle : world.locks (.fileMutex retry.inst (normalizePath path)) = none) :
    (deleteFile retry path).Total calm
      (fun result final => result = .ok () ∧ FileGone path final) failed ↔ fault ≠ .softDelete := by
  have hfailed := (broken_deleteFile ctx hlive hread).of_runs hfails
  constructor
  · rintro htotal rfl
    have hobject := (read_eq_ok.mp hread).2
    have hrefused : (deleteFile retry path).Ensures calm _ failed :=
      calm_deleteFile_missing (hfailed.gone rfl).object_self (hfailed.not_directory hobject)
    obtain ⟨result, final, hruns, hok, -⟩ := (htotal.returns _ .textual).runs
    exact hrefused.of_runs _ hruns hok
  · intro hkept
    rw [← hfailed.db] at hlive
    rw [← hfailed.storage hkept] at hread
    refine total_deleteFile_live hlive hread ?_ ?_
    · rw [hfailed.locks]
      exact hidle
    · rw [hfailed.locks]
      exact hfailed.unheld

def oneByteFile : Service (Except FileError FileMetadata) :=
  uploadFile (fun _ => "") (.sample 1 "a") ['f'] [97]

/-- The row could not be marked, and the object that is gone cannot be removed again. -/
theorem failedDelete_stuck : ∃ world metadata failed final,
    Runs handle oneByteFile (initial .postgresql [['r']]) (.ok metadata) world ∧
      world.db.liveFile ['f'] = some metadata ∧ world.storage.read ['f'] = .ok [97] ∧
      (deleteFile (.sample 2 "") ['f']).RunsOnce calm Breaks .softDelete world
        (.error (.deleteMetadata .fault)) failed ∧
      Runs calm (deleteFile (.sample 3 "") ['f']) failed
        (.error (.deleteStorage (.removeFile .notExist))) final := by
  have hupload := @runs_of_run Call Env World (Except FileError FileMetadata) handle .textual
  have hdelete := @runs_of_run Call Env World (Except FileError Unit) calm .textual
  exact ⟨_, _, _, _, hupload rfl, rfl, rfl, .later .textual rfl (.later .textual rfl
    (.later .textual rfl (.later .textual rfl (.of_run .textual ⟨⟨rfl, rfl⟩, rfl⟩ rfl)))),
    hdelete rfl⟩

/-- The object could not be removed the first time. -/
theorem deleteFile_retry_removeObject : ∃ failed,
    (deleteFile (.sample 3 "") ['f']).Total calm
      (fun result final => result = .ok () ∧ FileGone ['f'] final) failed := by
  obtain ⟨world, metadata, failed, -, hlive, hread, hfails, hidle⟩ : ∃ world metadata failed,
      oneByteFile.run handle .textual (initial .postgresql [['r']]) = some (.ok metadata, world) ∧
      world.db.liveFile (normalizePath (normalizePath ['f'])) = some metadata ∧
      world.storage.read (normalizePath ['f']) = .ok [97] ∧
      (deleteFile (.sample 2 "") ['f']).RunsOnce calm Breaks .removeObject world
        (.error (.deleteStorage .fault)) failed ∧
      world.locks (.fileMutex (Context.sample 3 "").inst (normalizePath ['f'])) = none :=
    ⟨_, _, _, rfl, rfl, rfl, .later .textual rfl (.later .textual rfl (.later .textual rfl
      (.of_run .textual ⟨_, ⟨rfl, rfl, rfl⟩, rfl⟩ rfl))), rfl⟩
  exact ⟨failed, (deleteFile_retry_iff hlive hread hfails hidle).mpr (by decide)⟩

end FsServer
