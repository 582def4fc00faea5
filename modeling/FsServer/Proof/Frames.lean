import FsServer.Proof.Calls
import FsServer.Client

/-!
# What the services leave alone

The bodies of the directory manager take no lock, and the file manager does not touch the directories.
Each function is gone through once for the calls it can make; what none of these calls changes is the
same after the function.
-/

namespace FsServer

open Lib Program World FileManager DirectoryManager FileMetadataService

def OnData : ∀ β : Type, Call β → Prop
  | _, .storage _ => True
  | _, .sql _ => True
  | _, _ => False

/-- A statement that leaves the directories table as it is. -/
def SqlCall.OnFiles : {β : Type} → SqlCall β → Prop
  | _, .restoreDirectory _ | _, .insertDirectory _ | _, .removeDirectory .. => False
  | _, .permanentlyDeleteDirectory _ | _, .removeDirectories .. | _, .renameAll .. => False
  | _, _ => True

def OnFiles : ∀ β : Type, Call β → Prop
  | _, .storage _ => True
  | _, .sql statement => statement.OnFiles
  | _, .lock _ => True
  | _, _ => False

theorem directories_onFiles (db : Database)
    (result : Except Violation (Table FileMetadata.id FileMetadata.path)) :
    (db.onFiles result).2.directories = db.directories := by
  cases result <;> rfl

theorem SqlCall.OnFiles.directories {β : Type} {call : SqlCall β} (h : call.OnFiles)
    (db : Database) (env : Env) : (db.exec env call).2.directories = db.directories := by
  cases call with
  | restoreDirectory | insertDirectory | removeDirectory => cases h
  | permanentlyDeleteDirectory | removeDirectories | renameAll => cases h
  | restoreFile | insertFile | updateFile | removeFile => exact directories_onFiles _ _
  | removeFiles => exact directories_onFiles _ _
  | _ => rfl

section Frame

variable {α : Type} {program : Service α} {world : World}

theorem locks_of_onData (h : program.Only OnData) :
    program.Ensures handle (fun _ after => after.locks = world.locks) world := by
  refine h.ensures handle (fun {β env operation state after reply} hdata hcall hstate => ?_) rfl
  cases operation with
  | storage call | sql call =>
    cases hcall
    exact hstate
  | session call | lock call | move call => cases hdata

theorem directories_of_onFiles (h : program.Only OnFiles) :
    program.Ensures handle (fun _ after => after.db.directories = world.db.directories) world := by
  refine h.ensures handle (fun {β env operation state after reply} hfiles hcall hstate => ?_) rfl
  cases operation with
  | storage call =>
    cases hcall
    exact hstate
  | sql call =>
    cases hcall
    exact (hfiles.directories state.db env).trans hstate
  | lock call =>
    cases call with
    | acquireMutex key token =>
      simp only [handle, lockExec] at hcall
      split_ifs at hcall
      cases hcall
      exact hstate
    | acquire key token =>
      simp only [handle, lockExec] at hcall
      split_ifs at hcall <;> cases hcall <;> exact hstate
    | unlock key token =>
      cases hcall
      split_ifs <;> exact hstate
  | session call | move call => cases hfiles

end Frame

/-! ### The file manager -/

section Files

variable (sha256 : Bytes → String)

theorem onFiles_withFileLock {α : Type} (ctx : Context) (path : Path)
    {body : Service (Except FileError α)} (h : body.Only OnFiles) :
    (withFileLock ctx path body).Only OnFiles := by
  unfold withFileLock
  refine only_call trivial fun _ => only_call trivial fun taken => ?_
  cases taken with
  | true =>
    exact only_bind h fun _ => only_call trivial fun _ => only_call trivial fun _ => trivial
  | false => exact only_call trivial fun _ => trivial

theorem onFiles_getFileMetadata (path : Path) : (getFileMetadata path).Only OnFiles := by
  unfold getFileMetadata getByPath
  refine only_call trivial fun reply => ?_
  match reply with
  | .error _ | .ok none | .ok (some _) => trivial

theorem onFiles_fileExists (path : Path) : (fileExists path).Only OnFiles := by
  unfold fileExists
  refine only_call trivial fun reply => ?_
  cases reply <;> trivial

theorem onFiles_existing (path : Path) : (existing path).Only OnFiles := by
  unfold existing getByPath
  refine only_call trivial fun reply => ?_
  cases reply <;> trivial

theorem onFiles_create (metadata : FileMetadata) : (create metadata).Only OnFiles := by
  unfold create
  refine only_call trivial fun reply => ?_
  match reply with
  | .ok (some _) => exact only_call trivial fun reply => by cases reply <;> trivial
  | .ok none | .error _ => exact only_call trivial fun reply => by cases reply <;> trivial

theorem onFiles_recordUpload (ctx : Context) (filePath fileName : Path) (size : Int)
    (hash : String) :
    (FileTransferService.recordUpload ctx filePath fileName size hash).Only OnFiles := by
  unfold FileTransferService.recordUpload update
  refine only_bind (onFiles_existing filePath) fun existing => ?_
  cases existing with
  | some metadata =>
    refine only_call trivial fun reply => ?_
    cases reply <;> trivial
  | none =>
    refine only_bind (onFiles_create _) fun reply => ?_
    cases reply with
    | ok _ => trivial
    | error cause => exact only_call trivial fun _ => trivial

theorem onFiles_createRow (metadata : FileMetadata) (path : Path) :
    (createRow metadata path).Only OnFiles := by
  unfold createRow
  refine only_bind (onFiles_create metadata) fun reply => ?_
  cases reply with
  | ok _ => trivial
  | error cause => exact only_call trivial fun _ => trivial

theorem onFiles_updateRow (metadata : FileMetadata) : (updateRow metadata).Only OnFiles := by
  unfold updateRow update
  refine only_call trivial fun reply => ?_
  cases reply <;> trivial

theorem onFiles_uploadFileBody (ctx : Context) (path : Path) (data : Bytes) :
    (uploadFileBody sha256 ctx path data).Only OnFiles := by
  unfold uploadFileBody replacedRow
  refine only_bind (only_bind (onFiles_fileExists path) fun found => ?_) fun existing => ?_
  · cases found with
    | true => exact onFiles_existing path
    | false => trivial
  · cases existing with
    | some metadata =>
      refine only_call trivial fun reply => ?_
      cases reply with
      | ok _ => exact onFiles_updateRow _
      | error cause => trivial
    | none =>
      refine only_call trivial fun reply => ?_
      cases reply with
      | ok _ => exact onFiles_createRow _ path
      | error cause => trivial

theorem onFiles_uploadFileFromReaderBody (ctx : Context) (path : Path) (reader : Reader) :
    (uploadFileFromReaderBody sha256 ctx path reader).Only OnFiles := by
  unfold uploadFileFromReaderBody storedSize
  refine only_call trivial fun reply => ?_
  cases reply with
  | error cause => trivial
  | ok _ =>
    refine only_bind (only_call trivial fun reply => ?_) fun size => ?_
    · cases reply <;> trivial
    refine only_bind (onFiles_existing path) fun existing => ?_
    cases existing with
    | some metadata => exact onFiles_updateRow _
    | none => exact onFiles_createRow _ path

theorem onFiles_deleteFileBody (ctx : Context) (path : Path) :
    (deleteFileBody ctx path).Only OnFiles := by
  unfold deleteFileBody remove
  refine only_bind (onFiles_getFileMetadata path) fun metadata => ?_
  cases metadata with
  | error cause => trivial
  | ok metadata =>
    refine only_call trivial fun reply => ?_
    cases reply with
    | error cause => trivial
    | ok _ => exact only_call trivial fun reply => by cases reply <;> trivial

theorem onFiles_renameFileBody (ctx : Context) (oldPath newName : Path) :
    (renameFileBody ctx oldPath newName).Only OnFiles := by
  unfold renameFileBody update
  refine only_bind (onFiles_getFileMetadata oldPath) fun metadata => ?_
  cases metadata with
  | error cause => trivial
  | ok metadata =>
    refine only_bind (onFiles_fileExists _) fun found => ?_
    cases found with
    | true => trivial
    | false =>
      refine only_call trivial fun reply => ?_
      cases reply with
      | error cause => trivial
      | ok _ =>
        refine only_call trivial fun reply => ?_
        cases reply with
        | ok _ => trivial
        | error cause => exact only_call trivial fun _ => trivial

theorem onFiles_service (call : FileCall) : (call.service sha256).Only OnFiles := by
  cases call with
  | upload ctx path data =>
    exact only_bind (onFiles_withFileLock _ _ (onFiles_uploadFileBody sha256 ctx _ data))
      fun _ => trivial
  | uploadFromReader ctx path reader =>
    exact only_bind
      (onFiles_withFileLock _ _ (onFiles_uploadFileFromReaderBody sha256 ctx _ reader))
      fun _ => trivial
  | download path =>
    refine only_bind (only_bind (onFiles_getFileMetadata _) fun metadata => ?_) fun _ => trivial
    cases metadata with
    | error cause => trivial
    | ok metadata => exact only_call trivial fun reply => by cases reply <;> trivial
  | downloadAt path size offset =>
    refine only_bind (only_bind (onFiles_getFileMetadata _) fun metadata => ?_) fun _ => trivial
    cases metadata with
    | error cause => trivial
    | ok metadata => exact only_call trivial fun reply => by cases reply <;> trivial
  | getMetadata path => exact only_bind (onFiles_getFileMetadata path) fun _ => trivial
  | delete ctx path =>
    exact only_bind (onFiles_withFileLock _ _ (onFiles_deleteFileBody ctx _)) fun _ => trivial
  | rename ctx oldPath newName =>
    exact only_bind (onFiles_withFileLock _ _ (onFiles_renameFileBody ctx _ newName))
      fun _ => trivial

end Files

/-! ### The bodies of the directory manager -/

section Directories

variable (dm : DirectoryManager)

/-- What the two loops of a recursive delete differ in. -/
structure BatchLoop where
  query : SqlCall (Except SqlError (List Entry))
  remove : List String → SqlCall (Except SqlError Unit)
  erase : Path → StorageCall (Except StorageError Unit)
  queryFailed : SqlError → DirectoryError
  removeFailed : SqlError → DirectoryError

def fileBatches (path : Path) (now : String) : BatchLoop :=
  ⟨.filesUnder path, fun ids => .removeFiles ids now, .remove, .queryFiles, .deleteFiles⟩

def directoryBatches (path : Path) (now : String) : BatchLoop :=
  ⟨.directoriesUnder path, fun ids => .removeDirectories ids now, .removeDirectory,
    .queryDirectories, .deleteDirectories⟩

namespace DirectoryManager

def deleteBatches (loop : BatchLoop) : Nat → Service (Option (Except DirectoryError Unit))
  | 0 => return none
  | rounds + 1 => do
    match ← Service.sql loop.query with
    | .error cause => return some (.error (loop.queryFailed cause))
    | .ok found =>
      let entries := found.take batchSize
      if entries.isEmpty then return some (.ok ())
      else
        match ← Service.sql (loop.remove (entries.map Entry.id)) with
        | .error cause => return some (.error (loop.removeFailed cause))
        | .ok () =>
          dm.attemptAll (entries.map fun entry => loop.erase entry.path)
          deleteBatches loop rounds

theorem deleteFiles_eq (ctx : Context) (path : Path) (rounds : Nat) :
    dm.deleteFiles ctx path rounds = dm.deleteBatches (fileBatches path ctx.now) rounds := by
  induction rounds with
  | zero => rfl
  | succ rounds ih =>
    rw [deleteFiles, deleteBatches, ih]
    rfl

theorem deleteDirectories_eq (ctx : Context) (path : Path) (rounds : Nat) :
    dm.deleteDirectories ctx path rounds =
      dm.deleteBatches (directoryBatches path ctx.now) rounds := by
  induction rounds with
  | zero => rfl
  | succ rounds ih =>
    rw [deleteDirectories, deleteBatches, ih]
    rfl

end DirectoryManager

theorem onData_attempt (call : StorageCall (Except StorageError Unit)) :
    (dm.attempt call).Only OnData := by
  unfold attempt
  split_ifs
  · exact only_call trivial fun _ => trivial
  · trivial

theorem onData_attemptAll (calls : List (StorageCall (Except StorageError Unit))) :
    (dm.attemptAll calls).Only OnData := by
  induction calls with
  | nil => trivial
  | cons call rest ih => exact only_bind (onData_attempt dm call) fun _ => ih

theorem onData_directoryExists (path : Path) : (directoryExists path).Only OnData := by
  unfold directoryExists
  refine only_call trivial fun reply => ?_
  cases reply <;> trivial

theorem onData_createDirectoryBody (ctx : Context) (path : Path) :
    (dm.createDirectoryBody ctx path).Only OnData := by
  unfold createDirectoryBody DirectoryMetadataService.create
  refine only_bind (onData_directoryExists path) fun found => ?_
  split_ifs
  · trivial
  refine only_bind (only_call trivial fun reply => ?_) fun created => ?_
  · match reply with
    | .ok (some _) => exact only_call trivial fun reply => by cases reply <;> trivial
    | .ok none | .error _ => exact only_call trivial fun reply => by cases reply <;> trivial
  · cases created with
    | error cause => trivial
    | ok _ => exact only_bind (onData_attempt dm _) fun _ => trivial

theorem onData_removeRow (ctx : Context) (path : Path) : (removeRow ctx path).Only OnData := by
  unfold removeRow DirectoryMetadataService.getByPath
  refine only_call trivial fun reply => ?_
  match reply with
  | .error _ | .ok none => trivial
  | .ok (some _) => exact only_call trivial fun reply => by cases reply <;> trivial

theorem onData_deleteEmpty (ctx : Context) (path : Path) : (deleteEmpty ctx path).Only OnData := by
  unfold deleteEmpty
  refine only_call trivial fun reply => ?_
  match reply with
  | .error _ | .ok (_ :: _) => trivial
  | .ok [] =>
    refine only_call trivial fun reply => ?_
    match reply with
    | .error _ | .ok (_ :: _) => trivial
    | .ok [] => exact onData_removeRow ctx path

theorem onData_batches (loop : BatchLoop) (rounds : Nat) :
    (dm.deleteBatches loop rounds).Only OnData := by
  induction rounds with
  | zero => trivial
  | succ rounds ih =>
    rw [deleteBatches]
    refine only_call trivial fun reply => ?_
    cases reply with
    | error cause => trivial
    | ok found =>
      dsimp only
      split_ifs
      · trivial
      refine only_call trivial fun reply => ?_
      cases reply with
      | error cause => trivial
      | ok _ => exact only_bind (onData_attemptAll dm _) fun _ => ih

theorem onData_deleteDirectoryBody (ctx : Context) (path : Path) (recursive : Bool) (rounds : Nat) :
    (dm.deleteDirectoryBody ctx path recursive rounds).Only OnData := by
  unfold deleteDirectoryBody deleteRecursively
  rw [dm.deleteFiles_eq, dm.deleteDirectories_eq]
  refine only_bind (onData_directoryExists path) fun found => ?_
  split_ifs
  · refine only_bind (onData_batches dm _ rounds) fun stopped => ?_
    match stopped with
    | none | some (.error _) => trivial
    | some (.ok ()) =>
      refine only_bind (onData_batches dm _ rounds) fun stopped => ?_
      match stopped with
      | none | some (.error _) => trivial
      | some (.ok ()) => exact only_bind (onData_removeRow ctx path) fun _ => trivial
  · exact only_bind (onData_deleteEmpty ctx path) fun _ => trivial
  · trivial

theorem onData_renameDirectoryBody (ctx : Context) (oldPath newName : Path) :
    (dm.renameDirectoryBody ctx oldPath newName).Only OnData := by
  unfold renameDirectoryBody getDirectoryMetadata
    DirectoryMetadataService.getByPath
  refine only_bind (only_call trivial fun reply => ?_) fun metadata => ?_
  · match reply with
    | .error _ | .ok none | .ok (some _) => trivial
  cases metadata with
  | error cause => trivial
  | ok metadata =>
    refine only_bind (onData_directoryExists _) fun found => ?_
    split_ifs
    · trivial
    refine only_call trivial fun reply => ?_
    cases reply with
    | error cause => trivial
    | ok files =>
      refine only_call trivial fun reply => ?_
      cases reply with
      | error cause => trivial
      | ok directories =>
        refine only_call trivial fun reply => ?_
        cases reply with
        | error cause => trivial
        | ok _ =>
          exact only_bind (onData_attemptAll dm _) fun _ =>
            only_bind (onData_attempt dm _) fun _ => trivial

end Directories

end FsServer
