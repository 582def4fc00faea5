import FsServer.Proof.Calls
import FsServer.Proof.Objects
import FsServer.Proof.Rows

/-!
# What the file manager's calls do

Each body between the locks, on an ordinary path, in terms of the row and the object of that path. A
call that fails leaves the rows alone; of the objects it can only have taken away one that no live row
was behind.
-/

namespace FsServer

open Lib Program World FileManager FileMetadataService Database

variable {world : World}

variable {α : Type} {post : α → World → Prop}

theorem total_fileExists {path : Path} (hpath : Ordinary path) {rest : Bool → Service α} :
    (fileExists path >>= rest).Total handle post world ↔
      (rest (world.db.liveFile path).isSome).Total handle post world := by
  unfold fileExists
  rw [total_bind, total_sql, normalizePath_ordinary hpath, normalizePath_ordinary hpath]
  simp only [exec_fileExists, pure_eq, total_done]
  exact ⟨fun h => h .textual, fun h _ => h⟩

theorem total_existing {path : Path} (hpath : Ordinary path)
    {rest : Option FileMetadata → Service α} :
    (existing path >>= rest).Total handle post world ↔
      (rest (world.db.liveFile path)).Total handle post world := by
  unfold existing getByPath
  rw [total_bind, total_sql, normalizePath_ordinary hpath]
  simp only [exec_fileByPath, pure_eq, total_done]
  exact ⟨fun h => h .textual, fun h _ => h⟩

theorem total_replacedRow {path : Path} (hpath : Ordinary path)
    {rest : Option FileMetadata → Service α} :
    (replacedRow path >>= rest).Total handle post world ↔
      (rest (world.db.liveFile path)).Total handle post world := by
  unfold replacedRow
  rw [total_bind, total_fileExists hpath]
  cases hlive : world.db.liveFile path with
  | none => simp
  | some row =>
    rw [Option.isSome_some, if_pos rfl, ← total_bind, total_existing hpath, hlive]

variable {rest : Except SqlError Unit → Service α}

theorem total_attempt {changed : Database → Prop} {call : SqlCall (Except SqlError Unit)}
    (hcall : ∀ env, Attempts (world.db.exec env call) world.db changed)
    (hok : ∀ db, changed db → (rest (.ok ())).Total handle post { world with db := db })
    (hfailed : ∀ cause, (rest (.error cause)).Total handle post world) :
    (Service.sql call >>= rest).Total handle post world := by
  rw [total_sql]
  intro env
  rcases hcall env with ⟨after, houtcome, hchanged⟩ | ⟨violation, houtcome⟩
  · rw [houtcome]
    exact hok after hchanged
  · rw [houtcome]
    exact hfailed _

variable {metadata : FileMetadata}

theorem total_create {rest : Except CreateError Unit → Service α} (hpath : Ordinary metadata.path)
    (hnew : metadata.isDeleted = false) (hlive : world.db.liveFile metadata.path = none)
    (hok : ∀ db, Puts world.db db metadata.path metadata →
      (rest (.ok ())).Total handle post { world with db := db })
    (hfailed : ∀ cause, (rest (.error cause)).Total handle post world) :
    (create metadata >>= rest).Total handle post world := by
  unfold create
  rw [total_bind, normalizePath_ordinary hpath, total_sql]
  intro env
  rw [exec_deletedFileId]
  cases hrow : world.db.files.atPath metadata.path with
  | none =>
    refine total_attempt (fun env => insertFile_attempts metadata) ?_ ?_
    · exact fun db hputs => hok db hputs
    · exact fun cause => hfailed _
  | some old =>
    have hdeleted := liveFile_eq_none.mp hlive old hrow
    simp only [Option.filter_some, hdeleted, if_true, Option.map_some]
    refine total_attempt (fun env => restoreFile_attempts hrow hnew) ?_ ?_
    · exact fun db hputs => hok db hputs
    · exact fun cause => hfailed _

variable {content : Bytes}

theorem total_remove {path : Path} {rest : Except StorageError Unit → Service α}
    (hread : world.storage.read path = .ok content)
    (h : ∀ storage, world.storage.Stores storage (world.storage.getFullPath path) none →
      (rest (.ok ())).Total handle post { world with storage := storage }) :
    (Service.storage (.remove path) >>= rest).Total handle post world := by
  obtain ⟨hvalid, hobject⟩ := LocalStorage.read_eq_ok.mp hread
  obtain ⟨storage, hremove, hstores⟩ := LocalStorage.remove_object hvalid hobject
  rw [total_storage]
  simp only [LocalStorage.exec, hremove, LocalStorage.apply]
  exact h storage hstores

theorem total_place {path : Path} {data : Bytes} {failed : OsError → StorageError}
    {rest : Except StorageError Unit → Service α} {call : StorageCall (Except StorageError Unit)}
    (hcall : world.storage.exec call = world.storage.apply (world.storage.place path data failed))
    (hok : ∀ storage, world.storage.validatePath path = true →
      world.storage.Stores storage (world.storage.getFullPath path) (some data) →
      (rest (.ok ())).Total handle post { world with storage := storage })
    (hfailed : ∀ cause, (rest (.error cause)).Total handle post world) :
    (Service.storage call >>= rest).Total handle post world := by
  rw [total_storage, hcall]
  cases hplace : world.storage.place path data failed with
  | ok storage =>
    exact hok storage (LocalStorage.place_eq_ok_valid hplace) (LocalStorage.place_ok hplace)
  | error cause => exact hfailed cause

variable {row old : FileMetadata}

theorem total_update (hold : world.db.files.atPath row.path = some old) (hid : row.id = old.id)
    (hcreated : row.createdAt = old.createdAt) (h : ∀ db, Puts world.db db row.path row →
      (rest (.ok ())).Total handle post { world with db := db }) :
    (update row >>= rest).Total handle post world := by
  unfold update
  rw [total_sql]
  intro env
  obtain ⟨after, houtcome, hputs⟩ := updateFile_in_place hold hid hcreated
  rw [houtcome]
  exact h after hputs

theorem total_move {path : Path} (hold : world.db.files.atPath path = some old)
    (hid : row.id = old.id) (hcreated : row.createdAt = old.createdAt) (hne : row.path ≠ path)
    (hok : ∀ db, Moves world.db db path row →
      (rest (.ok ())).Total handle post { world with db := db })
    (hfailed : ∀ cause, (rest (.error cause)).Total handle post world) :
    (update row >>= rest).Total handle post world := by
  unfold update
  rw [total_sql]
  intro env
  rcases updateFile_move hold hid hcreated hne with
    ⟨-, after, houtcome, hmoves⟩ | ⟨-, violation, houtcome⟩
  · rw [houtcome]
    exact hok after hmoves
  · rw [houtcome]
    exact hfailed _

def Uploaded (path : Path) (data : Bytes) (size : Int) (hash : String) (world : World)
    (result : Except FileError FileMetadata) (after : World) : Prop :=
  after.locks = world.locks ∧ after.sessions = world.sessions ∧
    match result with
    | .ok metadata =>
      metadata.size = size ∧ metadata.hash = hash ∧ metadata.isDeleted = false ∧
        world.storage.validatePath path = true ∧ Puts world.db after.db path metadata ∧
        world.storage.Stores after.storage (world.storage.getFullPath path) (some data)
    | .error _ =>
      after.db = world.db ∧ (after.storage = world.storage ∨ world.db.liveFile path = none ∧
        world.storage.Stores after.storage (world.storage.getFullPath path) none)

variable {ctx : Context}

section Upload

variable {path : Path} {data : Bytes} {size : Int} {hash : String} {storage : LocalStorage}
  (hvalid : world.storage.validatePath path = true)

include hvalid in
theorem total_createRow {name : Path} (hpath : Ordinary path)
    (hlive : world.db.liveFile path = none)
    (hstores : world.storage.Stores storage (world.storage.getFullPath path) (some data)) :
    (createRow (newMetadata ctx path name size hash) path).Total handle
      (Uploaded path data size hash world) { world with storage := storage } := by
  unfold createRow
  refine total_create hpath rfl hlive ?_ ?_
  · intro db hputs
    simp only [pure_eq, total_done, newMetadata, normalizePath_ordinary hpath]
    exact ⟨rfl, rfl, rfl, rfl, rfl, hvalid, hputs, hstores⟩
  · intro cause
    rw [← LocalStorage.validatePath_congr hstores.rootDir] at hvalid
    refine total_remove (LocalStorage.read_eq_ok.mpr ⟨hvalid, hstores.object_self⟩) ?_
    intro removed hremoved
    rw [LocalStorage.Rearranges.getFullPath hstores] at hremoved
    exact ⟨rfl, rfl, rfl, .inr ⟨hlive, hstores.trans hremoved⟩⟩

include hvalid in
theorem total_updateRow {now : String} (hlive : world.db.liveFile path = some metadata)
    (hstores : world.storage.Stores storage (world.storage.getFullPath path) (some data)) :
    (updateRow (refreshed metadata size hash now)).Total handle
      (Uploaded path data size hash world) { world with storage := storage } := by
  obtain ⟨hrow, -⟩ := liveFile_eq_some.mp hlive
  obtain rfl := path_of_liveFile hlive
  unfold updateRow
  refine total_update hrow rfl rfl ?_
  intro db hputs
  exact ⟨rfl, rfl, rfl, rfl, rfl, hvalid, hputs, hstores⟩

theorem total_uploadFileBody (sha256 : Bytes → String) (ctx : Context) (hpath : Ordinary path) :
    (uploadFileBody sha256 ctx path data).Total handle
      (Uploaded path data data.length (sha256 data) world) world := by
  unfold uploadFileBody
  rw [total_replacedRow hpath]
  cases hlive : world.db.liveFile path with
  | some metadata =>
    refine total_place rfl ?_ ?_
    · exact fun storage hvalid hstores => total_updateRow hvalid hlive hstores
    · exact fun cause => ⟨rfl, rfl, rfl, .inl rfl⟩
  | none =>
    refine total_place rfl ?_ ?_
    · exact fun storage hvalid hstores => total_createRow hvalid hpath hlive hstores
    · exact fun cause => ⟨rfl, rfl, rfl, .inl rfl⟩

theorem total_uploadFileFromReaderBody (sha256 : Bytes → String) (ctx : Context)
    (hpath : Ordinary path) {reader : Reader} (hreader : reader.fails = false) :
    (uploadFileFromReaderBody sha256 ctx path reader).Total handle
      (Uploaded path reader.data reader.data.length (sha256 reader.data) world) world := by
  unfold uploadFileFromReaderBody
  have hcall : world.storage.exec (.writeFromReader path reader)
      = world.storage.apply (world.storage.place path reader.data .createFile) := by
    simp only [LocalStorage.exec, LocalStorage.writeFromReader, hreader]
    cases world.storage.place path reader.data .createFile <;> rfl
  refine total_place hcall ?_ ?_
  · intro storage hvalid hstores
    have hsize := LocalStorage.getSize_object
      ((LocalStorage.validatePath_congr hstores.rootDir).trans hvalid) hstores.object_self
    unfold storedSize
    rw [total_bind, total_storage]
    simp only [LocalStorage.exec, hsize, pure_eq, total_done]
    rw [total_existing hpath]
    cases hlive : world.db.liveFile path with
    | some metadata =>
      exact total_updateRow hvalid hlive hstores
    | none =>
      exact total_createRow hvalid hpath hlive hstores
  · exact fun cause => ⟨rfl, rfl, rfl, .inl rfl⟩

end Upload

theorem total_getFileMetadata_found {path : Path} {rest : Except FileError FileMetadata → Service α}
    (hlive : world.db.liveFile (normalizePath (normalizePath path)) = some metadata)
    (h : (rest (.ok metadata)).Total handle post world) :
    (getFileMetadata path >>= rest).Total handle post world := by
  unfold getFileMetadata getByPath
  rw [total_bind, total_sql]
  intro env
  rw [exec_fileByPath, hlive]
  exact h

theorem total_getFileMetadata_missing {path : Path}
    {rest : Except FileError FileMetadata → Service α}
    (hmissing : world.db.liveFile (normalizePath (normalizePath path)) = none)
    (h : (rest (.error (.notFound (normalizePath path)))).Total handle post world) :
    (getFileMetadata path >>= rest).Total handle post world := by
  unfold getFileMetadata getByPath
  rw [total_bind, total_sql]
  intro env
  rw [exec_fileByPath, hmissing]
  exact h

theorem total_getFileMetadata {path : Path} {rest : Except FileError FileMetadata → Service α}
    (hpath : Ordinary path) (hnone : world.db.liveFile path = none →
      (rest (.error (.notFound path))).Total handle post world)
    (hsome : ∀ metadata, world.db.liveFile path = some metadata →
      (rest (.ok metadata)).Total handle post world) :
    (getFileMetadata path >>= rest).Total handle post world := by
  have hnormal := normalizePath_ordinary hpath
  cases hlive : world.db.liveFile path with
  | none =>
    refine total_getFileMetadata_missing (by rw [hnormal, hnormal, hlive]) ?_
    rw [hnormal]
    exact hnone hlive
  | some metadata =>
    exact total_getFileMetadata_found (by rw [hnormal, hnormal, hlive]) (hsome metadata hlive)

def Deleted (path : Path) (world : World) (result : Except FileError Unit) (after : World) : Prop :=
  after.locks = world.locks ∧ after.sessions = world.sessions ∧
    match result with
    | .ok () =>
      ∃ metadata, world.db.liveFile path = some metadata ∧ metadata.isDeleted = false ∧
        ∃ row, row.isDeleted = true ∧ Puts world.db after.db path row ∧
        world.storage.Stores after.storage (world.storage.getFullPath path) none
    | .error _ => after = world

theorem total_deleteFileBody_live (ctx : Context) {path : Path}
    (hlive : world.db.liveFile (normalizePath (normalizePath path)) = some metadata)
    (hread : world.storage.read path = .ok content) :
    (deleteFileBody ctx path).Total handle (fun result after => result = .ok () ∧
      after.locks = world.locks ∧ after.sessions = world.sessions ∧
      ∃ row, row.isDeleted = true ∧
        Puts world.db after.db (normalizePath (normalizePath path)) row ∧
        world.storage.Stores after.storage (world.storage.getFullPath path) none) world := by
  obtain ⟨hrow, -⟩ := liveFile_eq_some.mp hlive
  unfold deleteFileBody
  refine total_getFileMetadata_found hlive (total_remove hread ?_)
  intro storage hstores
  unfold remove
  dsimp only
  rw [total_sql]
  intro env
  obtain ⟨after, houtcome, hputs⟩ : ∃ after, world.db.exec env (.removeFile metadata.id ctx.now)
      = (.ok (), after) ∧ Puts world.db after _ _ :=
    removeFile_in_place hrow ctx.now
  rw [houtcome]
  exact ⟨rfl, rfl, rfl, _, rfl, hputs, hstores⟩

theorem total_deleteFileBody (ctx : Context) {path : Path} (hpath : Ordinary path)
    (hread : ∀ metadata, world.db.liveFile path = some metadata →
      ∃ content, world.storage.read path = .ok content) :
    (deleteFileBody ctx path).Total handle (Deleted path world) world := by
  have hnormal : normalizePath (normalizePath path) = path := by
    rw [normalizePath_ordinary hpath, normalizePath_ordinary hpath]
  cases hlive : world.db.liveFile path with
  | none =>
    unfold deleteFileBody
    refine total_getFileMetadata_missing (by rw [hnormal, hlive]) ?_
    exact ⟨rfl, rfl, rfl⟩
  | some metadata =>
    obtain ⟨content, hread⟩ := hread metadata hlive
    refine (total_deleteFileBody_live ctx (by rw [hnormal, hlive]) hread).mono _ ?_
    rintro result after ⟨rfl, hlocks, hsessions, row, hdeleted, hputs, hstores⟩
    rw [hnormal] at hputs
    exact ⟨hlocks, hsessions, metadata, hlive, (liveFile_eq_some.mp hlive).2, row,
      hdeleted, hputs, hstores⟩

def Renamed (oldPath newPath : Path) (world : World) (result : Except FileError Unit)
    (after : World) : Prop :=
  after.locks = world.locks ∧ after.sessions = world.sessions ∧
    match result with
    | .ok () =>
      ∃ metadata content row, world.db.liveFile oldPath = some metadata ∧
        world.db.liveFile newPath = none ∧ world.storage.object oldPath = some content ∧
        row.path = newPath ∧ row.size = metadata.size ∧ row.hash = metadata.hash ∧
        row.isDeleted = false ∧ Moves world.db after.db oldPath row ∧
        world.storage.Relocates after.storage (world.storage.getFullPath oldPath)
          (world.storage.getFullPath newPath) content
    | .error _ => after.db = world.db ∧ world.storage.SameFiles after.storage

section Rename

variable {path name : Path} (hpath : Ordinary path) (hname : isValidFileName name = true)

include hpath hname

theorem ordinary_sibling : Ordinary (renamedPath path name) :=
  have hplain := Plain.of_isValidFileName hname
  hpath.renamedPath hplain.1 hplain.2

theorem total_renameFileBody (ctx : Context)
    (hread : ∀ metadata, world.db.liveFile path = some metadata →
      ∃ content, world.storage.read path = .ok content)
    (hfree : world.db.liveFile (renamedPath path name) = none →
      world.storage.object (renamedPath path name) = none) :
    (renameFileBody ctx path name).Total handle
      (Renamed path (renamedPath path name) world) world := by
  have hnewPath := ordinary_sibling hpath hname
  have hunchanged : Renamed path (renamedPath path name) world
      (.error (.targetExists (renamedPath path name))) world :=
    ⟨rfl, rfl, rfl, .refl _⟩
  unfold renameFileBody
  refine total_getFileMetadata hpath (fun _ => hunchanged) ?_
  intro metadata hlive
  obtain ⟨content, hcontent⟩ := hread metadata hlive
  obtain ⟨hvalid, hcontent⟩ := LocalStorage.read_eq_ok.mp hcontent
  have hnewValid := validatePath_ordinary (rooted_of_validatePath hpath hvalid) hnewPath
  obtain ⟨hrow, hnot⟩ := liveFile_eq_some.mp hlive
  dsimp only
  rw [total_fileExists hnewPath]
  cases hnewLive : world.db.liveFile (renamedPath path name) with
  | some existing => exact hunchanged
  | none =>
    have hne : renamedPath path name ≠ path := by
      intro heq
      rw [heq, hlive] at hnewLive
      simp at hnewLive
    have hfull : world.storage.getFullPath path
        ≠ world.storage.getFullPath (renamedPath path name) := fun heq =>
      hne (getFullPath_injective world.storage hpath hnewPath heq).symm
    rw [Option.isSome_none, if_neg Bool.false_ne_true, total_storage]
    simp only [LocalStorage.exec]
    cases hrename : world.storage.rename path (renamedPath path name) with
    | error cause => exact ⟨rfl, rfl, rfl, LocalStorage.sameFiles_afterFailedRename _ _ cause⟩
    | ok storage =>
      obtain ⟨hmoved, -, hout⟩ :=
        LocalStorage.rename_object hvalid hnewValid hfull hcontent hrename
      refine total_move hrow rfl rfl hne ?_ ?_
      · intro db hmoves
        refine ⟨rfl, rfl, metadata, content, _, hlive, hnewLive, hcontent, ?_, ?_, ?_, ?_, hmoves,
          hmoved⟩
        · rfl
        · rfl
        · rfl
        · exact hnot
      · intro cause
        obtain ⟨back, hback, hsame⟩ := LocalStorage.rename_back hvalid hnewValid hfull hcontent
          (hfree hnewLive) hout hmoved
        dsimp only
        rw [total_storage]
        simp only [LocalStorage.exec, hback]
        exact ⟨rfl, rfl, rfl, hsame⟩

end Rename

/-! ### The locks around a body -/

@[simp]
theorem locks_setLock (world : World) (key : LockKey) (holder : Option Token) :
    (world.setLock key holder).locks = Function.update world.locks key holder := rfl

theorem setLock_setLock (world : World) {key : LockKey} (holder : Option Token)
    (hfree : world.locks key = none) : (world.setLock key holder).setLock key none = world := by
  have hlocks : Function.update (Function.update world.locks key holder) key none = world.locks := by
    rw [Function.update_idem, ← hfree, Function.update_eq_self]
  simp only [setLock, hlocks]

/-- The locks are free again afterwards, and a call that cannot get them changes nothing. -/
theorem total_withFileLock {path : Path} {body : Service (Except FileError α)}
    {post : Except FileError α → World → Prop}
    (hmutex : world.locks (.fileMutex ctx.inst path) = none)
    (hfree : world.locks (.file path) = none) (hlock : post (.error (.lock path)) world)
    (hbody : ∀ locks, body.Total handle (fun result after => after.locks = locks ∧
      post result { after with locks := world.locks }) { world with locks := locks }) :
    (withFileLock ctx path body).Total handle post world := by
  unfold withFileLock
  refine total_acquireMutex hmutex ?_
  generalize htaken : world.setLock (.fileMutex ctx.inst path) (some ctx.token) = locked
  have hfile : locked.locks (.file path) = none := by
    rw [← htaken, locks_setLock, Function.update_of_ne (by simp)]
    exact hfree
  have hheld : locked.locks (.fileMutex ctx.inst path) = some ctx.token := by
    rw [← htaken, locks_setLock, Function.update_self]
  have hunlocked : locked.setLock (.fileMutex ctx.inst path) none = world := by
    rw [← htaken]
    exact setLock_setLock world _ hmutex
  refine total_acquire hfile ?_ ?_
  · rw [if_neg Bool.false_ne_true]
    refine total_unlock hheld ?_
    rw [hunlocked]
    exact hlock
  · have hworld : locked.setLock (.file path) (some ctx.token)
        = { world with locks := (locked.setLock (.file path) (some ctx.token)).locks } := by
      rw [← htaken]
      rfl
    have hback := setLock_setLock locked (some ctx.token) hfile
    rw [if_pos rfl, total_bind, hworld]
    refine (hbody _).mono _ ?_
    rintro result after ⟨hlocks, hpost⟩
    refine total_unlock (by rw [hlocks, locks_setLock, Function.update_self]) ?_
    have hafter : (after.setLock (.file path) none).locks = locked.locks := by
      rw [← congrArg locks hback, locks_setLock, locks_setLock, hlocks]
    refine total_unlock (by rw [hafter, hheld]) ?_
    have hlast : (after.setLock (.file path) none).setLock (.fileMutex ctx.inst path) none
        = { after with locks := world.locks } := by
      rw [← congrArg locks hunlocked]
      simp only [setLock] at hafter ⊢
      rw [hafter]
    rw [hlast]
    exact hpost

end FsServer
