import FsServer.GrpcServer
import FsServer.Proof.Faults
import FsServer.Proof.ValidPaths

/-!
# Uploads without faults

What an upload comes to when nothing fails: whether it is accepted, the row it leaves, and the bytes
it stores. A row is the one that was there with its size and hash replaced, or a
new one.
-/

namespace FsServer

open Lib Program World FileManager Database FileMetadataService

variable {α β : Type} {post : α → World → Prop} {world : World}

/-! ### Rules -/

variable {rest : β → Service α} {db : Database}

theorem calm_sql {call : SqlCall β} {reply : β} (h : ∀ env, world.db.exec env call = (reply, db)) :
    (Service.sql call >>= rest).Ensures calm post world ↔
      (rest reply).Ensures calm post { world with db := db } := by
  constructor
  · intro hall
    refine hall .textual _ _ ?_
    simp only [calm, handle, h]
  · intro hone env answer after hcall
    simp only [calm, handle, h] at hcall
    cases hcall
    exact hone

theorem calm_changes {call : SqlCall (Except SqlError Unit)} {changed : Database → Prop}
    {rest : Except SqlError Unit → Service α}
    (hcall : ∀ env, ∃ db, world.db.exec env call = (.ok (), db) ∧ changed db)
    (h : ∀ db, changed db → (rest (.ok ())).Ensures calm post { world with db := db }) :
    (Service.sql call >>= rest).Ensures calm post world := by
  intro env reply after houtcome
  obtain ⟨db, hexec, hchanged⟩ := hcall { env with fault := none }
  simp only [calm, handle, hexec] at houtcome
  cases houtcome
  exact h db hchanged

theorem calm_storage {call : StorageCall β} :
    (Service.storage call >>= rest).Ensures calm post world ↔
      (rest (world.storage.exec call).1).Ensures calm post
        { world with storage := (world.storage.exec call).2 } := by
  constructor
  · intro hall
    exact hall .textual _ _ rfl
  · intro hone env answer after hcall
    cases hcall
    exact hone

theorem calm_writeFromTempFile {path : Path} {temp : TempName}
    {rest : Except StorageError Unit → Service α} :
    (Service.writeFromTempFile path temp >>= rest).Ensures calm post world ↔
      (rest (world.writeFromTempFile path temp).1).Ensures calm post
        (world.writeFromTempFile path temp).2 := by
  constructor
  · intro hall
    exact hall .textual _ _ rfl
  · intro hone env answer after hcall
    have houtcome : world.writeFromTempFile path temp = (answer, after) := Option.some.inj hcall
    rw [houtcome] at hone
    exact hone

variable {key : LockKey} {token : Token}

theorem calm_acquire {rest : Bool → Service α}
    (h : (rest true).Ensures calm post (world.setLock key (some token))) :
    (Service.acquire key token >>= rest).Ensures calm post world := by
  intro env answer after houtcome
  simp only [calm, handle, lockExec, Option.isSome_none, Bool.false_eq_true, if_false]
    at houtcome
  split_ifs at houtcome
  cases houtcome
  exact h

theorem calm_acquireMutex {rest : Unit → Service α}
    (h : (rest ()).Ensures calm post (world.setLock key (some token))) :
    (Service.acquireMutex key token >>= rest).Ensures calm post world := by
  intro env answer after houtcome
  simp only [calm, handle, lockExec] at houtcome
  split_ifs at houtcome
  cases houtcome
  exact h

theorem calm_unlock {rest : Unit → Service α} :
    (Service.unlock key token >>= rest).Ensures calm post world ↔
      (rest ()).Ensures calm post
        (if world.locks key = some token then world.setLock key none else world) := by
  constructor
  · intro hall
    exact hall .textual _ _ rfl
  · intro hone env answer after hcall
    cases hcall
    exact hone

/-! ### Queries -/

section

variable {path : Path} (hpath : Ordinary path)
include hpath

theorem calm_fileExists {rest : Bool → Service α} :
    (fileExists path >>= rest).Ensures calm post world ↔
      (rest (world.db.liveFile path).isSome).Ensures calm post world := by
  unfold fileExists
  rw [normalizePath_ordinary hpath, normalizePath_ordinary hpath, bind_bind,
    calm_sql fun env => exec_fileExists path]
  rfl

theorem calm_getByPath {rest : Except SqlError (Option FileMetadata) → Service α} :
    (getByPath path >>= rest).Ensures calm post world ↔
      (rest (.ok (world.db.liveFile path))).Ensures calm post world := by
  unfold getByPath
  rw [normalizePath_ordinary hpath, calm_sql fun env => exec_fileByPath path]

theorem calm_existing {rest : Option FileMetadata → Service α} :
    (existing path >>= rest).Ensures calm post world ↔
      (rest (world.db.liveFile path)).Ensures calm post world := by
  unfold existing
  rw [bind_bind, calm_getByPath hpath]
  rfl

theorem calm_replacedRow {rest : Option FileMetadata → Service α} :
    (replacedRow path >>= rest).Ensures calm post world ↔
      (rest (world.db.liveFile path)).Ensures calm post world := by
  unfold replacedRow
  rw [bind_bind, calm_fileExists hpath]
  cases hlive : world.db.liveFile path with
  | none => rfl
  | some row =>
    rw [Option.isSome_some, if_pos rfl, calm_existing hpath, hlive]

end

theorem calm_getFileMetadata {path : Path} (hpath : Ordinary (normalizePath path))
    {rest : Except FileError FileMetadata → Service α} :
    (getFileMetadata path >>= rest).Ensures calm post world ↔
      (rest (match world.db.liveFile (normalizePath path) with
        | none => .error (.notFound (normalizePath path))
        | some row => .ok row)).Ensures calm post world := by
  unfold getFileMetadata
  rw [bind_bind, calm_getByPath hpath]
  cases world.db.liveFile (normalizePath path) with
  | none => rfl
  | some row => rfl

/-! ### The object and the row -/

def LocalStorage.accepts (storage : LocalStorage) (path : Path) : Bool :=
  (storage.place path [] .writeFile).isOk

theorem LocalStorage.isOk_place (storage : LocalStorage) (path : Path) (data : Bytes)
    (failed : OsError → StorageError) :
    (storage.place path data failed).isOk = storage.accepts path := by
  have hwrite : ∀ (tree : Tree) (place : List Segment),
      (tree.writeFile place data).isOk = (tree.writeFile place []).isOk := by
    intro tree place
    unfold FileTree.writeFile
    split_ifs
    · rfl
    · rfl
    · rfl
  unfold LocalStorage.accepts LocalStorage.place
  split_ifs with hvalid
  · dsimp only
    cases hmade : LocalStorage.ensureDirectoryExists storage.tree
        (storage.getFullPath path).dropLast with
    | error cause => rfl
    | ok tree =>
      dsimp only
      have hsame := hwrite tree (storage.getFullPath path)
      cases hdata : tree.writeFile (storage.getFullPath path) data with
      | ok written =>
        rw [hdata] at hsame
        cases hnil : tree.writeFile (storage.getFullPath path) [] with
        | ok other => rfl
        | error cause =>
          rw [hnil] at hsame
          cases hsame
      | error cause =>
        rw [hdata] at hsame
        cases hnil : tree.writeFile (storage.getFullPath path) [] with
        | error other => rfl
        | ok written =>
          rw [hnil] at hsame
          cases hsame
  · rfl

theorem calm_place {path : Path} {data : Bytes} {failed : OsError → StorageError}
    {rest : Except StorageError Unit → Service α} {call : StorageCall (Except StorageError Unit)}
    (hcall : world.storage.exec call
      = world.storage.apply (world.storage.place path data failed))
    (hok : world.storage.accepts path = true → ∀ storage,
      world.storage.Stores storage (world.storage.getFullPath path) (some data) →
        (rest (.ok ())).Ensures calm post { world with storage := storage })
    (hfailed : world.storage.accepts path = false → ∀ cause,
      (rest (.error cause)).Ensures calm post world) :
    (Service.storage call >>= rest).Ensures calm post world := by
  have haccepts := world.storage.isOk_place path data failed
  rw [calm_storage, hcall]
  cases hplace : world.storage.place path data failed with
  | ok storage =>
    rw [hplace] at haccepts
    exact hok haccepts.symm storage (LocalStorage.place_ok hplace)
  | error cause =>
    rw [hplace] at haccepts
    exact hfailed haccepts.symm cause

/-- The object and the row of a path have been replaced, and nothing else of both. -/
structure StoredAs (world : World) (path : Path) (row : FileMetadata) (content : Bytes)
    (after : World) : Prop where
  puts : Puts world.db after.db path row
  stores : world.storage.Stores after.storage (world.storage.getFullPath path) (some content)

variable {row : FileMetadata} {content : Bytes} {after : World}

theorem StoredAs.liveFile {path : Path} (h : StoredAs world path row content after)
    (hrow : row.isDeleted = false) :
    after.db.liveFile path = some row := by
  rw [h.puts.liveFile, if_pos rfl, Option.filter_some, hrow]
  rfl

def uploadedRow (world : World) (ctx : Context) (path name : Path) (size : Int) (hash : String) :
    FileMetadata :=
  match world.db.liveFile path with
  | some row => refreshed row size hash ctx.now
  | none => newMetadata ctx path name size hash

theorem isDeleted_uploadedRow (ctx : Context) (path name : Path) (size : Int) (hash : String) :
    (uploadedRow world ctx path name size hash).isDeleted = false := by
  unfold uploadedRow
  cases world.db.liveFile path with
  | none => rfl
  | some row => rfl

def FreshId (world : World) (id : String) : Prop := ∀ row ∈ world.db.files.rows, row.id ≠ id

variable {old : FileMetadata}

theorem Database.restoreFile_ok {env : Env} (hold : db.files.atPath row.path = some old)
    (hlive : row.isDeleted = false) (hid : ∀ other ∈ db.files.rows, other.id ≠ row.id) :
    ∃ after, db.exec env (.restoreFile row) = (.ok (), after) ∧ Puts db after row.path row := by
  obtain ⟨hmem, -⟩ := Table.atPath_eq_some.mp hold
  rcases restoreFile_attempts hold hlive with hdone | ⟨violation, hfailed⟩
  · exact hdone
  · obtain ⟨files, hfiles⟩ : ∃ files, db.files.update (fun other => other.path = row.path)
        (fun other =>
          { other with
            id := row.id, name := row.name, size := row.size, hash := row.hash,
            storageType := row.storageType, storageLocation := row.storageLocation,
            createdAt := row.createdAt, updatedAt := row.updatedAt, isDeleted := false })
        = .ok files :=
      Table.update_eq_ok (select_path hold) (fun other hother _ => hid other hother)
        fun other hother hne heq => hne (db.files.eq_of_path_eq hother hmem heq)
    simp only [exec, hfiles, onFiles] at hfailed
    cases hfailed

section Rows

variable {path : Path} {metadata : FileMetadata}

theorem calm_create {rest : Except CreateError Unit → Service α} (hpath : Ordinary metadata.path)
    (hnew : metadata.isDeleted = false) (hlive : world.db.liveFile metadata.path = none)
    (hid : FreshId world metadata.id)
    (h : ∀ db, Puts world.db db metadata.path metadata →
      (rest (.ok ())).Ensures calm post { world with db := db }) :
    (create metadata >>= rest).Ensures calm post world := by
  unfold create
  rw [bind_bind, normalizePath_ordinary hpath,
    calm_sql fun env => exec_deletedFileId metadata.path]
  cases hrow : world.db.files.atPath metadata.path with
  | none =>
    dsimp only [Option.filter_none, Option.map_none]
    rw [bind_bind]
    exact calm_changes (fun _ => insertFile_ok hid hrow) h
  | some old =>
    have hdeleted := liveFile_eq_none.mp hlive old hrow
    simp only [Option.filter_some, hdeleted, if_true, Option.map_some]
    rw [bind_bind]
    exact calm_changes (fun _ => restoreFile_ok hrow hnew hid) h

theorem calm_update {rest : Except SqlError Unit → Service α}
    (hold : world.db.files.atPath metadata.path = some old) (hid : metadata.id = old.id)
    (hcreated : metadata.createdAt = old.createdAt)
    (h : ∀ db, Puts world.db db metadata.path metadata →
      (rest (.ok ())).Ensures calm post { world with db := db }) :
    (update metadata >>= rest).Ensures calm post world :=
  calm_changes (fun _ => updateFile_in_place hold hid hcreated) h

end Rows

/-- The upload has been accepted or not, and if it has, this is what it stored. -/
def Outcome (world : World) (path : Path) (row : FileMetadata) (content : Bytes)
    (accepted ok : Bool) (after : World) : Prop :=
  ok = accepted ∧ (ok = true → StoredAs world path row content after)

variable {accepted : Bool}

theorem Outcome.refused {path : Path} (h : accepted = false) :
    Outcome world path row content accepted false after :=
  ⟨h.symm, fun hok => absurd hok Bool.false_ne_true⟩

section FileManager

variable {path : Path} {data : Bytes} {size : Int} {hash : String} {ctx : Context}
  {storage : LocalStorage}

theorem calm_updateRow (hlive : world.db.liveFile path = some row)
    (haccepts : world.storage.accepts path = true)
    (hstores : world.storage.Stores storage (world.storage.getFullPath path) (some data))
    (name : Path) :
    (updateRow (refreshed row size hash ctx.now)).Ensures calm
      (fun result after => Outcome world path (uploadedRow world ctx path name size hash) data
        (world.storage.accepts path) result.isOk after) { world with storage := storage } := by
  obtain ⟨hrow, -⟩ := liveFile_eq_some.mp hlive
  obtain rfl := path_of_liveFile hlive
  unfold updateRow
  refine calm_update hrow rfl rfl fun db hputs => ⟨haccepts.symm, fun _ => ⟨?_, hstores⟩⟩
  rw [uploadedRow, hlive]
  exact hputs

theorem calm_createRow (hpath : Ordinary path) (hlive : world.db.liveFile path = none)
    (hid : FreshId world ctx.id) (haccepts : world.storage.accepts path = true)
    (hstores : world.storage.Stores storage (world.storage.getFullPath path) (some data))
    (name : Path) :
    (createRow (newMetadata ctx path name size hash) path).Ensures calm
      (fun result after => Outcome world path (uploadedRow world ctx path name size hash) data
        (world.storage.accepts path) result.isOk after) { world with storage := storage } := by
  unfold createRow
  refine calm_create hpath rfl hlive hid fun db hputs => ⟨haccepts.symm, fun _ => ⟨?_, hstores⟩⟩
  rw [uploadedRow, hlive]
  exact hputs

theorem calm_uploadFileBody (sha256 : Bytes → String) (hpath : Ordinary path)
    (hid : FreshId world ctx.id) :
    (uploadFileBody sha256 ctx path data).Ensures calm
      (fun result after => Outcome world path
        (uploadedRow world ctx path (getFileName path) data.length (sha256 data)) data
        (world.storage.accepts path) result.isOk after) world := by
  unfold uploadFileBody
  rw [calm_replacedRow hpath]
  cases hlive : world.db.liveFile path with
  | some row =>
    refine calm_place rfl (fun haccepts storage hstores => ?_) fun hrefused cause => ?_
    · exact calm_updateRow hlive haccepts hstores _
    · exact .refused hrefused
  | none =>
    refine calm_place rfl (fun haccepts storage hstores => ?_) fun hrefused cause => ?_
    · exact calm_createRow hpath hlive hid haccepts hstores _
    · exact .refused hrefused

theorem calm_unlockFile {value : α} (hlocks : ∀ after locks, post value after →
      post value { after with locks := locks }) (h : post value world) :
    (do
      Service.unlock (.file path) ctx.token
      Service.unlock (.fileMutex ctx.inst path) ctx.token
      return value : Service α).Ensures calm post world := by
  rw [calm_unlock, calm_unlock]
  split_ifs
  · exact hlocks _ _ (hlocks _ _ h)
  · exact hlocks _ _ h
  · exact hlocks _ _ h
  · exact h

theorem calm_withFileLock {body : Service (Except FileError α)}
    {post : Except FileError α → World → Prop}
    (hlocks : ∀ result after locks, post result after → post result { after with locks := locks })
    (hbody : ∀ locks, body.Ensures calm post { world with locks := locks }) :
    (withFileLock ctx path body).Ensures calm post world := by
  unfold withFileLock
  refine calm_acquireMutex (calm_acquire ?_)
  rw [if_pos rfl, ensures_bind]
  refine (hbody _).mono _ fun result after hpost => ?_
  exact calm_unlockFile (hlocks result) hpost

variable {ok : Bool}

theorem Outcome.setLocks (h : Outcome world path row content accepted ok after)
    (locks : LockKey → Option Token) :
    Outcome world path row content accepted ok { after with locks := locks } :=
  ⟨h.1, fun hok => ⟨(h.2 hok).puts, (h.2 hok).stores⟩⟩

theorem Outcome.of_same {base : World} (h : Outcome base path row content accepted ok after)
    (hdb : base.db = world.db) (hstorage : base.storage = world.storage) :
    Outcome world path row content accepted ok after := by
  refine ⟨h.1, fun hok => ⟨?_, ?_⟩⟩
  · rw [← hdb]
    exact (h.2 hok).puts
  · rw [← hstorage]
    exact (h.2 hok).stores

theorem calm_uploadFile (sha256 : Bytes → String) (hpath : Ordinary (normalizePath path))
    (hid : FreshId world ctx.id) :
    (uploadFile sha256 ctx path data).Ensures calm
      (fun result after => Outcome world (normalizePath path)
        (uploadedRow world ctx (normalizePath path) (getFileName (normalizePath path)) data.length
          (sha256 data)) data (world.storage.accepts (normalizePath path)) result.isOk after) world := by
  refine calm_withFileLock (fun _ _ locks h => h.setLocks locks) fun locks => ?_
  have hfresh : FreshId { world with locks := locks } ctx.id := hid
  exact (calm_uploadFileBody sha256 hpath hfresh).mono _ fun _ _ h => h.of_same rfl rfl

end FileManager

end FsServer
