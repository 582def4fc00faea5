import FsServer.Proof.LiveRows
import FsServer.Proof.Calls

/-!
# The services over both kinds of tables

Each service function is followed by itself over the tables that delete physically, with the same
result. Only the creation of a row goes its own way: where the one takes over a deleted row, the
other inserts one.
-/

namespace FsServer

open Lib Program Service FileManager FileMetadataService World

variable {α β γ : Type} {hasStore : Bool}

structure World.Shadows (world shadow : World) : Prop where
  db : world.db.Shadows shadow.db
  storage : world.storage.Covers shadow.storage
  locks : shadow.locks = world.locks

/-- Every run of the program has a run over the other tables with the same result. -/
def Mirrors (hasStore : Bool) (program : Service α) (post : α → World → World → Prop)
    (world shadow : World) : Prop :=
  Refines calm (physical hasStore)
    (fun value after value' after' => value' = value ∧ post value after after')
    program world program shadow

variable {post : α → World → World → Prop} {world shadow : World}

/-! ### Rules -/

theorem mirrors_done {value : α} (h : post value world shadow) :
    Mirrors hasStore (.done value) post world shadow := Refines.done ⟨rfl, h⟩

variable {rest : β → Service α}

theorem mirrors_bind {program : Service β} {middle : β → World → World → Prop}
    (h : Mirrors hasStore program middle world shadow)
    (hrest : ∀ value after after', middle value after after' →
      Mirrors hasStore (rest value) post after after') :
    Mirrors hasStore (program >>= rest) post world shadow := by
  refine Refines.bind h fun value after value' after' hmiddle => ?_
  obtain ⟨rfl, hmiddle⟩ := hmiddle
  exact hrest _ after after' hmiddle

theorem mirrors_perform {operation : Call α}
    (h : ∀ env reply after, calm _ env operation world = some (reply, after) →
      ∃ env' after', physical hasStore _ env' operation shadow = some (reply, after') ∧
        post reply after after') :
    Mirrors hasStore (.perform operation) post world shadow := by
  intro value final hruns
  obtain ⟨env, reply, after, hcall, hrest⟩ := hruns.of_call
  obtain ⟨env', after', hcall', hpost⟩ := h env reply after hcall
  cases hrest
  exact ⟨_, after', .call env' hcall' (.done _ _), rfl, hpost⟩

def SqlCall.Kept {β : Type} (statement : SqlCall β) : Prop :=
  ∀ (hasStore : Bool) (env : Env) (world : World), world.physicalSql hasStore env statement =
    ((world.db.exec env statement).1, { world with db := (world.db.exec env statement).2 })

variable {statement : SqlCall α}

theorem mirrors_sql (hkept : statement.Kept)
    (h : ∀ env, ∃ env', (shadow.db.exec env' statement).1 = (world.db.exec env statement).1 ∧
      post (world.db.exec env statement).1 { world with db := (world.db.exec env statement).2 }
        { shadow with db := (shadow.db.exec env' statement).2 }) :
    Mirrors hasStore (sql statement) post world shadow := by
  refine mirrors_perform fun env reply after hcall => ?_
  cases hcall
  obtain ⟨env', hreply, hpost⟩ := h { env with fault := none }
  refine ⟨env', _, ?_, hpost⟩
  change some (shadow.physicalSql hasStore env' statement) = _
  rw [hkept, hreply]

theorem mirrors_query (hkept : statement.Kept)
    (hreads : ∀ env, (world.db.exec env statement).2 = world.db)
    (h : ∀ env, ∃ env', shadow.db.exec env' statement =
      ((world.db.exec env statement).1, shadow.db)) :
    Mirrors hasStore (sql statement)
      (fun reply after after' => (∃ env, reply = (world.db.exec env statement).1) ∧
        world = after ∧ shadow = after') world shadow := by
  refine mirrors_sql hkept fun env => ?_
  obtain ⟨env', henv⟩ := h env
  refine ⟨env', by rw [henv], ⟨env, rfl⟩, ?_, ?_⟩
  · rw [hreads]
  · rw [henv]

variable {operation : StorageCall β}

theorem mirrors_storage
    (hreply : (shadow.storage.exec operation).1 = (world.storage.exec operation).1)
    (h : Mirrors hasStore (rest (world.storage.exec operation).1) post
      { world with storage := (world.storage.exec operation).2 }
      { shadow with storage := (shadow.storage.exec operation).2 }) :
    Mirrors hasStore (storage operation >>= rest) post world shadow := by
  refine Refines.call fun env reply after hcall => ?_
  cases hcall
  refine ⟨env, _, _, rfl, ?_⟩
  rw [hreply]
  exact h

theorem mirrors_discard {rest : Service α}
    (h : Mirrors hasStore rest post { world with storage := (world.storage.exec operation).2 }
      { shadow with storage := (shadow.storage.exec operation).2 }) :
    Mirrors hasStore (storage operation >>= fun _ => rest) post world shadow := by
  refine Refines.call fun env reply after hcall => ?_
  cases hcall
  exact ⟨env, _, _, rfl, h⟩

/-! ### Locks -/

theorem World.Shadows.setLock (h : world.Shadows shadow) (key : LockKey) (holder : Option Token) :
    (world.setLock key holder).Shadows (shadow.setLock key holder) :=
  ⟨h.db, h.storage, by rw [World.setLock, World.setLock, h.locks]⟩

structure Relocked (world after after' : World) : Prop where
  shadows : after.Shadows after'
  db : after.db = world.db
  storage : after.storage = world.storage

theorem World.Shadows.relocked (h : world.Shadows shadow) (key : LockKey) (holder : Option Token) :
    Relocked world (world.setLock key holder) (shadow.setLock key holder) :=
  ⟨h.setLock key holder, rfl, rfl⟩

theorem mirrors_acquireMutex (h : world.Shadows shadow) (key : LockKey) (token : Token) :
    Mirrors hasStore (acquireMutex key token)
      (fun _ after after' => Relocked world after after') world shadow := by
  refine mirrors_perform fun env reply after hcall => ?_
  simp only [calm, handle, lockExec] at hcall
  split_ifs at hcall with hfree
  cases hcall
  refine ⟨env, _, ?_, h.relocked key (some token)⟩
  simp only [physical, calm, handle, lockExec]
  rw [h.locks, if_pos hfree]

theorem mirrors_acquire (h : world.Shadows shadow) (key : LockKey) (token : Token) :
    Mirrors hasStore (acquire key token)
      (fun _ after after' => Relocked world after after') world shadow := by
  refine mirrors_perform fun env reply after hcall => ?_
  simp only [calm, handle, lockExec] at hcall
  split_ifs at hcall with hfault hfree
  · simp at hfault
  cases hcall
  refine ⟨env, _, ?_, h.relocked key (some token)⟩
  simp only [physical, calm, handle, lockExec]
  rw [if_neg hfault, h.locks, if_pos hfree]

theorem mirrors_unlock (h : world.Shadows shadow) (key : LockKey) (token : Token) :
    Mirrors hasStore (unlock key token) (fun _ after after' => after.Shadows after') world shadow := by
  refine mirrors_perform fun env reply after hcall => ?_
  cases hcall
  refine ⟨env, _, rfl, ?_⟩
  rw [h.locks]
  split_ifs with hheld
  · exact h.setLock key none
  · exact h

def Corresponds (_ : α) (after after' : World) : Prop := after.Shadows after'

theorem mirrors_withFileLock (h : world.Shadows shadow) (ctx : Context) (path : Path)
    {body : Service (Except FileError α)}
    (hbody : ∀ after after', Relocked world after after' →
      Mirrors hasStore body Corresponds after after') :
    Mirrors hasStore (withFileLock ctx path body) Corresponds world shadow := by
  unfold withFileLock
  refine mirrors_bind (mirrors_acquireMutex h _ _) fun _ first first' hfirst => ?_
  refine mirrors_bind (mirrors_acquire hfirst.shadows _ _) fun locked second second' hsecond => ?_
  have hboth : Relocked world second second' :=
    ⟨hsecond.shadows, hsecond.db.trans hfirst.db, hsecond.storage.trans hfirst.storage⟩
  cases locked with
  | false =>
    refine mirrors_bind (mirrors_unlock hboth.shadows _ _) fun _ last last' hlast => ?_
    exact mirrors_done hlast
  | true =>
    refine mirrors_bind (hbody second second' hboth) fun result third third' hthird => ?_
    refine mirrors_bind (mirrors_unlock hthird _ _) fun _ fourth fourth' hfourth => ?_
    refine mirrors_bind (mirrors_unlock hfourth _ _) fun _ last last' hlast => ?_
    exact mirrors_done hlast

/-! ### The file manager -/

variable {path : Path}

def Finds (holds : α → Prop) (world shadow : World) (reply : α) (after after' : World) : Prop :=
  holds reply ∧ world = after ∧ shadow = after'

def World.fileRow (world : World) (path : Path) : Option FileMetadata :=
  world.db.liveFile (normalizePath (normalizePath path))

variable {db : Database}

section

variable (h : world.Shadows shadow)
include h

theorem mirrors_fileByPath (path : Path) :
    Mirrors hasStore (sql (.fileByPath path))
      (Finds (fun reply => reply = .ok (world.db.liveFile path)) world shadow) world shadow := by
  refine mirrors_sql (fun _ _ _ => rfl) fun env => ⟨env, ?_⟩
  rw [Database.exec_fileByPath, Database.exec_fileByPath, h.db.liveFile]
  exact ⟨rfl, rfl, rfl, rfl⟩

theorem mirrors_fileExists (path : Path) :
    Mirrors hasStore (fileExists path)
      (Finds (fun found => found = (world.fileRow path).isSome) world shadow) world shadow := by
  have hquery : Mirrors hasStore (sql (.fileExists (normalizePath (normalizePath path))))
      (Finds (fun reply => reply = .ok (world.fileRow path).isSome) world shadow) world shadow := by
    refine mirrors_sql (fun _ _ _ => rfl) fun env => ⟨env, ?_⟩
    rw [Database.exec_fileExists, Database.exec_fileExists, h.db.liveFile]
    exact ⟨rfl, rfl, rfl, rfl⟩
  refine mirrors_bind hquery ?_
  rintro _ _ _ ⟨rfl, rfl, rfl⟩
  exact mirrors_done ⟨rfl, rfl, rfl⟩

theorem mirrors_getFileMetadata (path : Path) :
    Mirrors hasStore (getFileMetadata path)
      (Finds (fun result => ∀ row, result = .ok row → world.fileRow path = some row) world shadow)
      world shadow := by
  unfold getFileMetadata
  refine mirrors_bind (mirrors_fileByPath h _) ?_
  rintro _ _ _ ⟨rfl, rfl, rfl⟩
  cases hfound : world.db.liveFile (normalizePath (normalizePath path)) with
  | none => exact mirrors_done ⟨fun row hrow => (nomatch hrow), rfl, rfl⟩
  | some row =>
    refine mirrors_done ⟨fun other hother => ?_, rfl, rfl⟩
    cases hother
    exact hfound

theorem World.Shadows.withDb {db' : Database} (hdb : db.Shadows db') :
    ({ world with db := db } : World).Shadows { shadow with db := db' } :=
  ⟨hdb, h.storage, h.locks⟩

theorem World.Shadows.withStorage {storage storage' : LocalStorage}
    (hstorage : storage.Covers storage') :
    ({ world with storage := storage } : World).Shadows { shadow with storage := storage' } :=
  ⟨h.db, hstorage, h.locks⟩

end

theorem Database.Shadows.deletedFileId {lean : Database} (h : db.Shadows lean) (env : Env)
    (path : Path) : lean.exec env (.deletedFileId path) = (.ok none, lean) := by
  rw [Database.exec_deletedFileId]
  have hnone : ((lean.files.atPath path).filter fun row => row.isDeleted) = none := by
    rw [Option.filter_eq_none_iff]
    intro row hrow
    have hlive := h.files.no_dead hrow
    simpa using hlive
  rw [hnone]
  rfl

theorem refines_sql {statement : SqlCall β} {statement' : SqlCall γ} {δ : Type}
    {rest' : γ → Service δ} {post : α → World → δ → World → Prop} (hkept : statement'.Kept)
    (h : ∀ env, ∃ env', Refines calm (physical hasStore) post
      (rest (world.db.exec env statement).1)
      { world with db := (world.db.exec env statement).2 }
      (rest' (shadow.db.exec env' statement').1)
      { shadow with db := (shadow.db.exec env' statement').2 }) :
    Refines calm (physical hasStore) post (sql statement >>= rest) world
      (sql statement' >>= rest') shadow := by
  refine Refines.call fun env reply after hcall => ?_
  cases hcall
  obtain ⟨env', hrest⟩ := h { env with fault := none }
  refine ⟨env', _, _, ?_, hrest⟩
  change some (shadow.physicalSql hasStore env' statement') = _
  rw [hkept]

variable {row : FileMetadata}

section

variable (h : world.Shadows shadow)
include h

theorem mirrors_createFile (hlive : row.isDeleted = false)
    (hfresh : ∀ other ∈ world.db.files.rows, other.id ≠ row.id) :
    Mirrors hasStore (create row) Corresponds world shadow := by
  unfold create
  refine refines_sql (fun _ _ _ => rfl) fun env => ⟨env, ?_⟩
  rw [h.db.deletedFileId, Database.exec_deletedFileId]
  cases hdead : (world.db.files.atPath (normalizePath row.path)).filter fun row => row.isDeleted with
  | some dead =>
    rw [Option.filter_eq_some_iff] at hdead
    refine refines_sql (fun _ _ _ => rfl) fun env => ⟨env, ?_⟩
    obtain ⟨after, after', hrestore, hinsert, hafter⟩ := h.db.restoreFile env env
      { row with path := normalizePath row.path } hlive hdead.1 hdead.2 hfresh
    rw [hrestore, hinsert]
    exact mirrors_done (h.withDb hafter)
  | none =>
    rw [Option.filter_eq_none_iff] at hdead
    refine refines_sql (fun _ _ _ => rfl) fun env => ⟨env, ?_⟩
    obtain ⟨hreply, hafter⟩ := h.db.insertFile env env
      { row with path := normalizePath row.path } hlive hfresh
      fun other hother => by simpa using hdead other hother
    rw [hreply]
    cases (world.db.exec env (.insertFile { row with path := normalizePath row.path })).1 with
    | ok done => exact mirrors_done (h.withDb hafter)
    | error cause => exact mirrors_done (h.withDb hafter)

theorem mirrors_createRow (path : Path) (hlive : row.isDeleted = false)
    (hfresh : ∀ other ∈ world.db.files.rows, other.id ≠ row.id) :
    Mirrors hasStore (createRow row path) Corresponds world shadow := by
  unfold createRow
  refine mirrors_bind (mirrors_createFile h hlive hfresh) fun result after after' hafter => ?_
  cases result with
  | ok done => exact mirrors_done hafter
  | error cause =>
    refine mirrors_discard (mirrors_done ?_)
    exact World.Shadows.withStorage hafter (hafter.storage.remove_covers path)

variable {old : FileMetadata}

theorem mirrors_updateFile (hold : old ∈ world.db.files.rows) (hlive : old.isDeleted = false)
    (hid : row.id = old.id) (hrow : row.isDeleted = false)
    (hclear : ∀ dead ∈ world.db.files.rows, dead.isDeleted = true → row.path ≠ dead.path) :
    Mirrors hasStore (update row)
      (fun _ after after' => after.Shadows after' ∧ after.storage = world.storage ∧
        after'.storage = shadow.storage) world shadow := by
  refine mirrors_sql (fun _ _ _ => rfl) fun env => ⟨env, ?_⟩
  obtain ⟨hreply, hafter⟩ := h.db.updateFile env env hold hlive hid hrow hclear
  exact ⟨hreply, h.withDb hafter, rfl, rfl⟩

theorem mirrors_updateRow {key : Path} (size : Int) (hash now : String)
    (hold : world.db.liveFile key = some old) :
    Mirrors hasStore (updateRow (refreshed old size hash now)) Corresponds
      world shadow := by
  obtain ⟨hfound, hlive⟩ := Database.liveFile_eq_some.mp hold
  obtain ⟨hmem, -⟩ := Table.atPath_eq_some.mp hfound
  unfold updateRow
  have hclear : ∀ dead ∈ world.db.files.rows, dead.isDeleted = true → old.path ≠ dead.path := by
    intro dead hdead hgone hpath
    rw [world.db.files.eq_of_path_eq hmem hdead hpath, hgone] at hlive
    exact Bool.noConfusion hlive
  refine mirrors_bind (mirrors_updateFile h hmem hlive rfl rfl hclear) ?_
  rintro result after after' ⟨hafter, -, -⟩
  cases result with
  | ok done => exact mirrors_done hafter
  | error cause => exact mirrors_done hafter

theorem mirrors_replacedRow (path : Path) :
    Mirrors hasStore (replacedRow path)
      (Finds (fun found => ∀ row, found = some row → ∃ key, world.db.liveFile key = some row)
        world shadow) world shadow := by
  unfold replacedRow
  refine mirrors_bind (mirrors_fileExists h path) ?_
  rintro found _ _ ⟨-, rfl, rfl⟩
  cases found with
  | false => exact mirrors_done ⟨fun row hrow => (nomatch hrow), rfl, rfl⟩
  | true =>
    refine mirrors_bind (mirrors_fileByPath h _) ?_
    rintro _ _ _ ⟨rfl, rfl, rfl⟩
    exact mirrors_done ⟨fun row hrow => ⟨_, hrow⟩, rfl, rfl⟩

end

theorem mirrors_uploadFileBody (sha256 : Bytes → String) (h : world.Shadows shadow) (ctx : Context)
    (path : Path) (data : Bytes) (hbare : ¬ world.storage.Bare path)
    (hfresh : ∀ row ∈ world.db.files.rows, row.id ≠ ctx.id) :
    Mirrors hasStore (uploadFileBody sha256 ctx path data) Corresponds world shadow := by
  unfold uploadFileBody
  refine mirrors_bind (mirrors_replacedRow h path) ?_
  rintro found _ _ ⟨hfound, rfl, rfl⟩
  obtain ⟨hreply, hcovers⟩ := h.storage.write hbare data
  have hwritten := World.Shadows.withStorage h hcovers
  cases found with
  | none =>
    refine mirrors_storage hreply ?_
    cases (world.storage.exec (.write path data)).1 with
    | error cause => exact mirrors_done hwritten
    | ok done => exact mirrors_createRow hwritten path rfl hfresh
  | some row =>
    obtain ⟨key, hrow⟩ := hfound row rfl
    refine mirrors_storage hreply ?_
    cases (world.storage.exec (.write path data)).1 with
    | error cause => exact mirrors_done hwritten
    | ok done => exact mirrors_updateRow hwritten _ _ _ hrow

theorem mirrors_removeFile (h : world.Shadows shadow) (id now : String) :
    Mirrors hasStore (remove id now) Corresponds world shadow := by
  refine mirrors_perform fun env reply after hcall => ?_
  obtain ⟨db, hdb, hshadows⟩ := h.db.markFiles (fun row => row.id = id) now
  change some ((world.db.onFiles _).1, { world with db := (world.db.onFiles _).2 }) = _ at hcall
  rw [hdb] at hcall
  cases hcall
  exact ⟨env, _, rfl, h.withDb hshadows⟩

theorem mirrors_deleteFileBody (h : world.Shadows shadow) (ctx : Context) (path : Path)
    (hbare : world.fileRow path ≠ none → ¬ world.storage.Bare path) :
    Mirrors hasStore (deleteFileBody ctx path) Corresponds world shadow := by
  unfold deleteFileBody
  refine mirrors_bind (mirrors_getFileMetadata h path) ?_
  rintro result _ _ ⟨hresult, rfl, rfl⟩
  cases result with
  | error cause => exact mirrors_done h
  | ok row =>
    have hfound : world.fileRow path ≠ none := by
      rw [hresult row rfl]
      exact Option.some_ne_none row
    obtain ⟨hreply, hcovers⟩ := h.storage.remove (hbare hfound)
    have hremoved := World.Shadows.withStorage h hcovers
    refine mirrors_storage hreply ?_
    cases (world.storage.exec (.remove path)).1 with
    | error cause => exact mirrors_done hremoved
    | ok done =>
      refine mirrors_bind (mirrors_removeFile hremoved _ _) fun result after after' hafter => ?_
      cases result with
      | ok done => exact mirrors_done hafter
      | error cause => exact mirrors_done hafter

/-- What a rename of a file has to find: neither a deleted row at its target nor an empty directory at
one of its two places. -/
structure RenamesFile (world : World) (oldPath newPath : Path) : Prop where
  source : ¬ world.storage.Bare oldPath
  target : ¬ world.storage.Bare newPath
  free : ∀ dead ∈ world.db.files.rows, dead.isDeleted = true → newPath ≠ dead.path

theorem mirrors_renameFileBody (h : world.Shadows shadow) (ctx : Context) (oldPath newName : Path)
    (hmeets : world.fileRow oldPath ≠ none →
      RenamesFile world oldPath (renamedPath oldPath newName)) :
    Mirrors hasStore (renameFileBody ctx oldPath newName) Corresponds world shadow := by
  unfold renameFileBody
  refine mirrors_bind (mirrors_getFileMetadata h oldPath) ?_
  rintro result _ _ ⟨hresult, rfl, rfl⟩
  cases result with
  | error cause => exact mirrors_done h
  | ok row =>
    have hfound := hresult row rfl
    obtain ⟨hsource, htarget, hfree⟩ := hmeets (by rw [hfound]; exact Option.some_ne_none row)
    obtain ⟨hat, hlive⟩ := Database.liveFile_eq_some.mp hfound
    refine mirrors_bind (mirrors_fileExists h _) ?_
    rintro found _ _ ⟨-, rfl, rfl⟩
    cases found with
    | true => exact mirrors_done h
    | false =>
      obtain ⟨hreply, hcovers⟩ := h.storage.rename hsource htarget
      have hrenamed := World.Shadows.withStorage h hcovers
      refine mirrors_storage hreply ?_
      cases hstored : (world.storage.exec
        (.rename oldPath (renamedPath oldPath newName))).1 with
      | error cause => exact mirrors_done hrenamed
      | ok done =>
        refine mirrors_bind (mirrors_updateFile hrenamed (Table.atPath_eq_some.mp hat).1 hlive
          rfl hlive hfree) ?_
        rintro result after after' ⟨hafter, hstorage, hstorage'⟩
        cases result with
        | ok done => exact mirrors_done hafter
        | error cause =>
          -- the move is taken back
          refine mirrors_discard (mirrors_done (World.Shadows.withStorage hafter ?_))
          rw [hstorage, hstorage']
          exact h.storage.rename_back hsource htarget hstored

/-! ### Listings -/

theorem mirrors_listFilesWith (h : world.Shadows shadow) (collation : Collation) (query : ListQuery)
    (page : Int) (includeTotal : Bool) :
    Mirrors hasStore (FileListService.listFilesWith collation query page includeTotal) Corresponds
      world shadow := by
  unfold FileListService.listFilesWith
  refine mirrors_bind (mirrors_query (fun _ _ _ => rfl) (fun _ => rfl)
    fun env => h.db.listItems env _ _ _ _) ?_
  rintro reply _ _ ⟨-, rfl, rfl⟩
  cases reply with
  | error cause => exact mirrors_done h
  | ok items =>
    cases includeTotal with
    | false => exact mirrors_done h
    | true =>
      refine mirrors_bind (mirrors_query (fun _ _ _ => rfl) (fun _ => rfl)
        fun env => ⟨env, h.db.countItems env _⟩) ?_
      rintro total _ _ ⟨-, rfl, rfl⟩
      cases total with
      | error cause => exact mirrors_done h
      | ok total => exact mirrors_done h

end FsServer
