import FsServer.Proof.Frames
import FsServer.Proof.Listing
import FsServer.Proof.Mirrors
import FsServer.Proof.Subtrees
import FsServer.Lib.Simulation

/-!
# Soft deletion

The directory manager over both kinds of tables, and then whole runs: as long as no deleted row holds
a path that a rename is to give away, and no call runs into a directory that a deletion has left in
the storage, the answers are those of physical deletion.
-/

namespace FsServer

open Lib Program Service FileTree DirectoryManager World FileListService

variable {α : Type} {hasStore : Bool} {world shadow : World} {path : Path}

/-! ### Lookups -/

def World.directoryRow (world : World) (path : Path) : Option DirectoryMetadata :=
  world.db.liveDirectory (normalizePath (normalizePath path))

theorem mirrors_directoryByPath (h : world.Shadows shadow) (path : Path) :
    Mirrors hasStore (sql (.directoryByPath path))
      (Finds (fun reply => reply = .ok (world.db.liveDirectory path)) world shadow)
      world shadow := by
  refine mirrors_sql (fun _ _ _ => rfl) fun env => ⟨env, ?_⟩
  rw [Database.exec_directoryByPath, Database.exec_directoryByPath, h.db.liveDirectory]
  exact ⟨rfl, rfl, rfl, rfl⟩

theorem mirrors_directoryExists (h : world.Shadows shadow) (path : Path) :
    Mirrors hasStore (directoryExists path)
      (Finds (fun found => found = (world.directoryRow path).isSome) world shadow)
      world shadow := by
  have hquery : Mirrors hasStore (sql (.directoryExists (normalizePath (normalizePath path))))
      (Finds (fun reply => reply = .ok (world.directoryRow path).isSome) world shadow)
      world shadow := by
    refine mirrors_sql (fun _ _ _ => rfl) fun env => ⟨env, ?_⟩
    rw [Database.exec_directoryExists, Database.exec_directoryExists, h.db.liveDirectory]
    exact ⟨rfl, rfl, rfl, rfl⟩
  refine mirrors_bind hquery ?_
  rintro _ _ _ ⟨rfl, rfl, rfl⟩
  exact mirrors_done ⟨rfl, rfl, rfl⟩

theorem mirrors_getDirectoryMetadata (h : world.Shadows shadow) (path : Path) :
    Mirrors hasStore (getDirectoryMetadata path)
      (Finds (fun result => ∀ row, result = .ok row → world.directoryRow path = some row)
        world shadow) world shadow := by
  unfold getDirectoryMetadata
  refine mirrors_bind (mirrors_directoryByPath h _) ?_
  rintro _ _ _ ⟨rfl, rfl, rfl⟩
  cases hfound : world.db.liveDirectory (normalizePath (normalizePath path)) with
  | none => exact mirrors_done ⟨fun row hrow => (nomatch hrow), rfl, rfl⟩
  | some row =>
    refine mirrors_done ⟨fun other hother => ?_, rfl, rfl⟩
    cases hother
    exact hfound

/-! ### Creating a directory -/

theorem Database.Shadows.deletedDirectoryId {db lean : Database} (h : db.Shadows lean) (env : Env)
    (path : Path) : lean.exec env (.deletedDirectoryId path) = (.ok none, lean) := by
  rw [Database.exec_deletedDirectoryId]
  have hnone : ((lean.directories.atPath path).filter fun row => row.isDeleted) = none := by
    rw [Option.filter_eq_none_iff]
    intro row hrow
    have hlive := h.directories.no_dead hrow
    simpa using hlive
  rw [hnone]
  rfl

theorem mirrors_createDirectoryRow (h : world.Shadows shadow) {row : DirectoryMetadata}
    (hlive : row.isDeleted = false)
    (hfresh : ∀ other ∈ world.db.directories.rows, other.id ≠ row.id) :
    Mirrors hasStore (DirectoryMetadataService.create row) Corresponds world shadow := by
  unfold DirectoryMetadataService.create
  refine refines_sql (fun _ _ _ => rfl) fun env => ⟨env, ?_⟩
  rw [h.db.deletedDirectoryId, Database.exec_deletedDirectoryId]
  cases hdead : (world.db.directories.atPath (normalizePath row.path)).filter
    fun row => row.isDeleted with
  | some dead =>
    rw [Option.filter_eq_some_iff] at hdead
    refine refines_sql (fun _ _ _ => rfl) fun env => ⟨env, ?_⟩
    obtain ⟨after, after', hrestore, hinsert, hafter⟩ := h.db.restoreDirectory env env
      { row with path := normalizePath row.path } hlive hdead.1 hdead.2 hfresh
    rw [hrestore, hinsert]
    exact mirrors_done (h.withDb hafter)
  | none =>
    rw [Option.filter_eq_none_iff] at hdead
    refine refines_sql (fun _ _ _ => rfl) fun env => ⟨env, ?_⟩
    obtain ⟨hreply, hafter⟩ := h.db.insertDirectory env env
      { row with path := normalizePath row.path } hlive hfresh
      fun other hother => by simpa using hdead other hother
    rw [hreply]
    cases (world.db.exec env (.insertDirectory { row with path := normalizePath row.path })).1 with
    | ok done => exact mirrors_done (h.withDb hafter)
    | error cause => exact mirrors_done (h.withDb hafter)

section Directories

variable (dm : DirectoryManager)

variable {operation : StorageCall (Except StorageError Unit)}

theorem mirrors_attempt {post : Unit → World → World → Prop}
    (hnone : dm.hasStore = false → post () world shadow)
    (hsome : dm.hasStore = true → post () { world with storage := (world.storage.exec operation).2 }
      { shadow with storage := (shadow.storage.exec operation).2 }) :
    Mirrors hasStore (dm.attempt operation) post world shadow := by
  unfold attempt
  cases hstore : dm.hasStore with
  | false => exact mirrors_done (hnone hstore)
  | true => exact mirrors_discard (mirrors_done (hsome hstore))

theorem mirrors_attempt_covers (h : world.Shadows shadow)
    (hcovers : (world.storage.exec operation).2.Covers (shadow.storage.exec operation).2) :
    Mirrors hasStore (dm.attempt operation) Corresponds world shadow :=
  mirrors_attempt dm (fun _ => h) fun _ => World.Shadows.withStorage h hcovers

theorem mirrors_createDirectoryBody (h : world.Shadows shadow) (ctx : Context) (path : Path)
    (hfresh : ∀ row ∈ world.db.directories.rows, row.id ≠ ctx.id) :
    Mirrors hasStore (dm.createDirectoryBody ctx path) Corresponds world shadow := by
  unfold createDirectoryBody
  refine mirrors_bind (mirrors_directoryExists h path) ?_
  rintro found _ _ ⟨-, rfl, rfl⟩
  cases found with
  | true => exact mirrors_done h
  | false =>
    refine mirrors_bind (mirrors_createDirectoryRow h rfl hfresh) fun result after after' hafter => ?_
    cases result with
    | error cause => exact mirrors_done hafter
    | ok done =>
      refine mirrors_bind (mirrors_attempt_covers dm hafter
        (hafter.storage.createDirectory path)) fun _ last last' hlast => ?_
      exact mirrors_done hlast

/-! ### Deleting a directory -/

section

variable (h : world.Shadows shadow)
include h

theorem World.Shadows.removeStored (path : Path) : world.Shadows (shadow.removeStored path) := by
  unfold World.removeStored
  split_ifs with hplace
  · exact ⟨h.db, ⟨h.storage.rootDir, h.storage.tree.prune _⟩, h.locks⟩
  · exact h

theorem mirrors_removeDirectory (id now : String) :
    Mirrors hasStore (sql (.removeDirectory id now)) Corresponds world shadow := by
  refine mirrors_perform fun env reply after hcall => ?_
  obtain ⟨db, hdb, hshadows⟩ := h.db.markDirectories (fun row => row.id = id) now
  change some ((world.db.onDirectories _).1, { world with db := (world.db.onDirectories _).2 }) = _
    at hcall
  rw [hdb] at hcall
  cases hcall
  have hdeleted := h.withDb hshadows
  simp only [physical, physicalSql]
  cases shadow.db.directories.byId id with
  | none => exact ⟨env, _, rfl, hdeleted⟩
  | some row =>
    refine ⟨env, _, rfl, ?_⟩
    split_ifs with hstore
    · exact World.Shadows.removeStored hdeleted row.path
    · exact hdeleted

theorem mirrors_removeFiles (ids : List String) (now : String) :
    Mirrors hasStore (sql (.removeFiles ids now)) Corresponds world shadow := by
  refine mirrors_perform fun env reply after hcall => ?_
  obtain ⟨db, hdb, hshadows⟩ := h.db.markFiles (fun row => row.id ∈ ids) now
  change some ((world.db.onFiles _).1, { world with db := (world.db.onFiles _).2 }) = _ at hcall
  rw [hdb] at hcall
  cases hcall
  exact ⟨env, _, rfl, h.withDb hshadows⟩

theorem mirrors_removeDirectories (ids : List String) (now : String) :
    Mirrors hasStore (sql (.removeDirectories ids now)) Corresponds world shadow := by
  refine mirrors_perform fun env reply after hcall => ?_
  obtain ⟨db, hdb, hshadows⟩ := h.db.markDirectories (fun row => row.id ∈ ids) now
  change some ((world.db.onDirectories _).1, { world with db := (world.db.onDirectories _).2 }) = _
    at hcall
  rw [hdb] at hcall
  cases hcall
  exact ⟨env, _, rfl, h.withDb hshadows⟩

theorem mirrors_filesUnder (directory : Path) :
    Mirrors hasStore (sql (.filesUnder directory))
      (Finds (fun reply => ∃ env, reply = (world.db.exec env (.filesUnder directory)).1)
        world shadow) world shadow :=
  mirrors_query (fun _ _ _ => rfl) (fun _ => rfl) fun env => h.db.filesUnder env directory

theorem mirrors_directoriesUnder (directory : Path) :
    Mirrors hasStore (sql (.directoriesUnder directory))
      (Finds (fun reply => ∃ env, reply = (world.db.exec env (.directoriesUnder directory)).1)
        world shadow) world shadow :=
  mirrors_query (fun _ _ _ => rfl) (fun _ => rfl) fun env => h.db.directoriesUnder env directory

theorem mirrors_removeRow (ctx : Context) (path : Path) :
    Mirrors hasStore (removeRow ctx path) Corresponds world shadow := by
  unfold removeRow
  refine mirrors_bind (mirrors_directoryByPath h _) ?_
  rintro _ _ _ ⟨rfl, rfl, rfl⟩
  cases world.db.liveDirectory (normalizePath path) with
  | none => exact mirrors_done h
  | some row =>
    refine mirrors_bind (mirrors_removeDirectory h _ _) fun result after after' hafter => ?_
    cases result with
    | ok done => exact mirrors_done hafter
    | error cause => exact mirrors_done hafter

theorem mirrors_deleteEmpty (ctx : Context) (path : Path) :
    Mirrors hasStore (deleteEmpty ctx path) Corresponds world shadow := by
  unfold deleteEmpty
  refine mirrors_bind (mirrors_filesUnder h path) ?_
  rintro files _ _ ⟨-, rfl, rfl⟩
  match files with
  | .error cause => exact mirrors_done h
  | .ok (_ :: _) => exact mirrors_done h
  | .ok [] =>
    refine mirrors_bind (mirrors_directoriesUnder h path) ?_
    rintro directories _ _ ⟨-, rfl, rfl⟩
    match directories with
    | .error cause => exact mirrors_done h
    | .ok (_ :: _) => exact mirrors_done h
    | .ok [] => exact mirrors_removeRow h ctx path

theorem mirrors_attemptAll (operations : List (StorageCall (Except StorageError Unit)))
    (hcovers : ∀ operation ∈ operations, ∀ storage lean : LocalStorage, storage.Covers lean →
      (storage.exec operation).2.Covers (lean.exec operation).2) :
    Mirrors hasStore (dm.attemptAll operations) Corresponds world shadow := by
  induction operations generalizing world shadow with
  | nil => exact mirrors_done h
  | cons operation rest ih =>
    refine mirrors_bind (mirrors_attempt_covers dm h
      (hcovers operation List.mem_cons_self _ _ h.storage)) fun _ after after' hafter => ?_
    exact ih hafter fun other hother => hcovers other (List.mem_cons_of_mem operation hother)

theorem mirrors_batches {loop : BatchLoop}
    (hquery : ∀ {world shadow : World}, world.Shadows shadow → ∃ kind,
      Mirrors hasStore (sql loop.query) (Finds kind world shadow) world shadow)
    (hremove : ∀ {world shadow : World}, world.Shadows shadow → ∀ ids,
      Mirrors hasStore (sql (loop.remove ids)) Corresponds world shadow)
    (herase : ∀ {storage lean : LocalStorage}, storage.Covers lean → ∀ path,
      (storage.exec (loop.erase path)).2.Covers (lean.exec (loop.erase path)).2) (rounds : Nat) :
    Mirrors hasStore (dm.deleteBatches loop rounds) Corresponds world shadow := by
  induction rounds generalizing world shadow with
  | zero => exact mirrors_done h
  | succ rounds ih =>
    obtain ⟨kind, hfinds⟩ := hquery h
    refine mirrors_bind hfinds ?_
    rintro found _ _ ⟨-, rfl, rfl⟩
    cases found with
    | error cause => exact mirrors_done h
    | ok found =>
      dsimp only
      split_ifs with hempty
      · exact mirrors_done h
      · refine mirrors_bind (hremove h _) fun result after after' hafter => ?_
        cases result with
        | error cause => exact mirrors_done hafter
        | ok done =>
          refine mirrors_bind (mirrors_attemptAll dm hafter _ ?_) fun _ last last' hlast => ih hlast
          intro operation hoperation storage lean hcovers
          obtain ⟨entry, -, rfl⟩ := List.mem_map.mp hoperation
          exact herase hcovers entry.path

theorem mirrors_deleteRecursively (ctx : Context) (path : Path) (rounds : Nat) :
    Mirrors hasStore (dm.deleteRecursively ctx path rounds) Corresponds world shadow := by
  unfold deleteRecursively
  rw [dm.deleteFiles_eq, dm.deleteDirectories_eq]
  refine mirrors_bind (mirrors_batches dm h (fun h => ⟨_, mirrors_filesUnder h path⟩)
    (fun h ids => mirrors_removeFiles h ids ctx.now) LocalStorage.Covers.remove_covers rounds)
    fun files first first' hfirst => ?_
  match files with
  | none => exact mirrors_done hfirst
  | some (.error cause) => exact mirrors_done hfirst
  | some (.ok ()) =>
    refine mirrors_bind (mirrors_batches dm hfirst (fun h => ⟨_, mirrors_directoriesUnder h path⟩)
      (fun h ids => mirrors_removeDirectories h ids ctx.now) LocalStorage.Covers.removeDirectory
      rounds) fun directories second second' hsecond => ?_
    match directories with
    | none => exact mirrors_done hsecond
    | some (.error cause) => exact mirrors_done hsecond
    | some (.ok ()) =>
      refine mirrors_bind (mirrors_removeRow hsecond ctx path) fun _ last last' hlast => ?_
      exact mirrors_done hlast

theorem mirrors_deleteDirectoryBody (ctx : Context) (path : Path) (recursive : Bool) (rounds : Nat) :
    Mirrors hasStore (dm.deleteDirectoryBody ctx path recursive rounds) Corresponds world shadow := by
  unfold deleteDirectoryBody
  refine mirrors_bind (mirrors_directoryExists h path) ?_
  rintro found _ _ ⟨-, rfl, rfl⟩
  cases found with
  | false => exact mirrors_done h
  | true =>
    cases recursive with
    | true => exact mirrors_deleteRecursively dm h ctx path rounds
    | false =>
      refine mirrors_bind (mirrors_deleteEmpty h ctx path) fun _ last last' hlast => ?_
      exact mirrors_done hlast

end

/-! ### Renaming a directory -/

/-- At and below these paths the storages have the same directories. -/
def Tidy (paths : Path → Prop) (world shadow : World) : Prop :=
  ∀ path, paths path →
    world.storage.tree.Agrees shadow.storage.tree (world.storage.getFullPath path)

theorem exec_rename_rootDir (storage : LocalStorage) (oldPath newPath : Path) :
    (storage.exec (.rename oldPath newPath)).2.rootDir = storage.rootDir := by
  rcases storage.exec_rename oldPath newPath with hsame | hmoved
  · exact hsame.rootDir
  · exact hmoved.rootDir

variable {oldPath newPath : Path}

variable {paths : Path → Prop}

theorem mirrors_attempt_rename (h : world.Shadows shadow)
    (htidy : dm.hasStore = true → Tidy paths world shadow) (hold : paths oldPath)
    (hnew : paths newPath) :
    Mirrors hasStore (dm.attempt (.rename oldPath newPath))
      (fun _ after after' => after.Shadows after' ∧ (dm.hasStore = true → Tidy paths after after'))
      world shadow := by
  refine mirrors_attempt dm (fun hnone => ⟨h, fun hsome => ?_⟩) fun hsome => ?_
  · exact htidy hsome
  · have hagrees := htidy hsome
    obtain ⟨hcovers, hexcess⟩ := @LocalStorage.Covers.renamed _ _ oldPath newPath h.storage
      (hagrees newPath hnew _ List.prefix_rfl)
    refine ⟨World.Shadows.withStorage h hcovers, fun _ path hpath => ?_⟩
    change FileTree.Agrees _ _ ((world.storage.exec (.rename oldPath newPath)).2.getFullPath path)
    rw [LocalStorage.getFullPath_congr (exec_rename_rootDir world.storage oldPath newPath)]
    exact (hagrees path hpath).of_noNewExcess (hexcess (hagrees oldPath hold))

theorem mirrors_attemptAll_rename (moved : Path → Path) (entries : List Entry)
    (h : world.Shadows shadow) (htidy : dm.hasStore = true → Tidy paths world shadow)
    (hentries : ∀ entry ∈ entries, paths entry.path ∧ paths (moved entry.path)) :
    Mirrors hasStore
      (dm.attemptAll (entries.map fun entry => .rename entry.path (moved entry.path)))
      (fun _ after after' => after.Shadows after' ∧ (dm.hasStore = true → Tidy paths after after'))
      world shadow := by
  induction entries generalizing world shadow with
  | nil => exact mirrors_done ⟨h, htidy⟩
  | cons entry rest ih =>
    obtain ⟨hold, hnew⟩ := hentries entry List.mem_cons_self
    refine mirrors_bind (mirrors_attempt_rename dm h htidy hold hnew) ?_
    rintro _ after after' ⟨hafter, htidy'⟩
    exact ih hafter htidy' fun other hother => hentries other (List.mem_cons_of_mem entry hother)

def World.filesBelow (world : World) (directory : Path) (row : FileMetadata) : Prop :=
  row ∈ world.db.files.rows ∧ row.isDeleted = false ∧
    likeUnder world.db.dialect directory row.path = true

def World.directoriesBelow (world : World) (directory : Path) (row : DirectoryMetadata) : Prop :=
  row ∈ world.db.directories.rows ∧ row.isDeleted = false ∧
    likeUnder world.db.dialect directory row.path = true

def MovedPath (world : World) (oldPath newPath path : Path) : Prop :=
  path = newPath ∨ ∃ row, world.filesBelow oldPath row ∧
    (path = row.path ∨ path = movedPath oldPath newPath row.path)

/-- A rename of a directory finds no deleted row at a path it gives to a live one, and no empty
directory at or below a path it moves something to or from. -/
structure RenamesDirectory (hasStore : Bool) (world : World) (oldPath newPath : Path) : Prop where
  files : ∀ row, world.filesBelow oldPath row → ∀ dead ∈ world.db.files.rows,
    dead.isDeleted = true → movedPath oldPath newPath row.path ≠ dead.path
  directories : ∀ row, world.directoriesBelow oldPath row → ∀ dead ∈ world.db.directories.rows,
    dead.isDeleted = true → movedPath oldPath newPath row.path ≠ dead.path
  target : ∀ dead ∈ world.db.directories.rows, dead.isDeleted = true → newPath ≠ dead.path
  stored : hasStore = true → ∀ path, MovedPath world oldPath newPath path →
    ∀ below, world.storage.getFullPath path <+: below → ¬ world.storage.tree.Bare below

variable {env : Env} {entries : List Entry}

variable {directory : Path} {entry : Entry}

theorem filesUnder_mem (h : (world.db.exec env (.filesUnder directory)).1 = .ok entries)
    (hentry : entry ∈ entries) : ∃ row, world.filesBelow directory row ∧ row.entry = entry := by
  cases h
  rw [(env.scan_perm _).mem_iff, List.mem_map] at hentry
  obtain ⟨row, hrow, rfl⟩ := hentry
  rw [Table.select, List.mem_filter, Bool.and_eq_true, Bool.not_eq_true'] at hrow
  exact ⟨row, ⟨hrow.1, hrow.2.2, hrow.2.1⟩, rfl⟩

theorem directoriesUnder_mem (h : (world.db.exec env (.directoriesUnder directory)).1 = .ok entries)
    (hentry : entry ∈ entries) :
    ∃ row, world.directoriesBelow directory row ∧ row.entry = entry := by
  cases h
  rw [(env.scan_perm _).mem_iff, List.mem_map] at hentry
  obtain ⟨row, hrow, rfl⟩ := hentry
  rw [Table.select, List.mem_filter, Bool.and_eq_true, Bool.not_eq_true'] at hrow
  exact ⟨row, ⟨hrow.1, hrow.2.2, hrow.2.1⟩, rfl⟩

theorem RenamesDirectory.unblocked {newName : Path} {metadata : DirectoryMetadata}
    {files directories : List Entry} {env' : Env} (now : String)
    (hmeets : RenamesDirectory hasStore world oldPath newPath)
    (hmetadata : metadata ∈ world.db.directories.rows) (hlive : metadata.isDeleted = false)
    (hfiles : (world.db.exec env (.filesUnder oldPath)).1 = .ok files)
    (hdirectories : (world.db.exec env' (.directoriesUnder oldPath)).1 = .ok directories) :
    world.db.Unblocked (files.map (moveEntry oldPath newPath now))
      (directories.map (moveEntry oldPath newPath now)
        ++ [⟨metadata.id, newPath, newName, now⟩]) := by
  refine ⟨fun change hchange row hrow hid => ?_, fun change hchange dead hdead hgone => ?_,
    fun change hchange row hrow hid => ?_, fun change hchange dead hdead hgone => ?_⟩
  · obtain ⟨entry, hentry, rfl⟩ := List.mem_map.mp hchange
    obtain ⟨other, hother, rfl⟩ := filesUnder_mem hfiles hentry
    rw [world.db.files.eq_of_id_eq hrow hother.1 hid]
    exact hother.2.1
  · obtain ⟨entry, hentry, rfl⟩ := List.mem_map.mp hchange
    obtain ⟨other, hother, rfl⟩ := filesUnder_mem hfiles hentry
    exact hmeets.files other hother dead hdead hgone
  · rcases List.mem_append.mp hchange with hchange | hchange
    · obtain ⟨entry, hentry, rfl⟩ := List.mem_map.mp hchange
      obtain ⟨other, hother, rfl⟩ := directoriesUnder_mem hdirectories hentry
      rw [world.db.directories.eq_of_id_eq hrow hother.1 hid]
      exact hother.2.1
    · rw [List.mem_singleton.mp hchange] at hid
      rw [world.db.directories.eq_of_id_eq hrow hmetadata hid]
      exact hlive
  · rcases List.mem_append.mp hchange with hchange | hchange
    · obtain ⟨entry, hentry, rfl⟩ := List.mem_map.mp hchange
      obtain ⟨other, hother, rfl⟩ := directoriesUnder_mem hdirectories hentry
      exact hmeets.directories other hother dead hdead hgone
    · rw [List.mem_singleton.mp hchange]
      exact hmeets.target dead hdead hgone

theorem mirrors_renameAll (h : world.Shadows shadow) {files directories : List PathUpdate}
    (hfree : world.db.Unblocked files directories) :
    Mirrors hasStore (sql (.renameAll files directories))
      (fun _ after after' => after.Shadows after' ∧ after.storage = world.storage ∧
        after'.storage = shadow.storage) world shadow := by
  refine mirrors_sql (fun _ _ _ => rfl) fun env => ⟨env, ?_⟩
  obtain ⟨hreply, hafter⟩ := h.db.renameAll env env hfree
  exact ⟨hreply, h.withDb hafter, rfl, rfl⟩

theorem RenamesDirectory.tidy (hmeets : RenamesDirectory hasStore world oldPath newPath)
    (h : world.Shadows shadow) (hstore : hasStore = true) :
    Tidy (MovedPath world oldPath newPath) world shadow :=
  fun path hpath => h.storage.tree.agrees (hmeets.stored hstore path hpath)

theorem mirrors_moveStored (origin : World) (h : world.Shadows shadow)
    (htidy : dm.hasStore = true → Tidy (MovedPath origin oldPath newPath) world shadow)
    (hentries : ∀ entry ∈ entries, MovedPath origin oldPath newPath entry.path ∧
      MovedPath origin oldPath newPath (movedPath oldPath newPath entry.path)) :
    Mirrors hasStore (do
      dm.attemptAll (entries.map fun entry =>
        .rename entry.path (movedPath oldPath newPath entry.path))
      dm.attempt (.rename oldPath newPath)
      return (.ok () : Except DirectoryError Unit)) Corresponds world shadow := by
  refine mirrors_bind (mirrors_attemptAll_rename dm _ entries h htidy hentries) ?_
  rintro _ after after' ⟨hafter, htidy'⟩
  have hrenamed : Mirrors hasStore (dm.attempt (.rename oldPath newPath)) Corresponds after after' := by
    refine mirrors_attempt dm (fun _ => hafter) fun hstore => World.Shadows.withStorage hafter ?_
    exact (hafter.storage.renamed (htidy' hstore newPath (Or.inl rfl) _ List.prefix_rfl)).1
  exact mirrors_bind hrenamed fun _ last last' hlast => mirrors_done hlast

theorem mirrors_renameDirectoryBody (h : world.Shadows shadow) (ctx : Context)
    (oldPath newName : Path)
    (hmeets : world.directoryRow oldPath ≠ none →
      RenamesDirectory dm.hasStore world oldPath (FileManager.renamedPath oldPath newName)) :
    Mirrors hasStore (dm.renameDirectoryBody ctx oldPath newName) Corresponds world shadow := by
  unfold renameDirectoryBody
  refine mirrors_bind (mirrors_getDirectoryMetadata h oldPath) ?_
  rintro result _ _ ⟨hresult, rfl, rfl⟩
  cases result with
  | error cause => exact mirrors_done h
  | ok metadata =>
    have hfound := hresult metadata rfl
    have hmeets := hmeets (by rw [hfound]; exact Option.some_ne_none metadata)
    obtain ⟨hat, hlive⟩ := Option.filter_eq_some_iff.mp hfound
    refine mirrors_bind (mirrors_directoryExists h _) ?_
    rintro found _ _ ⟨-, rfl, rfl⟩
    cases found with
    | true => exact mirrors_done h
    | false =>
      refine mirrors_bind (mirrors_filesUnder h oldPath) ?_
      rintro files _ _ ⟨⟨env, hfiles⟩, rfl, rfl⟩
      cases files with
      | error cause => exact mirrors_done h
      | ok files =>
        refine mirrors_bind (mirrors_directoriesUnder h oldPath) ?_
        rintro directories _ _ ⟨⟨env', hdirectories⟩, rfl, rfl⟩
        cases directories with
        | error cause => exact mirrors_done h
        | ok directories =>
          refine mirrors_bind (mirrors_renameAll h (hmeets.unblocked ctx.now
            (Table.atPath_eq_some.mp hat).1 (by simpa using hlive) hfiles.symm
            hdirectories.symm)) ?_
          rintro result after after' ⟨hafter, hstorage, hstorage'⟩
          cases result with
          | error cause => exact mirrors_done hafter
          | ok done =>
            refine mirrors_moveStored dm world hafter (fun hstore => ?_) fun entry hentry => ?_
            · rw [Tidy, hstorage, hstorage']
              exact hmeets.tidy h hstore
            · obtain ⟨row, hrow, rfl⟩ := filesUnder_mem hfiles.symm hentry
              exact ⟨Or.inr ⟨row, hrow, Or.inl rfl⟩, Or.inr ⟨row, hrow, Or.inr rfl⟩⟩

theorem mirrors_withDirectoryLock (h : world.Shadows shadow) (ctx : Context) (path : Path)
    {body : Service (Except DirectoryError α)}
    (hbody : ∀ after after', Relocked world after after' →
      Mirrors hasStore body Corresponds after after') :
    Mirrors hasStore (dm.withDirectoryLock ctx path body) Corresponds world shadow := by
  unfold withDirectoryLock
  split_ifs with hlock
  · refine mirrors_bind (mirrors_acquire h _ _) fun locked first first' hfirst => ?_
    cases locked with
    | false => exact mirrors_done hfirst.shadows
    | true =>
      refine mirrors_bind (hbody first first' hfirst) fun result second second' hsecond => ?_
      refine mirrors_bind (mirrors_unlock hsecond _ _) fun _ last last' hlast => ?_
      exact mirrors_done hlast
  · exact hbody world shadow ⟨h, rfl, rfl⟩

theorem mirrors_deleteDirectory (h : world.Shadows shadow) (ctx : Context) (path : Path)
    (recursive : Bool) (rounds : Nat) :
    Mirrors hasStore (dm.deleteDirectory ctx path recursive rounds) Corresponds world shadow := by
  unfold deleteDirectory
  dsimp only
  split_ifs with hlock
  · refine mirrors_bind (mirrors_acquire h _ _) fun locked first first' hfirst => ?_
    cases locked with
    | false => exact mirrors_done hfirst.shadows
    | true =>
      refine mirrors_bind (mirrors_deleteDirectoryBody dm hfirst.shadows ctx _ recursive rounds)
        fun result second second' hsecond => ?_
      refine mirrors_bind (mirrors_unlock hsecond _ _) fun _ last last' hlast => ?_
      exact mirrors_done hlast
  · exact mirrors_deleteDirectoryBody dm h ctx _ recursive rounds

end Directories

/-! ### Whole runs -/

def CatalogCall.Fresh (world : World) : CatalogCall → Prop
  | .createDirectory ctx _ => ∀ row ∈ world.db.directories.rows, row.id ≠ ctx.id
  | .uploadFile ctx _ _ => ∀ row ∈ world.db.files.rows, row.id ≠ ctx.id
  | _ => True

/-- Nothing that a deletion has left behind is in the way of the call. -/
def CatalogCall.Unhindered (hasStore : Bool) (world : World) : CatalogCall → Prop
  | .renameDirectory _ oldPath newName =>
    world.directoryRow (normalizePath oldPath) ≠ none →
      RenamesDirectory hasStore world (normalizePath oldPath)
        (FileManager.renamedPath (normalizePath oldPath) newName)
  | .uploadFile _ path _ => ¬ world.storage.Bare (normalizePath path)
  | .deleteFile _ path =>
    world.fileRow (normalizePath path) ≠ none → ¬ world.storage.Bare (normalizePath path)
  | .renameFile _ oldPath newName =>
    world.fileRow (normalizePath oldPath) ≠ none →
      RenamesFile world (normalizePath oldPath)
        (FileManager.renamedPath (normalizePath oldPath) newName)
  | _ => True

variable {after : World}

theorem Relocked.with_locks {after' : World} (h : Relocked world after after') :
    after = { world with locks := after.locks, sessions := after.sessions } := by
  obtain ⟨storage, db, locks, sessions⟩ := after
  obtain rfl : db = world.db := h.db
  obtain rfl : storage = world.storage := h.storage
  rfl

variable (sha256 : Bytes → String) (collation : Collation) (dm : DirectoryManager)

theorem mirrors_service (h : world.Shadows shadow) {request : CatalogCall}
    (hfresh : request.Fresh world) (hfree : request.Unhindered dm.hasStore world) :
    Mirrors dm.hasStore (request.service sha256 collation dm) Corresponds world shadow := by
  cases request with
  | createDirectory ctx path =>
    refine mirrors_bind (mirrors_withDirectoryLock dm h ctx _ fun after after' hlocked => ?_)
      fun _ last last' hlast => mirrors_done hlast
    exact mirrors_createDirectoryBody dm hlocked.shadows ctx _ (hlocked.db ▸ hfresh)
  | deleteDirectory ctx path recursive rounds =>
    refine mirrors_bind (mirrors_deleteDirectory dm h ctx path recursive rounds)
      fun result last last' hlast => ?_
    cases result with
    | none => exact mirrors_done hlast
    | some result => exact mirrors_done hlast
  | renameDirectory ctx oldPath newName =>
    refine mirrors_bind (mirrors_withDirectoryLock dm h ctx _ fun after after' hlocked => ?_)
      fun _ last last' hlast => mirrors_done hlast
    refine mirrors_renameDirectoryBody dm hlocked.shadows ctx _ newName fun hfound => ?_
    rw [hlocked.with_locks] at hfound ⊢
    obtain ⟨hfiles, hdirectories, htarget, hstored⟩ := hfree hfound
    exact ⟨hfiles, hdirectories, htarget, hstored⟩
  | uploadFile ctx path data =>
    refine mirrors_bind (mirrors_withFileLock h ctx _ fun after after' hlocked => ?_)
      fun _ last last' hlast => mirrors_done hlast
    exact mirrors_uploadFileBody sha256 hlocked.shadows ctx _ data (hlocked.storage ▸ hfree)
      (hlocked.db ▸ hfresh)
  | deleteFile ctx path =>
    refine mirrors_bind (mirrors_withFileLock h ctx _ fun after after' hlocked => ?_)
      fun _ last last' hlast => mirrors_done hlast
    refine mirrors_deleteFileBody hlocked.shadows ctx _ fun hfound => ?_
    rw [hlocked.with_locks] at hfound ⊢
    exact hfree hfound
  | renameFile ctx oldPath newName =>
    refine mirrors_bind (mirrors_withFileLock h ctx _ fun after after' hlocked => ?_)
      fun _ last last' hlast => mirrors_done hlast
    refine mirrors_renameFileBody hlocked.shadows ctx _ newName fun hfound => ?_
    rw [hlocked.with_locks] at hfound ⊢
    obtain ⟨hsource, htarget, hdead⟩ := hfree hfound
    exact ⟨hsource, htarget, hdead⟩
  | getFileMetadata path =>
    refine mirrors_bind (mirrors_getFileMetadata h path) ?_
    rintro _ _ _ ⟨-, rfl, rfl⟩
    exact mirrors_done h
  | fileExists path =>
    refine mirrors_bind (mirrors_fileExists h path) ?_
    rintro _ _ _ ⟨-, rfl, rfl⟩
    exact mirrors_done h
  | getDirectoryMetadata path =>
    refine mirrors_bind (mirrors_getDirectoryMetadata h path) ?_
    rintro _ _ _ ⟨-, rfl, rfl⟩
    exact mirrors_done h
  | directoryExists path =>
    refine mirrors_bind (mirrors_directoryExists h path) ?_
    rintro _ _ _ ⟨-, rfl, rfl⟩
    exact mirrors_done h
  | listFiles query page =>
    refine mirrors_bind (mirrors_listFilesWith h collation query page false)
      fun _ last last' hlast => mirrors_done hlast
  | listFilesWithTotal query page =>
    refine mirrors_bind (mirrors_listFilesWith h collation query page true)
      fun _ last last' hlast => mirrors_done hlast

def CatalogCall.Runs (world : World) (request : CatalogCall) (reply : CatalogReply) (after : World) :
    Prop :=
  Program.Runs calm (request.service sha256 collation dm) world reply after

def CatalogCall.RunsPhysically (world : World) (request : CatalogCall) (reply : CatalogReply)
    (after : World) : Prop :=
  Program.Runs (physical dm.hasStore) (request.service sha256 collation dm) world reply after

theorem shadows_initial (dialect : Dialect) (rootDir : List Segment) :
    (initial dialect rootDir).Shadows (initial dialect rootDir) :=
  ⟨⟨rfl, List.Perm.refl _, List.Perm.refl _⟩, ⟨rfl, FileTree.Covers.refl _⟩, rfl⟩

/-- A run in which nothing left behind is in the way of a call is, reply by reply, a run of the system
that deletes physically. -/
theorem softDelete_unobservable (dialect : Dialect) (rootDir : List Segment)
    {past : List (CatalogCall × CatalogReply)} {state : World}
    (h : History (fun world request reply after => request.Fresh world ∧
        request.Unhindered dm.hasStore world ∧
        request.Runs sha256 collation dm world reply after)
      (initial dialect rootDir) past state) :
    ∃ model, History (CatalogCall.RunsPhysically sha256 collation dm)
      (initial dialect rootDir) past model := by
  obtain ⟨model, hmodel, -⟩ := h.simulates (fun _ => True) World.Shadows
    (shadows_initial dialect rootDir) (fun {state model request reply after} _ hrelated hstep => by
      obtain ⟨hfresh, hfree, hruns⟩ := hstep
      obtain ⟨reply', next, hnext, rfl, hafter⟩ :=
        mirrors_service sha256 collation dm hrelated hfresh hfree reply after hruns
      exact ⟨next, hnext, hafter⟩) fun _ _ => trivial
  exact ⟨model, hmodel⟩

/-! ### Runs on fixed paths -/

def uploadAs (id : String) (path : Path) : CatalogCall :=
  .uploadFile (.sample 1 id) path [97]

def uploadedAs (id : String) (path : Path) : CatalogReply :=
  .fileMetadata (.ok (FileManager.newMetadata (.sample 1 id) path path 1 ""))

def withLocalStore : DirectoryManager := ⟨true, true⟩

theorem not_bare_of_free {storage : LocalStorage} {path : Path}
    (h : storage.tree.isDirectory (storage.getFullPath path) = false) : ¬ storage.Bare path := by
  rintro ⟨hdir, -⟩
  rw [h] at hdir
  exact Bool.noConfusion hdir

/-- A deleted path is free for an upload. -/
theorem softDelete_unobservable_revived :
    ∃ model, History (CatalogCall.RunsPhysically (fun _ => "") bytewise withLocalStore)
      (initial .postgresql [['r']])
      [(uploadAs "a" ['a'], uploadedAs "a" ['a']),
        (.deleteFile (.sample 2 "") ['a'], .file (.ok ())),
        (uploadAs "b" ['a'], uploadedAs "b" ['a'])] model := by
  have hsoft := @runs_of_run Call Env World CatalogReply calm .textual
  have hfresh : ∀ {world : World}, world.db.files.rows.map FileMetadata.id = ["a"] →
      (uploadAs "b" ['a']).Fresh world := by
    intro world hrows row hrow
    have hid : row.id ∈ ["a"] := hrows ▸ List.mem_map_of_mem hrow
    rw [List.mem_singleton.mp hid]
    decide
  exact softDelete_unobservable (fun _ => "") bytewise withLocalStore .postgresql [['r']]
    (.snoc (.snoc (.snoc .nil
      ⟨fun _ hrow => (nomatch hrow), not_bare_of_free rfl, hsoft rfl⟩)
      ⟨trivial, fun _ => not_bare_of_free rfl, hsoft rfl⟩)
      ⟨hfresh rfl, not_bare_of_free rfl, hsoft rfl⟩)

/-- The row of a deleted file refuses its path to a rename, and the directory of a deleted one
refuses its place to an upload. -/
theorem softDelete_observable :
    ((∃ state, History (CatalogCall.Runs (fun _ => "") bytewise withLocalStore)
        (initial .postgresql [['r']])
        [(uploadAs "a" ['a'], uploadedAs "a" ['a']),
          (.deleteFile (.sample 2 "") ['a'], .file (.ok ())),
          (uploadAs "b" ['b'], uploadedAs "b" ['b']),
          (.renameFile (.sample 3 "") ['b'] ['a'],
            .file (.error (.updateMetadata (.constraint .uniquePath))))] state) ∧
      ∃ model, History (CatalogCall.RunsPhysically (fun _ => "") bytewise withLocalStore)
        (initial .postgresql [['r']])
        [(uploadAs "a" ['a'], uploadedAs "a" ['a']),
          (.deleteFile (.sample 2 "") ['a'], .file (.ok ())),
          (uploadAs "b" ['b'], uploadedAs "b" ['b']),
          (.renameFile (.sample 3 "") ['b'] ['a'], .file (.ok ()))] model) ∧
    (∃ state, History (CatalogCall.Runs (fun _ => "") bytewise withLocalStore)
        (initial .postgresql [['r']])
        [(.createDirectory (.sample 2 "d") ['d'], .directory (.ok ())),
          (.deleteDirectory (.sample 3 "") ['d'] false 0, .directory (.ok ())),
          (uploadAs "a" ['d'], .fileMetadata (.error (.write (.writeFile .isDirectory))))] state) ∧
      ∃ model, History (CatalogCall.RunsPhysically (fun _ => "") bytewise withLocalStore)
        (initial .postgresql [['r']])
        [(.createDirectory (.sample 2 "d") ['d'], .directory (.ok ())),
          (.deleteDirectory (.sample 3 "") ['d'] false 0, .directory (.ok ())),
          (uploadAs "a" ['d'], uploadedAs "a" ['d'])] model := by
  have hsoft := @runs_of_run Call Env World CatalogReply calm .textual
  have hphysical := @runs_of_run Call Env World CatalogReply (physical true) .textual
  refine ⟨⟨?_, ?_⟩, ?_, ?_⟩
  · exact ⟨_, .snoc (.snoc (.snoc (.snoc .nil (hsoft rfl)) (hsoft rfl)) (hsoft rfl)) (hsoft rfl)⟩
  · exact ⟨_, .snoc (.snoc (.snoc (.snoc .nil (hphysical rfl)) (hphysical rfl)) (hphysical rfl))
      (hphysical rfl)⟩
  · exact ⟨_, .snoc (.snoc (.snoc .nil (hsoft rfl)) (hsoft rfl)) (hsoft rfl)⟩
  · exact ⟨_, .snoc (.snoc (.snoc .nil (hphysical rfl)) (hphysical rfl)) (hphysical rfl)⟩

end FsServer
