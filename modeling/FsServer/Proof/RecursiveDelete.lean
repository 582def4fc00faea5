import FsServer.Proof.RenamedSubtree

/-!
# A recursive delete

`DeleteDirectory` marks the files under the directory deleted in batches, each in a transaction, until
its query finds none, then the directories, and the directory's own row last. Every batch leaves fewer
rows for the next query, so the loops end. Whichever statement fails, whole batches have been marked
and the directory's own row is live, so the delete can be made again.
-/

namespace FsServer

open Lib Program World GoPath DirectoryManager Database Table

variable {found : List Entry} {row : FileMetadata}

namespace Database

variable {db : Database} {env : Env} {path : Path}

/-- A live row that the queries of a delete find. -/
def selectsFile (db : Database) (path : Path) (row : FileMetadata) : Bool :=
  likeUnder db.dialect path row.path && !row.isDeleted

def selectsDirectory (db : Database) (path : Path) (row : DirectoryMetadata) : Bool :=
  likeUnder db.dialect path row.path && !row.isDeleted

def filesLeft (db : Database) (path : Path) : Nat :=
  (db.files.rows.filter (db.selectsFile path)).length

def directoriesLeft (db : Database) (path : Path) : Nat :=
  (db.directories.rows.filter (db.selectsDirectory path)).length

def batch (found : List Entry) : List String :=
  (found.take batchSize).map Entry.id

theorem batch_ne_nil (h : (found.take batchSize).isEmpty = false) : batch found ≠ [] := by
  rw [batch, ne_eq, List.map_eq_nil_iff]
  exact fun hempty => absurd h (by rw [hempty]; simp)

def markFile (now : String) (row : FileMetadata) : FileMetadata :=
  { row with isDeleted := true, updatedAt := now }

def markDirectory (now : String) (row : DirectoryMetadata) : DirectoryMetadata :=
  { row with isDeleted := true, updatedAt := now }

theorem selectsFile_eq_true : db.selectsFile path row = true ↔
    likeUnder db.dialect path row.path = true ∧ row.isDeleted = false := by
  rw [selectsFile, Bool.and_eq_true, Bool.not_eq_true']

theorem selectsDirectory_eq_true {row : DirectoryMetadata} : db.selectsDirectory path row = true ↔
    likeUnder db.dialect path row.path = true ∧ row.isDeleted = false := by
  rw [selectsDirectory, Bool.and_eq_true, Bool.not_eq_true']

theorem selectsFile_markFile (now : String) (row : FileMetadata) :
    db.selectsFile path (markFile now row) = false := by
  simp [selectsFile, markFile]

theorem selectsDirectory_markDirectory (now : String) (row : DirectoryMetadata) :
    db.selectsDirectory path (markDirectory now row) = false := by
  simp [selectsDirectory, markDirectory]

theorem filesLeft_eq_zero : db.filesLeft path = 0 ↔
    ∀ row ∈ db.files.rows, ¬ db.selectsFile path row = true := by
  rw [filesLeft, List.length_eq_zero_iff, List.filter_eq_nil_iff]

theorem directoriesLeft_eq_zero : db.directoriesLeft path = 0 ↔
    ∀ row ∈ db.directories.rows, ¬ db.selectsDirectory path row = true := by
  rw [directoriesLeft, List.length_eq_zero_iff, List.filter_eq_nil_iff]

/-- What marking a batch of the rows found leaves of them, in either table. -/
theorem marks_batch {R : Type} {key : R → String} {place : R → Path} {deleted select : R → Bool}
    {table : Table key place} (mark : String → R → R)
    (h : FoundUnder db.dialect path table deleted found)
    (hselect : ∀ row, select row = true ↔
      likeUnder db.dialect path (place row) = true ∧ deleted row = false)
    (hmark : ∀ now row, deleted (mark now row) = true) (hkey : ∀ now row, key (mark now row) = key row)
    (hplace : ∀ now row, place (mark now row) = place row) (now : String) :
    ∃ after, table.update (fun row => key row ∈ batch found) (mark now) = .ok after ∧
      List.Forall₂ (Table.Kept mark select) table.rows after.rows ∧
      (batch found ≠ [] → (after.rows.filter select).length < (table.rows.filter select).length) ∧
      (found = [] → (table.rows.filter select).length = 0) := by
  have hids : ∀ id ∈ batch found, ∃ row ∈ table.rows, select row = true ∧ key row = id := by
    intro id hid
    obtain ⟨entry, hentry, rfl⟩ := List.mem_map.mp hid
    obtain ⟨row, hrow, hlike, hlive, rfl⟩ := (h.mem entry).mp (List.mem_of_mem_take hentry)
    exact ⟨row, hrow, (hselect row).mpr ⟨hlike, hlive⟩, rfl⟩
  have hmarked : ∀ now row, select (mark now row) = false := by
    intro now row
    rw [Bool.eq_false_iff]
    intro hselected
    rw [hselect, hmark] at hselected
    cases hselected.2
  obtain ⟨after, hafter, hkept, hless⟩ := update_batch hmarked hkey hplace now hids
  refine ⟨after, hafter, hkept, hless, fun hnone => ?_⟩
  rw [List.length_eq_zero_iff, List.filter_eq_nil_iff]
  intro row hrow hselected
  obtain ⟨hlike, hlive⟩ := (hselect row).mp hselected
  have hmem := (h.mem _).mpr ⟨row, hrow, hlike, hlive, rfl⟩
  rw [hnone] at hmem
  cases hmem

theorem removeFiles_batch (now : String) (hfound : (db.exec env (.filesUnder path)).1 = .ok found) :
    ∃ after, (∀ env', db.exec env' (.removeFiles (batch found) now) = (.ok (), after)) ∧
      after.dialect = db.dialect ∧ after.directories = db.directories ∧
      List.Forall₂ (Table.Kept markFile (db.selectsFile path)) db.files.rows after.files.rows ∧
      (batch found ≠ [] → after.filesLeft path < db.filesLeft path) ∧
      (found = [] → db.filesLeft path = 0) := by
  obtain ⟨files, hfiles, hrest⟩ := marks_batch markFile (foundUnder_files hfound)
    (fun _ => selectsFile_eq_true) (fun _ _ => rfl) (fun _ _ => rfl) (fun _ _ => rfl) now
  exact ⟨db.withFiles files, fun _ => congrArg db.onFiles hfiles, rfl, rfl, hrest⟩

theorem removeDirectories_batch (now : String)
    (hfound : (db.exec env (.directoriesUnder path)).1 = .ok found) :
    ∃ after, (∀ env', db.exec env' (.removeDirectories (batch found) now) = (.ok (), after)) ∧
      after.dialect = db.dialect ∧ after.files = db.files ∧
      List.Forall₂ (Table.Kept markDirectory (db.selectsDirectory path)) db.directories.rows
        after.directories.rows ∧
      (batch found ≠ [] → after.directoriesLeft path < db.directoriesLeft path) ∧
      (found = [] → db.directoriesLeft path = 0) := by
  obtain ⟨directories, hdirectories, hrest⟩ := marks_batch markDirectory (foundUnder_directories hfound)
    (fun _ => selectsDirectory_eq_true) (fun _ _ => rfl) (fun _ _ => rfl) (fun _ _ => rfl) now
  exact ⟨db.withDirectories directories, fun _ => congrArg db.onDirectories hdirectories, rfl, rfl,
    hrest⟩

/-- Whole batches have been marked deleted, one after another. -/
inductive Batches (path : Path) (db : Database) : Database → Prop
  | none : Batches path db db
  | files {middle after : Database} {env env' : Env} {found : List Entry} {now : String}
      (h : Batches path db middle) (hfound : (middle.exec env (.filesUnder path)).1 = .ok found)
      (hremove : middle.exec env' (.removeFiles (batch found) now) = (.ok (), after)) :
      Batches path db after
  | directories {middle after : Database} {env env' : Env} {found : List Entry} {now : String}
      (h : Batches path db middle)
      (hfound : (middle.exec env (.directoriesUnder path)).1 = .ok found)
      (hremove : middle.exec env' (.removeDirectories (batch found) now) = (.ok (), after)) :
      Batches path db after

/-- No row but the selected ones has changed, and these are marked deleted or as they were. -/
structure Thinned (path : Path) (db after : Database) : Prop where
  dialect : after.dialect = db.dialect
  files : List.Forall₂ (Table.Kept markFile (db.selectsFile path)) db.files.rows after.files.rows
  directories : List.Forall₂ (Table.Kept markDirectory (db.selectsDirectory path))
    db.directories.rows after.directories.rows

variable {middle : Database}

theorem Thinned.refl (db : Database) : Thinned path db db :=
  ⟨rfl, List.forall₂_same.mpr fun _ _ => .inl rfl, List.forall₂_same.mpr fun _ _ => .inl rfl⟩

theorem Thinned.selectsFile (h : Thinned path db middle) :
    middle.selectsFile path = db.selectsFile path := by
  funext row
  rw [Database.selectsFile, h.dialect, Database.selectsFile]

theorem Thinned.selectsDirectory (h : Thinned path db middle) :
    middle.selectsDirectory path = db.selectsDirectory path := by
  funext row
  rw [Database.selectsDirectory, h.dialect, Database.selectsDirectory]

theorem Thinned.trans {after : Database} (h : Thinned path db middle)
    (hthen : Thinned path middle after) : Thinned path db after where
  dialect := hthen.dialect.trans h.dialect
  files := forall₂_trans h.files (h.selectsFile ▸ hthen.files)
    fun _ _ _ => Table.Kept.trans selectsFile_markFile
  directories := forall₂_trans h.directories (h.selectsDirectory ▸ hthen.directories)
    fun _ _ _ => Table.Kept.trans selectsDirectory_markDirectory

theorem Batches.trans {after : Database} (h : Batches path db middle)
    (hthen : Batches path middle after) : Batches path db after := by
  induction hthen with
  | none => exact h
  | files _ hfound hremove ih => exact .files ih hfound hremove
  | directories _ hfound hremove ih => exact .directories ih hfound hremove

theorem Batches.thinned {after : Database} (h : Batches path db after) : Thinned path db after := by
  induction h with
  | none => exact .refl db
  | files _ hfound hremove ih =>
    obtain ⟨after, hafter, hdialect, hsame, hfiles, -⟩ := removeFiles_batch _ hfound
    rw [hafter] at hremove
    cases hremove
    refine ih.trans ⟨hdialect, hfiles, ?_⟩
    rw [hsame]
    exact (Thinned.refl _).directories
  | directories _ hfound hremove ih =>
    obtain ⟨after, hafter, hdialect, hsame, hdirectories, -⟩ := removeDirectories_batch _ hfound
    rw [hafter] at hremove
    cases hremove
    refine ih.trans ⟨hdialect, ?_, hdirectories⟩
    rw [hsame]
    exact (Thinned.refl _).files

end Database

/-! ### The loops -/

section Loops

variable {world : World} {db : Database} {reliable : Bool} {dm : DirectoryManager} {ctx : Context}
  {path : Path}

/-- Every round of the loop finds no rows or marks some. -/
structure Shrinks (path : Path) (loop : BatchLoop) (left : Database → Nat) : Prop where
  queryFails : loop.query.failed = .error .fault
  removeFails : ∀ ids, (loop.remove ids).failed = .error .fault
  round : ∀ db env, ∃ found after, db.exec env loop.query = (.ok found, db) ∧
    (found = [] → left db = 0) ∧
    (∀ env', db.exec env' (loop.remove (batch found)) = (.ok (), after)) ∧
    (∀ {start}, Batches path start db → Batches path start after) ∧
    (batch found ≠ [] → left after < left db)

theorem shrinks_files (path : Path) (now : String) :
    Shrinks path (fileBatches path now) fun db => db.filesLeft path := by
  refine ⟨rfl, fun _ => rfl, fun db env => ?_⟩
  obtain ⟨found, hfound⟩ : ∃ found, (db.exec env (.filesUnder path)).1 = .ok found := ⟨_, rfl⟩
  obtain ⟨after, hafter, -, -, -, hless, hnone⟩ := removeFiles_batch now hfound
  exact ⟨found, after, Prod.ext hfound rfl, hnone, hafter, fun h => .files h hfound (hafter env),
    hless⟩

theorem shrinks_directories (path : Path) (now : String) :
    Shrinks path (directoryBatches path now) fun db => db.directoriesLeft path := by
  refine ⟨rfl, fun _ => rfl, fun db env => ?_⟩
  obtain ⟨found, hfound⟩ : ∃ found, (db.exec env (.directoriesUnder path)).1 = .ok found := ⟨_, rfl⟩
  obtain ⟨after, hafter, -, -, -, hless, hnone⟩ := removeDirectories_batch now hfound
  exact ⟨found, after, Prod.ext hfound rfl, hnone, hafter,
    fun h => .directories h hfound (hafter env), hless⟩

/-- Where a loop over batches leaves off: whole batches are marked, and the loop has gone through all
rows or has no round left. -/
structure LoopEnded (path : Path) (db after : Database) (left : Database → Nat) (rounds start : Nat)
    (result : Option (Except DirectoryError Unit)) : Prop where
  batches : Batches path db after
  spent : result = none → rounds ≤ start
  through : result = some (.ok ()) → left after = 0

variable {loop : BatchLoop} {left : Database → Nat}

theorem amid_batches (hloop : Shrinks path loop left) (rounds : Nat)
    (h : Batches path db world.db) :
    (dm.deleteBatches loop rounds).Amid reliable
      (fun result after => LoopEnded path db after.db left rounds (left world.db) result) world := by
  induction rounds generalizing world with
  | zero => exact ⟨h, fun _ => Nat.zero_le _, by simp⟩
  | succ rounds ih =>
    unfold deleteBatches
    refine amid_sql (hloop.queryFails ▸ ⟨h, by simp, by simp⟩) fun env => ?_
    obtain ⟨found, after, hfound, hnone, hafter, hmarks, hless⟩ := hloop.round world.db env
    rw [hfound]
    dsimp only
    cases hempty : (found.take batchSize).isEmpty with
    | true =>
      exact ⟨h, by simp, fun _ => hnone (by simpa [batchSize] using hempty)⟩
    | false =>
      rw [if_neg Bool.false_ne_true]
      have hfewer := hless (batch_ne_nil hempty)
      refine amid_sql (hloop.removeFails _ ▸ ⟨h, by simp, by simp⟩) fun env' => ?_
      rw [← batch, hafter env']
      refine amid_attemptAll fun storage => ?_
      refine EnsuresAmid.mono (ih (hmarks h)) fun result final hended => ?_
      refine ⟨hended.batches, fun hnone => ?_, hended.through⟩
      have := hended.spent hnone
      dsimp only at this
      omega

inductive DeleteEnded (path : Path) (db : Database) (rounds : Nat) :
    Option (Except DirectoryError Unit) → Database → Prop
  | spent {after : Database}
      (hrounds : rounds ≤ db.files.rows.length ∨ rounds ≤ db.directories.rows.length) :
      DeleteEnded path db rounds none after
  | interrupted {after : Database} {cause : DirectoryError}
      (hbatches : Batches path db after) :
      DeleteEnded path db rounds (some (.error cause)) after
  | done {middle after : Database} {env : Env} {own : DirectoryMetadata} {now : String}
      (hbatches : Batches path db middle) (hfiles : middle.filesLeft path = 0)
      (hdirectories : middle.directoriesLeft path = 0)
      (hown : middle.liveDirectory path = some own)
      (hremove : middle.exec env (.removeDirectory own.id now) = (.ok (), after)) :
      DeleteEnded path db rounds (some (.ok ())) after

theorem filesLeft_le (db : Database) (path : Path) : db.filesLeft path ≤ db.files.rows.length :=
  List.length_filter_le _ _

theorem directoriesLeft_le (db : Database) (path : Path) :
    db.directoriesLeft path ≤ db.directories.rows.length :=
  List.length_filter_le _ _

theorem Database.Thinned.filesLeft_eq_zero {after : Database} (h : Database.Thinned path db after)
    (hnone : db.filesLeft path = 0) : after.filesLeft path = 0 := by
  rw [filesLeft, h.selectsFile,
    eq_of_kept h.files (Database.filesLeft_eq_zero.mp hnone)]
  exact hnone

theorem removeDirectory_ok (db : Database) (id now : String) :
    ∃ after, (∀ env, db.exec env (.removeDirectory id now) = (.ok (), after)) ∧
      after.dialect = db.dialect ∧ after.files = db.files ∧
      after.directories.rows = db.directories.rows.map fun row =>
        if decide (row.id = id) = true then { row with isDeleted := true, updatedAt := now }
        else row := by
  have hkeys : ∀ row, (markDirectory now row).id = row.id := fun _ => rfl
  obtain ⟨directories, hdirectories, hrows⟩ := update_marks hkeys (fun _ => rfl)
    db.directories fun row => row.id = id
  have hexec : ∀ env, db.exec env (.removeDirectory id now) = db.onDirectories
    (db.directories.update (fun row => row.id = id) (markDirectory now)) := fun _ => rfl
  refine ⟨db.withDirectories directories, fun env => ?_, rfl, rfl, hrows⟩
  rw [hexec, hdirectories]
  rfl

section

variable (hnormal : normalizePath path = path)
include hnormal

theorem amid_removeRow (hbatches : Batches path db world.db)
    (hfiles : world.db.filesLeft path = 0) (hdirectories : world.db.directoriesLeft path = 0)
    (rounds : Nat) :
    (removeRow ctx path).Amid reliable
      (fun result after => DeleteEnded path db rounds (some result) after.db) world := by
  unfold removeRow DirectoryMetadataService.getByPath
  rw [hnormal]
  refine amid_sql (.interrupted hbatches) fun env => ?_
  rw [exec_directoryByPath]
  cases hown : world.db.liveDirectory path with
  | none => exact .interrupted hbatches
  | some own =>
    refine amid_sql (.interrupted hbatches) fun env' => ?_
    obtain ⟨after, hafter, -⟩ := removeDirectory_ok world.db own.id ctx.now
    rw [hafter env']
    exact .done hbatches hfiles hdirectories hown (hafter env')

theorem amid_deleteRecursively (rounds : Nat) :
    (dm.deleteRecursively ctx path rounds).Amid reliable
      (fun result after => DeleteEnded path world.db rounds result after.db) world := by
  unfold deleteRecursively
  rw [dm.deleteFiles_eq, dm.deleteDirectories_eq]
  refine ensuresAmid_bind.mpr (EnsuresAmid.mono (amid_batches (shrinks_files _ _) rounds .none) ?_)
  intro result middle hmiddle
  cases result with
  | none => exact .spent (.inl ((hmiddle.spent rfl).trans (filesLeft_le _ _)))
  | some outcome =>
    cases outcome with
    | error cause => exact .interrupted hmiddle.batches
    | ok done =>
      refine ensuresAmid_bind.mpr
        (EnsuresAmid.mono (amid_batches (shrinks_directories _ _) rounds .none) ?_)
      intro result last hlast
      have hall := hmiddle.batches.trans hlast.batches
      cases result with
      | none =>
        refine .spent (.inr ((hlast.spent rfl).trans ((directoriesLeft_le _ _).trans ?_)))
        exact hmiddle.batches.thinned.directories.length_eq.ge
      | some outcome =>
        cases outcome with
        | error cause => exact .interrupted hall
        | ok done =>
          have hfiles := hlast.batches.thinned.filesLeft_eq_zero (hmiddle.through rfl)
          refine ensuresAmid_bind.mpr
            (amid_removeRow hnormal hall hfiles (hlast.through rfl) rounds)

theorem amid_deleteDirectoryBody (rounds : Nat) (world : World) :
    (dm.deleteDirectoryBody ctx path true rounds).Amid reliable
      (fun result after => DeleteEnded path world.db rounds result after.db) world := by
  unfold deleteDirectoryBody
  refine amid_directoryExists fun found => ?_
  cases found with
  | true => exact amid_deleteRecursively hnormal rounds
  | false => exact .interrupted .none

theorem amid_deleteDirectory (rounds : Nat) :
    (dm.deleteDirectory ctx path true rounds).Amid reliable
      (fun result after => DeleteEnded path world.db rounds result after.db ∧
        after.locks = world.locks) world := by
  have hbody : ∀ locks, (dm.deleteDirectoryBody ctx path true rounds).Amid reliable
      (fun result after => DeleteEnded path world.db rounds result after.db)
      { world with locks := locks } :=
    fun locks => amid_deleteDirectoryBody hnormal rounds { world with locks := locks }
  have hdata := onData_deleteDirectoryBody dm ctx path true rounds
  unfold deleteDirectory
  rw [hnormal]
  cases dm.hasLock with
  | false => exact EnsuresAmid.and (hbody world.locks) (amid_locks hdata)
  | true => exact amid_locked hdata (fun h => h) ⟨.interrupted .none, rfl⟩ hbody

end

/-! ### Runs with a fault, and runs without -/

def Failed (result : Option (Except DirectoryError Unit)) (_ : World) : Prop :=
  ∃ cause, result = some (.error cause)

theorem faulty_batches (hloop : Shrinks path loop left) (rounds : Nat) (world : World) :
    (dm.deleteBatches loop rounds).Faulty true Failed world := by
  induction rounds generalizing world with
  | zero => trivial
  | succ rounds ih =>
    unfold deleteBatches
    refine faulty_sql (hloop.queryFails ▸ ⟨_, rfl⟩) fun env => ?_
    obtain ⟨found, after, hfound, -, hafter, -⟩ := hloop.round world.db env
    rw [hfound]
    dsimp only
    split_ifs
    · trivial
    · refine faulty_sql (hloop.removeFails _ ▸ ⟨_, rfl⟩) fun env' => ?_
      rw [← batch, hafter env']
      exact faulty_attemptAll fun storage => ih _

theorem faulty_removeRow (world : World) :
    (removeRow ctx path).Faulty true
      (fun result after => Failed (some result) after) world := by
  unfold removeRow DirectoryMetadataService.getByPath
  refine faulty_sql ⟨_, rfl⟩ fun env => ?_
  rw [exec_directoryByPath]
  cases world.db.liveDirectory (normalizePath path) with
  | none => trivial
  | some own =>
    refine faulty_sql ⟨_, rfl⟩ fun env' => ?_
    cases (world.db.exec env' (.removeDirectory own.id ctx.now)).1 with
    | error cause => trivial
    | ok done => trivial

theorem faulty_deleteRecursively (rounds : Nat) (world : World) :
    (dm.deleteRecursively ctx path rounds).Faulty true
      Failed world := by
  unfold deleteRecursively
  rw [dm.deleteFiles_eq, dm.deleteDirectories_eq]
  refine ensuresFaulty_bind
    (EnsuresFaulty.mono (faulty_batches (shrinks_files path ctx.now) rounds world) ?_)
    (Ensures.of_forall _ (fun result middle => ?_) _ _)
  · rintro result middle ⟨cause, rfl⟩
    exact ⟨cause, rfl⟩
  rcases result with _ | cause | _
  · trivial
  · trivial
  refine ensuresFaulty_bind
    (EnsuresFaulty.mono (faulty_batches (shrinks_directories path ctx.now) rounds middle) ?_)
    (Ensures.of_forall _ (fun result last => ?_) _ _)
  · rintro result last ⟨cause, rfl⟩
    exact ⟨cause, rfl⟩
  rcases result with _ | cause | _
  · trivial
  · trivial
  exact ensuresFaulty_bind (EnsuresFaulty.mono (faulty_removeRow last) fun _ _ h => h)
    (Ensures.of_forall _ (fun _ _ => trivial) _ _)

/-- **A delete of which a statement fails returns an error.** -/
theorem faulty_deleteDirectory (rounds : Nat) (world : World) :
    (dm.deleteDirectory ctx path true rounds).Faulty true
      Failed world := by
  have hbody : ∀ locks, (dm.deleteDirectoryBody ctx (normalizePath path) true rounds).Faulty
      true Failed { world with locks := locks } := by
    intro locks
    unfold deleteDirectoryBody directoryExists
    rw [bind_bind]
    refine faulty_sql ⟨_, rfl⟩ fun env => ?_
    rw [exec_directoryExists]
    cases (world.db.liveDirectory (normalizePath (normalizePath (normalizePath path)))).isSome with
    | false => trivial
    | true => exact faulty_deleteRecursively rounds _
  unfold deleteDirectory
  cases dm.hasLock with
  | false => exact hbody world.locks
  | true => exact faulty_locked (fun h => h) hbody

theorem not_likeUnder_self {dialect : Dialect} (hnormal : normalizePath path = path) :
    likeUnder dialect path path = false := by
  have hself := not_likeUnder_normalizePath dialect path
  rw [hnormal, hnormal] at hself
  exact hself

theorem Database.Batches.own (hnormal : normalizePath path = path) {after : Database}
    (h : Batches path db after) {own : DirectoryMetadata}
    (hown : db.liveDirectory path = some own) : after.liveDirectory path = some own := by
  obtain ⟨hat, hlive⟩ := Option.filter_eq_some_iff.mp hown
  obtain ⟨hrow, hpath⟩ := atPath_eq_some.mp hat
  obtain ⟨kept, hkept, rfl | ⟨hselect, -⟩⟩ := exists_of_forall₂ h.thinned.directories hrow
  · exact Option.filter_eq_some_iff.mpr ⟨atPath_eq_some.mpr ⟨hkept, hpath⟩, hlive⟩
  · rw [Database.selectsDirectory, hpath, not_likeUnder_self hnormal] at hselect
    cases hselect

theorem calm_attemptAll {α : Type} {post : α → World → Prop}
    {calls : List (StorageCall (Except StorageError Unit))} {rest : Unit → Service α}
    (h : ∀ storage, (rest ()).Ensures handle post { world with storage := storage }) :
    (dm.attemptAll calls >>= rest).Ensures handle post world := by
  induction calls generalizing world with
  | nil => exact h world.storage
  | cons call calls ih =>
    rw [attemptAll, bind_bind]
    unfold attempt
    cases dm.hasStore with
    | false => exact ih h
    | true =>
      intro env reply after hcall
      cases hcall
      exact ih h

theorem calm_batches (hloop : Shrinks path loop left) (rounds : Nat) (world : World) :
    (dm.deleteBatches loop rounds).Ensures handle
      (fun result _ => ∀ cause, result ≠ some (.error cause)) world := by
  induction rounds generalizing world with
  | zero => exact fun cause => by simp
  | succ rounds ih =>
    unfold deleteBatches
    rw [ensures_sql]
    intro env
    obtain ⟨found, after, hfound, -, hafter, -⟩ := hloop.round world.db env
    rw [hfound]
    dsimp only
    split_ifs
    · exact fun cause => by simp
    · rw [ensures_sql]
      intro env'
      rw [← batch, hafter env']
      exact calm_attemptAll fun storage => ih _

theorem calm_deleteRecursively (hnormal : normalizePath path = path) {own : DirectoryMetadata}
    (hown : world.db.liveDirectory path = some own) (rounds : Nat) :
    (dm.deleteRecursively ctx path rounds).Ensures handle
      (fun result _ => ∀ cause, result ≠ some (.error cause)) world := by
  have hfiles := shrinks_files path ctx.now
  have hdirectories := shrinks_directories path ctx.now
  unfold deleteRecursively
  rw [dm.deleteFiles_eq, dm.deleteDirectories_eq, ensures_bind]
  have hmarked : (dm.deleteBatches _ rounds).Amid true _ world := amid_batches hfiles rounds .none
  refine ((calm_batches hfiles rounds world).and _ hmarked.calm).mono _ ?_
  rintro result middle ⟨hresult, hmiddle⟩
  rcases result with _ | cause | _
  · exact hresult
  · exact absurd rfl (hresult cause)
  have hmarked : (dm.deleteBatches _ rounds).Amid true _ middle :=
    amid_batches hdirectories rounds .none
  rw [ensures_bind]
  refine ((calm_batches hdirectories rounds middle).and _ hmarked.calm).mono _ ?_
  rintro result last ⟨hresult, hlast⟩
  rcases result with _ | cause | _
  · exact hresult
  · exact absurd rfl (hresult cause)
  have hstill := (hmiddle.batches.trans hlast.batches).own hnormal hown
  unfold removeRow DirectoryMetadataService.getByPath
  rw [bind_bind, ensures_sql]
  intro env
  rw [exec_directoryByPath, hnormal, hstill]
  obtain ⟨after, hafter, -⟩ := removeDirectory_ok last.db own.id ctx.now
  rw [bind_bind, ensures_sql]
  intro env'
  rw [hafter env']
  exact fun cause => by simp

/-- **A delete without a fault returns nil**, if the loops may go on for long enough. -/
theorem total_deleteDirectory (hnormal : normalizePath path = path) {own : DirectoryMetadata}
    (hown : world.db.liveDirectory path = some own)
    (hfree : world.locks (.directory path) = none) {rounds : Nat}
    (hfiles : world.db.files.rows.length < rounds)
    (hdirectories : world.db.directories.rows.length < rounds) :
    (dm.deleteDirectory ctx path true rounds).Total calm
      (fun result after => result = some (.ok ()) ∧
        DeleteEnded path world.db rounds result after.db) world := by
  have hdata := onData_deleteDirectoryBody dm ctx path true rounds
  have hbody : ∀ locks, (dm.deleteDirectoryBody ctx path true rounds).Total calm
      (fun result after => result = some (.ok ()) ∧
        DeleteEnded path world.db rounds result after.db) { world with locks := locks } := by
    intro locks
    have hended : (dm.deleteDirectoryBody ctx path true rounds).Amid true
        (fun result after => DeleteEnded path world.db rounds result after.db)
        { world with locks := locks } :=
      amid_deleteDirectoryBody hnormal rounds { world with locks := locks }
    have hcalm : (dm.deleteDirectoryBody ctx path true rounds).Ensures handle
        (fun result _ => ∀ cause, result ≠ some (.error cause)) { world with locks := locks } := by
      unfold deleteDirectoryBody directoryExists
      rw [bind_bind, ensures_sql]
      intro env
      rw [exec_directoryExists, hnormal, hnormal, hown]
      have hlocked : ({ world with locks := locks } : World).db.liveDirectory path = some own := hown
      exact calm_deleteRecursively hnormal hlocked rounds
    have htotal := ((total_onData hdata _).and_ensures _ hcalm).and_ensures _ hended.calm
    refine Total.mono _ (htotal.restrict _ fun env =>
      ⟨{ env with fault := none }, fun _ _ => rfl⟩) ?_
    rintro result after ⟨⟨-, hresult⟩, hdeleted⟩
    refine ⟨?_, hdeleted⟩
    cases hdeleted with
    | spent hrounds => omega
    | @interrupted _ cause _ => exact absurd rfl (hresult cause)
    | done => rfl
  unfold deleteDirectory
  rw [hnormal]
  cases dm.hasLock with
  | false => exact hbody world.locks
  | true => exact total_locked hfree (fun h => h) hbody

end Loops

/-! ### What a delete leaves -/

/-- The row is marked deleted if it is one of these, and unchanged otherwise. -/
def FileMarked (selected : FileMetadata → Prop) (row after : FileMetadata) : Prop :=
  (selected row → ∃ now, after = { row with isDeleted := true, updatedAt := now }) ∧
    (¬ selected row → after = row)

def DirectoryMarked (selected : DirectoryMetadata → Prop) (row after : DirectoryMetadata) : Prop :=
  (selected row → ∃ now, after = { row with isDeleted := true, updatedAt := now }) ∧
    (¬ selected row → after = row)

theorem fileMarked_eq : FileMarked = Table.Marked markFile := rfl

theorem directoryMarked_eq : DirectoryMarked = Table.Marked markDirectory := rfl

theorem markFile_ne (hlive : row.isDeleted = false) (now : String) : markFile now row ≠ row := by
  intro hmarked
  have hdead := congrArg FileMetadata.isDeleted hmarked
  rw [hlive] at hdead
  cases hdead

theorem markDirectory_ne {row : DirectoryMetadata} (hlive : row.isDeleted = false) (now : String) :
    markDirectory now row ≠ row := by
  intro hmarked
  have hdead := congrArg DirectoryMetadata.isDeleted hmarked
  rw [hlive] at hdead
  cases hdead

section Ended

variable {world : World} {db after : Database} {dm : DirectoryManager} {ctx : Context} {path : Path}
  {rounds : Nat} {own : DirectoryMetadata}

theorem Database.Thinned.files_marked (h : Database.Thinned path db after)
    (hnone : after.filesLeft path = 0) :
    List.Forall₂ (Table.Marked markFile fun row => db.selectsFile path row = true)
      db.files.rows after.files.rows := by
  rw [Database.filesLeft_eq_zero, h.selectsFile] at hnone
  exact marked_of_kept h.files hnone

theorem Database.Thinned.directories_marked (h : Database.Thinned path db after)
    (hnone : after.directoriesLeft path = 0) :
    List.Forall₂ (Table.Marked markDirectory
      fun row => db.selectsDirectory path row = true) db.directories.rows
        after.directories.rows := by
  rw [directoriesLeft_eq_zero, h.selectsDirectory] at hnone
  exact marked_of_kept h.directories hnone

theorem DeleteEnded.marked (hnormal : normalizePath path = path)
    (hown : db.liveDirectory path = some own)
    (h : DeleteEnded path db rounds (some (.ok ())) after) :
    List.Forall₂ (Table.Marked markFile fun row => db.selectsFile path row = true)
        db.files.rows after.files.rows ∧
      List.Forall₂ (Table.Marked markDirectory
        fun row => db.selectsDirectory path row = true ∨ row = own) db.directories.rows
          after.directories.rows := by
  cases h with
  | @done middle _ _ found now hbatches hfiles hdirectories hfound hremove =>
    have hstill := hbatches.own hnormal hown
    rw [hfound, Option.some.injEq] at hstill
    subst hstill
    obtain ⟨hat, hlive⟩ := Option.filter_eq_some_iff.mp hfound
    obtain ⟨hrow, hpath⟩ := atPath_eq_some.mp hat
    obtain ⟨removed, hremoved, -, hsame, hrows⟩ := removeDirectory_ok middle found.id now
    rw [hremoved] at hremove
    cases hremove
    refine ⟨?_, ?_⟩
    · rw [hsame]
      exact hbatches.thinned.files_marked hfiles
    · rw [hrows, List.forall₂_map_right_iff]
      refine (forall₂_mem (hbatches.thinned.directories_marked hdirectories)).imp ?_
      rintro row kept ⟨-, hkept, hmarked⟩
      by_cases hid : kept.id = found.id
      · obtain rfl := middle.directories.eq_of_id_eq hkept hrow hid
        have hother : ¬ db.selectsDirectory path row = true := by
          intro hselect
          obtain ⟨_, hdead⟩ := hmarked.1 hselect
          rw [hdead] at hlive
          cases hlive
        obtain rfl := hmarked.2 hother
        rw [if_pos (decide_eq_true rfl)]
        exact ⟨fun _ => ⟨now, rfl⟩, fun hnot => absurd (.inr rfl) hnot⟩
      · rw [if_neg (by simpa using hid)]
        refine ⟨?_, fun hnot => hmarked.2 fun hselect => hnot (.inl hselect)⟩
        rintro (hselect | rfl)
        · exact hmarked.1 hselect
        · have hself : ¬ db.selectsDirectory path row = true := by
            rw [Database.selectsDirectory, hpath, not_likeUnder_self hnormal]
            exact Bool.false_ne_true
          rw [hmarked.2 hself] at hid
          exact absurd rfl hid

end Ended

/-! ### The whole delete -/

def Below (directory path : Path) : Prop := ∃ rest, path = directory ++ '/' :: rest

/-- Exactly the live rows at the directory and below it have become deleted. -/
structure SubtreeDeleted (path : Path) (db after : Database) : Prop where
  files : List.Forall₂ (FileMarked fun row =>
    row.isDeleted = false ∧ (row.path = path ∨ Below path row.path)) db.files.rows after.files.rows
  directories : List.Forall₂ (DirectoryMarked fun row =>
    row.isDeleted = false ∧ (row.path = path ∨ Below path row.path)) db.directories.rows
      after.directories.rows

/-- The delete has been interrupted between two batches and can be made again. -/
structure Interrupted (dm : DirectoryManager) (path : Path) (world : World) (final : Connection) :
    Prop where
  closed : final.pending = none
  batches : Batches path world.db final.world.db
  files : List.Forall₂ (fun row after => after = row ∨ Below path row.path) world.db.files.rows
    final.world.db.files.rows
  directories : List.Forall₂ (fun row after => after = row ∨ Below path row.path)
    world.db.directories.rows final.world.db.directories.rows
  own : final.world.db.liveDirectory path = world.db.liveDirectory path
  retry : ∀ ctx, ∃ bound, ∀ rounds, bound ≤ rounds →
    (Transaction.inStatements (dm.deleteDirectory ctx path true rounds)).Total Connection.calm
      (fun result _ => result = some (.ok ())) final

structure DeletesExactly (dm : DirectoryManager) (path : Path) (world : World) : Prop where
  terminates : ∀ ctx, ∃ bound, ∀ rounds, bound ≤ rounds →
    (Transaction.inStatements (dm.deleteDirectory ctx path true rounds)).Total Connection.calm
      (fun result final => result = some (.ok ()) ∧ SubtreeDeleted path world.db final.world.db)
      (.idle world)
  exact : ∀ ctx rounds final,
    (Transaction.inStatements (dm.deleteDirectory ctx path true rounds)).RunsAmid Connection.handle
      (Connection.Fails false) (.idle world) (some (.ok ())) final →
    final.pending = none ∧ SubtreeDeleted path world.db final.world.db
  fails : ∀ ctx rounds result final,
    (Transaction.inStatements (dm.deleteDirectory ctx path true rounds)).RunsFaulty
      Connection.handle (Connection.Fails true) (.idle world) result final →
    ∃ cause, result = some (.error cause) ∧ Interrupted dm path world final

/-- The queries for the subtree find nothing outside it, and no file is where the directory is. -/
structure SelectsSubtree (path : Path) (db : Database) : Prop where
  files : ∀ row ∈ db.files.rows, row.isDeleted = false →
    likeUnder db.dialect path row.path = true → Below path row.path
  directories : ∀ row ∈ db.directories.rows, row.isDeleted = false →
    likeUnder db.dialect path row.path = true → Below path row.path
  noFile : ∀ row ∈ db.files.rows, row.isDeleted = false → row.path ≠ path

section Whole

variable {world : World} {db after : Database} {dm : DirectoryManager} {ctx : Context} {path : Path}
  {rounds : Nat} {own : DirectoryMetadata}

theorem DeleteEnded.subtree (hnormal : normalizePath path = path)
    (hown : db.liveDirectory path = some own) (hselects : SelectsSubtree path db)
    (h : DeleteEnded path db rounds (some (.ok ())) after) : SubtreeDeleted path db after := by
  obtain ⟨hfiles, hdirectories⟩ := h.marked hnormal hown
  obtain ⟨hat, hlive⟩ := Option.filter_eq_some_iff.mp hown
  obtain ⟨hrow, hpath⟩ := atPath_eq_some.mp hat
  constructor
  · refine (forall₂_mem hfiles).imp ?_
    rintro row kept ⟨hmem, -, hmarked⟩
    rw [fileMarked_eq]
    refine hmarked.congr ?_
    rw [selectsFile_eq_true]
    constructor
    · rintro ⟨hlike, halive⟩
      exact ⟨halive, .inr (hselects.files row hmem halive hlike)⟩
    · rintro ⟨halive, hself | ⟨rest, hbelow⟩⟩
      · exact absurd hself (hselects.noFile row hmem halive)
      · exact ⟨by rw [hbelow]; exact likeUnder_self _ _ _, halive⟩
  · refine (forall₂_mem hdirectories).imp ?_
    rintro row kept ⟨hmem, -, hmarked⟩
    rw [directoryMarked_eq]
    refine hmarked.congr ?_
    rw [selectsDirectory_eq_true]
    constructor
    · rintro (⟨hlike, halive⟩ | rfl)
      · exact ⟨halive, .inr (hselects.directories row hmem halive hlike)⟩
      · exact ⟨by simpa using hlive, .inl hpath⟩
    · rintro ⟨halive, hself | ⟨rest, hbelow⟩⟩
      · exact .inr (db.directories.eq_of_path_eq hmem hrow (hself.trans hpath.symm))
      · exact .inl ⟨by rw [hbelow]; exact likeUnder_self _ _ _, halive⟩

theorem SubtreeDeleted.selects (hnormal : normalizePath path = path)
    (hown : db.liveDirectory path = some own) (hdeleted : SubtreeDeleted path db after)
    (h : DeleteEnded path db rounds (some (.ok ())) after) : SelectsSubtree path db := by
  obtain ⟨hfiles, hdirectories⟩ := h.marked hnormal hown
  obtain ⟨hfilesBelow, hdirectoriesBelow⟩ := hdeleted
  rw [fileMarked_eq] at hfilesBelow
  rw [directoryMarked_eq] at hdirectoriesBelow
  have hnotSelf : ∀ other, likeUnder db.dialect path other = true → other ≠ path := by
    rintro other hlike rfl
    rw [not_likeUnder_self hnormal] at hlike
    cases hlike
  constructor
  · intro row hrow hlive hlike
    obtain ⟨kept, -, hmarked, hsubtree⟩ :=
      exists_of_forall₂ (forall₂_both hfiles hfilesBelow) hrow
    have hselect := selectsFile_eq_true.mpr ⟨hlike, hlive⟩
    exact (hmarked.of_both hsubtree (markFile_ne hlive) hselect).2.resolve_left (hnotSelf _ hlike)
  · intro row hrow hlive hlike
    obtain ⟨kept, -, hmarked, hsubtree⟩ :=
      exists_of_forall₂ (forall₂_both hdirectories hdirectoriesBelow) hrow
    have hselect := selectsDirectory_eq_true.mpr ⟨hlike, hlive⟩
    exact (hmarked.of_both hsubtree (markDirectory_ne hlive) (.inl hselect)).2.resolve_left (hnotSelf _ hlike)
  · intro row hrow hlive hself
    obtain ⟨kept, -, hmarked, hsubtree⟩ :=
      exists_of_forall₂ (forall₂_both hfiles hfilesBelow) hrow
    have hselect := hsubtree.of_both hmarked (markFile_ne hlive) ⟨hlive, .inl hself⟩
    exact hnotSelf _ (selectsFile_eq_true.mp hselect).1 hself

/-- A delete that leaves whole batches marked can be made again. -/
theorem interrupted_of_batches (hnormal : normalizePath path = path)
    (hown : world.db.liveDirectory path = some own)
    (hfree : world.locks (.directory path) = none) (hselects : SelectsSubtree path world.db)
    {final : World} (hlocks : final.locks = world.locks)
    (h : Batches path world.db final.db) : Interrupted dm path world (.idle final) where
  closed := rfl
  batches := h
  files := by
    refine (forall₂_mem h.thinned.files).imp ?_
    rintro row kept ⟨hmem, -, rfl | ⟨hselect, -⟩⟩
    · exact .inl rfl
    · rw [selectsFile_eq_true] at hselect
      exact .inr (hselects.files row hmem hselect.2 hselect.1)
  directories := by
    refine (forall₂_mem h.thinned.directories).imp ?_
    rintro row kept ⟨hmem, -, rfl | ⟨hselect, -⟩⟩
    · exact .inl rfl
    · rw [selectsDirectory_eq_true] at hselect
      exact .inr (hselects.directories row hmem hselect.2 hselect.1)
  own := (h.own hnormal hown).trans hown.symm
  retry := by
    intro ctx
    refine ⟨final.db.files.rows.length + final.db.directories.rows.length + 1,
      fun rounds hrounds => ?_⟩
    rw [← hlocks] at hfree
    have hagain : (dm.deleteDirectory ctx path true rounds).Total calm _ final :=
      total_deleteDirectory hnormal (h.own hnormal hown) hfree (by omega) (by omega)
    refine Total.mono _ (inStatements_total hagain) ?_
    rintro result last ⟨_, -, hresult, -⟩
    exact hresult

/-- **A recursive delete is exact just if its queries select the subtree.** -/
theorem deleteDirectory_exact_iff (hnormal : normalizePath path = path)
    (hown : world.db.liveDirectory path = some own)
    (hfree : world.locks (.directory path) = none) :
    DeletesExactly dm path world ↔ SelectsSubtree path world.db := by
  have hreturns : ∀ (ctx : Context) (rounds : Nat),
      world.db.files.rows.length + world.db.directories.rows.length < rounds →
      (Transaction.inStatements (dm.deleteDirectory ctx path true rounds)).Total Connection.calm
        (fun result final => result = some (.ok ()) ∧
          DeleteEnded path world.db rounds (some (.ok ())) final.world.db) (.idle world) := by
    intro ctx rounds hrounds
    have htotal : (dm.deleteDirectory ctx path true rounds).Total calm _ world :=
      total_deleteDirectory hnormal hown hfree (by omega) (by omega)
    refine Total.mono _ (inStatements_total htotal) ?_
    rintro result last ⟨final, rfl, rfl, hended⟩
    exact ⟨rfl, hended⟩
  constructor
  · intro hdeletes
    obtain ⟨bound, hbound⟩ := hdeletes.terminates (.sample 0 "")
    have hboth := (hreturns (.sample 0 "") (max bound
      (world.db.files.rows.length + world.db.directories.rows.length + 1)) (by omega)).and_ensures _
        (hbound _ (le_max_left _ _)).ensures
    obtain ⟨result, final, -, ⟨-, hended⟩, -, hdeleted⟩ := (hboth.returns _ .textual).runs
    exact hdeleted.selects hnormal hown hended
  · intro hselects
    refine ⟨fun ctx => ⟨_, fun rounds hrounds => Total.mono _ (hreturns ctx rounds hrounds) ?_⟩,
      fun ctx rounds final hruns => ?_, fun ctx rounds result final hruns => ?_⟩
    · rintro result final ⟨hresult, hended⟩
      exact ⟨hresult, hended.subtree hnormal hown hselects⟩
    · obtain ⟨after, rfl, hended, -⟩ :=
        inStatements_of_runs (amid_deleteDirectory hnormal rounds) hruns
      exact ⟨rfl, hended.subtree hnormal hown hselects⟩
    · have hended : (dm.deleteDirectory ctx path true rounds).Amid true _ world :=
        amid_deleteDirectory hnormal rounds
      have hfaulty := EnsuresFaulty.and (faulty_deleteDirectory rounds world) hended.faulty
      obtain ⟨after, rfl, ⟨cause, rfl⟩, hended, hlocks⟩ := inStatements_of_runsFaulty hfaulty hruns
      cases hended with
      | interrupted hbatches =>
        exact ⟨cause, rfl, interrupted_of_batches hnormal hown hfree hselects hlocks hbatches⟩

/-- A directory with a file in it. -/
theorem deleteDirectory_exact_onlyFile : ∃ (world : World) (own : DirectoryMetadata),
    world.db.liveDirectory ['a'] = some own ∧ (world.db.liveFile ['a', '/', 'f']).isSome = true ∧
      DeletesExactly ⟨true, true⟩ ['a'] world := by
  obtain ⟨made, world, metadata, own, -, -, hdialect, hrows, hown, hfree, hfile⟩ :
      ∃ made world metadata own,
      (createDirectory ⟨true, true⟩ (.sample 1 "d") ['a']).run handle .textual
        (initial .postgresql [['r']]) = some (.ok (), made) ∧
      (FileManager.uploadFile (fun _ => "") (.sample 2 "f") ['a', '/', 'f'] [97]).run handle .textual
        made = some (.ok metadata, world) ∧
      world.db.dialect = .postgresql ∧
      (∀ row ∈ world.db.files.rows, row.path = ['a', '/', 'f']) ∧
      world.db.liveDirectory ['a'] = some own ∧ world.locks (.directory ['a']) = none ∧
      (world.db.liveFile ['a', '/', 'f']).isSome = true :=
    ⟨_, _, _, _, rfl, rfl, rfl, List.forall_mem_singleton.mpr rfl, rfl, rfl, rfl⟩
  have hlike : world.db.dialect.MatchesExactly := hdialect ▸ matchesExactly_postgresql
  have hselects : SelectsSubtree ['a'] world.db := by
    refine ⟨fun row _ _ h => (likeUnder_eq_true hlike).mp h,
      fun row _ _ h => (likeUnder_eq_true hlike).mp h, fun row hrow _ hpath => ?_⟩
    rw [hrows row hrow] at hpath
    cases hpath
  exact ⟨world, own, hown, hfile, (deleteDirectory_exact_iff rfl hown hfree).mpr hselects⟩

/-- A live file with the path of the directory stays live. -/
theorem recursiveDelete_leaves_file :
    ∃ (uploaded world : World) (metadata row : FileMetadata) (final : Connection),
    Runs handle (FileManager.uploadFile (fun _ => "") (.sample 1 "f") ['a'] [97])
        (initial .postgresql [['r']]) (.ok metadata) uploaded ∧
      Runs handle (createDirectory ⟨true, true⟩ (.sample 2 "d") ['a']) uploaded
        (.ok ()) world ∧
      Runs Connection.handle (Transaction.inStatements (deleteDirectory ⟨true, true⟩
        (.sample 3 "") ['a'] true 2)) (.idle world) (some (.ok ())) final ∧
      world.db.files.rows = [row] ∧ row.path = ['a'] ∧ row.isDeleted = false ∧
      final.world.db.files.rows = [row] ∧ ¬ DeletesExactly ⟨true, true⟩ ['a'] world := by
  obtain ⟨uploaded, world, metadata, row, final, huploaded, hworld, hfinal, hrow, hpath, hlive,
      hkept⟩ : ∃ uploaded world metadata row final,
      (FileManager.uploadFile (fun _ => "") (.sample 1 "f") ['a'] [97]).run handle .textual
        (initial .postgresql [['r']]) = some (.ok metadata, uploaded) ∧
      (createDirectory ⟨true, true⟩ (.sample 2 "d") ['a']).run handle .textual uploaded
        = some (.ok (), world) ∧
      (Transaction.inStatements (deleteDirectory ⟨true, true⟩ (.sample 3 "") ['a']
        true 2)).run Connection.handle .textual (.idle world) = some (some (.ok ()), final) ∧
      world.db.files.rows = [row] ∧ row.path = ['a'] ∧ row.isDeleted = false ∧
      final.world.db.files.rows = [row] :=
    ⟨_, _, _, _, _, rfl, rfl, rfl, rfl, rfl, rfl, rfl⟩
  refine ⟨uploaded, world, metadata, row, final, runs_of_run _ huploaded, runs_of_run _ hworld,
    runs_of_run _ hfinal, hrow, hpath, hlive, hkept, fun hdeletes => ?_⟩
  obtain ⟨-, hdeleted⟩ := hdeletes.exact _ _ _ (runs_of_run _ hfinal).amid
  have hfiles := hdeleted.files
  rw [hrow, hkept, List.forall₂_cons] at hfiles
  obtain ⟨now, hmarked⟩ := hfiles.1.1 ⟨hlive, .inl hpath⟩
  rw [hmarked] at hlive
  cases hlive

end Whole

end FsServer
