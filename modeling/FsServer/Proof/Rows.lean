import FsServer.Proof.Paths

/-!
# What a statement does to the rows

The `files` table read through its paths. Every statement of the file manager answers a question about
the row of one path, or replaces the row of one path, or moves a row to another path; when it fails on
a key it changes nothing.
-/

namespace FsServer

open Lib Table

namespace Database

variable {db after : Database} {env : Env}

def liveFile (db : Database) (path : Path) : Option FileMetadata :=
  (db.files.atPath path).filter fun row => !row.isDeleted

theorem liveFile_eq_some {path : Path} {row : FileMetadata} :
    db.liveFile path = some row ↔ db.files.atPath path = some row ∧ row.isDeleted = false := by
  simp [liveFile, Option.filter_eq_some_iff]

theorem liveFile_eq_none {path : Path} :
    db.liveFile path = none ↔ ∀ row, db.files.atPath path = some row → row.isDeleted = true := by
  simp [liveFile, Option.filter_eq_none_iff]

theorem path_of_liveFile {path : Path} {row : FileMetadata} (h : db.liveFile path = some row) :
    row.path = path := path_of_atPath (liveFile_eq_some.mp h).1

theorem exec_fileByPath (path : Path) :
    db.exec env (.fileByPath path) = (.ok (db.liveFile path), db) := by
  simp only [exec, liveFile]
  rw [selectOne_path]

theorem exec_fileExists (path : Path) :
    db.exec env (.fileExists path) = (.ok (db.liveFile path).isSome, db) := by
  have hfind : ((db.files.select fun row => decide (row.path = path) && !row.isDeleted).isEmpty.not)
      = (db.files.selectOne fun row => decide (row.path = path) && !row.isDeleted).isSome := by
    rw [select, selectOne, Bool.eq_iff_iff, List.find?_isSome]
    simp
  simp only [exec, liveFile, hfind]
  rw [selectOne_path]

theorem exec_deletedFileId (path : Path) :
    db.exec env (.deletedFileId path)
      = (.ok (((db.files.atPath path).filter fun row => row.isDeleted).map FileMetadata.id), db) := by
  simp only [exec]
  rw [selectOne_path]

def liveDirectory (db : Database) (path : Path) : Option DirectoryMetadata :=
  (db.directories.atPath path).filter fun row => !row.isDeleted

theorem exec_directoryByPath (path : Path) :
    db.exec env (.directoryByPath path) = (.ok (db.liveDirectory path), db) := by
  simp only [exec, liveDirectory]
  rw [selectOne_path]

theorem exec_deletedDirectoryId (path : Path) :
    db.exec env (.deletedDirectoryId path)
      = (.ok (((db.directories.atPath path).filter fun row => row.isDeleted).map
          DirectoryMetadata.id), db) := by
  simp only [exec]
  rw [selectOne_path]

theorem exec_directoryExists (path : Path) :
    db.exec env (.directoryExists path) = (.ok (db.liveDirectory path).isSome, db) := by
  have hfind : ((db.directories.select fun row =>
      decide (row.path = path) && !row.isDeleted).isEmpty.not)
      = (db.directories.selectOne fun row => decide (row.path = path) && !row.isDeleted).isSome := by
    rw [select, selectOne, Bool.eq_iff_iff, List.find?_isSome]
    simp
  simp only [exec, liveDirectory, hfind]
  rw [selectOne_path]

/-! ### The rows under a directory -/

variable {R : Type} {rows : List R} {select : R → Bool} {toEntry : R → Entry}

theorem mem_scan {entry : Entry} : entry ∈ env.scan ((rows.filter select).map toEntry) ↔
      ∃ row ∈ rows, select row = true ∧ toEntry row = entry := by
  rw [(env.scan_perm _).mem_iff, List.mem_map]
  simp only [List.mem_filter, and_assoc]

theorem nodup_scan {K : Type} (key : Entry → K) (h : (rows.map (key ∘ toEntry)).Nodup) :
    ((env.scan ((rows.filter select).map toEntry)).map key).Nodup := by
  refine ((env.scan_perm _).map key).nodup_iff.mpr ?_
  rw [List.map_map]
  exact h.sublist (List.filter_sublist.map _)

variable {directory : Path} {found : List Entry}

theorem rows_filesUnder (h : (db.exec env (.filesUnder directory)).1 = .ok found) (entry : Entry) :
    entry ∈ found ↔ ∃ row ∈ db.files.rows, likeUnder db.dialect directory row.path = true ∧
      row.isDeleted = false ∧ row.entry = entry := by
  cases h
  refine mem_scan.trans (exists_congr fun row => and_congr_right fun _ => ?_)
  rw [Bool.and_eq_true, Bool.not_eq_true', and_assoc]

theorem rows_directoriesUnder (h : (db.exec env (.directoriesUnder directory)).1 = .ok found)
    (entry : Entry) :
    entry ∈ found ↔ ∃ row ∈ db.directories.rows, likeUnder db.dialect directory row.path = true ∧
      row.isDeleted = false ∧ row.entry = entry := by
  cases h
  refine mem_scan.trans (exists_congr fun row => and_congr_right fun _ => ?_)
  rw [Bool.and_eq_true, Bool.not_eq_true', and_assoc]

theorem nodup_filesUnder (h : (db.exec env (.filesUnder directory)).1 = .ok found) :
    (found.map Entry.id).Nodup ∧ (found.map Entry.path).Nodup := by
  cases h
  exact ⟨nodup_scan Entry.id db.files.nodup_id, nodup_scan Entry.path db.files.nodup_path⟩

theorem nodup_directoriesUnder (h : (db.exec env (.directoriesUnder directory)).1 = .ok found) :
    (found.map Entry.id).Nodup := by
  cases h
  exact nodup_scan Entry.id db.directories.nodup_id

/-! ### Changes to one row -/

/-- The row of one path is replaced and nothing else changes. -/
structure Puts (db after : Database) (path : Path) (row : FileMetadata) : Prop where
  dialect : after.dialect = db.dialect
  directories : after.directories = db.directories
  rows : ∀ key, after.files.atPath key = if key = path then some row else db.files.atPath key

theorem Puts.liveFile {path : Path} {row : FileMetadata} (h : Puts db after path row) (key : Path) :
    after.liveFile key =
      if key = path then (some row).filter fun row => !row.isDeleted else db.liveFile key := by
  rw [Database.liveFile, h.rows]
  split_ifs <;> rfl

/-- The statement succeeds with the given change, or fails on a key and changes nothing. -/
def Attempts (outcome : Except SqlError Unit × Database) (db : Database)
    (changed : Database → Prop) : Prop :=
  (∃ after, outcome = (.ok (), after) ∧ changed after) ∨
    ∃ violation, outcome = (.error (.constraint violation), db)

theorem attempts_onFiles {result : Except Violation (Table FileMetadata.id FileMetadata.path)}
    {changed : Database → Prop}
    (h : ∀ files, result = .ok files → changed { db with files := files }) :
    Attempts (db.onFiles result) db changed := by
  cases result with
  | ok files => exact .inl ⟨_, rfl, h files rfl⟩
  | error violation => exact .inr ⟨violation, rfl⟩

theorem insertFile_attempts (row : FileMetadata) :
    Attempts (db.exec env (.insertFile row)) db fun after => Puts db after row.path row :=
  attempts_onFiles fun _ h => ⟨rfl, rfl, insert_ok h⟩

theorem insertFile_ok {row : FileMetadata} (hid : ∀ other ∈ db.files.rows, other.id ≠ row.id)
    (hpath : db.files.atPath row.path = none) :
    ∃ after, db.exec env (.insertFile row) = (.ok (), after) ∧ Puts db after row.path row := by
  obtain ⟨files, hfiles⟩ := insert_eq_ok hid hpath
  refine ⟨{ db with files := files }, ?_, rfl, rfl, insert_ok hfiles⟩
  simp only [exec, hfiles, onFiles]

variable {path : Path} {old row : FileMetadata}

theorem select_path (hold : db.files.atPath path = some old) :
    ∀ other ∈ db.files.rows, decide (other.path = path) = true ↔ other = old := by
  obtain ⟨hmem, rfl⟩ := atPath_eq_some.mp hold
  intro other hother
  rw [decide_eq_true_eq]
  exact ⟨fun h => db.files.eq_of_path_eq hother hmem h, fun h => h ▸ rfl⟩

theorem select_id (hmem : old ∈ db.files.rows) :
    ∀ other ∈ db.files.rows, decide (other.id = old.id) = true ↔ other = old := by
  intro other hother
  rw [decide_eq_true_eq]
  exact ⟨fun h => db.files.eq_of_id_eq hother hmem h, fun h => h ▸ rfl⟩

variable {change : FileMetadata → FileMetadata}

theorem puts_of_update {select : FileMetadata → Bool} (hold : db.files.atPath path = some old)
    (hselect : ∀ other ∈ db.files.rows, select other = true ↔ other = old)
    (hpath : (change old).path = path) {files : Table FileMetadata.id FileMetadata.path}
    (h : db.files.update select change = .ok files) :
    Puts db { db with files := files } path (change old) := by
  obtain ⟨hmem, hsame⟩ := atPath_eq_some.mp hold
  refine ⟨rfl, rfl, fun key => ?_⟩
  rw [update_ok hmem hselect h, hpath, hsame]
  split_ifs <;> rfl

theorem update_in_place {select : FileMetadata → Bool} (hold : db.files.atPath path = some old)
    (hselect : ∀ other ∈ db.files.rows, select other = true ↔ other = old)
    (hpath : (change old).path = path) (hid : (change old).id = old.id) :
    ∃ after, db.onFiles (db.files.update select change) = (.ok (), after) ∧
      Puts db after path (change old) := by
  obtain ⟨hmem, hsame⟩ := atPath_eq_some.mp hold
  obtain ⟨files, hfiles⟩ : ∃ files, db.files.update select change = .ok files := by
    refine update_eq_ok hselect (fun other hother hne => ?_) fun other hother hne => ?_
    · rw [hid]
      exact fun heq => hne (db.files.eq_of_id_eq hother hmem heq)
    · rw [hpath, ← hsame]
      exact fun heq => hne (db.files.eq_of_path_eq hother hmem heq)
  refine ⟨{ db with files := files }, ?_, puts_of_update hold hselect hpath hfiles⟩
  rw [hfiles]
  rfl

theorem restoreFile_attempts (hold : db.files.atPath row.path = some old)
    (hlive : row.isDeleted = false) :
    Attempts (db.exec env (.restoreFile row)) db fun after => Puts db after row.path row := by
  obtain ⟨hmem, hpath⟩ := atPath_eq_some.mp hold
  refine attempts_onFiles fun files h => ?_
  have hrow : ({ old with
      id := row.id, name := row.name, size := row.size, hash := row.hash,
      storageType := row.storageType, storageLocation := row.storageLocation,
      createdAt := row.createdAt, updatedAt := row.updatedAt, isDeleted := false }
      : FileMetadata) = row := by
    rw [hpath, ← hlive]
  have hputs := puts_of_update hold (select_path hold) hpath h
  rw [hrow] at hputs
  exact hputs

def updated (row old : FileMetadata) : FileMetadata :=
  { old with
    path := row.path, name := row.name, size := row.size, hash := row.hash,
    storageType := row.storageType, storageLocation := row.storageLocation,
    updatedAt := row.updatedAt, isDeleted := row.isDeleted }

theorem exec_updateFile (row : FileMetadata) :
    db.exec env (.updateFile row)
      = db.onFiles (db.files.update (fun other => other.id = row.id) (updated row)) := rfl

theorem updated_eq (hid : row.id = old.id) (hcreated : row.createdAt = old.createdAt) :
    updated row old = row := by
  rw [updated, ← hid, ← hcreated]

theorem updateFile_in_place (hold : db.files.atPath row.path = some old) (hid : row.id = old.id)
    (hcreated : row.createdAt = old.createdAt) :
    ∃ after, db.exec env (.updateFile row) = (.ok (), after) ∧ Puts db after row.path row := by
  obtain ⟨hmem, -⟩ := atPath_eq_some.mp hold
  have hrow := updated_eq hid hcreated
  obtain ⟨after, hafter, hputs⟩ := update_in_place hold (select_id hmem)
    (congrArg FileMetadata.path hrow) ((congrArg FileMetadata.id hrow).trans hid)
  rw [hrow] at hputs
  rw [exec_updateFile, hid]
  exact ⟨after, hafter, hputs⟩

theorem removeFile_in_place (hold : db.files.atPath path = some old) (now : String) :
    ∃ after, db.exec env (.removeFile old.id now) = (.ok (), after) ∧
      Puts db after path { old with isDeleted := true, updatedAt := now } := by
  obtain ⟨hmem, hpath⟩ := atPath_eq_some.mp hold
  exact update_in_place hold (select_id hmem) hpath rfl

/-- A row goes from one path to another, which no row has. -/
structure Moves (db after : Database) (source : Path) (row : FileMetadata) : Prop where
  dialect : after.dialect = db.dialect
  directories : after.directories = db.directories
  rows : ∀ key, after.files.atPath key =
    if key = row.path then some row else if key = source then none else db.files.atPath key

theorem Moves.liveFile {source : Path} (h : Moves db after source row) (key : Path) :
    after.liveFile key =
      if key = row.path then (some row).filter fun row => !row.isDeleted
      else if key = source then none else db.liveFile key := by
  rw [Database.liveFile, h.rows]
  split_ifs <;> rfl

theorem updateFile_move (hold : db.files.atPath path = some old) (hid : row.id = old.id)
    (hcreated : row.createdAt = old.createdAt) (hne : row.path ≠ path) :
    (db.files.atPath row.path = none ∧
        ∃ after, db.exec env (.updateFile row) = (.ok (), after) ∧ Moves db after path row) ∨
      (db.files.atPath row.path ≠ none ∧
        ∃ violation, db.exec env (.updateFile row) = (.error (.constraint violation), db)) := by
  obtain ⟨hmem, hpath⟩ := atPath_eq_some.mp hold
  have hrow := updated_eq hid hcreated
  have hselect := select_id hmem
  rw [← hid] at hselect
  rw [exec_updateFile]
  by_cases hfree : db.files.atPath row.path = none
  · left
    obtain ⟨files, hfiles⟩ : ∃ files, db.files.update (fun other => decide (other.id = row.id))
        (updated row) = .ok files := by
      refine update_eq_ok hselect (fun other hother hdistinct => ?_) fun other hother _ => ?_
      · rw [hrow, hid]
        exact fun heq => hdistinct (db.files.eq_of_id_eq hother hmem heq)
      · rw [hrow]
        exact atPath_eq_none.mp hfree other hother
    refine ⟨hfree, { db with files := files }, by rw [hfiles]; rfl, rfl, rfl, fun key => ?_⟩
    rw [update_ok hmem hselect hfiles, hrow, hpath]
  · right
    obtain ⟨other, hother⟩ := Option.ne_none_iff_exists'.mp hfree
    obtain ⟨hmem', hpath'⟩ := atPath_eq_some.mp hother
    have hdistinct : other ≠ old := by
      rintro rfl
      exact hne (hpath'.symm.trans hpath)
    have hsame : other.path = (updated row old).path := hpath'
    obtain ⟨violation, hviolation⟩ := update_conflict hmem hselect hmem' hdistinct hsame
    exact ⟨hfree, violation, by rw [hviolation]; rfl⟩

end Database

end FsServer
