import FsServer.Proof.Transaction
import FsServer.Proof.Like
import FsServer.Proof.Rows

/-!
# The rows of a renamed directory

`RenameDirectory` reads the rows under the directory, and rewrites them and the directory's own row in
one transaction. With a `LIKE` that does not take one character for another the rows it reads are the
live ones whose path goes on below the directory, so exactly these are rewritten, or none if anything
fails. The directory's own row is not among them, since no path is below itself.
-/

namespace FsServer

open Lib Program World GoPath DirectoryManager Database

theorem likeUnder_eq_true {dialect : Dialect} (h : dialect.MatchesExactly) {directory path : Path} :
    likeUnder dialect directory path = true ↔ ∃ rest, path = directory ++ '/' :: rest := by
  rw [likeUnder_iff, same_eq h]
  constructor
  · rintro ⟨head, rest, rfl, rfl⟩
    exact ⟨rest, by rw [List.append_assoc, List.singleton_append]⟩
  · rintro ⟨rest, rfl⟩
    exact ⟨_, rest, List.append_cons _ _ _, rfl⟩

/-! ### What becomes of the rows -/

/-- A live row below the directory has its path continued from the new one; no other row changes. -/
inductive FileMoved (oldPath newPath : Path) : FileMetadata → FileMetadata → Prop
  | below {row : FileMetadata} {rest : Path} {now : String} (hlive : row.isDeleted = false)
      (hpath : row.path = oldPath ++ '/' :: rest) :
      FileMoved oldPath newPath row
        { row with
          path := newPath ++ '/' :: rest
          name := getFileName (newPath ++ '/' :: rest)
          updatedAt := now }
  | other {row : FileMetadata}
      (h : row.isDeleted = true ∨ ∀ rest, row.path ≠ oldPath ++ '/' :: rest) :
      FileMoved oldPath newPath row row

inductive DirectoryMoved (own : DirectoryMetadata) (oldPath newPath newName : Path) :
    DirectoryMetadata → DirectoryMetadata → Prop
  | below {row : DirectoryMetadata} {rest : Path} {now : String} (hlive : row.isDeleted = false)
      (hpath : row.path = oldPath ++ '/' :: rest) :
      DirectoryMoved own oldPath newPath newName row
        { row with
          path := newPath ++ '/' :: rest
          name := getFileName (newPath ++ '/' :: rest)
          updatedAt := now }
  | self {now : String} :
      DirectoryMoved own oldPath newPath newName own
        { own with path := newPath, name := newName, updatedAt := now }
  | other {row : DirectoryMetadata} (hother : row ≠ own)
      (h : row.isDeleted = true ∨ ∀ rest, row.path ≠ oldPath ++ '/' :: rest) :
      DirectoryMoved own oldPath newPath newName row row

/-- The tables after a rename that was carried out. The directory's own row is the one its path is
looked up as, which for the root is `.`. -/
structure SubtreeMoved (db after : Database) (oldPath newPath newName : Path) : Prop where
  unique : (after.files.rows.map FileMetadata.path).Nodup ∧
    (after.directories.rows.map DirectoryMetadata.path).Nodup
  files : List.Forall₂ (FileMoved oldPath newPath) db.files.rows after.files.rows
  directories : ∃ own, db.liveDirectory (normalizePath oldPath) = some own ∧
    List.Forall₂ (DirectoryMoved own oldPath newPath newName) db.directories.rows
      after.directories.rows

/-! ### The rows a query finds, in either table -/

section FoundUnder

variable {R : Type} {key : R → String} {place : R → Path} {deleted : R → Bool}
  {table after : Table key place} {dialect : Dialect} {directory : Path} {found : List Entry}

/-- The entries of the live rows under the directory, each of them once. -/
structure FoundUnder (dialect : Dialect) (directory : Path) (table : Table key place)
    (deleted : R → Bool) (found : List Entry) : Prop where
  mem : ∀ entry, entry ∈ found ↔ ∃ row ∈ table.rows,
    likeUnder dialect directory (place row) = true ∧ deleted row = false ∧
      Entry.mk (key row) (place row) = entry
  nodup : (found.map Entry.id).Nodup

theorem foundUnder_files {db : Database} {env : Env}
    (h : (db.exec env (.filesUnder directory)).1 = .ok found) :
    FoundUnder db.dialect directory db.files FileMetadata.isDeleted found :=
  ⟨rows_filesUnder h, (nodup_filesUnder h).1⟩

theorem foundUnder_directories {db : Database} {env : Env}
    (h : (db.exec env (.directoriesUnder directory)).1 = .ok found) :
    FoundUnder db.dialect directory db.directories DirectoryMetadata.isDeleted found :=
  ⟨rows_directoriesUnder h, nodup_directoriesUnder h⟩

variable {newPath : Path} {now : String} {set : R → PathUpdate → R} {last : List PathUpdate}

/-- The rows found are moved and those that the last updates name are changed by them; no other row
changes. -/
theorem FoundUnder.moved (h : FoundUnder dialect directory table deleted found)
    (hlike : dialect.MatchesExactly)
    (hset : ∀ row change, key (set row change) = key row)
    (hlast : ∀ change ∈ last, ∀ row ∈ table.rows, key row = change.id →
      likeUnder dialect directory (place row) = false)
    (hnodup : (last.map PathUpdate.id).Nodup)
    (hmoved : (found.map (moveEntry directory newPath now) ++ last).foldlM (fun table change =>
      Table.update table (fun row => key row = change.id) fun row => set row change) table
        = .ok after) :
    List.Forall₂ (fun row changed =>
      (∃ rest, deleted row = false ∧ place row = directory ++ '/' :: rest ∧ changed = set row
        ⟨key row, newPath ++ '/' :: rest, getFileName (newPath ++ '/' :: rest), now⟩) ∨
      (∃ change ∈ last, key row = change.id ∧ changed = set row change) ∨
      (∀ change ∈ last, key row ≠ change.id) ∧
        (deleted row = true ∨ ∀ rest, place row ≠ directory ++ '/' :: rest) ∧ changed = row)
      table.rows after.rows := by
  have hids : ((found.map (moveEntry directory newPath now) ++ last).map PathUpdate.id).Nodup := by
    rw [List.map_append, List.map_map]
    refine h.nodup.append hnodup fun id hfound hother => ?_
    obtain ⟨entry, hentry, rfl⟩ := List.mem_map.mp hfound
    obtain ⟨change, hchange, hid⟩ := List.mem_map.mp hother
    obtain ⟨row, hrow, hselect, -, rfl⟩ := (h.mem entry).mp hentry
    rw [hlast change hchange row hrow hid.symm] at hselect
    cases hselect
  refine (Table.foldlM_keyed hset hids hmoved).imp ?_
  rintro row changed ⟨hrow, ⟨change, hchange, hid, rfl⟩ | ⟨hne, hsame⟩⟩
  · rcases List.mem_append.mp hchange with hbelow | hchange
    · obtain ⟨entry, hentry, rfl⟩ := List.mem_map.mp hbelow
      obtain ⟨other, hother, hselect, hlive, rfl⟩ := (h.mem entry).mp hentry
      obtain rfl := table.eq_of_id_eq hrow hother hid
      obtain ⟨rest, hpath⟩ := (likeUnder_eq_true hlike).mp hselect
      refine .inl ⟨rest, hlive, hpath, ?_⟩
      rw [moveEntry, hpath, movedPath, List.drop_left]
    · exact .inr (.inl ⟨change, hchange, hid, rfl⟩)
  · refine .inr (.inr ⟨fun change hchange => hne change (List.mem_append_right _ hchange),
      or_iff_not_imp_left.mpr fun hlive rest hpath => ?_, hsame⟩)
    have hmem := (h.mem _).mpr ⟨row, hrow, (likeUnder_eq_true hlike).mpr ⟨rest, hpath⟩,
      by simpa using hlive, rfl⟩
    exact hne _ (List.mem_append_left _ (List.mem_map_of_mem hmem)) rfl

end FoundUnder

section Moved

variable {db : Database} {env : Env} {oldPath newPath newName : Path} {now : String}

variable {found : List Entry}

theorem files_moved (hlike : db.dialect.MatchesExactly)
    (hfound : (db.exec env (.filesUnder oldPath)).1 = .ok found)
    {files : Table FileMetadata.id FileMetadata.path}
    (h : (found.map (moveEntry oldPath newPath now)).foldlM (fun table change =>
      Table.update table (fun row => row.id = change.id) fun row => row.setPath change) db.files
        = .ok files) :
    List.Forall₂ (FileMoved oldPath newPath) db.files.rows files.rows := by
  have hset : ∀ (row : FileMetadata) (change : PathUpdate), (row.setPath change).id = row.id :=
    fun _ _ => rfl
  have hnone : ∀ change ∈ ([] : List PathUpdate), ∀ row ∈ db.files.rows, row.id = change.id →
      likeUnder db.dialect oldPath row.path = false := by simp
  rw [← List.append_nil (found.map _)] at h
  refine ((foundUnder_files hfound).moved hlike hset hnone List.nodup_nil h).imp ?_
  rintro row changed (⟨rest, hlive, hpath, rfl⟩ | ⟨change, hmem, -⟩ | ⟨-, hother, rfl⟩)
  · exact .below hlive hpath
  · cases hmem
  · exact .other hother

/-- No path is selected as below itself, however the root is written. -/
theorem not_likeUnder_normalizePath (dialect : Dialect) (path : Path) :
    likeUnder dialect (normalizePath path) (normalizePath (normalizePath path)) = false := by
  rw [Bool.eq_false_iff]
  intro hlike
  obtain ⟨above, rest, hpath, hlength⟩ := slash_of_likeUnder hlike
  by_cases hroot : normalizePath path = []
  · rw [hroot] at hpath hlength
    have hdot : normalizePath [] = ['.'] := rfl
    rw [hdot, List.length_eq_zero_iff.mp hlength] at hpath
    simp at hpath
  · rw [normalizePath_normalizePath hroot] at hpath
    have := congrArg List.length hpath
    rw [List.length_append, List.length_cons] at this
    omega

variable {own : DirectoryMetadata}

theorem directories_moved (hlike : db.dialect.MatchesExactly) (hown : own ∈ db.directories.rows)
    (hself : likeUnder db.dialect oldPath own.path = false)
    (hfound : (db.exec env (.directoriesUnder oldPath)).1 = .ok found)
    {directories : Table DirectoryMetadata.id DirectoryMetadata.path}
    (h : (found.map (moveEntry oldPath newPath now)
        ++ [PathUpdate.mk own.id newPath newName now]).foldlM (fun table change =>
      Table.update table (fun row => row.id = change.id) fun row => row.setPath change)
        db.directories = .ok directories) :
    List.Forall₂ (DirectoryMoved own oldPath newPath newName) db.directories.rows
      directories.rows := by
  have hlast : ∀ change ∈ [PathUpdate.mk own.id newPath newName now], ∀ row ∈ db.directories.rows,
      row.id = change.id → likeUnder db.dialect oldPath row.path = false := by
    intro change hchange row hrow hid
    rw [List.mem_singleton.mp hchange] at hid
    rw [db.directories.eq_of_id_eq hrow hown hid, hself]
  have hset : ∀ (row : DirectoryMetadata) (change : PathUpdate), (row.setPath change).id = row.id :=
    fun _ _ => rfl
  refine (Table.forall₂_mem ((foundUnder_directories hfound).moved hlike hset hlast
    (List.nodup_singleton _) h)).imp ?_
  rintro row changed ⟨hrow, -, ⟨rest, hlive, hpath, rfl⟩ | ⟨change, hchange, hid, rfl⟩ |
    ⟨hne, hother, rfl⟩⟩
  · exact .below hlive hpath
  · obtain rfl := List.mem_singleton.mp hchange
    obtain rfl := db.directories.eq_of_id_eq hrow hown hid
    exact .self
  · refine .other ?_ hother
    rintro rfl
    exact hne _ (List.mem_singleton_self _) rfl

/-- The transaction of a rename, if it is carried out. -/
theorem subtreeMoved_of_renameAll (hlike : db.dialect.MatchesExactly)
    (hown : db.liveDirectory (normalizePath oldPath) = some own)
    (hself : likeUnder db.dialect oldPath (normalizePath oldPath) = false) {env' : Env}
    {files directories : List Entry} {after : Database}
    (hfiles : (db.exec env (.filesUnder oldPath)).1 = .ok files)
    (hdirectories : (db.exec env' (.directoriesUnder oldPath)).1 = .ok directories)
    (h : db.renameAll (files.map (moveEntry oldPath newPath now))
      (directories.map (moveEntry oldPath newPath now)
        ++ [PathUpdate.mk own.id newPath newName now]) = .ok after) :
    SubtreeMoved db after oldPath newPath newName := by
  obtain ⟨hat, -⟩ := Option.filter_eq_some_iff.mp hown
  obtain ⟨hmem, hpath⟩ := Table.atPath_eq_some.mp hat
  rw [← hpath] at hself
  unfold renameAll at h
  cases hmoved : (files.map (moveEntry oldPath newPath now)).foldlM
      (fun table change => Table.update table (fun row => decide (row.id = change.id))
        fun row => row.setPath change) db.files with
  | error violation =>
    rw [hmoved] at h
    cases h
  | ok movedFiles =>
    rw [hmoved] at h
    cases hrenamed : (directories.map (moveEntry oldPath newPath now)
        ++ [PathUpdate.mk own.id newPath newName now]).foldlM (fun table change =>
          Table.update table (fun row => decide (row.id = change.id)) fun row => row.setPath change)
          db.directories with
    | error violation =>
      simp only [hrenamed] at h
      cases h
    | ok movedDirectories =>
      simp only [hrenamed] at h
      cases h
      exact ⟨⟨movedFiles.nodup_path, movedDirectories.nodup_path⟩,
        files_moved hlike hfiles hmoved, own, hown,
        directories_moved hlike hmem hself hdirectories hrenamed⟩

end Moved

/-! ### The rename -/

/-- The tables when a rename returns: the subtree has moved, or nothing has changed. -/
inductive RenameEnded (db : Database) (oldPath newPath newName : Path) :
    Except DirectoryError Unit → Database → Prop
  | moved {after : Database} (h : SubtreeMoved db after oldPath newPath newName) :
      RenameEnded db oldPath newPath newName (.ok ()) after
  | unchanged {cause : DirectoryError} : RenameEnded db oldPath newPath newName (.error cause) db

variable {world : World} {dm : DirectoryManager} {ctx : Context}

theorem amid_renameDirectoryBody (hlike : world.db.dialect.MatchesExactly) (oldPath newName : Path) :
    (dm.renameDirectoryBody ctx (normalizePath oldPath) newName).Amid false
      (fun result after => RenameEnded world.db (normalizePath oldPath)
        (FileManager.renamedPath (normalizePath oldPath) newName) newName result after.db) world := by
  unfold renameDirectoryBody getDirectoryMetadata
    DirectoryMetadataService.getByPath
  refine amid_sql .unchanged fun env => ?_
  rw [exec_directoryByPath, normalizePath_thrice]
  cases hown : world.db.liveDirectory (normalizePath (normalizePath oldPath)) with
  | none => exact .unchanged
  | some own =>
    refine amid_directoryExists fun found => ?_
    cases found with
    | true => exact .unchanged
    | false =>
      rw [if_neg Bool.false_ne_true]
      refine amid_filesUnder .unchanged fun env files hfiles => ?_
      refine amid_directoriesUnder .unchanged fun env' directories hdirectories => ?_
      refine amid_renameAll (fun cause => .unchanged) fun db hrename => ?_
      refine amid_attemptAll fun _ => amid_attempt fun _ => .moved ?_
      exact subtreeMoved_of_renameAll hlike hown (not_likeUnder_normalizePath _ _) hfiles
        hdirectories hrename

/-- **A rename rewrites the rows of the subtree, or nothing.** Whatever statements fail, and the
commit with them, no transaction stays open. -/
theorem renameDirectory_rows {oldPath newName : Path} {result : Except DirectoryError Unit}
    {final : Connection} (hlike : world.db.dialect.MatchesExactly)
    (hruns : (Transaction.inStatements (dm.renameDirectory ctx oldPath newName)).RunsAmid
      Connection.handle (Connection.Fails false) (.idle world) result final) :
    final.pending = none ∧
      RenameEnded world.db (normalizePath oldPath)
        (FileManager.renamedPath (normalizePath oldPath) newName) newName result final.world.db := by
  have hservice : (dm.renameDirectory ctx oldPath newName).Amid false
      (fun result after => RenameEnded world.db (normalizePath oldPath)
        (FileManager.renamedPath (normalizePath oldPath) newName) newName result after.db) world := by
    unfold renameDirectory withDirectoryLock
    cases dm.hasLock with
    | false => exact amid_renameDirectoryBody hlike oldPath newName
    | true =>
      refine EnsuresAmid.mono (amid_locked (onData_renameDirectoryBody dm ctx _ newName)
        (fun h => h) ⟨.unchanged, rfl⟩ fun locks => ?_) fun _ _ h => h.1
      have hlocked : ({ world with locks := locks } : World).db.dialect.MatchesExactly := hlike
      exact amid_renameDirectoryBody hlocked oldPath newName
  obtain ⟨after, rfl, hended⟩ := inStatements_of_runs hservice hruns
  exact ⟨rfl, hended⟩

/-- A directory with a file in it. -/
theorem renameDirectory_rows_onlyFile : ∃ (world : World) (final : Connection),
    final.pending = none ∧ RenameEnded world.db ['a'] ['b'] ['b'] (.ok ()) final.world.db := by
  obtain ⟨made, world, metadata, final, -, -, hdialect, hrun⟩ : ∃ made world metadata final,
      (createDirectory ⟨true, true⟩ (.sample 1 "d") ['a']).run handle .textual
        (initial .postgresql [['r']]) = some (.ok (), made) ∧
      (FileManager.uploadFile (fun _ => "") (.sample 2 "f") ['a', '/', 'f'] [97]).run handle .textual
        made = some (.ok metadata, world) ∧
      world.db.dialect = .postgresql ∧
      (Transaction.inStatements (renameDirectory ⟨true, true⟩ (.sample 3 "")
        ['a'] ['b'])).run Connection.handle .textual (.idle world) = some (.ok (), final) :=
    ⟨_, _, _, _, rfl, rfl, rfl, rfl⟩
  have hlike : world.db.dialect.MatchesExactly := hdialect ▸ matchesExactly_postgresql
  exact ⟨world, final, renameDirectory_rows hlike (runs_of_run _ hrun).amid⟩

end FsServer
