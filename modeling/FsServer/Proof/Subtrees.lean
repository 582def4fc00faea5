import FsServer.Directory
import FsServer.Proof.Consistent
import FsServer.Proof.Like

/-!
# Changes to a whole subtree

What the statements and the storage calls of the directory manager do when they go through all the
files under a directory, one after another: rows that are marked deleted or given a new path together,
objects that are removed or moved one by one.
-/

namespace FsServer

open Lib GoPath FileTree

namespace Database

variable {db after : Database} {env : Env}

variable {found : List Entry}

theorem mem_filesUnder {directory : Path} (h : (db.exec env (.filesUnder directory)).1 = .ok found)
    (entry : Entry) :
    entry ∈ found ↔ ∃ row, db.liveFile row.path = some row ∧
      likeUnder db.dialect directory row.path = true ∧ row.entry = entry := by
  rw [rows_filesUnder h]
  constructor
  · rintro ⟨row, hrow, hlike, hlive, rfl⟩
    exact ⟨row, liveFile_eq_some.mpr ⟨Table.mem_rows_iff.mp hrow, hlive⟩, hlike, rfl⟩
  · rintro ⟨row, hrow, hlike, rfl⟩
    obtain ⟨hat, hlive⟩ := liveFile_eq_some.mp hrow
    exact ⟨row, Table.mem_rows_iff.mpr hat, hlike, hlive, rfl⟩

def moveRow (db : Database) (oldPath newPath : Path) (now : String) (row : FileMetadata) :
    FileMetadata :=
  if (likeUnder db.dialect oldPath row.path && !row.isDeleted) = true then
    row.setPath (DirectoryManager.moveEntry oldPath newPath now row.entry)
  else row

theorem foldl_directories_path (changes : List PathUpdate) (row : DirectoryMetadata) :
    (changes.foldl (fun row change =>
      if decide (row.id = change.id) = true then row.setPath change else row) row).path = row.path ∨
      ∃ change ∈ changes, (changes.foldl (fun row change =>
        if decide (row.id = change.id) = true then row.setPath change else row) row).path
          = change.path := by
  induction changes generalizing row with
  | nil => exact .inl rfl
  | cons first rest ih =>
    rw [List.foldl_cons]
    split_ifs
    · rcases ih (row.setPath first) with hpath | ⟨change, hmem, hpath⟩
      · exact .inr ⟨first, List.mem_cons_self .., hpath⟩
      · exact .inr ⟨change, List.mem_cons_of_mem _ hmem, hpath⟩
    · rcases ih row with hpath | ⟨change, hmem, hpath⟩
      · exact .inl hpath
      · exact .inr ⟨change, List.mem_cons_of_mem _ hmem, hpath⟩

variable {oldPath newPath : Path} {now : String}

theorem renameAll_ok {directories : List PathUpdate}
    (hfound : (db.exec env (.filesUnder oldPath)).1 = .ok found)
    (h : db.renameAll (found.map (DirectoryManager.moveEntry oldPath newPath now)) directories
      = .ok after) :
    after.files.rows = db.files.rows.map (db.moveRow oldPath newPath now) ∧
      ∀ row ∈ after.directories.rows, (∃ old ∈ db.directories.rows, row.path = old.path) ∨
        ∃ change ∈ directories, row.path = change.path := by
  unfold renameAll at h
  cases hfiles : (found.map (DirectoryManager.moveEntry oldPath newPath now)).foldlM
      (fun table change => table.update (fun row => decide (row.id = change.id))
        fun row => row.setPath change) db.files with
  | error violation =>
    rw [hfiles] at h
    cases h
  | ok files =>
    rw [hfiles] at h
    cases hdirectories : directories.foldlM (fun table change =>
        table.update (fun row => decide (row.id = change.id)) fun row => row.setPath change)
          db.directories with
    | error violation =>
      simp only [hdirectories] at h
      cases h
    | ok renamed =>
      simp only [hdirectories] at h
      cases h
      refine ⟨?_, ?_⟩
      · have hrows := Table.foldlM_update hfiles
        refine hrows.trans (List.map_congr_left fun row hrow => ?_)
        have hnodup := (nodup_filesUnder hfound).1
        unfold moveRow
        split_ifs with hselect
        · rw [Bool.and_eq_true, Bool.not_eq_true'] at hselect
          have hmem : row.entry ∈ found := (mem_filesUnder hfound _).mpr
            ⟨row, liveFile_eq_some.mpr ⟨Table.mem_rows_iff.mp hrow, hselect.2⟩, hselect.1, rfl⟩
          refine Table.foldl_keyed (fun _ _ => rfl) ?_ (List.mem_map_of_mem hmem) rfl
          rw [List.map_map]
          exact hnodup
        · refine Table.foldl_keyed_of_ne fun change hchange heq => hselect ?_
          obtain ⟨entry, hentry, rfl⟩ := List.mem_map.mp hchange
          obtain ⟨other, hlive, hlike, rfl⟩ := (mem_filesUnder hfound _).mp hentry
          obtain ⟨hat, hother⟩ := liveFile_eq_some.mp hlive
          obtain rfl := db.files.eq_of_id_eq hrow (Table.mem_rows_iff.mpr hat) heq
          rw [hlike, hother]
          rfl
      · intro row hrow
        rw [Table.foldlM_update hdirectories, List.mem_map] at hrow
        obtain ⟨old, hold, rfl⟩ := hrow
        rcases foldl_directories_path directories old with hpath | hchange
        · exact .inl ⟨old, hold, hpath⟩
        · exact .inr hchange

theorem moveRow_spec (db : Database) (oldPath newPath : Path) (now : String) (row : FileMetadata) :
    (db.moveRow oldPath newPath now row).isDeleted = row.isDeleted ∧
      (db.moveRow oldPath newPath now row).size = row.size ∧
      (db.moveRow oldPath newPath now row).hash = row.hash ∧
      (db.moveRow oldPath newPath now row).id = row.id := by
  unfold moveRow
  split_ifs <;> exact ⟨rfl, rfl, rfl, rfl⟩

theorem path_moveRow {row : FileMetadata} (hlive : row.isDeleted = false) :
    (db.moveRow oldPath newPath now row).path =
      if likeUnder db.dialect oldPath row.path = true then
        DirectoryManager.movedPath oldPath newPath row.path
      else row.path := by
  unfold moveRow
  rw [hlive, Bool.not_false, Bool.and_true]
  split_ifs <;> rfl

theorem liveFile_moved (h : after.files.rows = db.files.rows.map (db.moveRow oldPath newPath now))
    {key : Path} {moved : FileMetadata} :
    after.liveFile key = some moved ↔ ∃ row, db.liveFile row.path = some row ∧
      moved = db.moveRow oldPath newPath now row ∧ key = moved.path := by
  rw [liveFile_eq_some, Table.atPath_eq_some, h, List.mem_map]
  constructor
  · rintro ⟨⟨⟨row, hrow, rfl⟩, rfl⟩, hlive⟩
    rw [(moveRow_spec ..).1] at hlive
    exact ⟨row, liveFile_eq_some.mpr ⟨Table.mem_rows_iff.mp hrow, hlive⟩, rfl, rfl⟩
  · rintro ⟨row, hrow, rfl, rfl⟩
    obtain ⟨hat, hlive⟩ := liveFile_eq_some.mp hrow
    refine ⟨⟨⟨row, Table.mem_rows_iff.mpr hat, rfl⟩, rfl⟩, ?_⟩
    rw [(moveRow_spec ..).1]
    exact hlive

theorem nodup_of_keys {rows : List FileMetadata} {change : FileMetadata → FileMetadata}
    (hkeys : ∀ row, (change row).id = row.id ∧ (change row).path = row.path)
    (hid : (rows.map FileMetadata.id).Nodup) (hpath : (rows.map FileMetadata.path).Nodup) :
    ((rows.map change).map FileMetadata.id).Nodup ∧
      ((rows.map change).map FileMetadata.path).Nodup := by
  have hsameId : (rows.map change).map FileMetadata.id = rows.map FileMetadata.id := by
    rw [List.map_map]
    exact List.map_congr_left fun row _ => (hkeys row).1
  have hsamePath : (rows.map change).map FileMetadata.path = rows.map FileMetadata.path := by
    rw [List.map_map]
    exact List.map_congr_left fun row _ => (hkeys row).2
  rw [hsameId, hsamePath]
  exact ⟨hid, hpath⟩

theorem removeFiles_ok (db : Database) (env : Env) (ids : List String) (now : String) :
    ∃ after, db.exec env (.removeFiles ids now) = (.ok (), after) ∧ after.dialect = db.dialect ∧
      after.directories = db.directories ∧
      ∀ path, after.liveFile path = (db.liveFile path).filter fun row => decide (row.id ∉ ids) := by
  set remove : FileMetadata → FileMetadata := fun row =>
    if decide (row.id ∈ ids) = true then { row with isDeleted := true, updatedAt := now } else row
    with hremove
  have hkeys : ∀ row, (remove row).id = row.id ∧ (remove row).path = row.path := by
    intro row
    rw [hremove]
    dsimp only
    split_ifs <;> exact ⟨rfl, rfl⟩
  obtain ⟨hid, hpath⟩ := nodup_of_keys hkeys db.files.nodup_id db.files.nodup_path
  obtain ⟨files, hfiles, hrows⟩ : ∃ files : Table FileMetadata.id FileMetadata.path,
      db.files.update (fun row => row.id ∈ ids)
        (fun row => { row with isDeleted := true, updatedAt := now }) = .ok files ∧
      files.rows = db.files.rows.map remove := ⟨_, Table.ofRows_eq_ok hid hpath, rfl⟩
  refine ⟨{ db with files := files }, ?_, rfl, rfl, fun path => ?_⟩
  · simp only [exec, hfiles, onFiles]
  apply Option.ext
  intro row
  rw [liveFile_eq_some, Table.atPath_eq_some, hrows, Option.filter_eq_some_iff, liveFile_eq_some,
    Table.atPath_eq_some, List.mem_map]
  constructor
  · rintro ⟨⟨⟨old, hold, rfl⟩, rfl⟩, hlive⟩
    by_cases hselect : old.id ∈ ids
    · simp [hremove, hselect] at hlive
    · have hsame : remove old = old := by simp [hremove, hselect]
      rw [hsame] at hlive ⊢
      exact ⟨⟨⟨hold, rfl⟩, hlive⟩, by simpa using hselect⟩
  · rintro ⟨⟨⟨hrow, rfl⟩, hlive⟩, hselect⟩
    have hsame : remove row = row := by
      simp only [decide_eq_true_eq] at hselect
      simp [hremove, hselect]
    exact ⟨⟨⟨row, hrow, hsame⟩, rfl⟩, hlive⟩

end Database

namespace LocalStorage

variable {storage after : LocalStorage}

theorem getFullPath_congr (h : after.rootDir = storage.rootDir) :
    after.getFullPath = storage.getFullPath := by
  funext other
  rw [getFullPath, getFullPath, h]

/-- The storage after calls made one after another, whether they succeed or not. -/
def execAll (storage : LocalStorage) (calls : List (StorageCall (Except StorageError Unit))) :
    LocalStorage :=
  calls.foldl (fun storage call => (storage.exec call).2) storage

/-- The files at some places are gone. -/
structure Clears (storage after : LocalStorage) (places : List (List Segment)) : Prop where
  rootDir : after.rootDir = storage.rootDir
  files : ∀ x, after.tree.fileAt x = if x ∈ places then none else storage.tree.fileAt x
  directories : ∀ x, after.tree.isDirectory x = storage.tree.isDirectory x

theorem exec_remove {path : Path}
    (hfree : storage.tree.isDirectory (storage.getFullPath path) = false)
    (hvalid : storage.validatePath path = true) :
    Clears storage (storage.exec (.remove path)).2 [storage.getFullPath path] := by
  simp only [exec, remove, hvalid, if_true]
  cases hfile : storage.tree.fileAt (storage.getFullPath path) with
  | none =>
    have hnode := node_eq_none_iff.mpr ⟨hfile, hfree⟩
    have hremove : storage.tree.remove (storage.getFullPath path)
        = .error (storage.tree.missing (storage.getFullPath path)) := by
      rw [FileTree.remove, hnode]
    rw [hremove]
    refine ⟨rfl, fun x => ?_, fun x => rfl⟩
    split_ifs with hx
    · rw [List.mem_singleton.mp hx]
      exact hfile
    · rfl
  | some content =>
    obtain ⟨tree, htree, hnode⟩ := remove_file hfile
    rw [htree]
    refine ⟨rfl, fun x => ?_, fun x => ?_⟩
    · split_ifs with hx
      · rw [List.mem_singleton.mp hx, fileAt_eq_none]
        simp [apply, hnode]
      · exact fileAt_of_node_update hnode fun heq => hx (List.mem_singleton.mpr heq)
    · by_cases hx : x = storage.getFullPath path
      · rw [hx, hfree, isDirectory_eq_false]
        simp [apply, hnode]
      · exact isDirectory_of_node_update hnode hx

theorem execAll_remove {paths : List Path}
    (hfree : ∀ path ∈ paths, storage.tree.isDirectory (storage.getFullPath path) = false)
    (hvalid : ∀ path ∈ paths, storage.validatePath path = true) :
    Clears storage (storage.execAll (paths.map fun path => .remove path))
      (paths.map storage.getFullPath) := by
  induction paths generalizing storage with
  | nil => exact ⟨rfl, fun x => by simp [execAll], fun x => rfl⟩
  | cons path rest ih =>
    have hfirst := exec_remove (hfree path (List.mem_cons_self ..))
      (hvalid path (List.mem_cons_self ..))
    generalize hmiddle : (storage.exec (.remove path)).2 = middle at hfirst
    have hfull := getFullPath_congr hfirst.rootDir
    have hrest : Clears middle (middle.execAll (rest.map fun path => .remove path))
        (rest.map middle.getFullPath) := by
      refine ih (fun other hother => ?_) fun other hother => ?_
      · rw [hfirst.directories, hfull]
        exact hfree other (List.mem_cons_of_mem _ hother)
      · rw [validatePath_congr hfirst.rootDir]
        exact hvalid other (List.mem_cons_of_mem _ hother)
    have hall : storage.execAll ((path :: rest).map fun path => .remove path)
        = middle.execAll (rest.map fun path => .remove path) := by
      rw [← hmiddle]
      rfl
    rw [hall]
    refine ⟨hrest.rootDir.trans hfirst.rootDir, fun x => ?_, fun x => ?_⟩
    · rw [hrest.files, hfirst.files, hfull, List.map_cons]
      by_cases hx : x ∈ rest.map storage.getFullPath
      · rw [if_pos hx, if_pos (List.mem_cons_of_mem _ hx)]
      · by_cases hhead : x = storage.getFullPath path
        · simp [hhead]
        · simp [hx, hhead]
    · rw [hrest.directories, hfirst.directories]

/-- Some of the files at or below these places are gone, and of the directories there. -/
structure Prunes (storage after : LocalStorage) (places : List (List Segment)) : Prop where
  rootDir : after.rootDir = storage.rootDir
  files : ∀ x, after.tree.fileAt x = storage.tree.fileAt x ∨
    after.tree.fileAt x = none ∧ ∃ place ∈ places, place <+: x
  directories : ∀ x, (∀ place ∈ places, ¬ place <+: x) →
    after.tree.isDirectory x = storage.tree.isDirectory x

theorem exec_removeDirectory (storage : LocalStorage) (path : Path) :
    Prunes storage (storage.exec (.removeDirectory path)).2 [storage.getFullPath path] := by
  simp only [exec, removeDirectory]
  split_ifs
  · cases hremove : storage.tree.removeAll (storage.getFullPath path) with
    | error cause => exact ⟨rfl, fun _ => .inl rfl, fun _ _ => rfl⟩
    | ok tree =>
      have hnode := removeAll_ok hremove
      refine ⟨rfl, fun x => ?_, fun x hx => ?_⟩
      · by_cases hbelow : storage.getFullPath path <+: x
        · refine .inr ⟨?_, _, List.mem_singleton_self _, hbelow⟩
          rw [fileAt_eq_none]
          simp [apply, hnode, hbelow]
        · exact .inl (fileAt_congr (by simp [apply, hnode, hbelow]))
      · have hbelow := hx _ (List.mem_singleton_self _)
        exact isDirectory_congr (by simp [apply, hnode, hbelow])
  · exact ⟨rfl, fun _ => .inl rfl, fun _ _ => rfl⟩

theorem execAll_removeDirectory (storage : LocalStorage) (paths : List Path) :
    Prunes storage (storage.execAll (paths.map fun path => .removeDirectory path))
      (paths.map storage.getFullPath) := by
  induction paths generalizing storage with
  | nil => exact ⟨rfl, fun x => .inl rfl, fun x _ => rfl⟩
  | cons path rest ih =>
    have hfirst := exec_removeDirectory storage path
    have hrest := ih (storage.exec (.removeDirectory path)).2
    rw [getFullPath_congr hfirst.rootDir] at hrest
    have hall : storage.execAll ((path :: rest).map fun path => .removeDirectory path)
        = (storage.exec (.removeDirectory path)).2.execAll
          (rest.map fun path => .removeDirectory path) := rfl
    rw [hall]
    refine ⟨hrest.rootDir.trans hfirst.rootDir, fun x => ?_, fun x hx => ?_⟩
    · rcases hrest.files x with hsame | ⟨hnone, place, hplace, hbelow⟩
      · rcases hfirst.files x with hbefore | ⟨hnone, place, hplace, hbelow⟩
        · exact .inl (hsame.trans hbefore)
        · obtain rfl := List.mem_singleton.mp hplace
          exact .inr ⟨hsame.trans hnone, _, List.mem_cons_self .., hbelow⟩
      · exact .inr ⟨hnone, place, List.mem_cons_of_mem _ hplace, hbelow⟩
    · rw [hrest.directories x fun place hplace => hx place (List.mem_cons_of_mem _ hplace),
        hfirst.directories x fun place hplace =>
          hx place (List.mem_singleton.mp hplace ▸ List.mem_cons_self ..)]

/-- A subtree is moved: what was at or below the source is at or below the target. -/
structure Transplants (storage after : LocalStorage) (source target : List Segment) : Prop where
  rootDir : after.rootDir = storage.rootDir
  apart : ¬ source <+: target
  taken : storage.tree.fileAt source ≠ none ∨ storage.tree.isDirectory source = true ∧
    storage.tree.fileAt target = none
  free : storage.tree.isDirectory target = false
  files : ∀ x, after.tree.fileAt x =
    if target <+: x then storage.tree.fileAt (source ++ x.drop target.length)
    else if source <+: x then none else storage.tree.fileAt x
  keeps : ∀ x, ¬ source <+: x → storage.tree.isDirectory x = true → after.tree.isDirectory x = true

theorem exec_rename (storage : LocalStorage) (oldPath newPath : Path) :
    storage.SameFiles (storage.exec (.rename oldPath newPath)).2 ∨
      storage.Transplants (storage.exec (.rename oldPath newPath)).2
        (storage.getFullPath oldPath) (storage.getFullPath newPath) := by
  simp only [exec]
  cases hrename : storage.rename oldPath newPath with
  | error cause => exact .inl (sameFiles_afterFailedRename _ _ cause)
  | ok renamed =>
    dsimp only
    unfold rename at hrename
    split_ifs at hrename
    · cases hrename
      exact .inl (.refl _)
    dsimp only at hrename
    split at hrename
    · cases hrename
    rename_i made hmade
    obtain ⟨hfiles, hkeeps, hadds⟩ := ensureDirectoryExists_ok hmade
    split at hrename
    · cases hrename
    rename_i moved hmoved
    cases hrename
    obtain ⟨hfree, hsource, hcases⟩ := rename_ok hmoved
    rcases hcases with ⟨-, rfl⟩ | ⟨hout, htarget, hparent, hempty, rfl⟩
    · exact .inl ⟨rfl, hfiles, hkeeps⟩
    have hnode : ∀ x, (made.moveTree (storage.getFullPath oldPath) (storage.getFullPath newPath)
        hout htarget hparent).node x = if storage.getFullPath newPath <+: x then
          made.node (storage.getFullPath oldPath ++ x.drop (storage.getFullPath newPath).length)
        else if storage.getFullPath oldPath <+: x then none else made.node x := fun x => rfl
    have hfreeBefore : storage.tree.isDirectory (storage.getFullPath newPath) = false := by
      by_contra hdirectory
      rw [hkeeps _ (by simpa using hdirectory)] at hfree
      cases hfree
    refine .inr ⟨rfl, hout, ?_, hfreeBefore, fun x => ?_, fun x hx hdirectory => ?_⟩
    · cases hfile : storage.tree.fileAt (storage.getFullPath oldPath) with
      | some content => exact .inl (by simp)
      | none =>
        have hdirectory : made.isDirectory (storage.getFullPath oldPath) = true := by
          by_contra hnot
          refine hsource (node_eq_none_iff.mpr ⟨?_, by simpa using hnot⟩)
          rw [hfiles, hfile]
        refine .inr ⟨?_, ?_⟩
        · rcases hadds _ hdirectory with hbefore | hpre
          · exact hbefore
          · exact absurd (hpre.trans (List.dropLast_prefix _)) hout
        · rw [← hfiles]
          exact (node_eq_none_iff.mp (hempty hdirectory)).1
    · split_ifs with hbelow hunder
      · rw [← hfiles]
        exact fileAt_congr (by rw [hnode, if_pos hbelow])
      · rw [fileAt_eq_none, hnode, if_neg hbelow, if_pos hunder]
        simp
      · rw [← hfiles]
        exact fileAt_congr (by rw [hnode, if_neg hbelow, if_neg hunder])
    · have hbelow : ¬ storage.getFullPath newPath <+: x := by
        intro hpre
        by_cases hsame : storage.getFullPath newPath = x
        · rw [hsame, hdirectory] at hfreeBefore
          cases hfreeBefore
        · rw [isDirectory_eq_false] at hfreeBefore
          refine hfreeBefore (storage.tree.node_of_prefix hpre hsame ?_)
          rw [isDirectory_eq_true.mp hdirectory]
          simp
      rw [isDirectory_congr (by rw [hnode, if_neg hbelow, if_neg hx] : _ = made.node x)]
      exact hkeeps x hdirectory

/-- Files that can be moved one after another: none of them is in the way of another one. -/
structure Movable (storage : LocalStorage) (paths : List Path) (moved : Path → Path)
    (content : Path → Bytes) : Prop where
  nodup : paths.Nodup
  rooted : ∀ path ∈ paths, storage.rootDir ≠ []
  source : ∀ path ∈ paths, Ordinary path
  target : ∀ path ∈ paths, Ordinary (moved path)
  object : ∀ path ∈ paths, storage.object path = some (content path)
  free : ∀ path ∈ paths, storage.tree.isDirectory (storage.getFullPath (moved path)) = false
  clear : ∀ path ∈ paths,
    storage.tree.throughFile (storage.getFullPath (moved path)).dropLast = false
  apart : ∀ path ∈ paths, ∀ other ∈ paths, path ≠ moved other
  aside : ∀ path ∈ paths, ∀ other ∈ paths, path ≠ other →
    ¬ storage.getFullPath (moved path) <+: storage.getFullPath (moved other)

/-- The objects are at their new places and nothing else has changed. -/
structure Moved (storage after : LocalStorage) (paths : List Path) (moved : Path → Path)
    (content : Path → Bytes) : Prop where
  rootDir : after.rootDir = storage.rootDir
  object : ∀ path ∈ paths, after.object (moved path) = some (content path)
  gone : ∀ path ∈ paths, after.object path = none
  others : ∀ x, (∀ path ∈ paths, x ≠ storage.getFullPath path ∧
    x ≠ storage.getFullPath (moved path)) → after.tree.fileAt x = storage.tree.fileAt x
  keeps : ∀ x, storage.tree.isDirectory x = true → after.tree.isDirectory x = true

section Move

variable {paths : List Path} {path : Path} {moved : Path → Path} {content : Path → Bytes}

theorem Movable.step (h : Movable storage (path :: paths) moved content) :
    ∃ middle, (storage.exec (.rename path (moved path))).2 = middle ∧
      storage.Relocates middle (storage.getFullPath path) (storage.getFullPath (moved path))
        (content path) ∧ Movable middle paths moved content := by
  have hhead : path ∈ path :: paths := List.mem_cons_self ..
  have htail : ∀ other ∈ paths, other ∈ path :: paths := fun _ => List.mem_cons_of_mem _
  have hne : storage.getFullPath path ≠ storage.getFullPath (moved path) := fun heq =>
    h.apart path hhead path hhead
      (getFullPath_injective storage (h.source path hhead) (h.target path hhead) heq)
  have hvalid := validatePath_ordinary (h.rooted path hhead) (h.source path hhead)
  have hnewValid := validatePath_ordinary (h.rooted path hhead) (h.target path hhead)
  obtain ⟨middle, hmiddle⟩ := rename_succeeds hvalid hnewValid hne (h.object path hhead)
    (h.free path hhead) (h.clear path hhead)
  obtain ⟨hmoves, -⟩ := rename_object hvalid hnewValid hne (h.object path hhead) hmiddle
  have hfull := getFullPath_congr hmoves.rootDir
  have hdistinct : ∀ other ∈ paths, other ≠ path := fun other hother heq =>
    (List.nodup_cons.mp h.nodup).1 (heq ▸ hother)
  refine ⟨middle, by simp only [exec, hmiddle], hmoves,
    { nodup := (List.nodup_cons.mp h.nodup).2
      rooted := fun other hother => hmoves.rootDir ▸ h.rooted other (htail other hother)
      source := fun other hother => h.source other (htail other hother)
      target := fun other hother => h.target other (htail other hother)
      object := fun other hother => ?_
      free := fun other hother => ?_
      clear := fun other hother => ?_
      apart := fun other hother third hthird =>
        h.apart other (htail other hother) third (htail third hthird)
      aside := fun other hother third hthird => ?_ }⟩
  · rw [hmoves.object_other (h.source path hhead) (h.target path hhead)
      (h.source other (htail other hother)) (hdistinct other hother)
      (h.apart other (htail other hother) path hhead)]
    exact h.object other (htail other hother)
  · by_contra hdirectory
    rw [Bool.not_eq_false, hfull] at hdirectory
    rcases hmoves.adds _ hdirectory with hbefore | habove
    · rw [h.free other (htail other hother)] at hbefore
      cases hbefore
    · exact h.aside other (htail other hother) path hhead (hdistinct other hother)
        (habove.trans (List.dropLast_prefix _))
  · rw [hfull, throughFile_eq_false]
    intro above habove
    have hbefore := throughFile_eq_false.mp (h.clear other (htail other hother)) above habove
    rw [hmoves.files]
    by_cases htarget : above = storage.getFullPath (moved path)
    · exact absurd (htarget ▸ habove.trans (List.dropLast_prefix _))
        (h.aside path hhead other (htail other hother) (hdistinct other hother).symm)
    · rw [Function.update_of_ne htarget]
      by_cases hsource : above = storage.getFullPath path
      · rw [hsource, Function.update_self]
      · rw [Function.update_of_ne hsource, hbefore]
  · rw [hfull]
    exact h.aside other (htail other hother) third (htail third hthird)

theorem Movable.execAll (h : Movable storage paths moved content) :
    Moved storage (storage.execAll (paths.map fun path => .rename path (moved path))) paths moved
      content := by
  induction paths generalizing storage with
  | nil =>
    exact ⟨rfl, fun _ hmem => (nomatch hmem), fun _ hmem => (nomatch hmem), fun _ _ => rfl,
      fun _ hx => hx⟩
  | cons path rest ih =>
    obtain ⟨middle, hmiddle, hmoves, hrest⟩ := h.step
    have hafter := ih hrest
    have hall : storage.execAll ((path :: rest).map fun path => .rename path (moved path))
        = middle.execAll (rest.map fun path => .rename path (moved path)) := by
      rw [← hmiddle]
      rfl
    rw [hall]
    have hhead : path ∈ path :: rest := List.mem_cons_self ..
    have hfull := getFullPath_congr hmoves.rootDir
    have hsourceAside : ∀ other ∈ rest, middle.getFullPath path ≠ middle.getFullPath other ∧
        middle.getFullPath path ≠ middle.getFullPath (moved other) := by
      intro other hother
      have hmem := List.mem_cons_of_mem path hother
      refine ⟨fun heq => ?_, fun heq => ?_⟩
      · have hsame := getFullPath_injective middle (h.source path hhead) (h.source other hmem) heq
        exact (List.nodup_cons.mp h.nodup).1 (hsame ▸ hother)
      · exact h.apart path hhead other hmem
          (getFullPath_injective middle (h.source path hhead) (h.target other hmem) heq)
    have htargetAside : ∀ other ∈ rest, middle.getFullPath (moved path) ≠ middle.getFullPath other ∧
        middle.getFullPath (moved path) ≠ middle.getFullPath (moved other) := by
      intro other hother
      have hmem := List.mem_cons_of_mem path hother
      refine ⟨fun heq => ?_, fun heq => ?_⟩
      · exact h.apart other hmem path hhead
          (getFullPath_injective middle (h.target path hhead) (h.source other hmem) heq).symm
      · have hne : path ≠ other := fun hsame => (List.nodup_cons.mp h.nodup).1 (hsame ▸ hother)
        refine h.aside path hhead other hmem hne ?_
        rw [← hfull, heq]
    have hafterFull := getFullPath_congr hafter.rootDir
    refine ⟨hafter.rootDir.trans hmoves.rootDir, fun other hother => ?_, fun other hother => ?_,
      fun x hx => ?_, fun x hx => hafter.keeps x (hmoves.keeps x hx)⟩
    · rcases List.mem_cons.mp hother with rfl | hmem
      · rw [LocalStorage.object, hafterFull, hafter.others _ htargetAside]
        exact hmoves.object_target
      · exact hafter.object other hmem
    · rcases List.mem_cons.mp hother with rfl | hmem
      · rw [LocalStorage.object, hafterFull, hafter.others _ hsourceAside]
        exact hmoves.object_source (h.source other hhead) (h.target other hhead)
          (h.apart other hhead other hhead)
      · exact hafter.gone other hmem
    · rw [hafter.others x fun other hother => by
        rw [hfull]
        exact hx other (List.mem_cons_of_mem _ hother), hmoves.files,
        Function.update_of_ne (hx path hhead).2, Function.update_of_ne (hx path hhead).1]

end Move

end LocalStorage

namespace Consistent

variable {sha256 : Bytes → String} {world after : World}

theorem clear (h : Consistent sha256 world) {entries : List Entry}
    (hentries : ∀ entry ∈ entries, ∃ row, world.db.liveFile row.path = some row ∧ row.entry = entry)
    (hlive : ∀ path, after.db.liveFile path =
      (world.db.liveFile path).filter fun row => decide (row.id ∉ entries.map Entry.id))
    (hclears : world.storage.Clears after.storage
      ((entries.map Entry.path).map world.storage.getFullPath)) : Consistent sha256 after := by
  have hobject : ∀ path, after.storage.object path =
      if world.storage.getFullPath path ∈ (entries.map Entry.path).map world.storage.getFullPath
      then none else world.storage.object path := by
    intro path
    rw [LocalStorage.object, LocalStorage.getFullPath_congr hclears.rootDir, hclears.files]
    rfl
  refine ⟨fun {path row} hfound => ?_, fun {path row} hfound => ?_, fun {path row} hfound => ?_,
    fun {path} hpath hnone => ?_, ?_⟩
  · rw [hlive, Option.filter_eq_some_iff] at hfound
    exact h.ordinary hfound.1
  · rw [hlive, Option.filter_eq_some_iff] at hfound
    exact hclears.rootDir ▸ h.rooted hfound.1
  · rw [hlive, Option.filter_eq_some_iff, decide_eq_true_eq] at hfound
    obtain ⟨hbefore, hkept⟩ := hfound
    rw [hobject, if_neg]
    · exact h.stored hbefore
    · intro hplace
      simp only [List.mem_map] at hplace
      obtain ⟨-, ⟨entry, hentry, rfl⟩, hsame⟩ := hplace
      obtain ⟨other, hother, rfl⟩ := hentries entry hentry
      have hpath := getFullPath_injective world.storage (h.ordinary hother) (h.ordinary hbefore) hsame
      rw [← hpath] at hbefore
      change world.db.liveFile other.path = some row at hbefore
      rw [hother, Option.some.injEq] at hbefore
      exact hkept (hbefore ▸ List.mem_map_of_mem hentry)
  · rw [hobject]
    split_ifs with hplace
    · rfl
    refine h.owned hpath ?_
    cases hbefore : world.db.liveFile path with
    | none => rfl
    | some row =>
      exfalso
      rw [hlive, hbefore, Option.filter_eq_none_iff] at hnone
      have hselect := hnone row rfl
      simp only [List.mem_map, decide_eq_true_eq, not_not] at hselect
      obtain ⟨entry, hentry, hid⟩ := hselect
      obtain ⟨other, hother, rfl⟩ := hentries entry hentry
      obtain ⟨hmem, -⟩ := Database.liveFile_eq_some.mp hother
      obtain ⟨hmem', -⟩ := Database.liveFile_eq_some.mp hbefore
      obtain rfl := world.db.files.eq_of_id_eq (Table.atPath_eq_some.mp hmem).1
        (Table.atPath_eq_some.mp hmem').1 hid
      refine hplace (List.mem_map_of_mem (List.mem_map.mpr ⟨other.entry, hentry, ?_⟩))
      exact Database.path_of_liveFile hbefore
  · rw [hclears.rootDir, hclears.directories]
    exact h.root

theorem prune (h : Consistent sha256 world) (hdb : ∀ path, after.db.liveFile path =
      world.db.liveFile path) {paths : List Path} (hpaths : ∀ path ∈ paths, Ordinary path)
    (hfree : ∀ path ∈ paths, ∀ key row, world.db.liveFile key = some row →
      ¬ segments path <+: segments key)
    (hprunes : world.storage.Prunes after.storage (paths.map world.storage.getFullPath)) :
    Consistent sha256 after := by
  have hfull := LocalStorage.getFullPath_congr hprunes.rootDir
  refine ⟨fun {path row} hfound => h.ordinary (hdb path ▸ hfound),
    fun {path row} hfound => hprunes.rootDir ▸ h.rooted (hdb path ▸ hfound),
    fun {path row} hfound => ?_, fun {path} hpath hnone => ?_, ?_⟩
  · rw [hdb] at hfound
    rw [LocalStorage.object, hfull]
    rcases hprunes.files (world.storage.getFullPath path) with hsame | ⟨-, place, hplace, hbelow⟩
    · rw [hsame]
      exact h.stored hfound
    · exfalso
      obtain ⟨above, habove, rfl⟩ := List.mem_map.mp hplace
      rw [getFullPath_ordinary _ (hpaths above habove), getFullPath_ordinary _ (h.ordinary hfound),
        List.prefix_append_right_inj] at hbelow
      exact hfree above habove path row hfound hbelow
  · rw [hdb] at hnone
    have hbefore := h.owned hpath hnone
    rw [LocalStorage.object, hfull]
    rcases hprunes.files (world.storage.getFullPath path) with hsame | ⟨hgone, -⟩
    · rw [hsame]
      exact hbefore
    · exact hgone
  · rw [hprunes.rootDir, hprunes.directories]
    · exact h.root
    · intro place hplace hbelow
      obtain ⟨above, habove, rfl⟩ := List.mem_map.mp hplace
      rw [getFullPath_ordinary _ (hpaths above habove)] at hbelow
      have hlength := hbelow.length_le
      rw [List.length_append] at hlength
      have := List.length_pos_iff.mpr (segments_ne_nil above)
      omega

end Consistent

end FsServer
