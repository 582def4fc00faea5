import FsServer.Physical
import FsServer.Proof.Objects
import FsServer.Proof.Rows
import FsServer.Lib.Refinement
import FsServer.Lib.Tombstone

/-!
# What is left of a deletion

The system beside the one that deletes physically: the second has the live rows of the first and the
same objects, and of the first's directories in the storage perhaps not all. One call after another
the two go on like this, and they answer alike where no deleted row and no left directory is in the
way.
-/

namespace FsServer

open Lib FileTree

/-! ### The storage -/

namespace LocalStorage

/-- The same objects, and no directory that the first storage does not have. -/
structure Covers (storage lean : LocalStorage) : Prop where
  rootDir : lean.rootDir = storage.rootDir
  tree : storage.tree.Covers lean.tree

def Bare (storage : LocalStorage) (path : Path) : Prop :=
  storage.tree.Bare (storage.getFullPath path)

variable {storage lean : LocalStorage} {path : Path}

theorem Covers.getFullPath (h : storage.Covers lean) (path : Path) :
    lean.getFullPath path = storage.getFullPath path := by
  rw [LocalStorage.getFullPath, LocalStorage.getFullPath, h.rootDir]

theorem Covers.validatePath (h : storage.Covers lean) (path : Path) :
    lean.validatePath path = storage.validatePath path := by
  rw [LocalStorage.validatePath, LocalStorage.validatePath, h.rootDir, h.getFullPath]

/-- Making the directory above a place never fails, and makes no directory in one tree only. -/
structure Ensured (full lean : Tree) (dir : List Segment) (full' lean' : Tree) : Prop where
  made : ensureDirectoryExists full dir = .ok full'
  made' : ensureDirectoryExists lean dir = .ok lean'
  covers : full'.Covers lean'
  same : full'.isDirectory dir = lean'.isDirectory dir
  excess : NoNewExcess full lean full' lean'

theorem ensureDirectoryExists_blocked {tree : Tree} {dir : List Segment}
    (hfile : tree.throughFile dir = true) : ensureDirectoryExists tree dir = .ok tree := by
  unfold ensureDirectoryExists stat
  cases tree.node dir with
  | some node => rfl
  | none =>
    rw [missing, if_pos hfile]

theorem Covers.ensured {full lean : Tree} (h : full.Covers lean) (dir : List Segment) :
    ∃ full' lean', Ensured full lean dir full' lean' := by
  cases hfile : full.throughFile dir with
  | true =>
    have hfile' : lean.throughFile dir = true := (h.throughFile dir).symm.trans hfile
    refine ⟨full, lean, ensureDirectoryExists_blocked hfile, ensureDirectoryExists_blocked hfile',
      h, ?_, NoNewExcess.rfl full lean⟩
    have hblocked : ∀ tree : Tree, tree.throughFile dir = true → tree.isDirectory dir = false := by
      intro tree htree
      by_contra hdir
      rw [throughFile_eq_false_of_isDirectory (Bool.eq_true_of_not_eq_false hdir)] at htree
      exact Bool.noConfusion htree
    rw [hblocked full hfile, hblocked lean hfile']
  | false =>
    obtain ⟨full', hfull, hdir⟩ := ensureDirectoryExists_clear hfile
    obtain ⟨lean', hlean, hdir'⟩ := ensureDirectoryExists_clear ((h.throughFile dir).symm.trans hfile)
    obtain ⟨hfiles, hkeeps, hadds⟩ := ensureDirectoryExists_ok hfull
    obtain ⟨hfiles', hkeeps', hadds'⟩ := ensureDirectoryExists_ok hlean
    refine ⟨full', lean', hfull, hlean, ⟨fun x => ?_, fun x hx => ?_⟩, hdir.trans hdir'.symm,
      fun x hx => ?_⟩
    · rw [hfiles, hfiles', h.files]
    · rcases hadds' x hx with hold | hpre
      · exact hkeeps x (h.directories x hold)
      · exact isDirectory_above hdir hpre
    · rcases hadds x hx with hold | hpre
      · rcases NoNewExcess.rfl full lean x hold with hboth | hexcess
        · exact Or.inl (hkeeps' x hboth)
        · exact Or.inr hexcess
      · exact Or.inl (isDirectory_above hdir' hpre)

/-- The call has the same answer in both storages, and they stay related. -/
def Alike {β : Type} (storage lean : LocalStorage) (call : StorageCall β) : Prop :=
  (lean.exec call).1 = (storage.exec call).1 ∧ (storage.exec call).2.Covers (lean.exec call).2

section

variable (h : storage.Covers lean)
include h

theorem Covers.write (hbare : ¬ storage.Bare path) (data : Bytes) :
    storage.Alike lean (.write path data) := by
  simp only [Alike, exec, LocalStorage.write, place]
  rw [h.validatePath, h.getFullPath]
  split_ifs with hvalid
  · obtain ⟨full', lean', hmade⟩ := Covers.ensured h.tree (storage.getFullPath path).dropLast
    have hsame : full'.isDirectory (storage.getFullPath path) =
        lean'.isDirectory (storage.getFullPath path) := by
      rw [Bool.eq_iff_iff]
      refine ⟨hmade.excess.isDirectory fun hdir => ?_, hmade.covers.directories _⟩
      rw [← h.tree.isDirectory_eq hbare]
      exact hdir
    rw [hmade.made, hmade.made']
    dsimp only
    obtain ⟨hreply, hcovers⟩ := hmade.covers.writeFile hsame hmade.same data
    rcases hreply.cases with ⟨written, written', hfull, hlean⟩ | ⟨cause, hfull, hlean⟩
    · rw [hfull, hlean] at hcovers ⊢
      exact ⟨rfl, h.rootDir, hcovers⟩
    · rw [hfull, hlean]
      exact ⟨rfl, h⟩
  · exact ⟨rfl, h⟩

theorem Covers.remove_covers (path : Path) :
    (storage.exec (.remove path)).2.Covers (lean.exec (.remove path)).2 := by
  simp only [exec, LocalStorage.remove]
  rw [h.validatePath, h.getFullPath]
  split_ifs with hvalid
  · have hcovers := h.tree.remove (storage.getFullPath path)
    cases hfull : storage.tree.remove (storage.getFullPath path) <;>
      cases hlean : lean.tree.remove (storage.getFullPath path) <;>
      rw [hfull, hlean] at hcovers <;> exact ⟨h.rootDir, hcovers⟩
  · exact h

theorem Covers.remove (hbare : ¬ storage.Bare path) : storage.Alike lean (.remove path) := by
  refine ⟨?_, h.remove_covers path⟩
  simp only [exec, LocalStorage.remove]
  rw [h.validatePath, h.getFullPath]
  split_ifs with hvalid
  · rcases (h.tree.remove_reply hbare).cases with ⟨tree, tree', hfull, hlean⟩ | ⟨cause, hfull, hlean⟩
    · rw [hfull, hlean]
      rfl
    · rw [hfull, hlean]
      rfl
  · rfl

theorem Covers.removeDirectory (path : Path) :
    (storage.exec (.removeDirectory path)).2.Covers (lean.exec (.removeDirectory path)).2 := by
  simp only [exec, LocalStorage.removeDirectory]
  rw [h.validatePath, h.getFullPath]
  split_ifs with hvalid
  · have hcovers := h.tree.removeAll (storage.getFullPath path)
    cases hfull : storage.tree.removeAll (storage.getFullPath path) <;>
      cases hlean : lean.tree.removeAll (storage.getFullPath path) <;>
      rw [hfull, hlean] at hcovers <;> exact ⟨h.rootDir, hcovers⟩
  · exact h

theorem Covers.createDirectory (path : Path) :
    (storage.exec (.createDirectory path)).2.Covers (lean.exec (.createDirectory path)).2 := by
  simp only [exec, LocalStorage.createDirectory]
  rw [h.validatePath, h.getFullPath]
  split_ifs with hvalid
  · have hcovers := h.tree.mkdirAll (storage.getFullPath path)
    cases hfull : storage.tree.mkdirAll (storage.getFullPath path) <;>
      cases hlean : lean.tree.mkdirAll (storage.getFullPath path) <;>
      rw [hfull, hlean] at hcovers <;> exact ⟨h.rootDir, hcovers⟩
  · exact h

end

/-- What a rename does once the directory above its target is there. -/
def moved (storage : LocalStorage) (made : Tree) (source target : List Segment) :
    Except StorageError Unit × LocalStorage :=
  (((made.rename source target).map fun _ => ()).mapError .rename,
    { storage with tree := made.after (made.rename source target) })

theorem exec_rename_made {oldPath newPath : Path} {made : Tree}
    (hold : storage.validatePath oldPath = true) (hnew : storage.validatePath newPath = true)
    (hne : oldPath ≠ newPath)
    (hmade : ensureDirectoryExists storage.tree (storage.getFullPath newPath).dropLast = .ok made) :
    storage.exec (.rename oldPath newPath) =
      storage.moved made (storage.getFullPath oldPath) (storage.getFullPath newPath) := by
  simp only [exec, rename, moved]
  rw [if_neg (not_not_intro hold), if_neg (not_not_intro hnew), if_neg hne, hmade]
  dsimp only
  cases hresult : made.rename (storage.getFullPath oldPath) (storage.getFullPath newPath) with
  | ok moved => rfl
  | error cause =>
    dsimp only [afterFailedRename]
    rw [hmade]
    rfl

variable {oldPath newPath : Path}

theorem Covers.rename_cases (h : storage.Covers lean) :
    ((lean.exec (.rename oldPath newPath)).1 = (storage.exec (.rename oldPath newPath)).1 ∧
      (storage.exec (.rename oldPath newPath)).2 = storage ∧
      (lean.exec (.rename oldPath newPath)).2 = lean) ∨
    ∃ full' lean',
      Ensured storage.tree lean.tree (storage.getFullPath newPath).dropLast full' lean' ∧
      storage.exec (.rename oldPath newPath) =
        storage.moved full' (storage.getFullPath oldPath) (storage.getFullPath newPath) ∧
      lean.exec (.rename oldPath newPath) =
        lean.moved lean' (storage.getFullPath oldPath) (storage.getFullPath newPath) := by
  by_cases hmoves : storage.validatePath oldPath = true ∧ storage.validatePath newPath = true ∧
      oldPath ≠ newPath
  · obtain ⟨hold, hnew, hne⟩ := hmoves
    obtain ⟨full', lean', hmade⟩ := Covers.ensured h.tree (storage.getFullPath newPath).dropLast
    have hmade' := hmade.made'
    rw [← h.getFullPath] at hmade'
    refine .inr ⟨full', lean', hmade, exec_rename_made hold hnew hne hmade.made, ?_⟩
    rw [exec_rename_made (h.validatePath _ ▸ hold) (h.validatePath _ ▸ hnew) hne hmade',
      h.getFullPath, h.getFullPath]
  · refine .inl ?_
    simp only [exec, rename]
    rw [h.validatePath, h.validatePath]
    split_ifs with hold hnew hsame
    · exact ⟨rfl, rfl, rfl⟩
    · exact absurd ⟨hold, hnew, hsame⟩ hmoves
    · exact ⟨rfl, rfl, rfl⟩
    · exact ⟨rfl, rfl, rfl⟩

theorem Covers.renamed (h : storage.Covers lean)
    (htarget : storage.tree.isDirectory (storage.getFullPath newPath) = true →
      lean.tree.isDirectory (storage.getFullPath newPath) = true) :
    (storage.exec (.rename oldPath newPath)).2.Covers (lean.exec (.rename oldPath newPath)).2 ∧
      (storage.tree.Agrees lean.tree (storage.getFullPath oldPath) →
        NoNewExcess storage.tree lean.tree (storage.exec (.rename oldPath newPath)).2.tree
          (lean.exec (.rename oldPath newPath)).2.tree) := by
  rcases h.rename_cases with ⟨-, hfull, hlean⟩ | ⟨full', lean', hmade, hfull, hlean⟩
  · rw [hfull, hlean]
    exact ⟨h, fun _ => NoNewExcess.rfl _ _⟩
  · rw [hfull, hlean]
    have htarget' := hmade.excess.isDirectory htarget
    refine ⟨⟨h.rootDir, hmade.covers.rename htarget' hmade.same⟩, fun hsource => ?_⟩
    exact hmade.excess.trans
      (hmade.covers.rename_excess hmade.same (hsource.of_noNewExcess hmade.excess) htarget')

theorem Covers.rename (h : storage.Covers lean) (hold : ¬ storage.Bare oldPath)
    (hnew : ¬ storage.Bare newPath) : storage.Alike lean (.rename oldPath newPath) := by
  have hsame := h.tree.isDirectory_eq hnew
  refine ⟨?_, (h.renamed fun hdir => hsame ▸ hdir).1⟩
  rcases h.rename_cases with ⟨hreply, -⟩ | ⟨full', lean', hmade, hfull, hlean⟩
  · exact hreply
  · have hnodes : ∀ {place : List Segment}, ¬ storage.tree.Bare place →
        full'.node place = lean'.node place := by
      intro place hbare
      refine hmade.covers.node_eq_of_isDirectory_eq ?_
      rw [Bool.eq_iff_iff]
      refine ⟨hmade.excess.isDirectory fun hdir => ?_, hmade.covers.directories _⟩
      rw [← h.tree.isDirectory_eq hbare]
      exact hdir
    rw [hfull, hlean, moved, moved]
    rcases (hmade.covers.rename_reply hmade.same (hnodes hold) (hnodes hnew)).cases with
      ⟨tree, tree', hfull, hlean⟩ | ⟨cause, hfull, hlean⟩
    · rw [hfull, hlean]
      rfl
    · rw [hfull, hlean]

theorem Covers.rename_back (h : storage.Covers lean) (hold : ¬ storage.Bare oldPath)
    (hnew : ¬ storage.Bare newPath) (hok : (storage.exec (.rename oldPath newPath)).1 = .ok ()) :
    ((storage.exec (.rename oldPath newPath)).2.exec (.rename newPath oldPath)).2.Covers
      ((lean.exec (.rename oldPath newPath)).2.exec (.rename newPath oldPath)).2 := by
  have hsource : storage.tree.isDirectory (storage.getFullPath oldPath) = true →
      lean.tree.isDirectory (storage.getFullPath oldPath) = true := fun hdir =>
    h.tree.isDirectory_eq hold ▸ hdir
  obtain ⟨hreply, hcovers⟩ := h.rename hold hnew
  refine (hcovers.renamed ?_).1
  rcases h.rename_cases with ⟨-, hfull, hlean⟩ | ⟨full', lean', hmade, hfull, hlean⟩
  · rw [hfull, hlean]
    exact hsource
  · rw [hok, hlean, moved] at hreply
    rw [hfull, moved] at hok
    rw [hfull, hlean, moved, moved]
    cases hrenamed : full'.rename (storage.getFullPath oldPath) (storage.getFullPath newPath) with
    | error cause =>
      rw [hrenamed] at hok
      cases hok
    | ok moved =>
      cases hrenamed' : lean'.rename (storage.getFullPath oldPath) (storage.getFullPath newPath) with
      | error cause =>
        rw [hrenamed'] at hreply
        cases hreply
      | ok moved' =>
        exact isDirectory_source_back (hmade.excess.isDirectory hsource) hrenamed hrenamed'

end LocalStorage

/-! ### The tables -/

def arrange {T : Type} [DecidableEq T] (order items : List T) : List T :=
  if order.Perm items then order else items

theorem arrange_perm {T : Type} [DecidableEq T] (order items : List T) :
    (arrange order items).Perm items := by
  unfold arrange
  split_ifs with hperm
  · exact hperm
  · exact List.Perm.refl _

theorem exists_scan (env : Env) {entries entries' : List Entry} (h : entries'.Perm entries) :
    ∃ env' : Env, env'.scan entries' = env.scan entries := by
  refine ⟨{ env with scan := arrange (env.scan entries), scan_perm := arrange_perm _ }, ?_⟩
  exact if_pos ((env.scan_perm entries).trans h.symm)

theorem exists_shuffle (env : Env) {items items' : List FileListItem} (h : items'.Perm items) :
    ∃ env' : Env, env'.shuffle items' = env.shuffle items := by
  refine ⟨{ env with shuffle := arrange (env.shuffle items), shuffle_perm := arrange_perm _ }, ?_⟩
  exact if_pos ((env.shuffle_perm items).trans h.symm)

namespace Database

/-- The live rows of the first database. -/
structure Shadows (db lean : Database) : Prop where
  dialect : lean.dialect = db.dialect
  files : Table.Shadows (fun row => !row.isDeleted) db.files lean.files
  directories : Table.Shadows (fun row => !row.isDeleted) db.directories lean.directories

variable {db lean : Database} {path : Path}

section

variable (h : db.Shadows lean)
include h

theorem Shadows.liveFile (path : Path) : lean.liveFile path = db.liveFile path :=
  h.files.atPath path

theorem Shadows.liveDirectory (path : Path) : lean.liveDirectory path = db.liveDirectory path :=
  h.directories.atPath path

theorem Shadows.filesUnder (env : Env) (directory : Path) :
    ∃ env', lean.exec env' (.filesUnder directory) =
      ((db.exec env (.filesUnder directory)).1, lean) := by
  have hperm := (h.files.select fun row => likeUnder db.dialect directory row.path).map
    FileMetadata.entry
  obtain ⟨env', henv⟩ := exists_scan env hperm
  refine ⟨env', ?_⟩
  simp only [exec]
  rw [h.dialect, henv]

theorem Shadows.directoriesUnder (env : Env) (directory : Path) :
    ∃ env', lean.exec env' (.directoriesUnder directory) =
      ((db.exec env (.directoriesUnder directory)).1, lean) := by
  have hperm := (h.directories.select fun row => likeUnder db.dialect directory row.path).map
    DirectoryMetadata.entry
  obtain ⟨env', henv⟩ := exists_scan env hperm
  refine ⟨env', ?_⟩
  simp only [exec]
  rw [h.dialect, henv]

theorem Shadows.matching (filter : PathFilter) :
    (lean.matching filter).Perm (db.matching filter) := by
  unfold Database.matching
  rw [h.dialect]
  simp only [Bool.and_comm (!_)]
  exact ((h.files.select fun row => filter db.dialect row.path).map _).append
    ((h.directories.select fun row => filter db.dialect row.path).map _)

theorem Shadows.listItems (env : Env) (filter : PathFilter)
    (before : FileListItem → FileListItem → Bool) (limit offset : Int) :
    ∃ env', lean.exec env' (.listItems filter before limit offset) =
      ((db.exec env (.listItems filter before limit offset)).1, lean) := by
  obtain ⟨env', henv⟩ := exists_shuffle env (h.matching filter)
  refine ⟨env', ?_⟩
  simp only [exec]
  rw [h.dialect, henv]

theorem Shadows.countItems (env : Env) (filter : PathFilter) :
    lean.exec env (.countItems filter) = ((db.exec env (.countItems filter)).1, lean) := by
  simp only [exec]
  rw [(h.matching filter).length_eq]

end

/-! Statements that change the rows -/

/-- The same reply, and the rows go on corresponding. -/
def Alike {β : Type} (outcome outcome' : β × Database) : Prop :=
  outcome'.1 = outcome.1 ∧ outcome.2.Shadows outcome'.2

section

variable (h : db.Shadows lean)
include h

theorem Shadows.onFiles
    {result result' : Except Violation (Table FileMetadata.id FileMetadata.path)}
    (hsame : Table.SameResult (fun row => !row.isDeleted) result result') :
    Alike (db.onFiles result) (lean.onFiles result') := by
  rcases hsame with ⟨violation, rfl, rfl⟩ | ⟨full, lean', rfl, rfl, hrows⟩
  · exact ⟨rfl, h⟩
  · exact ⟨rfl, h.dialect, hrows, h.directories⟩

theorem Shadows.onDirectories
    {result result' : Except Violation (Table DirectoryMetadata.id DirectoryMetadata.path)}
    (hsame : Table.SameResult (fun row => !row.isDeleted) result result') :
    Alike (db.onDirectories result) (lean.onDirectories result') := by
  rcases hsame with ⟨violation, rfl, rfl⟩ | ⟨full, lean', rfl, rfl, hrows⟩
  · exact ⟨rfl, h⟩
  · exact ⟨rfl, h.dialect, h.files, hrows⟩

theorem Shadows.updateFile (env env' : Env) {row old : FileMetadata} (hold : old ∈ db.files.rows)
    (hlive : old.isDeleted = false) (hid : row.id = old.id) (hrow : row.isDeleted = false)
    (hclear : ∀ dead ∈ db.files.rows, dead.isDeleted = true → row.path ≠ dead.path) :
    Alike (db.exec env (.updateFile row)) (lean.exec env' (.updateFile row)) := by
  refine h.onFiles (h.files.update ⟨fun other hother hselect => ?_, fun other _ _ => rfl⟩ ?_)
  · have heq : other = old :=
      db.files.eq_of_id_eq hother hold ((of_decide_eq_true hselect).trans hid)
    simp [heq, hlive, hrow]
  · intro other _ _ dead hdead hdeadLive
    exact hclear dead hdead (by simpa using hdeadLive)

theorem Shadows.insertFile (env env' : Env) (row : FileMetadata) (hlive : row.isDeleted = false)
    (hfresh : ∀ other ∈ db.files.rows, other.id ≠ row.id)
    (hclear : ∀ other, db.files.atPath row.path = some other → other.isDeleted = false) :
    Alike (db.exec env (.insertFile row)) (lean.exec env' (.insertFile row)) := by
  refine h.onFiles (h.files.insert ?_ hfresh fun other hother => ?_)
  · simp [hlive]
  · simp [hclear other hother]

theorem Shadows.insertDirectory (env env' : Env) (row : DirectoryMetadata)
    (hlive : row.isDeleted = false) (hfresh : ∀ other ∈ db.directories.rows, other.id ≠ row.id)
    (hclear : ∀ other, db.directories.atPath row.path = some other → other.isDeleted = false) :
    Alike (db.exec env (.insertDirectory row)) (lean.exec env' (.insertDirectory row)) := by
  refine h.onDirectories (h.directories.insert ?_ hfresh fun other hother => ?_)
  · simp [hlive]
  · simp [hclear other hother]

theorem Shadows.restoreFile (env env' : Env) (row : FileMetadata) {dead : FileMetadata}
    (hlive : row.isDeleted = false) (hfound : db.files.atPath row.path = some dead)
    (hdead : dead.isDeleted = true) (hfresh : ∀ other ∈ db.files.rows, other.id ≠ row.id) :
    ∃ after after', db.exec env (.restoreFile row) = (.ok (), after) ∧
      lean.exec env' (.insertFile row) = (.ok (), after') ∧ after.Shadows after' := by
  have hpath := Table.path_of_atPath hfound
  obtain ⟨full', lean', hfull, hlean, hrows⟩ := h.files.revive row (fun old => { old with
      id := row.id, name := row.name, size := row.size, hash := row.hash,
      storageType := row.storageType, storageLocation := row.storageLocation,
      createdAt := row.createdAt, updatedAt := row.updatedAt, isDeleted := false })
    (by simp [hlive]) hfound (by simp [hdead]) hfresh (by rw [hpath, ← hlive])
  simp only [exec]
  rw [hfull, hlean]
  exact ⟨_, _, rfl, rfl, h.dialect, hrows, h.directories⟩

theorem Shadows.restoreDirectory (env env' : Env) (row : DirectoryMetadata)
    {dead : DirectoryMetadata} (hlive : row.isDeleted = false)
    (hfound : db.directories.atPath row.path = some dead) (hdead : dead.isDeleted = true)
    (hfresh : ∀ other ∈ db.directories.rows, other.id ≠ row.id) :
    ∃ after after', db.exec env (.restoreDirectory row) = (.ok (), after) ∧
      lean.exec env' (.insertDirectory row) = (.ok (), after') ∧ after.Shadows after' := by
  have hpath := Table.path_of_atPath hfound
  obtain ⟨full', lean', hfull, hlean, hrows⟩ := h.directories.revive row (fun old => { old with
      id := row.id, name := row.name, createdAt := row.createdAt, updatedAt := row.updatedAt,
      isDeleted := false })
    (by simp [hlive]) hfound (by simp [hdead]) hfresh (by rw [hpath, ← hlive])
  simp only [exec]
  rw [hfull, hlean]
  exact ⟨_, _, rfl, rfl, h.dialect, h.files, hrows⟩

end

/-- The moved rows are live, and no deleted row has a path that one of them is to get. -/
structure Unblocked (db : Database) (files directories : List PathUpdate) : Prop where
  liveFiles : ∀ change ∈ files, ∀ row ∈ db.files.rows, row.id = change.id → row.isDeleted = false
  filePaths : ∀ change ∈ files, ∀ dead ∈ db.files.rows, dead.isDeleted = true →
    change.path ≠ dead.path
  liveDirectories : ∀ change ∈ directories, ∀ row ∈ db.directories.rows, row.id = change.id →
    row.isDeleted = false
  directoryPaths : ∀ change ∈ directories, ∀ dead ∈ db.directories.rows, dead.isDeleted = true →
    change.path ≠ dead.path

theorem Shadows.renameAll (h : db.Shadows lean) (env env' : Env) {files directories : List PathUpdate}
    (hfree : db.Unblocked files directories) :
    Alike (db.exec env (.renameAll files directories))
      (lean.exec env' (.renameAll files directories)) := by
  have hfiles := h.files.foldlM_update PathUpdate.id PathUpdate.path
    (fun change row => row.setPath change) files (fun _ _ => rfl)
    (fun _ _ => rfl) (fun _ _ => rfl) (fun change hchange row hrow hid => by
      simp [hfree.liveFiles change hchange row hrow hid]) fun change hchange dead hdead hlive =>
      hfree.filePaths change hchange dead hdead (by simpa using hlive)
  have hdirectories := h.directories.foldlM_update PathUpdate.id PathUpdate.path
    (fun change row => row.setPath change) directories (fun _ _ => rfl)
    (fun _ _ => rfl) (fun _ _ => rfl) (fun change hchange row hrow hid => by
      simp [hfree.liveDirectories change hchange row hrow hid]) fun change hchange dead hdead hlive =>
      hfree.directoryPaths change hchange dead hdead (by simpa using hlive)
  simp only [exec, Database.renameAll]
  rcases hfiles with ⟨violation, hfull, hlean⟩ | ⟨full, lean', hfull, hlean, hrows⟩
  · rw [hfull, hlean]
    exact ⟨rfl, h⟩
  · rw [hfull, hlean]
    rcases hdirectories with ⟨violation, hfull, hlean⟩ | ⟨full', lean'', hfull, hlean, hrows'⟩
    · simp only [bind, Except.bind]
      rw [hfull, hlean]
      exact ⟨rfl, h⟩
    · simp only [bind, Except.bind]
      rw [hfull, hlean]
      exact ⟨rfl, h.dialect, hrows, hrows'⟩

/-! Rows that are marked are rows that are gone -/

theorem Shadows.markFiles (h : db.Shadows lean) (select : FileMetadata → Bool) (now : String) :
    ∃ after, db.onFiles (db.files.update select fun row =>
        { row with isDeleted := true, updatedAt := now }) = (.ok (), after) ∧
      after.Shadows { lean with files := lean.files.delete select } := by
  obtain ⟨files, hfiles, hrows⟩ := h.files.kill select
    (fun row => { row with isDeleted := true, updatedAt := now }) (fun _ => rfl) (fun _ => rfl)
    fun _ => rfl
  rw [hfiles]
  exact ⟨_, rfl, h.dialect, hrows, h.directories⟩

theorem Shadows.markDirectories (h : db.Shadows lean) (select : DirectoryMetadata → Bool)
    (now : String) :
    ∃ after, db.onDirectories (db.directories.update select fun row =>
        { row with isDeleted := true, updatedAt := now }) = (.ok (), after) ∧
      after.Shadows { lean with directories := lean.directories.delete select } := by
  obtain ⟨directories, hdirectories, hrows⟩ := h.directories.kill select
    (fun row => { row with isDeleted := true, updatedAt := now }) (fun _ => rfl) (fun _ => rfl)
    fun _ => rfl
  rw [hdirectories]
  exact ⟨_, rfl, h.dialect, h.files, hrows⟩

end Database

end FsServer
