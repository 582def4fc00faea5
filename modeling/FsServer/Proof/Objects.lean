import FsServer.Proof.Paths

/-!
# What a storage call does to the objects

The tree below the storage root read through its files. A call that writes, removes or moves a file
changes the files at the places it names and no other; it may leave new directories behind, on the way
to those places, and takes none away.
-/

namespace FsServer

open Lib FileTree Function

namespace LocalStorage

variable {storage after : LocalStorage}

def object (storage : LocalStorage) (path : Path) : Option Bytes :=
  storage.tree.fileAt (storage.getFullPath path)

/-- The files change as told, and directories are only added, above the given place. -/
structure Rearranges (storage after : LocalStorage) (place : List Segment)
    (files : List Segment → Option Bytes) : Prop where
  rootDir : after.rootDir = storage.rootDir
  files : ∀ x, after.tree.fileAt x = files x
  keeps : ∀ x, storage.tree.isDirectory x = true → after.tree.isDirectory x = true
  adds : ∀ x, after.tree.isDirectory x = true →
    storage.tree.isDirectory x = true ∨ x <+: place.dropLast

def Stores (storage after : LocalStorage) (place : List Segment) (content : Option Bytes) : Prop :=
  Rearranges storage after place (update storage.tree.fileAt place content)

variable {place : List Segment}

variable {middle : LocalStorage}

theorem Rearranges.trans {first second : List Segment → Option Bytes}
    (hfirst : Rearranges storage middle place first)
    (hsecond : Rearranges middle after place second) : Rearranges storage after place second where
  rootDir := hsecond.rootDir.trans hfirst.rootDir
  files := hsecond.files
  keeps x hx := hsecond.keeps x (hfirst.keeps x hx)
  adds x hx := (hsecond.adds x hx).elim (hfirst.adds x) .inr

theorem Stores.trans {first second : Option Bytes} (hfirst : Stores storage middle place first)
    (hsecond : Stores middle after place second) :
    Stores storage after place second := by
  have hfiles : update middle.tree.fileAt place second
      = update storage.tree.fileAt place second := by
    funext x
    by_cases hx : x = place
    · rw [hx, update_self, update_self]
    · rw [update_of_ne hx, update_of_ne hx, hfirst.files, update_of_ne hx]
  have hboth := Rearranges.trans hfirst hsecond
  rw [hfiles] at hboth
  exact hboth

theorem Rearranges.getFullPath {files : List Segment → Option Bytes}
    (h : Rearranges storage after place files) (path : Path) :
    after.getFullPath path = storage.getFullPath path := by
  rw [LocalStorage.getFullPath, LocalStorage.getFullPath, h.rootDir]

variable {path : Path}

theorem Stores.object_self {content : Option Bytes}
    (h : Stores storage after (storage.getFullPath path) content) :
    after.object path = content := by
  rw [object, Rearranges.getFullPath h, h.files, update_self]

variable {tree : Tree} {dir : List Segment}

theorem ensureDirectoryExists_ok {made : Tree} (h : ensureDirectoryExists tree dir = .ok made) :
    (∀ x, made.fileAt x = tree.fileAt x) ∧
      (∀ x, tree.isDirectory x = true → made.isDirectory x = true) ∧
      ∀ x, made.isDirectory x = true → tree.isDirectory x = true ∨ x <+: dir := by
  unfold ensureDirectoryExists at h
  split at h
  · rw [mkdirAll_eq] at h
    split_ifs at h with hfile
    cases h
    refine ⟨fileAt_putDirectories (by simpa using hfile), fun x hx => ?_, fun x hx => ?_⟩
    · rw [isDirectory_putDirectories, hx, Bool.or_true]
    · rw [isDirectory_putDirectories, Bool.or_eq_true, decide_eq_true_eq] at hx
      exact hx.symm
  · cases h
    exact ⟨fun _ => rfl, fun _ hx => hx, fun _ hx => .inl hx⟩

theorem validatePath_congr (h : after.rootDir = storage.rootDir) :
    after.validatePath path = storage.validatePath path := by
  rw [validatePath, validatePath, getFullPath, getFullPath, h]

theorem place_eq_ok_valid {data : Bytes} {failed : OsError → StorageError}
    (h : storage.place path data failed = .ok after) : storage.validatePath path = true := by
  unfold place at h
  split_ifs at h with hvalid
  exact hvalid

theorem place_ok {data : Bytes} {failed : OsError → StorageError}
    (h : storage.place path data failed = .ok after) :
    Stores storage after (storage.getFullPath path) (some data) := by
  unfold place at h
  split_ifs at h with hvalid
  dsimp only at h
  split at h
  · simp at h
  rename_i made hmade
  obtain ⟨hfiles, hkeeps, hadds⟩ := ensureDirectoryExists_ok hmade
  split at h
  · simp at h
  rename_i written hwritten
  cases h
  obtain ⟨-, -, hfree, hnode⟩ := writeFile_ok hwritten
  refine ⟨rfl, fun x => ?_, fun x hx => ?_, fun x hx => ?_⟩
  · by_cases hplace : x = storage.getFullPath path
    · subst hplace
      rw [update_self, fileAt_eq_some, hnode, update_self]
    · rw [update_of_ne hplace, fileAt_of_node_update hnode hplace, hfiles]
  · have hmadeDir := hkeeps x hx
    have hplace : x ≠ storage.getFullPath path := by
      rintro rfl
      rw [hfree] at hmadeDir
      simp at hmadeDir
    rw [isDirectory_of_node_update hnode hplace]
    exact hmadeDir
  · have hplace : x ≠ storage.getFullPath path := by
      rintro rfl
      rw [isDirectory_eq_true, hnode, update_self] at hx
      simp at hx
    rw [isDirectory_of_node_update hnode hplace] at hx
    exact hadds x hx

theorem remove_object {content : Bytes} (hvalid : storage.validatePath path = true)
    (h : storage.object path = some content) :
    ∃ after, storage.remove path = .ok after ∧
      Stores storage after (storage.getFullPath path) none := by
  obtain ⟨tree, htree, hnode⟩ := remove_file h
  refine ⟨{ storage with tree := tree }, ?_, rfl, fun x => ?_, fun x hx => ?_, fun x hx => ?_⟩
  · simp only [remove, hvalid, if_true, htree]
  · by_cases hplace : x = storage.getFullPath path
    · rw [hplace, update_self, fileAt_eq_none, hnode, update_self]
      simp
    · rw [update_of_ne hplace, fileAt_of_node_update hnode hplace]
  · have hplace : x ≠ storage.getFullPath path := by
      rintro rfl
      rw [isDirectory_eq_false_of_fileAt h] at hx
      simp at hx
    rw [isDirectory_of_node_update hnode hplace]
    exact hx
  · have hplace : x ≠ storage.getFullPath path := by
      rintro rfl
      rw [isDirectory_eq_true, hnode, update_self] at hx
      simp at hx
    rw [isDirectory_of_node_update hnode hplace] at hx
    exact .inl hx

section Rename

variable {oldPath newPath : Path} {content : Bytes}

def Relocates (storage after : LocalStorage) (source target : List Segment) (content : Bytes) :
    Prop :=
  Rearranges storage after target
    (update (update storage.tree.fileAt source none) target (some content))

theorem rename_object (hold : storage.validatePath oldPath = true)
    (hnew : storage.validatePath newPath = true)
    (hne : storage.getFullPath oldPath ≠ storage.getFullPath newPath)
    (h : storage.object oldPath = some content) (hok : storage.rename oldPath newPath = .ok after) :
    Relocates storage after (storage.getFullPath oldPath) (storage.getFullPath newPath) content ∧
      storage.tree.isDirectory (storage.getFullPath newPath) = false ∧
      ¬ storage.getFullPath oldPath <+: storage.getFullPath newPath := by
  have hpaths : oldPath ≠ newPath := fun heq => hne (heq ▸ rfl)
  simp only [rename, hold, hnew, hpaths, not_true_eq_false, if_false] at hok
  split at hok
  · simp at hok
  rename_i made hmade
  obtain ⟨hfiles, hkeeps, hadds⟩ := ensureDirectoryExists_ok hmade
  split at hok
  · simp at hok
  rename_i moved hmoved
  cases hok
  have hsource : made.fileAt (storage.getFullPath oldPath) = some content := by
    rw [hfiles]
    exact h
  obtain ⟨hfree, -, hcases⟩ := rename_ok hmoved
  obtain ⟨hout, htarget, hparent, -, rfl⟩ := hcases.resolve_left fun heq => hne heq.1
  have hnode := node_moveTree_file (fileAt_eq_some.mp hsource) (isDirectory_eq_false.mp hfree)
    (not_prefix_of_fileAt hsource hne (isDirectory_eq_true.mpr hparent)) htarget hparent
  have hnew_free : storage.tree.isDirectory (storage.getFullPath newPath) = false := by
    cases hdir : storage.tree.isDirectory (storage.getFullPath newPath) with
    | false => rfl
    | true =>
      rw [hkeeps _ hdir] at hfree
      simp at hfree
  have hold_free := isDirectory_eq_false_of_fileAt hsource
  have hsame : ∀ x, x ≠ storage.getFullPath oldPath → x ≠ storage.getFullPath newPath →
      (made.moveTree (storage.getFullPath oldPath) (storage.getFullPath newPath)
        (not_prefix_of_fileAt hsource hne (isDirectory_eq_true.mpr hparent)) htarget
        hparent).node x = made.node x := by
    intro x hx hx'
    rw [hnode, update_of_ne hx', update_of_ne hx]
  refine ⟨⟨rfl, fun x => ?_, fun x hx => ?_, fun x hx => ?_⟩, hnew_free, hout⟩
  · by_cases hx' : x = storage.getFullPath newPath
    · rw [hx', update_self, fileAt_eq_some, hnode, update_self]
    rw [update_of_ne hx']
    by_cases hx : x = storage.getFullPath oldPath
    · rw [hx, update_self, fileAt_eq_none, hnode, update_of_ne hne, update_self]
      simp
    · rw [update_of_ne hx, fileAt_congr (hsame x hx hx'), hfiles]
  · have hx' : x ≠ storage.getFullPath newPath := by
      rintro rfl
      rw [hnew_free] at hx
      simp at hx
    have hx'' : x ≠ storage.getFullPath oldPath := by
      rintro rfl
      rw [hkeeps _ hx] at hold_free
      simp at hold_free
    rw [isDirectory_congr (hsame x hx'' hx')]
    exact hkeeps x hx
  · have hx' : x ≠ storage.getFullPath newPath := by
      rintro rfl
      rw [isDirectory_eq_true, hnode, update_self] at hx
      simp at hx
    have hx'' : x ≠ storage.getFullPath oldPath := by
      rintro rfl
      rw [isDirectory_eq_true, hnode, update_of_ne hne, update_self] at hx
      simp at hx
    rw [isDirectory_congr (hsame x hx'' hx')] at hx
    exact hadds x hx

theorem ensureDirectoryExists_clear (hclear : tree.throughFile dir = false) :
    ∃ made, ensureDirectoryExists tree dir = .ok made ∧ made.isDirectory dir = true := by
  unfold ensureDirectoryExists stat
  cases hnode : tree.node dir with
  | none =>
    refine ⟨tree.putDirectories dir, ?_, ?_⟩
    · simp [missing, hclear, mkdirAll_eq]
    · rw [isDirectory_putDirectories]
      simp
  | some node =>
    refine ⟨tree, rfl, ?_⟩
    cases node with
    | directory => exact isDirectory_eq_true.mpr hnode
    | file content =>
      have hfile := throughFile_eq_false.mp hclear dir (List.prefix_refl dir)
      rw [fileAt_eq_some.mpr hnode] at hfile
      simp at hfile

theorem rename_succeeds (hold : storage.validatePath oldPath = true)
    (hnew : storage.validatePath newPath = true)
    (hne : storage.getFullPath oldPath ≠ storage.getFullPath newPath)
    (h : storage.object oldPath = some content)
    (hfree : storage.tree.isDirectory (storage.getFullPath newPath) = false)
    (hclear : storage.tree.throughFile (storage.getFullPath newPath).dropLast = false) :
    ∃ after, storage.rename oldPath newPath = .ok after := by
  have hpaths : oldPath ≠ newPath := fun heq => hne (heq ▸ rfl)
  obtain ⟨made, hmade, hparent⟩ := ensureDirectoryExists_clear hclear
  obtain ⟨hfiles, -, hadds⟩ := ensureDirectoryExists_ok hmade
  have htarget : storage.getFullPath newPath ≠ [] := by
    intro heq
    rw [heq, isDirectory_eq_false] at hfree
    exact hfree storage.tree.node_root
  have hmade_free : made.isDirectory (storage.getFullPath newPath) = false := by
    by_contra hdir
    rcases hadds _ (by simpa using hdir) with hdir | hpre
    · rw [hfree] at hdir
      simp at hdir
    · have hlength := hpre.length_le
      rw [List.length_dropLast] at hlength
      have := List.length_pos_iff.mpr htarget
      omega
  have hsource : made.fileAt (storage.getFullPath oldPath) = some content := by
    rw [hfiles]
    exact h
  obtain ⟨moved, hmoved, -⟩ := rename_file hsource hne htarget hparent hmade_free
  refine ⟨{ storage with tree := moved }, ?_⟩
  simp only [rename, hold, hnew, hpaths, not_true_eq_false, if_false, hmade, hmoved]

end Rename

/-- The files are as before, and no directory is gone. -/
structure SameFiles (storage after : LocalStorage) : Prop where
  rootDir : after.rootDir = storage.rootDir
  files : ∀ x, after.tree.fileAt x = storage.tree.fileAt x
  keeps : ∀ x, storage.tree.isDirectory x = true → after.tree.isDirectory x = true

theorem SameFiles.refl (storage : LocalStorage) : SameFiles storage storage :=
  ⟨rfl, fun _ => rfl, fun _ h => h⟩

theorem SameFiles.trans {final : LocalStorage} (h : SameFiles storage after)
    (hthen : SameFiles after final) : SameFiles storage final :=
  ⟨hthen.rootDir.trans h.rootDir, fun x => (hthen.files x).trans (h.files x), fun x hx =>
    hthen.keeps x (h.keeps x hx)⟩

theorem SameFiles.object (h : SameFiles storage after) (path : Path) :
    after.object path = storage.object path := by
  rw [LocalStorage.object, LocalStorage.object, LocalStorage.getFullPath,
    LocalStorage.getFullPath, h.rootDir, h.files]

theorem sameFiles_afterFailedRename (storage : LocalStorage) (newPath : Path)
    (cause : StorageError) : SameFiles storage (storage.afterFailedRename newPath cause) := by
  unfold afterFailedRename
  split
  · split
    · rename_i made hmade
      obtain ⟨hfiles, hkeeps, -⟩ := ensureDirectoryExists_ok hmade
      exact ⟨rfl, hfiles, hkeeps⟩
    · exact .refl _
  · exact .refl _

theorem sameFiles_rename {oldPath newPath : Path}
    (h : storage.getFullPath oldPath = storage.getFullPath newPath) :
    SameFiles storage (storage.exec (.rename oldPath newPath)).2 := by
  simp only [exec]
  cases hok : storage.rename oldPath newPath with
  | error cause => exact sameFiles_afterFailedRename storage newPath cause
  | ok moved =>
    unfold rename at hok
    split_ifs at hok with hold hnew hsame
    · cases hok
      exact .refl _
    · dsimp only at hok
      split at hok
      · cases hok
      rename_i made hmade
      obtain ⟨hfiles, hkeeps, -⟩ := ensureDirectoryExists_ok hmade
      split at hok
      · cases hok
      rename_i tree htree
      cases hok
      rw [h] at htree
      obtain ⟨-, -, ⟨-, rfl⟩ | ⟨hout, -⟩⟩ := rename_ok htree
      · exact ⟨rfl, hfiles, hkeeps⟩
      · exact absurd (List.prefix_refl _) hout

theorem validatePath_of_rename {oldPath newPath : Path}
    (h : storage.rename oldPath newPath = .ok after) :
    storage.validatePath oldPath = true ∧ storage.validatePath newPath = true := by
  unfold rename at h
  split_ifs at h with hold hnew
  · exact ⟨hold, hnew⟩
  · exact ⟨hold, hnew⟩

theorem Stores.sameFiles {content : Option Bytes} (h : Stores storage after place content)
    (hcontent : storage.tree.fileAt place = content) :
    SameFiles storage after := by
  refine ⟨h.rootDir, fun x => ?_, h.keeps⟩
  rw [h.files]
  by_cases hx : x = place
  · rw [hx, update_self, hcontent]
  · rw [update_of_ne hx]

section

variable {oldPath newPath : Path} {content : Bytes} (hold : storage.validatePath oldPath = true)
  (hnew : storage.validatePath newPath = true)
  (hne : storage.getFullPath oldPath ≠ storage.getFullPath newPath)
  (h : storage.object oldPath = some content)
include hold hnew hne h

theorem rename_undone (hout : ¬ storage.getFullPath oldPath <+: storage.getFullPath newPath)
    (hmoved : Relocates storage after (storage.getFullPath oldPath) (storage.getFullPath newPath)
      content) :
    ∃ back, after.rename newPath oldPath = .ok back ∧ back.rootDir = storage.rootDir ∧
      (∀ x, back.tree.fileAt x
        = update storage.tree.fileAt (storage.getFullPath newPath) none x) ∧
      ∀ x, storage.tree.isDirectory x = true → back.tree.isDirectory x = true := by
  have hfull := Rearranges.getFullPath hmoved
  have hvalid : ∀ path, after.validatePath path = storage.validatePath path := fun path =>
    validatePath_congr hmoved.rootDir
  have hobject : after.object newPath = some content := by
    rw [object, hfull, hmoved.files, update_self]
  have hplace : storage.getFullPath oldPath ≠ [] := fileAt_ne_nil h
  have hparent : storage.tree.isDirectory (storage.getFullPath oldPath).dropLast = true := by
    have hnode : storage.tree.node ((storage.getFullPath oldPath).dropLast
        ++ [(storage.getFullPath oldPath).getLast hplace]) ≠ none := by
      rw [List.dropLast_append_getLast, fileAt_eq_some.mp h]
      simp
    exact isDirectory_eq_true.mpr (storage.tree.node_parent _ _ hnode)
  have hold_free : after.tree.isDirectory (after.getFullPath oldPath) = false := by
    rw [hfull]
    cases hdir : after.tree.isDirectory (storage.getFullPath oldPath) with
    | false => rfl
    | true =>
      exfalso
      rcases hmoved.adds _ hdir with hdir | hpre
      · rw [isDirectory_eq_false_of_fileAt h] at hdir
        simp at hdir
      · exact hout (hpre.trans (List.dropLast_prefix _))
  have hclear : after.tree.throughFile (after.getFullPath oldPath).dropLast = false := by
    rw [hfull]
    exact throughFile_eq_false_of_isDirectory (hmoved.keeps _ hparent)
  have hne' : after.getFullPath newPath ≠ after.getFullPath oldPath := by
    rw [hfull, hfull]
    exact Ne.symm hne
  obtain ⟨back, hback⟩ := rename_succeeds ((hvalid newPath).trans hnew) ((hvalid oldPath).trans hold)
    hne' hobject hold_free hclear
  obtain ⟨hrelocates, -⟩ := rename_object ((hvalid newPath).trans hnew)
    ((hvalid oldPath).trans hold) hne' hobject hback
  refine ⟨back, hback, hrelocates.rootDir.trans hmoved.rootDir, fun x => ?_, fun x hx =>
    hrelocates.keeps x (hmoved.keeps x hx)⟩
  rw [hrelocates.files, hfull, hfull]
  by_cases hx : x = storage.getFullPath oldPath
  · rw [hx, update_self, update_of_ne hne]
    exact h.symm
  rw [update_of_ne hx]
  by_cases hx' : x = storage.getFullPath newPath
  · rw [hx', update_self, update_self]
  · rw [update_of_ne hx', update_of_ne hx', hmoved.files, update_of_ne hx', update_of_ne hx]

theorem rename_back (hfree : storage.object newPath = none)
    (hout : ¬ storage.getFullPath oldPath <+: storage.getFullPath newPath)
    (hmoved : Relocates storage after (storage.getFullPath oldPath) (storage.getFullPath newPath)
      content) :
    ∃ back, after.rename newPath oldPath = .ok back ∧ SameFiles storage back := by
  obtain ⟨back, hback, hroot, hfiles, hkeeps⟩ := rename_undone hold hnew hne h hout hmoved
  refine ⟨back, hback, hroot, fun x => ?_, hkeeps⟩
  rw [hfiles]
  by_cases hx : x = storage.getFullPath newPath
  · rw [hx, update_self]
    exact hfree.symm
  · rw [update_of_ne hx]

end

theorem read_eq_ok {content : Bytes} :
    storage.read path = .ok content ↔
      storage.validatePath path = true ∧ storage.object path = some content := by
  unfold read object stat
  by_cases hvalid : storage.validatePath path = true
  · cases hnode : storage.tree.node (storage.getFullPath path) with
    | none => simp [hvalid, hnode, fileAt]
    | some node => cases node <;> simp [hvalid, hnode, fileAt]
  · simp [hvalid]

theorem Relocates.read_target {oldPath newPath : Path} {content : Bytes}
    (h : Relocates storage after (storage.getFullPath oldPath) (storage.getFullPath newPath) content)
    (hvalid : storage.validatePath newPath = true) : after.read newPath = .ok content := by
  have hplace := Rearranges.getFullPath h newPath
  rw [read_eq_ok, validatePath, object, hplace, h.rootDir, h.files, update_self]
  exact ⟨hvalid, rfl⟩

theorem read_same_iff {content : Bytes} (hroot : after.rootDir = storage.rootDir)
    (hread : storage.read path = .ok content) :
    after.read path = storage.read path ↔
      after.tree.fileAt (storage.getFullPath path) = storage.tree.fileAt (storage.getFullPath path) := by
  have hplace : after.getFullPath path = storage.getFullPath path := by
    rw [getFullPath, getFullPath, hroot]
  obtain ⟨hvalid, hobject⟩ := read_eq_ok.mp hread
  have hvalid' := (validatePath_congr hroot).trans hvalid
  rw [hread, read_eq_ok, object, hplace, ← object, hobject]
  exact and_iff_right hvalid'


theorem getSize_object {content : Bytes} (hvalid : storage.validatePath path = true)
    (h : storage.object path = some content) : storage.getSize path = .ok content.length := by
  have hnode := fileAt_eq_some.mp h
  simp [getSize, hvalid, stat, hnode]

theorem readAt_object {content : Bytes} (hvalid : storage.validatePath path = true)
    (h : storage.object path = some content) {size offset : Int} (hsize : 0 < size)
    (hoffset : 0 ≤ offset) :
    storage.readAt path size offset = .ok ((content.drop offset.toNat).take size.toNat) := by
  have hnode := fileAt_eq_some.mp h
  simp [readAt, hvalid, stat, hnode, Int.not_le.mpr hsize, Int.not_lt.mpr hoffset]

end LocalStorage

end FsServer
