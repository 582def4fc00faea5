import FsServer.Lib.FileTree

/-!
# Trees with the same files

One tree has the files of another and all its directories, and perhaps more directories. The calls
keep it that way, as long as a rename does not meet a directory that only the first tree has.
-/

namespace FsServer.Lib.FileTree

variable {N B : Type}

/-- The same files, and no directory of `lean` is missing in `full`. -/
structure Covers (full lean : FileTree N B) : Prop where
  files : ∀ path, full.fileAt path = lean.fileAt path
  directories : ∀ path, lean.isDirectory path = true → full.isDirectory path = true

/-- At and below the path there is no directory that only `full` has. -/
def Agrees (full lean : FileTree N B) (path : List N) : Prop :=
  ∀ below, path <+: below → full.isDirectory below = true → lean.isDirectory below = true

/-- The tree after a call: a call that fails changes nothing. -/
def after (tree : FileTree N B) : Except OsError (FileTree N B) → FileTree N B
  | .ok changed => changed
  | .error _ => tree

@[simp]
theorem after_ok (tree changed : FileTree N B) : tree.after (.ok changed) = changed := rfl

@[simp]
theorem after_error (tree : FileTree N B) (cause : OsError) : tree.after (.error cause) = tree := rfl

variable {full lean : FileTree N B} {path : List N}

theorem Covers.refl (tree : FileTree N B) : tree.Covers tree := ⟨fun _ => rfl, fun _ h => h⟩

theorem Covers.throughFile (h : full.Covers lean) (path : List N) :
    full.throughFile path = lean.throughFile path := by
  unfold FileTree.throughFile
  simp only [h.files]

theorem Covers.missing (h : full.Covers lean) (path : List N) :
    full.missing path = lean.missing path := by
  rw [FileTree.missing, FileTree.missing, h.throughFile]

theorem covers_iff :
    full.Covers lean ↔ ∀ path, full.node path = lean.node path ∨
      full.node path = some .directory ∧ lean.node path = none := by
  constructor
  · intro h path
    cases hlean : lean.node path with
    | some node =>
      refine .inl ?_
      cases node with
      | directory => exact isDirectory_eq_true.mp (h.directories path (isDirectory_eq_true.mpr hlean))
      | file content => exact fileAt_eq_some.mp ((h.files path).trans (fileAt_eq_some.mpr hlean))
    | none =>
      rcases hfull : full.node path with _ | ⟨_ | content⟩
      · exact .inl rfl
      · exact .inr ⟨rfl, rfl⟩
      · have hfile := (h.files path).symm.trans (fileAt_eq_some.mpr hfull)
        rw [(node_eq_none_iff.mp hlean).1] at hfile
        cases hfile
  · intro h
    refine ⟨fun path => ?_, fun path hdir => ?_⟩
    · rcases h path with hsame | ⟨hdir, hnone⟩
      · exact fileAt_congr hsame
      · rw [fileAt_eq_none_of_isDirectory (isDirectory_eq_true.mpr hdir),
          (node_eq_none_iff.mp hnone).1]
    · rcases h path with hsame | ⟨hfull, -⟩
      · rwa [isDirectory_congr hsame]
      · exact isDirectory_eq_true.mpr hfull

theorem Covers.node_eq_none (h : full.Covers lean) (hnone : full.node path = none) :
    lean.node path = none :=
  (covers_iff.mp h path).elim (fun hsame => hsame ▸ hnone) And.right

theorem Covers.node_eq_of_free (h : full.Covers lean) (hfree : full.isDirectory path = false) :
    full.node path = lean.node path :=
  (covers_iff.mp h path).resolve_right fun hdir => by
    rw [isDirectory_eq_true.mpr hdir.1] at hfree
    cases hfree

theorem Covers.of_nodes {full' lean' : FileTree N B} (h : full.Covers lean)
    (hnodes : ∀ path, full'.node path = lean'.node path ∨
      ∃ other, full'.node path = full.node other ∧ lean'.node path = lean.node other) :
    full'.Covers lean' := by
  refine covers_iff.mpr fun path => ?_
  rcases hnodes path with hsame | ⟨other, hfull, hlean⟩
  · exact .inl hsame
  · rw [hfull, hlean]
    exact covers_iff.mp h other

/-- Two calls that both succeed, or fail for the same reason. -/
def SameReply : Except OsError (FileTree N B) → Except OsError (FileTree N B) → Prop
  | .ok _, .ok _ => True
  | .error cause, .error other => cause = other
  | _, _ => False

theorem SameReply.cases {result result' : Except OsError (FileTree N B)}
    (h : SameReply result result') :
    (∃ tree tree', result = .ok tree ∧ result' = .ok tree') ∨
      ∃ cause, result = .error cause ∧ result' = .error cause := by
  cases result with
  | ok tree =>
    cases result' with
    | ok tree' => exact Or.inl ⟨tree, tree', rfl, rfl⟩
    | error cause => exact h.elim
  | error cause =>
    cases result' with
    | ok tree' => exact h.elim
    | error cause' =>
      obtain rfl : cause = cause' := h
      exact Or.inr ⟨cause, rfl, rfl⟩

/-! ### Directories without a file -/

variable {tree : FileTree N B}

section Bare

variable [DecidableEq N]

def fileless (tree : FileTree N B) (path : List N) : Bool :=
  tree.entries.all fun below => !decide (path <+: below) || (tree.fileAt below).isNone

theorem fileless_eq_true :
    tree.fileless path = true ↔ ∀ below, path <+: below → tree.fileAt below = none := by
  simp only [fileless, List.all_eq_true, Bool.or_eq_true, Bool.not_eq_true', decide_eq_false_iff_not,
    Option.isNone_iff_eq_none]
  constructor
  · intro h below hpre
    by_contra hfile
    have hnode : tree.node below ≠ none := fun hnone => hfile (node_eq_none_iff.mp hnone).1
    rcases h below (tree.mem_entries below hnode) with hout | hnone
    · exact hout hpre
    · exact hfile hnone
  · intro h below _
    by_cases hpre : path <+: below
    · exact Or.inr (h below hpre)
    · exact Or.inl hpre

def Bare (tree : FileTree N B) (path : List N) : Prop :=
  tree.isDirectory path = true ∧ tree.fileless path = true

theorem file_of_not_bare (hbare : ¬ tree.Bare path) (hdir : tree.isDirectory path = true) :
    ∃ below, path <+: below ∧ path ≠ below ∧ tree.fileAt below ≠ none := by
  by_contra hnone
  refine hbare ⟨hdir, fileless_eq_true.mpr fun below hpre => ?_⟩
  by_contra hfile
  refine hnone ⟨below, hpre, ?_, hfile⟩
  rintro rfl
  exact hfile (fileAt_eq_none_of_isDirectory hdir)

theorem Covers.isDirectory_eq (h : full.Covers lean) (hbare : ¬ full.Bare path) :
    full.isDirectory path = lean.isDirectory path := by
  rw [Bool.eq_iff_iff]
  refine ⟨fun hdir => ?_, h.directories path⟩
  obtain ⟨below, hpre, hne, hfile⟩ := file_of_not_bare hbare hdir
  rw [h.files] at hfile
  have hnode : lean.node below ≠ none := fun hnone => hfile (node_eq_none_iff.mp hnone).1
  exact isDirectory_eq_true.mpr (lean.node_of_prefix hpre hne hnode)

omit [DecidableEq N] in
theorem Covers.node_eq_of_isDirectory_eq (h : full.Covers lean)
    (hdir : full.isDirectory path = lean.isDirectory path) : full.node path = lean.node path := by
  refine (covers_iff.mp h path).resolve_right fun hnode => ?_
  rw [isDirectory_eq_true.mpr hnode.1] at hdir
  rw [isDirectory_eq_true.mp hdir.symm] at hnode
  cases hnode.2

theorem Covers.agrees (h : full.Covers lean)
    (hbare : ∀ below, path <+: below → ¬ full.Bare below) : full.Agrees lean path := by
  intro below hpre hdir
  rw [← h.isDirectory_eq (hbare below hpre)]
  exact hdir

end Bare

/-! ### The calls -/

section Calls

variable [DecidableEq N]

theorem Covers.putDirectories (h : full.Covers lean) (hclear : full.throughFile path = false) :
    (full.putDirectories path).Covers (lean.putDirectories path) := by
  have hlean : lean.throughFile path = false := (h.throughFile path).symm.trans hclear
  refine ⟨fun other => ?_, fun other hother => ?_⟩
  · rw [fileAt_putDirectories hclear, fileAt_putDirectories hlean, h.files]
  · rw [isDirectory_putDirectories, Bool.or_eq_true] at hother ⊢
    exact hother.imp id (h.directories other)

omit [DecidableEq N] in
theorem isDirectory_above {above : List N} (h : tree.isDirectory path = true)
    (hpre : above <+: path) : tree.isDirectory above = true := by
  by_cases heq : above = path
  · rw [heq]
    exact h
  · have hnode : tree.node path ≠ none := by
      rw [isDirectory_eq_true.mp h]
      exact Option.some_ne_none _
    exact isDirectory_eq_true.mpr (tree.node_of_prefix hpre heq hnode)

theorem Covers.mkdirAll (h : full.Covers lean) (path : List N) :
    (full.after (full.mkdirAll path)).Covers (lean.after (lean.mkdirAll path)) := by
  rw [mkdirAll_eq, mkdirAll_eq, ← h.throughFile]
  split_ifs with hfile
  · exact h
  · exact h.putDirectories (Bool.eq_false_iff.mpr hfile)

variable {full' lean' : FileTree N B}

theorem Covers.of_update {node : Option (Node B)} (h : full.Covers lean)
    (hfull : full'.node = Function.update full.node path node)
    (hlean : lean'.node = Function.update lean.node path node) : full'.Covers lean' := by
  refine h.of_nodes fun other => ?_
  rw [hfull, hlean]
  by_cases heq : other = path
  · rw [heq, Function.update_self, Function.update_self]
    exact .inl rfl
  · rw [Function.update_of_ne heq, Function.update_of_ne heq]
    exact .inr ⟨other, rfl, rfl⟩

theorem Covers.writeFile (h : full.Covers lean)
    (hsame : full.isDirectory path = lean.isDirectory path)
    (hparent : full.isDirectory path.dropLast = lean.isDirectory path.dropLast) (content : B) :
    SameReply (full.writeFile path content) (lean.writeFile path content) ∧
      (full.after (full.writeFile path content)).Covers
        (lean.after (lean.writeFile path content)) := by
  unfold FileTree.writeFile
  by_cases hfree : full.isDirectory path = false
  · have hfree' : lean.isDirectory path = false := hsame ▸ hfree
    rw [dif_pos hfree, dif_pos hfree']
    by_cases hplace : path ≠ [] ∧ full.isDirectory path.dropLast = true
    · rw [dif_pos hplace, dif_pos (hparent ▸ hplace)]
      exact ⟨trivial, h.of_update rfl rfl⟩
    · rw [dif_neg hplace, dif_neg (hparent ▸ hplace)]
      exact ⟨h.missing path, h⟩
  · have hfree' : ¬ lean.isDirectory path = false := hsame ▸ hfree
    rw [dif_neg hfree, dif_neg hfree']
    exact ⟨rfl, h⟩

omit [DecidableEq N] in
theorem Covers.dir_of_lean (h : full.Covers lean) (hfull : full.isDirectory path = true)
    (hlean : lean.node path ≠ none) : lean.isDirectory path = true := by
  rcases covers_iff.mp h path with hsame | hnode
  · rwa [← isDirectory_congr hsame]
  · exact absurd hnode.2 hlean

omit [DecidableEq N] in
theorem Covers.shrink {smaller : FileTree N B} (h : full.Covers lean)
    (hnodes : ∀ path, smaller.node path = lean.node path ∨
      smaller.node path = none ∧ lean.fileAt path = none) : full.Covers smaller := by
  refine ⟨fun path => ?_, fun path hdir => ?_⟩
  · rcases hnodes path with hsame | ⟨hnone, hfile⟩
    · rw [h.files, fileAt_congr hsame]
    · rw [h.files, hfile, (node_eq_none_iff.mp hnone).1]
  · rcases hnodes path with hsame | ⟨hnone, -⟩
    · exact h.directories path (isDirectory_congr hsame ▸ hdir)
    · rw [isDirectory_eq_true, hnone] at hdir
      cases hdir

theorem occupied_eq_false_iff :
    tree.occupied path = false ↔ ∀ below, path <+: below → path ≠ below → tree.node below = none := by
  constructor
  · intro h below hpre hne
    exact node_eq_none_of_not_occupied h hpre hne
  · intro h
    simp only [occupied, List.any_eq_false, Bool.and_eq_true, decide_eq_true_eq, not_and,
      Bool.not_eq_true, Option.isSome_eq_false_iff, Option.isNone_iff_eq_none]
    exact fun below _ hbelow => h below hbelow.1 hbelow.2

structure Removable (tree : FileTree N B) (path : List N) : Prop where
  node : tree.node path ≠ none
  ne_nil : path ≠ []
  empty : tree.occupied path = false

theorem remove_removable (h : tree.Removable path) :
    ∃ changed, tree.remove path = .ok changed ∧
      changed.node = Function.update tree.node path none := by
  unfold FileTree.remove
  cases hnode : tree.node path with
  | none => exact absurd hnode h.node
  | some node =>
    dsimp only
    rw [dif_neg h.ne_nil, dif_pos h.empty]
    exact ⟨_, rfl, rfl⟩

theorem remove_not_removable (h : ¬ tree.Removable path) :
    ∃ cause, tree.remove path = .error cause := by
  unfold FileTree.remove
  cases hnode : tree.node path with
  | none => exact ⟨_, rfl⟩
  | some node =>
    dsimp only
    split_ifs with hnil hempty
    · exact ⟨_, rfl⟩
    · exact absurd ⟨by rw [hnode]; exact Option.some_ne_none _, hnil, hempty⟩ h
    · exact ⟨_, rfl⟩

theorem Covers.remove (h : full.Covers lean) (path : List N) :
    (full.after (full.remove path)).Covers (lean.after (lean.remove path)) := by
  by_cases hfull : full.Removable path
  · obtain ⟨full', hremoved, hnode⟩ := remove_removable hfull
    rw [hremoved, after_ok]
    by_cases hlean : lean.Removable path
    · obtain ⟨lean', hremoved', hnode'⟩ := remove_removable hlean
      rw [hremoved', after_ok]
      exact h.of_update hnode hnode'
    · -- nothing is at the path in the other tree
      obtain ⟨cause, hfailed⟩ := remove_not_removable hlean
      rw [hfailed, after_error]
      have hnone : lean.node path = none := by
        by_contra hsome
        refine hlean ⟨hsome, hfull.ne_nil, occupied_eq_false_iff.mpr fun below hpre hne => ?_⟩
        exact h.node_eq_none (occupied_eq_false_iff.mp hfull.empty below hpre hne)
      have hsame : lean.node = Function.update lean.node path none := by
        rw [← hnone, Function.update_eq_self]
      exact h.of_update hnode hsame
  · obtain ⟨cause, hfailed⟩ := remove_not_removable hfull
    rw [hfailed, after_error]
    by_cases hlean : lean.Removable path
    · obtain ⟨lean', hremoved', hnode'⟩ := remove_removable hlean
      rw [hremoved', after_ok]
      -- it is a directory, and not empty in the first tree
      have hdir : full.isDirectory path = true := by
        by_contra hfree
        rw [Bool.not_eq_true] at hfree
        refine hfull ⟨?_, hlean.ne_nil, occupied_eq_false_iff.mpr fun below hpre hne => ?_⟩
        · rw [h.node_eq_of_free hfree]
          exact hlean.node
        · by_contra hbelow
          rw [isDirectory_eq_true.mpr (full.node_of_prefix hpre hne hbelow)] at hfree
          exact Bool.noConfusion hfree
      refine h.shrink fun other => ?_
      rw [hnode']
      by_cases heq : other = path
      · rw [heq, Function.update_self, ← h.files, fileAt_eq_none_of_isDirectory hdir]
        exact .inr ⟨rfl, rfl⟩
      · exact .inl (Function.update_of_ne heq ..)
    · obtain ⟨cause', hfailed'⟩ := remove_not_removable hlean
      rw [hfailed', after_error]
      exact h

variable {below : List N}

theorem occupied_of_fileAt (hpre : path <+: below) (hne : path ≠ below)
    (hfile : tree.fileAt below ≠ none) : tree.occupied path ≠ false := by
  intro hempty
  exact hfile (node_eq_none_iff.mp (occupied_eq_false_iff.mp hempty below hpre hne)).1

theorem Covers.remove_reply (h : full.Covers lean) (hbare : ¬ full.Bare path) :
    SameReply (full.remove path) (lean.remove path) := by
  have hsame := h.node_eq_of_isDirectory_eq (h.isDirectory_eq hbare)
  unfold FileTree.remove
  cases hnode : full.node path with
  | none =>
    rw [← hsame, hnode]
    exact h.missing path
  | some node =>
    rw [← hsame, hnode]
    dsimp only
    by_cases hnil : path = []
    · rw [dif_pos hnil, dif_pos hnil]
      exact rfl
    · rw [dif_neg hnil, dif_neg hnil]
      cases node with
      | directory =>
        obtain ⟨below, hpre, hne, hfile⟩ := file_of_not_bare hbare (isDirectory_eq_true.mpr hnode)
        rw [dif_neg (occupied_of_fileAt hpre hne hfile),
          dif_neg (occupied_of_fileAt hpre hne (h.files below ▸ hfile))]
        exact rfl
      | file content =>
        have hfile := fileAt_eq_some.mpr hnode
        have hfile' : lean.fileAt path = some content := (h.files path).symm.trans hfile
        rw [dif_pos (not_occupied_of_fileAt hfile), dif_pos (not_occupied_of_fileAt hfile')]
        trivial

theorem node_removeAll (tree : FileTree N B) (path above : List N) (hne : path ≠ []) :
    (tree.after (tree.removeAll path)).node above =
      if path <+: above then none else tree.node above := by
  cases hresult : tree.removeAll path with
  | ok changed => exact removeAll_ok hresult above
  | error cause =>
    change tree.node above = _
    unfold FileTree.removeAll at hresult
    split at hresult
    · rename_i hnone
      split_ifs with hpre
      · by_cases heq : path = above
        · rw [← heq]
          exact hnone
        · by_contra hsome
          rw [tree.node_of_prefix hpre heq hsome] at hnone
          cases hnone
      · rfl
    · rw [dif_neg hne] at hresult
      cases hresult

theorem Covers.removeAll (h : full.Covers lean) (path : List N) :
    (full.after (full.removeAll path)).Covers (lean.after (lean.removeAll path)) := by
  by_cases hnil : path = []
  · subst hnil
    have hroot : ∀ tree : FileTree N B, tree.after (tree.removeAll []) = tree := by
      intro tree
      unfold FileTree.removeAll
      rw [tree.node_root]
      rfl
    rw [hroot, hroot]
    exact h
  · refine h.of_nodes fun other => ?_
    rw [node_removeAll _ _ _ hnil, node_removeAll _ _ _ hnil]
    split_ifs
    · exact .inl rfl
    · exact .inr ⟨other, rfl, rfl⟩

/-! ### Renaming -/

/-- The rename takes place, and not onto itself. -/
structure Moves (tree : FileTree N B) (source target : List N) : Prop where
  node : tree.node source ≠ none
  free : tree.isDirectory target = false
  ne : source ≠ target
  out : ¬ source <+: target
  ne_nil : target ≠ []
  parent : tree.isDirectory target.dropLast = true
  fits : tree.isDirectory source = true → tree.node target = none

variable {source target : List N}

theorem rename_moves (h : tree.Moves source target) :
    ∃ changed, tree.rename source target = .ok changed ∧ ∀ path, changed.node path =
      if target <+: path then tree.node (source ++ path.drop target.length)
      else if source <+: path then none else tree.node path := by
  unfold FileTree.rename
  cases hnode : tree.node source with
  | none => exact absurd hnode h.node
  | some node =>
    dsimp only
    rw [if_neg (Bool.eq_false_iff.mp h.free), if_neg h.ne, dif_neg h.out,
      dif_pos ⟨h.ne_nil, h.parent⟩]
    cases node with
    | directory =>
      rw [h.fits (isDirectory_eq_true.mpr hnode)]
      exact ⟨_, rfl, fun _ => rfl⟩
    | file content => exact ⟨_, rfl, fun _ => rfl⟩

theorem rename_not_moves (h : ¬ tree.Moves source target) :
    tree.after (tree.rename source target) = tree := by
  cases hresult : tree.rename source target with
  | error cause => rfl
  | ok changed =>
    obtain ⟨hfree, hnode, hcases⟩ := rename_ok hresult
    rcases hcases with ⟨-, rfl⟩ | ⟨hout, hne, hparent, hfits, rfl⟩
    · rfl
    · refine absurd ⟨hnode, hfree, ?_, hout, hne, isDirectory_eq_true.mpr hparent, hfits⟩ h
      rintro rfl
      exact hout List.prefix_rfl

section Rename

variable (h : full.Covers lean)
  (hparent : full.isDirectory target.dropLast = lean.isDirectory target.dropLast)

include h hparent

omit [DecidableEq N]

/-- A rename that takes place in the tree with more directories does so in the other one, unless
there is nothing to rename there. -/
theorem Covers.moves
    (hmoves : full.Moves source target) (hnode : lean.node source ≠ none) :
    lean.Moves source target where
  node := hnode
  free := by
    rw [← isDirectory_congr (h.node_eq_of_free hmoves.free)]
    exact hmoves.free
  ne := hmoves.ne
  out := hmoves.out
  ne_nil := hmoves.ne_nil
  parent := hparent ▸ hmoves.parent
  fits := fun hdir => h.node_eq_none (hmoves.fits (h.directories source hdir))

theorem Covers.moves_full
    (htarget : full.isDirectory target = true → lean.isDirectory target = true)
    (hmoves : lean.Moves source target) : full.Moves source target := by
  have hfree : full.isDirectory target = false := by
    by_contra hdir
    rw [Bool.not_eq_false] at hdir
    have hboth := htarget hdir
    rw [hmoves.free] at hboth
    exact Bool.noConfusion hboth
  refine ⟨fun hnone => hmoves.node (h.node_eq_none hnone), hfree, hmoves.ne, hmoves.out,
    hmoves.ne_nil, hparent.trans hmoves.parent, fun hdir => ?_⟩
  rw [h.node_eq_of_free hfree]
  exact hmoves.fits (h.dir_of_lean hdir hmoves.node)

theorem Covers.node_source
    (hfull : full.Moves source target) (hlean : ¬ lean.Moves source target) :
    lean.node source = none ∧ full.isDirectory source = true := by
  have hnone : lean.node source = none := by
    by_contra hsome
    exact hlean (h.moves hparent hfull hsome)
  refine ⟨hnone, ?_⟩
  by_contra hfree
  rw [Bool.not_eq_true] at hfree
  rw [← h.node_eq_of_free hfree] at hnone
  exact hfull.node hnone

end Rename

omit [DecidableEq N] in
theorem node_eq_none_below (h : tree.node path = none) (hpre : path <+: below) :
    tree.node below = none := by
  by_contra hsome
  by_cases heq : path = below
  · exact hsome (heq ▸ h)
  · rw [tree.node_of_prefix hpre heq hsome] at h
    cases h

theorem Covers.rename (h : full.Covers lean)
    (htarget : full.isDirectory target = true → lean.isDirectory target = true)
    (hparent : full.isDirectory target.dropLast = lean.isDirectory target.dropLast) :
    (full.after (full.rename source target)).Covers (lean.after (lean.rename source target)) := by
  by_cases hfull : full.Moves source target
  · obtain ⟨full', hrenamed, hnodes⟩ := rename_moves hfull
    rw [hrenamed, after_ok]
    by_cases hlean : lean.Moves source target
    · obtain ⟨lean', hrenamed', hnodes'⟩ := rename_moves hlean
      rw [hrenamed', after_ok]
      refine h.of_nodes fun path => ?_
      rw [hnodes, hnodes']
      split_ifs
      · exact .inr ⟨_, rfl, rfl⟩
      · exact .inl rfl
      · exact .inr ⟨path, rfl, rfl⟩
    · rw [rename_not_moves hlean]
      obtain ⟨hnone, hdir⟩ := h.node_source hparent hfull hlean
      refine covers_iff.mpr fun path => ?_
      rw [hnodes]
      split_ifs with hunder hbelow
      · rw [node_eq_none_below (h.node_eq_none (hfull.fits hdir)) hunder,
          ← node_eq_none_below hnone (List.prefix_append source (path.drop target.length))]
        exact (covers_iff.mp h _).imp_right fun hnode => ⟨hnode.1, rfl⟩
      · exact .inl (node_eq_none_below hnone hbelow).symm
      · exact covers_iff.mp h path
  · have hlean : ¬ lean.Moves source target := fun hmoves =>
      hfull (h.moves_full hparent htarget hmoves)
    rw [rename_not_moves hfull, rename_not_moves hlean]
    exact h

/-- Every directory that only `full'` has is one that only `full` has. -/
def NoNewExcess (full lean full' lean' : FileTree N B) : Prop :=
  ∀ path, full'.isDirectory path = true →
    lean'.isDirectory path = true ∨ full.isDirectory path = true ∧ lean.isDirectory path = false

omit [DecidableEq N] in
theorem NoNewExcess.isDirectory (h : NoNewExcess full lean full' lean')
    (hpath : full.isDirectory path = true → lean.isDirectory path = true)
    (hdir : full'.isDirectory path = true) : lean'.isDirectory path = true := by
  rcases h path hdir with hlean | ⟨hfull, hlean⟩
  · exact hlean
  · rw [hpath hfull] at hlean
    exact Bool.noConfusion hlean

omit [DecidableEq N] in
theorem Agrees.of_noNewExcess (h : full.Agrees lean path)
    (hexcess : NoNewExcess full lean full' lean') : full'.Agrees lean' path :=
  fun below hpre => hexcess.isDirectory (h below hpre)

omit [DecidableEq N] in
theorem NoNewExcess.trans {middle middle' : FileTree N B} (h : NoNewExcess full lean middle middle')
    (h' : NoNewExcess middle middle' full' lean') :
    NoNewExcess full lean full' lean' := by
  intro path hpath
  rcases h' path hpath with hlean | ⟨hmiddle, hmiddle'⟩
  · exact Or.inl hlean
  · rcases h path hmiddle with hlean | hexcess
    · rw [hlean] at hmiddle'
      exact Bool.noConfusion hmiddle'
    · exact Or.inr hexcess

omit [DecidableEq N] in
theorem NoNewExcess.rfl (full lean : FileTree N B) : NoNewExcess full lean full lean := by
  intro path hpath
  cases hlean : lean.isDirectory path with
  | true => exact Or.inl (Eq.refl _)
  | false => exact Or.inr ⟨hpath, Eq.refl _⟩

section Renamed

variable (h : full.Covers lean)
  (hparent : full.isDirectory target.dropLast = lean.isDirectory target.dropLast)

include h hparent

/-- A rename of what the trees agree on moves no directory in one of them only. -/
theorem Covers.rename_excess (hsource : full.Agrees lean source)
    (htarget : full.isDirectory target = true → lean.isDirectory target = true) :
    NoNewExcess full lean (full.after (full.rename source target))
      (lean.after (lean.rename source target)) := by
  by_cases hfull : full.Moves source target
  · have hlean : lean.Moves source target := by
      by_contra hlean
      obtain ⟨hnone, hdir⟩ := h.node_source hparent hfull hlean
      rw [isDirectory_eq_true.mp (hsource source List.prefix_rfl hdir)] at hnone
      cases hnone
    obtain ⟨full', hrenamed, hnodes⟩ := rename_moves hfull
    obtain ⟨lean', hrenamed', hnodes'⟩ := rename_moves hlean
    rw [hrenamed, hrenamed', after_ok, after_ok]
    intro path hpath
    by_cases hunder : target <+: path
    · rw [isDirectory_congr ((hnodes path).trans (if_pos hunder))] at hpath
      rw [isDirectory_congr ((hnodes' path).trans (if_pos hunder))]
      exact Or.inl (hsource _ (List.prefix_append _ _) hpath)
    · by_cases hbelow : source <+: path
      · rw [isDirectory_eq_true, hnodes, if_neg hunder, if_pos hbelow] at hpath
        cases hpath
      · rw [isDirectory_congr
          (((hnodes path).trans (if_neg hunder)).trans (if_neg hbelow))] at hpath
        rw [isDirectory_congr (((hnodes' path).trans (if_neg hunder)).trans (if_neg hbelow))]
        exact NoNewExcess.rfl full lean path hpath
  · have hlean : ¬ lean.Moves source target := fun hmoves =>
      hfull (h.moves_full hparent htarget hmoves)
    rw [rename_not_moves hfull, rename_not_moves hlean]
    exact NoNewExcess.rfl full lean

theorem Covers.rename_reply (hsource : full.node source = lean.node source)
    (htarget : full.node target = lean.node target) :
    SameReply (full.rename source target) (lean.rename source target) := by
  unfold FileTree.rename
  rw [← hsource]
  cases hnode : full.node source with
  | none => exact h.missing source
  | some node =>
    simp only [isDirectory_congr htarget, hparent, ← htarget]
    split_ifs
    · exact rfl
    · trivial
    · exact rfl
    · cases node with
      | file content => trivial
      | directory => cases full.node target <;> trivial
    · exact h.missing target

end Renamed

theorem isDirectory_source {renamed : FileTree N B}
    (hrename : tree.rename source target = .ok renamed) (hdir : renamed.isDirectory source = true) :
    source = target ∧ renamed = tree := by
  obtain ⟨hfree, hnode, hcases⟩ := rename_ok hrename
  rcases hcases with hsame | ⟨hout, hne, hparent, -, rfl⟩
  · exact hsame
  · exfalso
    have habove : ¬ target <+: source := by
      intro hpre
      by_cases heq : target = source
      · exact hout (heq ▸ List.prefix_rfl)
      · rw [isDirectory_eq_true.mpr (tree.node_of_prefix hpre heq hnode)] at hfree
        exact Bool.noConfusion hfree
    have hnone : (tree.moveTree source target hout hne hparent).node source = none := by
      change (if target <+: source then _ else if source <+: source then none else _) = none
      rw [if_neg habove, if_pos List.prefix_rfl]
    rw [isDirectory_eq_true, hnone] at hdir
    cases hdir

theorem isDirectory_source_back
    (hsource : full.isDirectory source = true → lean.isDirectory source = true)
    (hfull : full.rename source target = .ok full') (hlean : lean.rename source target = .ok lean')
    (hdir : full'.isDirectory source = true) : lean'.isDirectory source = true := by
  obtain ⟨rfl, rfl⟩ := isDirectory_source hfull hdir
  obtain ⟨-, -, hcases⟩ := rename_ok hlean
  rcases hcases with ⟨-, rfl⟩ | ⟨hout, -⟩
  · exact hsource hdir
  · exact absurd List.prefix_rfl hout

/-! ### Removing a directory that has no file -/

/-- The directory at the path is removed with the directories below, unless there is a file. -/
def prune (tree : FileTree N B) (path : List N) : FileTree N B :=
  if h : path ≠ [] ∧ tree.fileless path = true then tree.dropTree path h.1 else tree

theorem Covers.prune (h : full.Covers lean) (path : List N) : full.Covers (lean.prune path) := by
  unfold FileTree.prune
  split_ifs with hempty
  · refine h.shrink fun other => ?_
    by_cases hpre : path <+: other
    · exact .inr ⟨if_pos hpre, fileless_eq_true.mp hempty.2 other hpre⟩
    · exact .inl (if_neg hpre)
  · exact h

end Calls

end FsServer.Lib.FileTree
