import Mathlib.Data.List.Infix
import Mathlib.Logic.Function.Basic

/-!
# A tree of directories and files

The operating system's tree as the file calls of a program see it: a finite partial map from paths,
which are lists of names below `/`, to nodes. Every node other than the root hangs below a
directory, and the structure carries that fact, so a file can be placed only where its parent is a
directory and a directory goes away only with everything below it. There are no symbolic links.
-/

namespace FsServer.Lib

variable {N B : Type}

inductive Node (B : Type) where
  | directory
  | file (content : B)

inductive OsError where
  | notExist
  | notDirectory
  | isDirectory
  | exist
  | notEmpty
  | invalid
  deriving DecidableEq, Repr

structure FileTree (N B : Type) where
  node : List N → Option (Node B)
  entries : List (List N)
  node_root : node [] = some .directory
  node_parent : ∀ path name, node (path ++ [name]) ≠ none → node path = some .directory
  mem_entries : ∀ path, node path ≠ none → path ∈ entries

namespace FileTree

def empty : FileTree N B where
  node path := if path.isEmpty then some .directory else none
  entries := [[]]
  node_root := rfl
  node_parent path name h := by simp at h
  mem_entries path h := by
    cases path with
    | nil => simp
    | cons name rest => simp at h

def fileAt (tree : FileTree N B) (path : List N) : Option B :=
  match tree.node path with
  | some (.file content) => some content
  | _ => none

variable {tree : FileTree N B} {path : List N} {content : B}

theorem fileAt_eq_some :
    tree.fileAt path = some content ↔ tree.node path = some (.file content) := by
  unfold fileAt
  split <;> simp_all

theorem fileAt_eq_none :
    tree.fileAt path = none ↔ ∀ content, tree.node path ≠ some (.file content) := by
  unfold fileAt
  split <;> simp_all

def isDirectory (tree : FileTree N B) (path : List N) : Bool :=
  match tree.node path with
  | some .directory => true
  | _ => false

theorem isDirectory_eq_true : tree.isDirectory path = true ↔ tree.node path = some .directory := by
  unfold isDirectory
  split <;> simp_all

theorem isDirectory_eq_false :
    tree.isDirectory path = false ↔ tree.node path ≠ some .directory := by
  rw [← Bool.not_eq_true, isDirectory_eq_true]

variable {above : List N}

theorem node_of_prefix (tree : FileTree N B) (hpre : above <+: path) (hne : above ≠ path)
    (hnode : tree.node path ≠ none) : tree.node above = some .directory := by
  obtain ⟨rest, rfl⟩ := hpre
  induction rest using List.reverseRecOn with
  | nil => simp at hne
  | append_singleton rest name ih =>
    rw [← List.append_assoc] at hnode
    have hparent := tree.node_parent _ _ hnode
    cases rest with
    | nil => simpa using hparent
    | cons first rest => exact ih (by simp) (by simp [hparent])

variable {below : List N}

theorem node_below_file (tree : FileTree N B) (hfile : tree.node path = some (.file content))
    (hpre : path <+: below) (hne : path ≠ below) :
    tree.node below = none := by
  by_contra hnode
  rw [tree.node_of_prefix hpre hne hnode] at hfile
  simp at hfile

def throughFile (tree : FileTree N B) (path : List N) : Bool :=
  path.inits.any fun above => (tree.fileAt above).isSome

theorem throughFile_eq_false :
    tree.throughFile path = false ↔ ∀ above, above <+: path → tree.fileAt above = none := by
  simp [throughFile, List.mem_inits]

def missing (tree : FileTree N B) (path : List N) : OsError :=
  if tree.throughFile path then .notDirectory else .notExist

def stat (tree : FileTree N B) (path : List N) : Except OsError (Node B) :=
  match tree.node path with
  | some node => .ok node
  | none => .error (tree.missing path)

section Calls

variable [DecidableEq N]

def putFile (tree : FileTree N B) (path : List N) (content : B) (hne : path ≠ [])
    (hparent : tree.node path.dropLast = some .directory)
    (hfree : tree.node path ≠ some .directory) : FileTree N B where
  node := Function.update tree.node path (some (.file content))
  entries := path :: tree.entries
  node_root := by
    rw [Function.update_of_ne (Ne.symm hne)]
    exact tree.node_root
  node_parent above name h := by
    by_cases hpath : above ++ [name] = path
    · subst hpath
      rw [List.dropLast_concat] at hparent
      rw [Function.update_of_ne (by simp)]
      exact hparent
    · rw [Function.update_of_ne hpath] at h
      have habove := tree.node_parent above name h
      rw [Function.update_of_ne (by rintro rfl; exact hfree habove)]
      exact habove
  mem_entries above h := by
    by_cases hpath : above = path
    · simp [hpath]
    · rw [Function.update_of_ne hpath] at h
      exact List.mem_cons_of_mem _ (tree.mem_entries above h)

def putDirectories (tree : FileTree N B) (path : List N) : FileTree N B where
  node above := if above <+: path then some .directory else tree.node above
  entries := path.inits ++ tree.entries
  node_root := by simp
  node_parent above name h := by
    by_cases hbelow : above ++ [name] <+: path
    · simp [(List.prefix_append above [name]).trans hbelow]
    · rw [if_neg hbelow] at h
      rw [tree.node_parent above name h, ite_self]
  mem_entries above h := by
    by_cases hbelow : above <+: path
    · exact List.mem_append_left _ ((List.mem_inits _ _).mpr hbelow)
    · rw [if_neg hbelow] at h
      exact List.mem_append_right _ (tree.mem_entries above h)

def drop (tree : FileTree N B) (path : List N) (hne : path ≠ [])
    (hleaf : ∀ name, tree.node (path ++ [name]) = none) : FileTree N B where
  node := Function.update tree.node path none
  entries := tree.entries
  node_root := by
    rw [Function.update_of_ne (Ne.symm hne)]
    exact tree.node_root
  node_parent above name h := by
    have hbelow : above ++ [name] ≠ path := by
      rintro rfl
      simp at h
    rw [Function.update_of_ne hbelow] at h
    rw [Function.update_of_ne (by rintro rfl; exact h (hleaf name))]
    exact tree.node_parent above name h
  mem_entries above h := by
    have hpath : above ≠ path := by
      rintro rfl
      simp at h
    rw [Function.update_of_ne hpath] at h
    exact tree.mem_entries above h

def dropTree (tree : FileTree N B) (path : List N) (hne : path ≠ []) : FileTree N B where
  node above := if path <+: above then none else tree.node above
  entries := tree.entries
  node_root := by
    rw [if_neg (by simpa using hne)]
    exact tree.node_root
  node_parent above name h := by
    by_cases hbelow : path <+: above ++ [name]
    · simp [hbelow] at h
    · rw [if_neg hbelow] at h
      rw [if_neg fun habove => hbelow (habove.trans (List.prefix_append _ _))]
      exact tree.node_parent above name h
  mem_entries above h := by
    by_cases hbelow : path <+: above
    · simp [hbelow] at h
    · rw [if_neg hbelow] at h
      exact tree.mem_entries above h

def moveTree (tree : FileTree N B) (source target : List N) (hout : ¬ source <+: target)
    (hne : target ≠ []) (hparent : tree.node target.dropLast = some .directory) :
    FileTree N B where
  node path :=
    if target <+: path then tree.node (source ++ path.drop target.length)
    else if source <+: path then none else tree.node path
  entries := tree.entries ++ tree.entries.map fun path => target ++ path.drop source.length
  node_root := by
    have hsource : source ≠ [] := by
      rintro rfl
      exact hout (List.nil_prefix)
    rw [if_neg (by simpa using hne), if_neg (by simpa using hsource)]
    exact tree.node_root
  node_parent path name h := by
    by_cases hbelow : target <+: path ++ [name]
    · rw [if_pos hbelow] at h
      rcases List.prefix_concat_iff.mp hbelow with htarget | htarget
      · rw [htarget, List.dropLast_concat] at hparent
        have hshort : ¬ target <+: path := by
          intro hle
          have := hle.length_le
          simp only [htarget, List.length_append, List.length_singleton] at this
          omega
        rw [if_neg hshort, if_neg]
        · exact hparent
        · intro hsource
          exact hout (htarget ▸ hsource.trans (List.prefix_append _ _))
      · rw [if_pos htarget]
        rw [List.drop_append_of_le_length htarget.length_le, ← List.append_assoc] at h
        exact tree.node_parent _ _ h
    · rw [if_neg hbelow] at h
      by_cases hsource : source <+: path ++ [name]
      · simp [hsource] at h
      · rw [if_neg hsource] at h
        rw [if_neg fun habove => hbelow (habove.trans (List.prefix_append _ _)),
          if_neg fun habove => hsource (habove.trans (List.prefix_append _ _))]
        exact tree.node_parent path name h
  mem_entries path h := by
    by_cases hbelow : target <+: path
    · rw [if_pos hbelow] at h
      obtain ⟨rest, rfl⟩ := hbelow
      rw [List.drop_left] at h
      refine List.mem_append_right _ (List.mem_map.mpr ⟨_, tree.mem_entries _ h, ?_⟩)
      rw [List.drop_left]
    · rw [if_neg hbelow] at h
      by_cases hsource : source <+: path
      · simp [hsource] at h
      · rw [if_neg hsource] at h
        exact List.mem_append_left _ (tree.mem_entries path h)

def occupied (tree : FileTree N B) (path : List N) : Bool :=
  tree.entries.any fun below =>
    decide (path <+: below ∧ path ≠ below) && (tree.node below).isSome

theorem node_eq_none_of_not_occupied (hempty : tree.occupied path = false) (hpre : path <+: below)
    (hne : path ≠ below) :
    tree.node below = none := by
  by_contra hnode
  have hentry := tree.mem_entries below hnode
  simp only [occupied, List.any_eq_false, Bool.and_eq_true, decide_eq_true_eq, not_and,
    Bool.not_eq_true] at hempty
  have := hempty below hentry ⟨hpre, hne⟩
  simp [hnode] at this

/-- `os.MkdirAll`. It stops at the first file on the way down, before it has created anything. -/
def mkdirAll (tree : FileTree N B) (path : List N) : Except OsError (FileTree N B) :=
  if tree.throughFile path then .error .notDirectory else .ok (tree.putDirectories path)

/-- `os.WriteFile`, and opening with `O_CREATE|O_TRUNC` followed by a complete write. -/
def writeFile (tree : FileTree N B) (path : List N) (content : B) : Except OsError (FileTree N B) :=
  if hfree : tree.isDirectory path = false then
    if hparent : path ≠ [] ∧ tree.isDirectory path.dropLast = true then
      .ok (tree.putFile path content hparent.1 (isDirectory_eq_true.mp hparent.2)
        (isDirectory_eq_false.mp hfree))
    else .error (tree.missing path)
  else .error .isDirectory

def remove (tree : FileTree N B) (path : List N) : Except OsError (FileTree N B) :=
  match tree.node path with
  | none => .error (tree.missing path)
  | some _ =>
    if hne : path = [] then .error .invalid
    else if hempty : tree.occupied path = false then
      .ok (tree.drop path hne fun name =>
        node_eq_none_of_not_occupied hempty (List.prefix_append _ _) (by simp))
    else .error .notEmpty

/-- `os.RemoveAll`, which succeeds on a path that does not exist. -/
def removeAll (tree : FileTree N B) (path : List N) : Except OsError (FileTree N B) :=
  match tree.node path with
  | none => if tree.throughFile path then .error .notDirectory else .ok tree
  | some _ => if hne : path = [] then .error .invalid else .ok (tree.dropTree path hne)

/-- `os.Rename`. Go refuses every existing directory as the target, an empty one too. -/
def rename (tree : FileTree N B) (source target : List N) : Except OsError (FileTree N B) :=
  match tree.node source with
  | none => .error (tree.missing source)
  | some node =>
    if tree.isDirectory target then .error .exist
    else if source = target then .ok tree
    else if hout : source <+: target then .error .invalid
    else if hparent : target ≠ [] ∧ tree.isDirectory target.dropLast = true then
      match node, tree.node target with
      | .directory, some _ => .error .notDirectory
      | _, _ =>
        .ok (tree.moveTree source target hout hparent.1 (isDirectory_eq_true.mp hparent.2))
    else .error (tree.missing target)

end Calls

/-! ### What the calls do to the nodes -/

variable {other : FileTree N B} {other_path : List N}

theorem fileAt_congr (h : tree.node path = other.node other_path) :
    tree.fileAt path = other.fileAt other_path := by
  rw [fileAt, fileAt, h]

theorem isDirectory_congr (h : tree.node path = other.node other_path) :
    tree.isDirectory path = other.isDirectory other_path := by
  rw [isDirectory, isDirectory, h]

theorem fileAt_eq_none_of_isDirectory (h : tree.isDirectory path = true) :
    tree.fileAt path = none := by
  rw [fileAt, isDirectory_eq_true.mp h]

theorem isDirectory_eq_false_of_fileAt (h : tree.fileAt path = some content) :
    tree.isDirectory path = false := by
  rw [isDirectory, fileAt_eq_some.mp h]

theorem node_eq_none_iff :
    tree.node path = none ↔ tree.fileAt path = none ∧ tree.isDirectory path = false := by
  unfold fileAt isDirectory
  cases tree.node path with
  | none => simp
  | some node => cases node <;> simp

theorem fileAt_ne_nil (h : tree.fileAt path = some content) : path ≠ [] := by
  rintro rfl
  rw [fileAt_eq_some, tree.node_root] at h
  simp at h

theorem fileAt_prefix_eq_none (hpre : above <+: path) (hne : above ≠ path)
    (hnode : tree.node path ≠ none) : tree.fileAt above = none :=
  fileAt_eq_none_of_isDirectory (isDirectory_eq_true.mpr (tree.node_of_prefix hpre hne hnode))

theorem throughFile_eq_false_of_isDirectory (h : tree.isDirectory path = true) :
    tree.throughFile path = false := by
  rw [throughFile_eq_false]
  intro above hpre
  by_cases hpath : above = path
  · exact hpath ▸ fileAt_eq_none_of_isDirectory h
  · exact fileAt_prefix_eq_none hpre hpath (by simp [isDirectory_eq_true.mp h])

section Calls

variable [DecidableEq N]

theorem fileAt_putDirectories (hclear : tree.throughFile path = false) (above : List N) :
    (tree.putDirectories path).fileAt above = tree.fileAt above := by
  by_cases hpre : above <+: path
  · rw [throughFile_eq_false.mp hclear above hpre]
    simp [fileAt, putDirectories, hpre]
  · exact fileAt_congr (if_neg hpre)

theorem isDirectory_putDirectories (tree : FileTree N B) (path above : List N) :
    (tree.putDirectories path).isDirectory above
      = (decide (above <+: path) || tree.isDirectory above) := by
  by_cases hpre : above <+: path
  · simp [isDirectory, putDirectories, hpre]
  · rw [decide_eq_false hpre, Bool.false_or]
    exact isDirectory_congr (if_neg hpre)

theorem mkdirAll_eq (tree : FileTree N B) (path : List N) :
    tree.mkdirAll path =
      if tree.throughFile path then .error .notDirectory else .ok (tree.putDirectories path) := rfl

theorem writeFile_eq_ok (hne : path ≠ []) (hparent : tree.isDirectory path.dropLast = true)
    (hfree : tree.isDirectory path = false) :
    tree.writeFile path content = .ok (tree.putFile path content hne
      (isDirectory_eq_true.mp hparent) (isDirectory_eq_false.mp hfree)) := by
  rw [writeFile, dif_pos hfree, dif_pos ⟨hne, hparent⟩]

variable {after : FileTree N B}

theorem writeFile_ok (h : tree.writeFile path content = .ok after) :
    path ≠ [] ∧ tree.isDirectory path.dropLast = true ∧ tree.isDirectory path = false ∧
      after.node = Function.update tree.node path (some (.file content)) := by
  unfold writeFile at h
  split_ifs at h with hfree hparent
  cases h
  exact ⟨hparent.1, hparent.2, hfree, rfl⟩

variable {node : Option (Node B)}

theorem fileAt_of_node_update (h : after.node = Function.update tree.node path node)
    (hne : above ≠ path) :
    after.fileAt above = tree.fileAt above :=
  fileAt_congr (by rw [h, Function.update_of_ne hne])

theorem isDirectory_of_node_update (h : after.node = Function.update tree.node path node)
    (hne : above ≠ path) :
    after.isDirectory above = tree.isDirectory above :=
  isDirectory_congr (by rw [h, Function.update_of_ne hne])

theorem not_occupied_of_fileAt (h : tree.fileAt path = some content) :
    tree.occupied path = false := by
  simp only [occupied, List.any_eq_false, Bool.and_eq_true, decide_eq_true_eq, not_and,
    Bool.not_eq_true, Option.isSome_eq_false_iff, Option.isNone_iff_eq_none]
  rintro below - ⟨hpre, hne⟩
  exact tree.node_below_file (fileAt_eq_some.mp h) hpre hne

theorem remove_file (h : tree.fileAt path = some content) :
    ∃ after, tree.remove path = .ok after ∧ after.node = Function.update tree.node path none := by
  have hempty := not_occupied_of_fileAt h
  refine ⟨tree.drop path (fileAt_ne_nil h) fun name =>
    node_eq_none_of_not_occupied hempty (List.prefix_append _ _) (by simp), ?_, rfl⟩
  simp [remove, fileAt_eq_some.mp h, fileAt_ne_nil h, hempty]

theorem remove_ok (h : tree.remove path = .ok after) :
    after.node = Function.update tree.node path none := by
  unfold remove at h
  split at h
  · simp at h
  · split_ifs at h with hne hempty
    cases h
    rfl

theorem removeAll_ok (h : tree.removeAll path = .ok after) (above : List N) :
    after.node above = if path <+: above then none else tree.node above := by
  unfold removeAll at h
  split at h
  · rename_i hnone
    split_ifs at h
    cases h
    split_ifs with hpre
    · by_contra hnode
      by_cases hpath : path = above
      · exact hnode (hpath ▸ hnone)
      · rw [tree.node_of_prefix hpre hpath hnode] at hnone
        simp at hnone
    · rfl
  · split_ifs at h with hne
    cases h
    rfl

variable {source target : List N}

theorem node_moveTree_file (hnode : tree.node source = some (.file content))
    (hfree : tree.node target ≠ some .directory) (hout : ¬ source <+: target)
    (htarget : target ≠ []) (hparent : tree.node target.dropLast = some .directory) :
    (tree.moveTree source target hout htarget hparent).node =
      Function.update (Function.update tree.node source none) target (some (.file content)) := by
  have hbelow : ∀ path, target <+: path → target ≠ path → tree.node path = none := by
    intro path hpre hne
    by_contra hsome
    exact hfree (tree.node_of_prefix hpre hne hsome)
  funext path
  by_cases hpath : path = target
  · subst hpath
    simp [moveTree, hnode]
  rw [Function.update_of_ne hpath]
  by_cases hsource : path = source
  · subst hsource
    have hpre : ¬ target <+: path := by
      intro hpre
      rw [hbelow path hpre (Ne.symm hpath)] at hnode
      simp at hnode
    simp [moveTree, hpre]
  rw [Function.update_of_ne hsource]
  simp only [moveTree]
  split_ifs with hpre hunder
  · obtain ⟨rest, rfl⟩ := hpre
    rw [List.drop_left, hbelow _ (List.prefix_append _ _) (Ne.symm hpath)]
    exact tree.node_below_file hnode (List.prefix_append _ _) (by simpa using hpath)
  · exact (tree.node_below_file hnode hunder (Ne.symm hsource)).symm
  · rfl

omit [DecidableEq N] in
theorem not_prefix_of_fileAt (hfile : tree.fileAt source = some content) (hne : source ≠ target)
    (hparent : tree.isDirectory target.dropLast = true) : ¬ source <+: target := by
  intro hpre
  have htarget : target ≠ [] := by
    rintro rfl
    exact hne (List.prefix_nil.mp hpre)
  rw [← List.dropLast_append_getLast htarget] at hpre hne
  have hle := (List.prefix_concat_iff.mp hpre).resolve_left hne
  have hclear := throughFile_eq_false.mp (throughFile_eq_false_of_isDirectory hparent) source hle
  rw [hclear] at hfile
  simp at hfile

theorem rename_file (hfile : tree.fileAt source = some content) (hne : source ≠ target)
    (htarget : target ≠ []) (hparent : tree.isDirectory target.dropLast = true)
    (hfree : tree.isDirectory target = false) :
    ∃ after, tree.rename source target = .ok after ∧
      after.node = Function.update (Function.update tree.node source none) target
        (some (.file content)) := by
  have hnode := fileAt_eq_some.mp hfile
  have hout := not_prefix_of_fileAt hfile hne hparent
  refine ⟨tree.moveTree source target hout htarget (isDirectory_eq_true.mp hparent), ?_,
    node_moveTree_file hnode (isDirectory_eq_false.mp hfree) hout htarget _⟩
  simp [rename, hnode, hfree, hne, hout, htarget, hparent]

theorem rename_ok (h : tree.rename source target = .ok after) :
    tree.isDirectory target = false ∧ tree.node source ≠ none ∧
      (source = target ∧ after = tree ∨
        ∃ (hout : ¬ source <+: target) (hne : target ≠ [])
          (hparent : tree.node target.dropLast = some .directory),
          (tree.isDirectory source = true → tree.node target = none) ∧
            after = tree.moveTree source target hout hne hparent) := by
  unfold rename at h
  split at h
  · simp at h
  rename_i node hnode
  split_ifs at h with hdir hsame hout hparent
  · cases h
    exact ⟨by simpa using hdir, by simp [hnode], .inl ⟨hsame, rfl⟩⟩
  · refine ⟨by simpa using hdir, by simp [hnode], .inr ⟨hout, hparent.1, isDirectory_eq_true.mp
      hparent.2, ?_⟩⟩
    split at h
    · simp at h
    · rename_i hcase
      cases h
      refine ⟨fun hsource => ?_, rfl⟩
      rw [isDirectory_eq_true, hnode, Option.some.injEq] at hsource
      cases htarget : tree.node target with
      | none => rfl
      | some found => exact absurd htarget (hcase found hsource)

end Calls

end FileTree

end FsServer.Lib
