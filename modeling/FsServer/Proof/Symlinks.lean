import FsServer.Symlinks
import FsServer.Proof.ValidPaths

/-!
# Writing through symbolic links

A path that `ValidatePath` accepts leads to a place inside the resolved root unless its last name is a
dangling link. `EvalSymlinks` fails on such a link, its own place is checked instead of the place it
leads to, and opening the path makes the file at that other place.
-/

namespace FsServer

open Lib GoPath

/-! ### Texts of absolute paths -/

theorem components_append (first second : Path) :
    components (first ++ '/' :: second) = components first ++ components second := by
  rw [components, segments_append, List.filter_append]
  rfl

variable {place : List Name}

theorem mem_map_val {part : Segment} (h : part ∈ place.map Subtype.val) : IsName part := by
  obtain ⟨name, _, rfl⟩ := List.mem_map.mp h
  exact name.2

theorem components_absoluteText (place : List Name) :
    components (absoluteText place) = place.map Subtype.val := by
  rw [absoluteText, components, segments_slash, List.filter_cons_of_neg (by simp)]
  refine components_join fun part hpart => ?_
  have hname := mem_map_val hpart
  exact ⟨hname.1, hname.2.1, hname.2.2.2⟩

theorem join_map_append {first second : List Name} (hfirst : first ≠ []) (hsecond : second ≠ []) :
    join ((first ++ second).map Subtype.val) =
      join (first.map Subtype.val) ++ '/' :: join (second.map Subtype.val) := by
  have hsegments : ∀ {place : List Name}, place ≠ [] →
      segments (join (place.map Subtype.val)) = place.map Subtype.val := fun hne =>
    segments_join (fun part hpart => (mem_map_val hpart).2.2.2) fun h => hne (List.map_eq_nil_iff.mp h)
  apply segments_injective
  rw [segments_append, hsegments hfirst, hsegments hsecond,
    hsegments (List.append_ne_nil_of_left_ne_nil hfirst _), List.map_append]

theorem map_val_injective : Function.Injective (List.map (Subtype.val : Name → Segment)) :=
  List.map_injective_iff.mpr Subtype.val_injective

variable {root : List Name}

theorem map_val_prefix : root.map Subtype.val <+: place.map Subtype.val ↔ root <+: place := by
  constructor
  · rintro ⟨rest, hrest⟩
    obtain ⟨first, second, rfl, hfirst, -⟩ := List.map_eq_append_iff.mp hrest.symm
    rw [← map_val_injective hfirst]
    exact List.prefix_append _ _
  · exact fun h => h.map _

def Accepts (root place : List Name) : Prop :=
  absoluteText root ++ ['/'] <+: absoluteText place ∨ absoluteText place = absoluteText root

theorem Accepts.isPrefix (h : Accepts root place) : root <+: place := by
  rcases h with ⟨rest, hrest⟩ | heq
  · have hcomponents : root.map Subtype.val ++ components rest = place.map Subtype.val := by
      rw [← components_absoluteText, ← components_absoluteText, ← components_append, ← hrest,
        List.append_assoc, List.singleton_append]
    exact map_val_prefix.mp ⟨_, hcomponents⟩
  · have hcomponents : place.map Subtype.val = root.map Subtype.val := by
      rw [← components_absoluteText, heq, components_absoluteText]
    rw [map_val_injective hcomponents]

theorem accepts_of_prefix (hroot : root ≠ []) (h : root <+: place) : Accepts root place := by
  obtain ⟨rest, rfl⟩ := h
  by_cases hrest : rest = []
  · rw [hrest, List.append_nil]
    exact .inr rfl
  · refine .inl ⟨join (rest.map Subtype.val), ?_⟩
    rw [absoluteText, absoluteText, join_map_append hroot hrest]
    simp

/-! ### Where a cleaned path leads -/

theorem exists_names {parts : List Segment} (h : ∀ part ∈ parts, Plain part ∧ '/' ∉ part) :
    ∃ names : List Name, parts.map pathStep = names.map .down := by
  induction parts with
  | nil => exact ⟨[], rfl⟩
  | cons part parts ih =>
    obtain ⟨names, hnames⟩ := ih fun other hother => h other (List.mem_cons_of_mem _ hother)
    obtain ⟨hplain, hslash⟩ := h part List.mem_cons_self
    have hname : IsName part := ⟨hplain.1, hplain.2.1, hplain.2.2, hslash⟩
    exact ⟨⟨part, hname⟩ :: names, by rw [List.map_cons, List.map_cons, hnames, pathStep, dif_pos hname]⟩

theorem pathSteps_clean (path : Path) : ∃ (ups : List (PathStep Name)) (names : List Name),
    pathSteps (clean path) = ups ++ names.map .down ∧ ∀ step ∈ ups, step = .here ∨ step = .up := by
  obtain ⟨up, parts, hkept, hparts, hup⟩ := cleaned_cleanSegments path
  obtain ⟨names, hnames⟩ := exists_names hparts
  have hslash : ∀ part ∈ cleanSegments path, '/' ∉ part := fun part hpart =>
    (cleanSegments_mem hpart).2.2
  unfold clean
  split_ifs with hrooted hnone
  · rw [pathSteps, segments_slash]
    rw [hup hrooted, List.replicate_zero, List.nil_append] at hkept
    by_cases hnone : cleanSegments path = []
    · refine ⟨[.here, .here], [], ?_, by simp⟩
      rw [hnone]
      rfl
    · refine ⟨[.here], names, ?_, by simp⟩
      rw [segments_join hslash hnone, hkept, List.map_cons, hnames]
      rfl
  · exact ⟨[.here], [], rfl, by simp⟩
  · refine ⟨List.replicate up .up, names, ?_, fun step hstep => .inr (List.eq_of_mem_replicate hstep)⟩
    rw [pathSteps, segments_join hslash hnone, hkept, List.map_append, List.map_replicate, hnames]
    rfl

namespace LinkedStorage

variable (storage : LinkedStorage)

theorem node_start (path : Path) : storage.tree.node (storage.start path) = some .directory := by
  unfold start
  split_ifs
  · exact storage.tree.node_root
  · exact storage.cwd_directory

/-- The absolute path that is checked leads where the path that is opened leads. -/
theorem walk_getFullPath (links : Nat) (path : Path) :
    storage.tree.walk links (pathSteps (storage.getFullPath path))
        (storage.start (storage.getFullPath path)) =
      storage.tree.walk links ((storage.abs (storage.getFullPath path)).map .down) [] := by
  have hform : ∃ (ups : List (PathStep Name)) (names : List Name),
      pathSteps (storage.getFullPath path) = ups ++ names.map .down ∧
        ∀ step ∈ ups, step = .here ∨ step = .up := by
    unfold getFullPath joinPath
    split_ifs
    · exact pathSteps_clean _
    · exact pathSteps_clean _
    · exact ⟨[.here], [], rfl, by simp⟩
  obtain ⟨ups, names, hsteps, hups⟩ := hform
  rw [abs, hsteps]
  exact LinkTree.walk_lexical hups (storage.node_start _)

variable {path : Path}

theorem openForWriting_eq_some (h : storage.openForWriting (storage.getFullPath path) = some place) :
    storage.tree.walk maxSymlinks ((storage.abs (storage.getFullPath path)).map .down) []
        = .file place ∨
      storage.tree.walk maxSymlinks ((storage.abs (storage.getFullPath path)).map .down) []
        = .missing place := by
  unfold openForWriting at h
  rw [walk_getFullPath] at h
  split_ifs at h
  split at h <;> simp_all

theorem openForWriting_missing
    (h : storage.tree.walk maxSymlinks ((storage.abs (storage.getFullPath path)).map .down) []
      = .missing place) : storage.openForWriting (storage.getFullPath path) = some place := by
  have hne : storage.getFullPath path ≠ [] := by
    intro hempty
    rw [← walk_getFullPath, hempty] at h
    cases h
  rw [openForWriting, if_neg hne, walk_getFullPath, h]

/-! ### What the check resolves -/

variable {storage}

theorem walk_evalSymlinks {path : List Name}
    (h : storage.tree.walk maxSymlinks (path.map .down) [] ≠ .failed) :
    storage.tree.walk 255 (path.map .down) [] = storage.tree.walk maxSymlinks (path.map .down) [] :=
  LinkTree.walk_of_le (by decide) h

theorem evalSymlinks_directory {path : List Name}
    (h : storage.tree.walk maxSymlinks (path.map .down) [] = .directory place) :
    storage.evalSymlinks path = some place := by
  rw [evalSymlinks, walk_evalSymlinks (by simp [h]), h]

theorem evalSymlinks_file {path : List Name}
    (h : storage.tree.walk maxSymlinks (path.map .down) [] = .file place) :
    storage.evalSymlinks path = some place := by
  rw [evalSymlinks, walk_evalSymlinks (by simp [h]), h]

theorem evalSymlinks_missing {path : List Name}
    (h : storage.tree.walk maxSymlinks (path.map .down) [] = .missing place) :
    storage.evalSymlinks path = none := by
  rw [evalSymlinks, walk_evalSymlinks (by simp [h]), h]

theorem resolveAncestorOf_some {path dir tail : List Name}
    (h : storage.evalSymlinks dir.reverse = some place) :
    storage.resolveAncestorOf path dir tail = place ++ tail := by
  cases dir with
  | nil =>
    rw [List.reverse_nil] at h
    rw [resolveAncestorOf, h]
  | cons base parent => rw [resolveAncestorOf, h]

theorem resolveExistingAncestor_concat {above : List Name} {name : Name}
    (habove : storage.evalSymlinks above = some place)
    (hpath : storage.evalSymlinks (above ++ [name]) = none) :
    storage.resolveExistingAncestor (above ++ [name]) = place ++ [name] := by
  rw [resolveExistingAncestor, List.reverse_concat, resolveAncestorOf, ← List.reverse_concat,
    List.reverse_reverse, hpath]
  exact resolveAncestorOf_some (by rwa [List.reverse_reverse])

theorem validatePath_ok_iff :
    storage.validatePath path = .ok () ↔ Accepts storage.resolvedRoot
      (match storage.evalSymlinks (storage.abs (storage.getFullPath path)) with
        | some resolved => resolved
        | none => storage.resolveExistingAncestor (storage.abs (storage.getFullPath path))) := by
  unfold validatePath Accepts
  dsimp only
  split_ifs with hrefused
  · rw [not_or.symm] at hrefused
    exact iff_of_false (fun h => nomatch h) hrefused
  · exact iff_of_true rfl (by tauto)

theorem validatePath_resolved
    (h : storage.evalSymlinks (storage.abs (storage.getFullPath path)) = some place) :
    storage.validatePath path = .ok () ↔ Accepts storage.resolvedRoot place := by
  rw [validatePath_ok_iff, h]

theorem validatePath_unresolved
    (h : storage.evalSymlinks (storage.abs (storage.getFullPath path)) = none) :
    storage.validatePath path = .ok () ↔ Accepts storage.resolvedRoot
      (storage.resolveExistingAncestor (storage.abs (storage.getFullPath path))) := by
  rw [validatePath_ok_iff, h]

/-- The last name of the path is a dangling link that lies inside the root and leads to a place
outside of it. -/
def EscapesThroughLink (storage : LinkedStorage) (path : Path) : Prop :=
  ∃ above name directory target place, storage.abs (storage.getFullPath path) = above ++ [name] ∧
    storage.tree.walk maxSymlinks (above.map .down) [] = .directory directory ∧
    storage.tree.node (directory ++ [name]) = some (.link target) ∧
    storage.resolvedRoot <+: directory ++ [name] ∧
    storage.tree.walk maxSymlinks ((above ++ [name]).map .down) [] = .missing place ∧
    ¬ storage.resolvedRoot <+: place

theorem missing_cases
    (hwalk : storage.tree.walk maxSymlinks ((storage.abs (storage.getFullPath path)).map .down) []
      = .missing place) :
    ∃ above name directory, storage.abs (storage.getFullPath path) = above ++ [name] ∧
      storage.tree.walk maxSymlinks (above.map .down) [] = .directory directory ∧
      storage.resolveExistingAncestor (storage.abs (storage.getFullPath path))
        = directory ++ [name] ∧
      (place = directory ++ [name] ∨
        ∃ target, storage.tree.node (directory ++ [name]) = some (.link target)) := by
  have hunresolved := evalSymlinks_missing hwalk
  generalize storage.abs (storage.getFullPath path) = full at hwalk hunresolved
  induction full using List.reverseRecOn with
  | nil => cases hwalk
  | append_singleton above name _ =>
    rw [List.map_append, List.map_singleton] at hwalk
    have hfound : storage.tree.walk maxSymlinks (above.map .down ++ [.down name]) [] ≠ .failed := by
      rw [hwalk]
      exact fun h => nomatch h
    obtain ⟨directory, left, -, hdirectory, hlast⟩ :=
      LinkTree.exists_walk_append (List.cons_ne_nil _ _) hfound
    refine ⟨above, name, directory, rfl, hdirectory,
      resolveExistingAncestor_concat (evalSymlinks_directory hdirectory) hunresolved, ?_⟩
    rw [hwalk] at hlast
    cases hnode : storage.tree.node (directory ++ [name]) with
    | none =>
      rw [LinkTree.walk_missing hnode] at hlast
      cases hlast
      exact .inl rfl
    | some node =>
      cases node with
      | directory =>
        rw [LinkTree.walk_directory hnode] at hlast
        cases hlast
      | file =>
        rw [LinkTree.walk_file hnode] at hlast
        cases hlast
      | link target => exact .inr ⟨target, rfl⟩

/-- An accepted path is written inside the resolved root exactly when its last name is not a dangling
link that leads out of it. -/
theorem validatePath_confines_iff (storage : LinkedStorage) (path : Path) :
    (storage.validatePath path = .ok () → ∀ place,
      storage.openForWriting (storage.getFullPath path) = some place →
        storage.resolvedRoot <+: place) ↔ ¬ storage.EscapesThroughLink path := by
  constructor
  · rintro h ⟨above, name, directory, target, place, hfull, hdirectory, hlink, hinside, hwalk, hout⟩
    have hroot : storage.resolvedRoot ≠ [] := by
      intro hroot
      rw [hroot] at hout
      exact hout List.nil_prefix
    have hunresolved := evalSymlinks_missing hwalk
    rw [← hfull] at hwalk
    refine hout (h ?_ place (storage.openForWriting_missing hwalk))
    rw [← hfull] at hunresolved
    rw [validatePath_unresolved hunresolved]
    rw [hfull] at hunresolved ⊢
    rw [resolveExistingAncestor_concat (evalSymlinks_directory hdirectory) hunresolved]
    exact accepts_of_prefix hroot hinside
  · intro h haccepted place hopen
    by_contra hout
    rcases storage.openForWriting_eq_some hopen with hfile | hmissing
    · rw [validatePath_resolved (evalSymlinks_file hfile)] at haccepted
      exact hout haccepted.isPrefix
    · obtain ⟨above, name, directory, hfull, hdirectory, hresolved, hcases⟩ := missing_cases hmissing
      rw [validatePath_unresolved (evalSymlinks_missing hmissing), hresolved] at haccepted
      rcases hcases with rfl | ⟨target, hlink⟩
      · exact hout haccepted.isPrefix
      · rw [hfull] at hmissing
        exact h ⟨above, name, directory, target, place, hfull, hdirectory, hlink,
          haccepted.isPrefix, hmissing, hout⟩

/-! ### A link to a missing file outside -/

def danglingTree : LinkTree Name where
  node place :=
    if place = [] ∨ place = [⟨['r'], by decide⟩] then some .directory
    else if place = [⟨['r'], by decide⟩, ⟨['l'], by decide⟩] then
      some (.link (linkTarget ['/', 'x']))
    else none
  entries := [[], [⟨['r'], by decide⟩], [⟨['r'], by decide⟩, ⟨['l'], by decide⟩]]
  node_root := rfl
  node_parent place name h := by
    rcases place with _ | ⟨first, _ | ⟨second, rest⟩⟩
    · rfl
    · rw [if_neg (by simp)] at h
      split_ifs at h with hlink
      · rw [(List.cons.inj hlink).1]
        rfl
      · exact absurd rfl h
    · exact absurd (by simp) h
  mem_entries place h := by
    split_ifs at h with hdirectory hlink
    · rcases hdirectory with rfl | rfl <;> simp
    · simp [hlink]
    · exact absurd rfl h

def danglingStorage : LinkedStorage where
  rootDir := ['/', 'r']
  tree := danglingTree
  cwd := []
  cwd_directory := rfl

/-- `l` is a link in the root `/r` to `/x`, which does not exist: the path is accepted and the file is
made at `/x`. -/
theorem validatePath_dangling_escapes : danglingStorage.validatePath ['l'] = .ok () ∧
    danglingStorage.openForWriting (danglingStorage.getFullPath ['l']) = some [⟨['x'], by decide⟩] ∧
    danglingStorage.resolvedRoot = [⟨['r'], by decide⟩] := by
  refine ⟨rfl, rfl, rfl⟩

end LinkedStorage

end FsServer
