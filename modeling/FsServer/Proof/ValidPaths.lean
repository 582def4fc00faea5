import FsServer.Proof.Paths
import FsServer.MinioStorage

/-!
# Accepted paths

The paths that the handlers let through. Such a path consists of names and `.` elements behind any
number of slashes; its normal form is those names, on which every later check agrees.
-/

namespace FsServer

open GoPath

def stripped (path : Path) : Path := path.dropWhile (· = '/')

/-- The elements of a path without its leading slashes and its `.` elements. -/
def names (path : Path) : List Segment := (segments (stripped path)).filter (· ≠ ['.'])

def components (path : Path) : List Segment :=
  (segments path).filter fun segment => segment ≠ [] ∧ segment ≠ ['.']

theorem segments_slash (path : Path) : segments ('/' :: path) = [] :: segments path :=
  segments_append [] path

variable {rooted : Bool} {parts kept : List Segment}

theorem foldl_cleanStep_names (h : ∀ part ∈ parts, part = ['.'] ∨ Plain part) :
    parts.foldl (cleanStep rooted) kept = kept ++ parts.filter (· ≠ ['.']) := by
  induction parts generalizing kept with
  | nil => simp
  | cons first rest ih =>
    have hrest : ∀ part ∈ rest, part = ['.'] ∨ Plain part := fun part hpart =>
      h part (List.mem_cons_of_mem _ hpart)
    rcases h first (List.mem_cons_self ..) with rfl | hplain
    · rw [List.foldl_cons, cleanStep, if_pos (.inr rfl), ih hrest]
      simp
    · rw [List.foldl_cons, cleanStep_plain hplain, ih hrest, List.append_assoc,
        List.filter_cons_of_pos (by simpa using hplain.2.1), List.singleton_append]

theorem foldl_cleanStep_stripped (path : Path) :
    (segments path).foldl (cleanStep rooted) kept
      = (segments (stripped path)).foldl (cleanStep rooted) kept := by
  induction path with
  | nil => rfl
  | cons c rest ih =>
    by_cases hslash : c = '/'
    · rw [hslash, segments_slash, List.foldl_cons, cleanStep, if_pos (.inl rfl), ih]
      simp [stripped]
    · rw [stripped, List.dropWhile_cons_of_neg (by simpa using hslash)]

theorem isRooted_stripped (path : Path) : isRooted (stripped path) = false := by
  unfold isRooted stripped
  cases hhead : (path.dropWhile (· = '/')).head? with
  | none => rfl
  | some c =>
    have hnot := List.head?_dropWhile_not (fun c => decide (c = '/')) path
    rw [hhead] at hnot
    simpa using hnot

section Accepted

variable {path : Path} (h : isValidFilePath path = true)

include h

theorem parts_of_valid : (∀ part ∈ segments (stripped path), part = ['.'] ∨ Plain part) ∧
    clean (stripped path) ≠ ['.'] := by
  unfold isValidFilePath at h
  split_ifs at h with hempty
  dsimp only at h
  split_ifs at h with hstripped hclean
  simp only [not_or] at hclean
  refine ⟨fun part hpart => ?_, hclean.1⟩
  have hkept := List.all_eq_true.mp h part hpart
  simp only [not_or, decide_eq_true_eq] at hkept
  by_cases hdot : part = ['.']
  · exact .inl hdot
  · exact .inr ⟨hkept.2, hdot, hkept.1⟩

theorem cleanSegments_of_valid : cleanSegments path = names path := by
  rw [cleanSegments, foldl_cleanStep_stripped, foldl_cleanStep_names (parts_of_valid h).1,
    List.nil_append, names]

theorem plain_names : ∀ name ∈ names path, Plain name ∧ '/' ∉ name := by
  intro name hname
  rw [names, List.mem_filter, decide_eq_true_eq] at hname
  exact ⟨((parts_of_valid h).1 name hname.1).resolve_left hname.2, slash_not_mem hname.1⟩

theorem names_ne_nil : names path ≠ [] := by
  intro hnone
  obtain ⟨hparts, hclean⟩ := parts_of_valid h
  have hkept : cleanSegments (stripped path) = [] := by
    rw [cleanSegments, foldl_cleanStep_names hparts, List.nil_append]
    exact hnone
  refine hclean ?_
  rw [clean, isRooted_stripped, if_neg Bool.false_ne_true, if_pos hkept]

theorem normalizePath_of_valid : normalizePath path = join (names path) := by
  have hdrop := dropWhile_slash (ordinary_join (names_ne_nil h) (plain_names h)).isRooted
  rw [normalizePath, clean, cleanSegments_of_valid h, if_neg (names_ne_nil h)]
  split_ifs
  · rw [List.dropWhile_cons_of_pos (by simp), hdrop]
  · exact hdrop

theorem ordinary_of_valid : Ordinary (normalizePath path) := by
  rw [normalizePath_of_valid h]
  exact ordinary_join (names_ne_nil h) (plain_names h)

end Accepted

theorem isValidFilePath_ordinary {path : Path} (h : Ordinary path) :
    isValidFilePath path = true := by
  have hrooted := h.isRooted
  have hempty : ¬ (path = [] ∨ path = ['/']) := by
    rintro (rfl | rfl)
    · exact h.ne_nil rfl
    · cases hrooted
  have hclean : ¬ (path = ['.'] ∨ path = ['.', '.'] ∨ path = ['/']) := by
    rintro (rfl | rfl | rfl)
    · exact absurd h (by decide)
    · exact absurd h (by decide)
    · cases hrooted
  unfold isValidFilePath
  rw [if_neg hempty, dropWhile_slash hrooted]
  dsimp only
  rw [if_neg h.ne_nil, clean_ordinary h, if_neg hclean, List.all_eq_true]
  intro part hpart
  have hplain := h part hpart
  simp [hplain.1, hplain.2.2]

theorem validatePath_key {path : Path} (h : Ordinary path) :
    MinioStorage.validatePath path = .ok () := by
  have hlast : path.getLast? ≠ some '/' := by
    intro hslash
    obtain ⟨front, rfl⟩ := List.getLast?_eq_some_iff.mp hslash
    refine (h [] ?_).1 rfl
    rw [segments_append front []]
    exact List.mem_append_right _ (by simp [segments])
  unfold MinioStorage.validatePath MinioStorage.trimSlash
  rw [if_neg h.ne_nil, h.isRooted, if_neg Bool.false_ne_true, if_neg hlast, if_neg]
  simp only [List.any_eq_true, decide_eq_true_eq, not_exists, not_and]
  intro part hpart
  exact (h part hpart).2.2

/-! ### Joining a root -/

theorem cleanSegments_mem {path : Path} {segment : Segment} (h : segment ∈ cleanSegments path) :
    segment ≠ [] ∧ segment ≠ ['.'] ∧ '/' ∉ segment := by
  obtain ⟨up, names, hkept, hnames, -⟩ := cleaned_cleanSegments path
  rw [hkept, List.mem_append] at h
  rcases h with hup | hname
  · rw [List.eq_of_mem_replicate hup]
    decide
  · obtain ⟨hplain, hslash⟩ := hnames segment hname
    exact ⟨hplain.1, hplain.2.1, hslash⟩

theorem components_join (h : ∀ part ∈ parts, part ≠ [] ∧ part ≠ ['.'] ∧ '/' ∉ part) :
    components (join parts) = parts := by
  by_cases hne : parts = []
  · subst hne
    rfl
  · rw [components, segments_join (fun part hpart => (h part hpart).2.2) hne, List.filter_eq_self]
    intro part hpart
    simpa using ⟨(h part hpart).1, (h part hpart).2.1⟩

theorem components_clean (path : Path) : components (clean path) = cleanSegments path := by
  have hparts : ∀ part ∈ cleanSegments path, part ≠ [] ∧ part ≠ ['.'] ∧ '/' ∉ part :=
    fun part hpart => cleanSegments_mem hpart
  unfold clean
  split_ifs with hrooted hempty
  · rw [components, segments_slash, List.filter_cons_of_neg (by simp)]
    exact components_join hparts
  · rw [hempty]
    rfl
  · exact components_join hparts

theorem isRooted_clean (path : Path) : isRooted (clean path) = isRooted path := by
  obtain ⟨up, names, hkept, hnames, -⟩ := cleaned_cleanSegments path
  unfold clean
  split_ifs with hrooted hempty
  · exact hrooted.symm
  · rw [Bool.not_eq_true] at hrooted
    rw [hrooted]
    rfl
  · rw [hkept] at hempty ⊢
    rw [isRooted_relative hnames hempty]
    simpa using hrooted

/-- A path of plain names, joined to any root, adds its names to the components of the root. -/
theorem joinPath_ordinary (root : Path) {path : Path} (h : Ordinary path) :
    components (joinPath root path) = components (clean root) ++ segments path ∧
      isRooted (joinPath root path) = isRooted root := by
  unfold joinPath
  split_ifs with hroot hpath
  · rw [components_clean, components_clean, isRooted_clean, isRooted_append hroot, cleanSegments,
      isRooted_append hroot, segments_append, List.foldl_append, foldl_cleanStep h]
    exact ⟨rfl, rfl⟩
  · obtain rfl : root = [] := not_not.mp hroot
    rw [components_clean, components_clean, isRooted_clean, cleanSegments, foldl_cleanStep h, h.isRooted]
    exact ⟨rfl, rfl⟩
  · exact absurd (not_not.mp hpath) h.ne_nil

structure Canonical (path normal : Path) : Prop where
  nonempty : normal ≠ []
  relative : isRooted normal = false
  segments : ∀ segment ∈ segments normal, segment ≠ [] ∧ segment ≠ ['.'] ∧ segment ≠ ['.', '.']
  fixed : normalizePath normal = normal
  accepted : isValidFilePath normal = true
  below : ∀ root, components (clean root) <+: components (joinPath root normal) ∧
    components (clean root) ≠ components (joinPath root normal) ∧
    isRooted (joinPath root normal) = isRooted root
  key : MinioStorage.validatePath normal = .ok ()
  sameKey : MinioStorage.normalizeKey normal = normal
  removed : normal = join ((GoPath.segments (path.dropWhile (· = '/'))).filter (· ≠ ['.']))

/-- The normal form of an accepted path is canonical, and two have the same one only if they differ
in leading slashes and `.` elements. -/
theorem validPath_canonical {path : Path} (h : isValidFilePath path = true) :
    Canonical path (normalizePath path) ∧
      ∀ other, isValidFilePath other = true → normalizePath other = normalizePath path →
        (segments (other.dropWhile (· = '/'))).filter (· ≠ ['.'])
          = (segments (path.dropWhile (· = '/'))).filter (· ≠ ['.']) := by
  have hordinary := ordinary_of_valid h
  refine ⟨⟨hordinary.ne_nil, hordinary.isRooted, hordinary, normalizePath_ordinary hordinary,
    isValidFilePath_ordinary hordinary, fun root => ?_, validatePath_key hordinary,
    clean_ordinary hordinary, normalizePath_of_valid h⟩, fun other hother hsame => ?_⟩
  · obtain ⟨hcomponents, hrooted⟩ := joinPath_ordinary root hordinary
    rw [hcomponents]
    refine ⟨List.prefix_append _ _, fun heq => ?_, hrooted⟩
    exact segments_ne_nil _ (List.self_eq_append_right.mp heq)
  · rw [normalizePath_of_valid hother, normalizePath_of_valid h] at hsame
    have hsegments := congrArg segments hsame
    rw [segments_join (fun name hname => (plain_names hother name hname).2) (names_ne_nil hother),
      segments_join (fun name hname => (plain_names h name hname).2) (names_ne_nil h)] at hsegments
    exact hsegments

theorem validPath_canonical_dots :
    Canonical ['/', '/', 'a', '/', '.', '/', 'b', '.', '.'] ['a', '/', 'b', '.', '.'] := by
  have hvalid : isValidFilePath ['/', '/', 'a', '/', '.', '/', 'b', '.', '.'] = true := by decide
  exact (validPath_canonical hvalid).1

/-! ### Rename targets -/

structure Sibling (old target name : Path) : Prop where
  accepted : isValidFilePath target = true
  directory : getDirectory target = getDirectory old
  base : getFileName target = name
  fixed : normalizePath target = target
  same : target = old ↔ name = getFileName old
  notBelow : ∀ rest, target ≠ old ++ '/' :: rest
  notAbove : ∀ rest, old ≠ target ++ '/' :: rest

theorem ne_below_of_length {above path : Path}
    (h : (segments path).length = (segments above).length) (rest : Path) :
    path ≠ above ++ '/' :: rest := by
  rintro rfl
  rw [segments_append, List.length_append] at h
  have hrest := List.length_pos_of_ne_nil (segments_ne_nil rest)
  omega

theorem renamedPath_sibling {path name : Path} (hpath : isValidFilePath path = true)
    (hname : isValidFileName name = true) :
    Sibling (normalizePath path) (FileManager.renamedPath (normalizePath path) name) name := by
  have hold := ordinary_of_valid hpath
  obtain ⟨hplain, hslash⟩ := Plain.of_isValidFileName hname
  have hnew := hold.renamedPath hplain hslash
  have hsplit := (List.dropLast_append_getLast (segments_ne_nil (normalizePath path))).symm
  have htarget := segments_renamedPath hold hplain hslash
  have hlength : (segments (FileManager.renamedPath (normalizePath path) name)).length =
      (segments (normalizePath path)).length := by
    rw [htarget, List.length_append, List.length_dropLast, List.length_singleton]
    exact Nat.sub_add_cancel (List.length_pos_of_ne_nil (segments_ne_nil _))
  refine ⟨isValidFilePath_ordinary hnew, ?_, getFileName_ordinary hnew htarget,
    normalizePath_ordinary hnew, ?_, ne_below_of_length hlength, ne_below_of_length hlength.symm⟩
  · rw [getDirectory_ordinary hnew htarget, getDirectory_ordinary hold hsplit]
  · rw [getFileName_ordinary hold hsplit, ← segments_injective.eq_iff, htarget]
    nth_rewrite 2 [hsplit]
    rw [List.append_cancel_left_eq, List.singleton_inj]

theorem renamedPath_sibling_dots :
    Sibling ['a', '/', 'b'] ['a', '/', 'c', '.', 'd'] ['c', '.', 'd'] := by
  have hpath : isValidFilePath ['/', 'a', '/', '.', '/', 'b'] = true := by decide
  have hname : isValidFileName ['c', '.', 'd'] = true := by decide
  exact renamedPath_sibling hpath hname

end FsServer
