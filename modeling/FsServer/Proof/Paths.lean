import FsServer.FileManager
import Mathlib.Data.List.TakeWhile

/-!
# Normal forms of paths

A path that a service works on is normalised first. Unless it begins with `..` its normal form is the
root or a list of plain names; such a path resolves below the storage root to exactly those names, so
two of them never share an object.
-/

namespace FsServer

open GoPath FileManager

/-- An element of a path that names something. -/
def Plain (segment : Segment) : Prop := segment ≠ [] ∧ segment ≠ ['.'] ∧ segment ≠ ['.', '.']

instance (segment : Segment) : Decidable (Plain segment) :=
  inferInstanceAs (Decidable (_ ∧ _ ∧ _))

/-- A path made of plain names only, which is its own normal form. -/
def Ordinary (path : Path) : Prop := ∀ segment ∈ segments path, Plain segment

instance (path : Path) : Decidable (Ordinary path) :=
  inferInstanceAs (Decidable (∀ segment ∈ segments path, Plain segment))

def AtRoot (path : Path) : Prop := path = [] ∨ path = ['.']

def StaysInside (path : Path) : Prop :=
  (segments (normalizePath path)).head? ≠ some ['.', '.']

instance (path : Path) : Decidable (StaysInside path) := inferInstanceAs (Decidable (_ ≠ _))

theorem join_segments (path : Path) : join (segments path) = path := List.intercalate_splitOn '/'

theorem segments_join {parts : List Segment} (hparts : ∀ part ∈ parts, '/' ∉ part)
    (hne : parts ≠ []) : segments (join parts) = parts :=
  List.splitOn_intercalate '/' hparts hne

theorem segments_ne_nil (path : Path) : segments path ≠ [] := List.splitOn_ne_nil '/' path

theorem segments_append (first second : Path) :
    segments (first ++ '/' :: second) = segments first ++ segments second :=
  List.splitOn_append_cons_self first second

variable {name : Path}

theorem segments_of_not_mem (h : '/' ∉ name) : segments name = [name] :=
  List.splitOn_eq_singleton h

theorem segments_injective : Function.Injective segments := by
  intro first second h
  rw [← join_segments first, h, join_segments]

variable {path : Path} {segment : Segment}

theorem slash_not_mem (h : segment ∈ segments path) : '/' ∉ segment := by
  induction path generalizing segment with
  | nil =>
    rw [segments, List.splitOn_nil, List.mem_singleton] at h
    simp [h]
  | cons c rest ih =>
    rw [segments, List.splitOn_cons_eq_if_modifyHead] at h
    split_ifs at h with hslash
    · rcases List.mem_cons.mp h with rfl | hrest
      · simp
      · exact ih hrest
    · obtain ⟨first, others, hsplit⟩ := List.exists_cons_of_ne_nil (segments_ne_nil rest)
      rw [segments] at hsplit ih
      rw [hsplit, List.modifyHead_cons, List.mem_cons] at h
      rcases h with rfl | hothers
      · have hfirst : '/' ∉ first := ih (by simp [hsplit])
        simpa [hfirst] using fun heq => hslash (by simp [← heq])
      · exact ih (by simp [hsplit, hothers])

theorem below_of_segments {above : Path} (h : segments above <+: segments path) :
    path = above ∨ ∃ rest, path = above ++ '/' :: rest := by
  obtain ⟨rest, hrest⟩ := h
  by_cases hne : rest = []
  · rw [hne, List.append_nil] at hrest
    exact .inl (segments_injective hrest.symm)
  · refine .inr ⟨join rest, segments_injective ?_⟩
    rw [segments_append, segments_join (fun part hpart => ?_) hne, hrest]
    exact slash_not_mem (hrest ▸ List.mem_append_right _ hpart)

/-! ### Cleaning -/

variable {rooted : Bool} {kept : List Segment}

theorem cleanStep_plain (h : Plain segment) :
    cleanStep rooted kept segment = kept ++ [segment] := by
  rw [cleanStep, if_neg (by simp [h.1, h.2.1]), if_neg h.2.2]

theorem foldl_cleanStep {names : List Segment} (h : ∀ segment ∈ names, Plain segment) :
    names.foldl (cleanStep rooted) kept = kept ++ names := by
  induction names generalizing kept with
  | nil => simp
  | cons name rest ih =>
    rw [List.foldl_cons, cleanStep_plain (h name (List.mem_cons_self ..)),
      ih fun segment hsegment => h segment (List.mem_cons_of_mem _ hsegment),
      List.append_assoc, List.singleton_append]

theorem isRooted_eq_false (h : [] ∉ segments path) : isRooted path = false := by
  cases path with
  | nil => rfl
  | cons c rest =>
    have hslash : c ≠ '/' := by
      rintro rfl
      have hsplit := segments_append [] rest
      rw [List.nil_append] at hsplit
      rw [hsplit, List.mem_append] at h
      exact h (.inl (by simp [segments]))
    simp [isRooted, hslash]

theorem Ordinary.isRooted (h : Ordinary path) : isRooted path = false :=
  isRooted_eq_false fun hmem => (h [] hmem).1 rfl

theorem Ordinary.ne_nil (h : Ordinary path) : path ≠ [] := by
  rintro rfl
  exact (h [] (by simp [segments])).1 rfl

theorem isRooted_append {first : Path} (hne : first ≠ []) (second : Path) :
    isRooted (first ++ second) = isRooted first := by
  obtain ⟨c, rest, rfl⟩ := List.exists_cons_of_ne_nil hne
  rfl

theorem clean_ordinary (h : Ordinary path) : clean path = path := by
  have hkept : cleanSegments path = segments path := by
    rw [cleanSegments, foldl_cleanStep h, List.nil_append]
  rw [clean, h.isRooted, if_neg Bool.false_ne_true, hkept, if_neg (segments_ne_nil path),
    join_segments]

theorem dropWhile_slash (h : isRooted path = false) : path.dropWhile (· = '/') = path := by
  cases path with
  | nil => rfl
  | cons c rest =>
    have hslash : c ≠ '/' := by simpa [isRooted] using h
    simp [hslash]

theorem normalizePath_ordinary (h : Ordinary path) : normalizePath path = path := by
  rw [normalizePath, clean_ordinary h, dropWhile_slash h.isRooted]

/-- The elements that cleaning keeps: leading `..`, none of them in a rooted path, and names. -/
def Cleaned (rooted : Bool) (kept : List Segment) : Prop :=
  ∃ up names, kept = List.replicate up ['.', '.'] ++ names ∧
    (∀ name ∈ names, Plain name ∧ '/' ∉ name) ∧ (rooted = true → up = 0)

theorem cleaned_step (h : Cleaned rooted kept) (hslash : '/' ∉ segment) :
    Cleaned rooted (cleanStep rooted kept segment) := by
  obtain ⟨up, names, rfl, hnames, hup⟩ := h
  by_cases hskip : segment = [] ∨ segment = ['.']
  · rw [cleanStep, if_pos hskip]
    exact ⟨up, names, rfl, hnames, hup⟩
  by_cases hdots : segment = ['.', '.']
  · rw [cleanStep, if_neg hskip, if_pos hdots, hdots]
    induction names using List.reverseRecOn with
    | nil =>
      rw [List.append_nil]
      cases up with
      | zero =>
        cases rooted with
        | true => exact ⟨0, [], rfl, by simp, fun _ => rfl⟩
        | false => exact ⟨1, [], rfl, by simp, by simp⟩
      | succ up =>
        rw [List.replicate_succ', List.getLast?_concat]
        refine ⟨up + 2, [], ?_, by simp, fun hrooted => absurd (hup hrooted) (by omega)⟩
        simp [List.replicate_succ']
    | append_singleton names name _ =>
      have hplain := (hnames name (by simp)).1
      rw [← List.append_assoc, List.getLast?_concat]
      dsimp only
      rw [if_neg hplain.2.2, List.dropLast_concat]
      exact ⟨up, names, rfl, fun other hother => hnames other (by simp [hother]), hup⟩
  · have hplain : Plain segment :=
      ⟨fun hempty => hskip (.inl hempty), fun hdot => hskip (.inr hdot), hdots⟩
    rw [cleanStep_plain hplain]
    refine ⟨up, names ++ [segment], by rw [List.append_assoc], ?_, hup⟩
    intro name hname
    rcases List.mem_append.mp hname with hname | hname
    · exact hnames name hname
    · rw [List.mem_singleton.mp hname]
      exact ⟨hplain, hslash⟩

theorem cleaned_cleanSegments (path : Path) : Cleaned (isRooted path) (cleanSegments path) := by
  have hfold : ∀ (parts kept : List Segment), (∀ part ∈ parts, '/' ∉ part) →
      Cleaned (isRooted path) kept →
      Cleaned (isRooted path) (parts.foldl (cleanStep (isRooted path)) kept) := by
    intro parts
    induction parts with
    | nil => exact fun kept _ hkept => hkept
    | cons first rest ih =>
      intro kept hslash hkept
      exact ih _ (fun part hpart => hslash part (List.mem_cons_of_mem _ hpart))
        (cleaned_step hkept (hslash first (List.mem_cons_self ..)))
  exact hfold _ _ (fun part hpart => slash_not_mem hpart) ⟨0, [], rfl, by simp, fun _ => rfl⟩

theorem ordinary_join {names : List Segment} (hne : names ≠ [])
    (h : ∀ name ∈ names, Plain name ∧ '/' ∉ name) : Ordinary (join names) := by
  intro segment hsegment
  rw [segments_join (fun name hname => (h name hname).2) hne] at hsegment
  exact (h segment hsegment).1

theorem foldl_cleanStep_up (kept up : Nat) :
    (List.replicate up ['.', '.']).foldl (cleanStep false) (List.replicate kept ['.', '.'])
      = List.replicate (kept + up) ['.', '.'] := by
  induction up generalizing kept with
  | zero => simp
  | succ up ih =>
    have hstep : cleanStep false (List.replicate kept ['.', '.']) ['.', '.']
        = List.replicate (kept + 1) ['.', '.'] := by
      cases kept with
      | zero => rfl
      | succ kept => simp [cleanStep, List.replicate_succ']
    rw [List.replicate_succ, List.foldl_cons, hstep, ih, Nat.add_right_comm, Nat.add_assoc]

section Relative

variable {up : Nat} {names : List Segment} (hnames : ∀ name ∈ names, Plain name ∧ '/' ∉ name)
  (hne : List.replicate up ['.', '.'] ++ names ≠ [])

include hnames hne

theorem segments_relative : segments (join (List.replicate up ['.', '.'] ++ names))
    = List.replicate up ['.', '.'] ++ names := by
  refine segments_join (fun part hpart => ?_) hne
  rcases List.mem_append.mp hpart with hup | hname
  · simp [List.eq_of_mem_replicate hup]
  · exact (hnames part hname).2

theorem isRooted_relative : isRooted (join (List.replicate up ['.', '.'] ++ names)) = false := by
  apply isRooted_eq_false
  rw [segments_relative hnames hne]
  intro hmem
  rcases List.mem_append.mp hmem with hup | hname
  · exact absurd (List.eq_of_mem_replicate hup) (by simp)
  · exact (hnames _ hname).1.1 rfl

theorem normalizePath_relative :
    normalizePath (join (List.replicate up ['.', '.'] ++ names))
      = join (List.replicate up ['.', '.'] ++ names) := by
  have hrooted := isRooted_relative hnames hne
  have hclean : cleanSegments (join (List.replicate up ['.', '.'] ++ names))
      = List.replicate up ['.', '.'] ++ names := by
    have hup := foldl_cleanStep_up 0 up
    rw [List.replicate_zero, Nat.zero_add] at hup
    rw [cleanSegments, hrooted, segments_relative hnames hne, List.foldl_append, hup,
      foldl_cleanStep fun name hname => (hnames name hname).1]
  rw [normalizePath, clean, hrooted, if_neg Bool.false_ne_true, hclean, if_neg hne,
    dropWhile_slash hrooted]

end Relative

theorem normalizePath_of_kept (h : cleanSegments path ≠ []) :
    ∃ up names, List.replicate up ['.', '.'] ++ names ≠ [] ∧
      (∀ name ∈ names, Plain name ∧ '/' ∉ name) ∧
      normalizePath path = join (List.replicate up ['.', '.'] ++ names) := by
  obtain ⟨up, names, hkept, hnames, hup⟩ := cleaned_cleanSegments path
  rw [hkept] at h
  refine ⟨up, names, h, hnames, ?_⟩
  have hdrop := dropWhile_slash (isRooted_relative hnames h)
  rw [normalizePath, clean, hkept, if_neg h]
  split_ifs
  · rw [List.dropWhile_cons_of_pos (by simp), hdrop]
  · exact hdrop

theorem normalizePath_form (path : Path) :
    AtRoot (normalizePath path) ∨ ∃ up names, List.replicate up ['.', '.'] ++ names ≠ [] ∧
      (∀ name ∈ names, Plain name ∧ '/' ∉ name) ∧
      normalizePath path = join (List.replicate up ['.', '.'] ++ names) := by
  by_cases hempty : cleanSegments path = []
  · left
    rw [normalizePath, clean, hempty, if_pos rfl]
    split_ifs
    · exact .inl rfl
    · exact .inr rfl
  · exact .inr (normalizePath_of_kept hempty)

theorem normalizePath_ne_nil (h : cleanSegments path ≠ []) : normalizePath path ≠ [] := by
  obtain ⟨up, names, hne, hnames, hpath⟩ := normalizePath_of_kept h
  have hrooted := segments_relative hnames hne
  rw [hpath]
  intro hempty
  rw [hempty] at hrooted
  have hmem : ([] : Segment) ∈ List.replicate up ['.', '.'] ++ names := by
    rw [← hrooted]
    simp [segments]
  rcases List.mem_append.mp hmem with hup | hname
  · exact absurd (List.eq_of_mem_replicate hup) (by simp)
  · exact (hnames _ hname).1.1 rfl

theorem normalizePath_cases (path : Path) :
    AtRoot (normalizePath path) ∨ Ordinary (normalizePath path) ∨ ¬ StaysInside path := by
  rcases normalizePath_form path with hroot | ⟨up, names, hne, hnames, hpath⟩
  · exact .inl hroot
  right
  cases up with
  | zero =>
    left
    rw [hpath]
    exact ordinary_join hne hnames
  | succ up =>
    right
    rw [StaysInside, hpath, segments_relative hnames hne]
    simp [List.replicate_succ]

/-- Only the root, given as `/`, has a normal form with another normal form. -/
theorem normalizePath_normalizePath (h : normalizePath path ≠ []) :
    normalizePath (normalizePath path) = normalizePath path := by
  rcases normalizePath_form path with (hempty | hdot) | ⟨up, names, hne, hnames, hpath⟩
  · exact absurd hempty h
  · rw [hdot]
    rfl
  · rw [hpath, normalizePath_relative hnames hne]

theorem normalizePath_thrice (path : Path) :
    normalizePath (normalizePath (normalizePath path)) = normalizePath (normalizePath path) := by
  by_cases hempty : normalizePath path = []
  · rw [hempty]
    rfl
  · rw [normalizePath_normalizePath hempty, normalizePath_normalizePath hempty]

theorem not_ordinary_normalizePath (h : ¬ Ordinary (normalizePath path)) :
    ¬ Ordinary (normalizePath (normalizePath path)) := by
  by_cases hempty : normalizePath path = []
  · rw [hempty]
    decide
  · rw [normalizePath_normalizePath hempty]
    exact h

theorem StaysInside.cases (h : StaysInside path) :
    AtRoot (normalizePath path) ∨ Ordinary (normalizePath path) := by
  rcases normalizePath_cases path with hroot | hordinary | hout
  · exact .inl hroot
  · exact .inr hordinary
  · exact absurd h hout

/-! ### Resolution below the storage root -/

theorem getFullPath_ordinary (storage : LocalStorage) (h : Ordinary path) :
    storage.getFullPath path = storage.rootDir ++ segments path := foldl_cleanStep h

theorem validatePath_ordinary {storage : LocalStorage} (hroot : storage.rootDir ≠ [])
    (h : Ordinary path) : storage.validatePath path = true := by
  rw [LocalStorage.validatePath, getFullPath_ordinary storage h]
  simp [hroot]

theorem rooted_of_validatePath {storage : LocalStorage} (h : Ordinary path)
    (hvalid : storage.validatePath path = true) : storage.rootDir ≠ [] := by
  rw [LocalStorage.validatePath, getFullPath_ordinary storage h, decide_eq_true_eq] at hvalid
  rcases hvalid with hself | ⟨hroot, -⟩
  · exact absurd (List.self_eq_append_right.mp hself.symm) (segments_ne_nil path)
  · exact hroot

theorem getFullPath_atRoot (storage : LocalStorage) (h : AtRoot path) :
    storage.getFullPath path = storage.rootDir := by
  rcases h with rfl | rfl
  · simp [LocalStorage.getFullPath, segments, cleanStep]
  · rw [LocalStorage.getFullPath, segments_of_not_mem (by simp)]
    simp [cleanStep]

theorem getFullPath_injective (storage : LocalStorage) {first second : Path}
    (hfirst : Ordinary first) (hsecond : Ordinary second)
    (h : storage.getFullPath first = storage.getFullPath second) : first = second := by
  rw [getFullPath_ordinary storage hfirst, getFullPath_ordinary storage hsecond,
    List.append_cancel_left_eq] at h
  exact segments_injective h

/-! ### Siblings -/

theorem Plain.of_isValidFileName (h : isValidFileName name = true) : Plain name ∧ '/' ∉ name := by
  unfold isValidFileName at h
  split_ifs at h with hempty hlong hdots hinfix hslash
  refine ⟨⟨hempty, fun hdot => hdots (.inr hdot), fun hdot => hdots (.inl hdot)⟩, ?_⟩
  intro hmem
  exact hslash (List.any_eq_true.mpr ⟨'/', hmem, by simp⟩)

theorem normalizePath_of_cleanSegments {names : List Segment} (hrooted : isRooted path = false)
    (hkept : cleanSegments path = names) (hne : names ≠ [])
    (hnames : ∀ name ∈ names, Plain name ∧ '/' ∉ name) : normalizePath path = join names := by
  rw [normalizePath, clean, hrooted, if_neg Bool.false_ne_true, hkept, if_neg hne,
    dropWhile_slash (ordinary_join hne hnames).isRooted]

section Split

variable {above : List Segment} {last : Segment} (h : Ordinary path)
  (hsplit : segments path = above ++ [last])

include h hsplit

theorem plain_of_split : ∀ segment ∈ above ++ [last], Plain segment ∧ '/' ∉ segment := by
  intro segment hsegment
  rw [← hsplit] at hsegment
  exact ⟨h segment hsegment, slash_not_mem hsegment⟩

theorem getFileName_ordinary : getFileName path = last := by
  have hlast := (plain_of_split h hsplit last (by simp)).1.1
  rw [getFileName, base, if_neg h.ne_nil, hsplit, List.reverse_append, List.reverse_singleton,
    List.singleton_append, List.dropWhile_cons_of_neg (by simpa using hlast)]

theorem getDirectory_ordinary : getDirectory path = if above = [] then ['.'] else join above := by
  have hmem := plain_of_split h hsplit
  have hlast : '/' ∉ last := (hmem last (by simp)).2
  split_ifs with hne
  · subst hne
    have hpath : path = last := by
      rw [← join_segments path, hsplit]
      exact List.intercalate_singleton
    have hnone : path.reverse.dropWhile (· ≠ '/') = [] := by
      apply List.dropWhile_eq_nil_iff.mpr
      intro c hc
      rw [hpath, List.mem_reverse] at hc
      exact decide_eq_true (ne_of_mem_of_not_mem hc hlast)
    rw [getDirectory, dir, hnone]
    rfl
  · have habove : ∀ segment ∈ above, Plain segment ∧ '/' ∉ segment := fun segment hsegment =>
      hmem segment (List.mem_append_left _ hsegment)
    have hslash : ∀ segment ∈ above, '/' ∉ segment := fun segment hsegment =>
      (habove segment hsegment).2
    have hordinary : Ordinary (join above) := ordinary_join hne habove
    have hpath : path = join above ++ '/' :: last := by
      apply segments_injective
      rw [segments_append, segments_join hslash hne, segments_of_not_mem hlast, hsplit]
    have hstart : (path.reverse.dropWhile (· ≠ '/')).reverse = join above ++ '/' :: [] := by
      rw [hpath, List.reverse_append, List.reverse_cons, List.append_assoc,
        List.dropWhile_append_of_pos]
      · simp
      · intro c hc
        exact decide_eq_true (ne_of_mem_of_not_mem (List.mem_reverse.mp hc) hlast)
    have hkept : cleanSegments (join above ++ '/' :: []) = above := by
      rw [cleanSegments, segments_append, segments_join hslash hne, List.foldl_append,
        foldl_cleanStep fun segment hsegment => (habove segment hsegment).1]
      simp [segments, cleanStep]
    rw [getDirectory, dir, hstart, clean, isRooted_append hordinary.ne_nil, hordinary.isRooted,
      if_neg Bool.false_ne_true, hkept, if_neg hne]

theorem cleanSegments_getDirectory : getDirectory path ≠ [] ∧ isRooted (getDirectory path) = false ∧
    (segments (getDirectory path)).foldl (cleanStep false) [] = above := by
  have hmem := plain_of_split h hsplit
  rw [getDirectory_ordinary h hsplit]
  split_ifs with hne
  · rw [hne, segments_of_not_mem (by simp)]
    exact ⟨by simp, rfl, rfl⟩
  · have habove : ∀ segment ∈ above, Plain segment ∧ '/' ∉ segment := fun segment hsegment =>
      hmem segment (List.mem_append_left _ hsegment)
    have hordinary : Ordinary (join above) := ordinary_join hne habove
    rw [segments_join (fun segment hsegment => (habove segment hsegment).2) hne,
      foldl_cleanStep fun segment hsegment => (habove segment hsegment).1]
    exact ⟨hordinary.ne_nil, hordinary.isRooted, rfl⟩

end Split

theorem segments_renamedPath (h : Ordinary path) (hname : Plain name) (hslash : '/' ∉ name) :
    segments (renamedPath path name) = (segments path).dropLast ++ [name] := by
  have hsplit := (List.dropLast_append_getLast (segments_ne_nil path)).symm
  obtain ⟨hne, hrooted, hkept⟩ := cleanSegments_getDirectory h hsplit
  have hnames : ∀ segment ∈ (segments path).dropLast ++ [name], Plain segment ∧ '/' ∉ segment := by
    intro segment hsegment
    rcases List.mem_append.mp hsegment with habove | hlast
    · have hmem := List.mem_of_mem_dropLast habove
      exact ⟨h segment hmem, slash_not_mem hmem⟩
    · rw [List.mem_singleton.mp hlast]
      exact ⟨hname, hslash⟩
  have hclean : cleanSegments (getDirectory path ++ '/' :: name)
      = (segments path).dropLast ++ [name] := by
    rw [cleanSegments, isRooted_append hne, hrooted, segments_append, segments_of_not_mem hslash,
      List.foldl_append, hkept, List.foldl_cons, List.foldl_nil, cleanStep_plain hname]
  rw [renamedPath, List.append_assoc, List.singleton_append,
    normalizePath_of_cleanSegments (by rw [isRooted_append hne, hrooted]) hclean (by simp) hnames]
  exact segments_join (fun segment hsegment => (hnames segment hsegment).2) (by simp)

theorem normalizePath_renamedPath (path : Path) (hname : Plain name) (hslash : '/' ∉ name) :
    normalizePath (renamedPath path name) = renamedPath path name := by
  refine normalizePath_normalizePath (normalizePath_ne_nil ?_)
  rw [List.append_assoc, List.singleton_append, cleanSegments, segments_append,
    segments_of_not_mem hslash, List.foldl_append, List.foldl_cons, List.foldl_nil,
    cleanStep_plain hname]
  simp

theorem renamedPath_nil (hname : Plain name) (hslash : '/' ∉ name) :
    renamedPath [] name = name := by
  have hdir : getDirectory [] ++ ['/'] ++ name = ['.'] ++ '/' :: name := rfl
  have hclean : cleanSegments (['.'] ++ '/' :: name) = [name] := by
    rw [cleanSegments, segments_append, segments_of_not_mem hslash, segments_of_not_mem (by simp),
      List.foldl_append, List.foldl_cons, List.foldl_cons, List.foldl_nil, List.foldl_nil,
      cleanStep_plain hname]
    simp [cleanStep]
  rw [renamedPath, hdir, normalizePath_of_cleanSegments rfl hclean (by simp) (by simp [hname, hslash])]
  exact List.intercalate_singleton

theorem Ordinary.renamedPath (h : Ordinary path) (hname : Plain name) (hslash : '/' ∉ name) :
    Ordinary (renamedPath path name) := by
  intro segment hsegment
  rw [segments_renamedPath h hname hslash] at hsegment
  rcases List.mem_append.mp hsegment with habove | hlast
  · exact h segment (List.mem_of_mem_dropLast habove)
  · rw [List.mem_singleton.mp hlast]
    exact hname

end FsServer
