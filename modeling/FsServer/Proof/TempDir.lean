import FsServer.TempDir
import FsServer.Proof.ValidPaths

/-!
# Which temporary directories work

`validateTempFilePath` compares texts: it accepts what goes on behind the text of `os.TempDir()` or of
`/tmp/`. So the files in the configured directory are accepted if this directory is in one of the two.
A text of `os.TempDir()` that does not end in a slash is also the beginning of its neighbours' names.
-/

namespace FsServer

open Lib Program GoPath PathLocks OsPaths

/-! ### Texts and components -/

theorem join_cons {first : Segment} {rest : List Segment} (hne : rest ≠ []) :
    join (first :: rest) = first ++ '/' :: join rest := by
  obtain ⟨second, others, rfl⟩ := List.exists_cons_of_ne_nil hne
  simp [join, List.intercalate]

theorem join_split (above : List Segment) (last first : Segment) (rest : List Segment) :
    join (above ++ (last ++ first) :: rest) = join (above ++ [last]) ++ join (first :: rest) := by
  induction above with
  | nil =>
    by_cases hne : rest = []
    · simp [hne, join, List.intercalate]
    · rw [List.nil_append, join_cons hne, join_cons hne]
      simp [join, List.intercalate]
  | cons head above ih =>
    rw [List.cons_append, List.cons_append, join_cons (by simp), join_cons (by simp), ih,
      List.append_assoc, List.cons_append]

theorem join_concat (above : List Segment) (last tail : Segment) :
    join (above ++ [last ++ tail]) = join (above ++ [last]) ++ tail := by
  rw [join_split]
  simp [join, List.intercalate]

variable {above parts : List Segment} {last : Segment}

/-- A text that goes on behind another has the elements of this, but for the last. -/
theorem prefix_join (hne : parts ≠ []) (habove : ∀ part ∈ above ++ [last], '/' ∉ part)
    (hparts : ∀ part ∈ parts, '/' ∉ part) (h : join (above ++ [last]) <+: join parts) :
    ∃ next rest, parts = above ++ next :: rest ∧ last <+: next := by
  obtain ⟨tail, htail⟩ := h
  obtain ⟨first, rest, hsegments⟩ := List.exists_cons_of_ne_nil (segments_ne_nil tail)
  rw [← join_segments tail, hsegments, ← join_split] at htail
  have hslash : ∀ part ∈ first :: rest, '/' ∉ part := fun part hpart =>
    slash_not_mem (hsegments ▸ hpart)
  have hsame := congrArg segments htail
  rw [segments_join hparts hne, segments_join (fun part hpart => ?_) (by simp)] at hsame
  · exact ⟨last ++ first, rest, hsame.symm, List.prefix_append ..⟩
  · simp only [List.mem_append, List.mem_cons] at hpart
    rcases hpart with hpart | rfl | hpart
    · exact habove part (by simp [hpart])
    · rw [List.mem_append, not_or]
      exact ⟨habove last (by simp), hslash first (by simp)⟩
    · exact hslash part (by simp [hpart])

theorem foldl_cleanStep_kept {kept names : List Segment} (parts : List Segment)
    (hnames : ∀ name ∈ names, name = ['.', '.'] ∨ Plain name) :
    (parts.foldl (cleanStep false) names).foldl (cleanStep true) kept =
      parts.foldl (cleanStep true) (names.foldl (cleanStep true) kept) := by
  induction parts generalizing names with
  | nil => rfl
  | cons part rest ih =>
    rw [List.foldl_cons, List.foldl_cons]
    by_cases hskip : part = [] ∨ part = ['.']
    · rw [cleanStep, if_pos hskip, cleanStep, if_pos hskip, ih hnames]
    by_cases hup : part = ['.', '.']
    · subst hup
      cases names using List.reverseRecOn with
      | nil =>
        have hup : ∀ name ∈ [['.', '.']], name = ['.', '.'] ∨ Plain name := by simp
        exact ih hup
      | append_singleton names name =>
        rcases hnames name (by simp) with rfl | hplain
        · have hstep : cleanStep false (names ++ [['.', '.']]) ['.', '.'] =
              names ++ [['.', '.']] ++ [['.', '.']] := by
            rw [cleanStep, if_neg hskip, if_pos rfl, List.getLast?_concat]
            exact if_pos rfl
          rw [hstep, ih, List.foldl_append]
          · rfl
          · simpa [or_imp, forall_and] using hnames
        · have hstep : ∀ rooted others, cleanStep rooted (others ++ [name]) ['.', '.'] = others := by
            intro rooted others
            simp [cleanStep, hplain.2.2]
          rw [hstep, ih fun other hother => hnames other (by simp [hother]), List.foldl_append,
            List.foldl_cons, List.foldl_nil, cleanStep_plain hplain, hstep]
    · have hplain : Plain part :=
        ⟨fun hempty => hskip (.inl hempty), fun hdot => hskip (.inr hdot), hup⟩
      rw [cleanStep_plain hplain, ih, List.foldl_append]
      · rfl
      · intro name hname
        rcases List.mem_append.mp hname with hname | hname
        · exact hnames name hname
        · exact .inr (List.mem_singleton.mp hname ▸ hplain)

theorem cleanSegments_placeText (h : ∀ part ∈ parts, Plain part ∧ '/' ∉ part) :
    cleanSegments (placeText parts) = parts := by
  by_cases hne : parts = []
  · rw [hne]
    rfl
  · have hsegments : segments (placeText parts) = [] :: parts := by
      rw [placeText, segments_slash, segments_join (fun part hpart => (h part hpart).2) hne]
    rw [cleanSegments, hsegments, List.foldl_cons, cleanStep, if_pos (.inl rfl),
      foldl_cleanStep fun part hpart => (h part hpart).1, List.nil_append]

theorem placeText_concat (above : List Segment) (last : Segment) :
    placeText (above ++ [last]) = placeText (above ++ [[]]) ++ last := by
  rw [placeText, placeText, List.cons_append, ← join_concat, List.nil_append]

namespace OsPaths

variable {os : OsPaths}

theorem accepts_iff {path : Path} :
    os.Accepts path ↔ os.tempDir <+: placeText (os.abs path) ∨
      ['/', 't', 'm', 'p', '/'] <+: placeText (os.abs path) := by
  have hrun : (validateTempFilePath path).run os.handle () () =
      if ¬ os.tempDir <+: placeText (os.abs path) ∧
          ¬ ['/', 't', 'm', 'p', '/'] <+: placeText (os.abs path) then
        some (.error (.tempFilePath path), ()) else some (.ok (), ()) := by
    unfold validateTempFilePath
    simp only [perform_bind, run_call, handle, Option.bind_some]
    split_ifs <;> rfl
  rw [Accepts, hrun]
  split_ifs with hrefused
  · simpa using hrefused
  · simpa [or_iff_not_imp_left] using hrefused

theorem abs_eq (path : Path) :
    os.abs path = (segments path).foldl (cleanStep true)
      (if isRooted path then [] else cleanSegments os.wd) := by
  have hwd : os.wd ≠ [] := by
    intro hnil
    have hrooted := os.rooted
    rw [hnil] at hrooted
    cases hrooted
  unfold abs
  split_ifs with hrooted
  · rw [cleanSegments, hrooted]
  · rw [cleanSegments, isRooted_append hwd, os.rooted, segments_append, List.foldl_append,
      cleanSegments, os.rooted]

theorem plain_abs (path : Path) : ∀ part ∈ os.abs path, Plain part ∧ '/' ∉ part := by
  have hrooted : isRooted (if isRooted path then path else os.wd ++ '/' :: path) = true := by
    split_ifs with h
    · exact h
    · cases hwd : os.wd with
      | nil => rfl
      | cons c rest =>
        have h := os.rooted
        rw [hwd] at h
        exact h
  obtain ⟨up, names, hkept, hnames, hup⟩ :=
    cleaned_cleanSegments (if isRooted path then path else os.wd ++ '/' :: path)
  rw [abs, hkept, hup hrooted]
  simpa using hnames

theorem abs_placeText (h : ∀ part ∈ parts, Plain part ∧ '/' ∉ part) :
    os.abs (placeText parts) = parts :=
  cleanSegments_placeText h

theorem abs_clean (path : Path) : os.abs (clean path) = os.abs path := by
  cases hrooted : isRooted path with
  | true =>
    have habs : os.abs path = cleanSegments path := by rw [abs, if_pos hrooted]
    rw [clean, if_pos hrooted, habs]
    exact abs_placeText (habs ▸ plain_abs path)
  | false =>
    have hkept : ((segments path).foldl (cleanStep false) []).foldl (cleanStep true)
        (cleanSegments os.wd) = (segments path).foldl (cleanStep true) (cleanSegments os.wd) :=
      foldl_cleanStep_kept _ (by simp)
    have hsame : cleanSegments path = (segments path).foldl (cleanStep false) [] := by
      rw [cleanSegments, hrooted]
    rw [abs_eq, abs_eq, isRooted_clean, hrooted, if_neg Bool.false_ne_true, ← hkept, ← hsame, clean,
      hrooted, if_neg Bool.false_ne_true]
    split_ifs with hempty
    · rw [hempty]
      rfl
    · rw [segments_join (fun part hpart => (cleanSegments_mem hpart).2.2) hempty]

theorem abs_joinPath {dir name : Path} (hdir : dir ≠ []) (hname : Plain name) (hslash : '/' ∉ name) :
    os.abs (joinPath dir name) = os.abs dir ++ [name] := by
  rw [joinPath, if_pos hdir, abs_clean, abs_eq, abs_eq, isRooted_append hdir, segments_append,
    List.foldl_append, segments_of_not_mem hslash, List.foldl_cons, List.foldl_nil,
    cleanStep_plain hname]

end OsPaths

theorem joinPath_append {dir name tail : Path} (hdir : dir ≠ []) (hname : Plain name)
    (hslash : '/' ∉ name) (hlong : Plain (name ++ tail)) (htail : '/' ∉ tail) :
    joinPath dir name ++ tail = joinPath dir (name ++ tail) := by
  have hkept : ∀ {name : Path}, Plain name → '/' ∉ name →
      cleanSegments (dir ++ '/' :: name) = cleanSegments dir ++ [name] := by
    intro name hname hslash
    rw [cleanSegments, isRooted_append hdir, segments_append, List.foldl_append,
      segments_of_not_mem hslash, List.foldl_cons, List.foldl_nil, cleanStep_plain hname]
    rfl
  rw [joinPath, if_pos hdir, joinPath, if_pos hdir, clean, clean, isRooted_append hdir,
    isRooted_append hdir, hkept hname hslash, hkept hlong (by simp [hslash, htail])]
  by_cases hrooted : isRooted dir = true
  · rw [if_pos hrooted, if_pos hrooted, join_concat, List.cons_append]
  · rw [if_neg hrooted, if_neg hrooted, if_neg (by simp), if_neg (by simp), join_concat]

/-! ### The configured directory -/

/-- What `SetTempDir` and `validateTempFilePath` are to do together. -/
structure TempDirWorks (os : OsPaths) (tempDir : Path) : Prop where
  accepted : ∀ sessionID, IsSessionID sessionID →
    os.Accepts (uploadTempPath tempDir sessionID) ∧ os.Accepts (encryptedTempPath tempDir sessionID)
  rejected : ∀ path, ¬ os.Inside os.tempDir path → ¬ os.Inside ['/', 't', 'm', 'p'] path →
    ¬ os.Inside tempDir path → ¬ os.Accepts path

/-- The directory is in `/tmp` or behind the text of `os.TempDir()`. If this is a clean path other
than `/`, the directory above it is in `/tmp` or in the configured one. -/
structure TempDirAdmitted (os : OsPaths) (tempDir : Path) : Prop where
  below : (os.abs tempDir).head? = some ['t', 'm', 'p'] ∨
    os.tempDir <+: placeText (os.abs tempDir ++ [[]])
  apart : ∀ above last, os.tempDir = placeText (above ++ [last]) →
    (∀ part ∈ above ++ [last], Plain part ∧ '/' ∉ part) →
    above.head? = some ['t', 'm', 'p'] ∨ os.abs tempDir <+: above

section Works

variable {os : OsPaths} {dir path : Path}

theorem tmp_prefix_iff (hparts : ∀ part ∈ parts, '/' ∉ part) :
    ['/', 't', 'm', 'p', '/'] <+: placeText parts ↔
      ∃ next rest, parts = ['t', 'm', 'p'] :: next :: rest := by
  constructor
  · intro h
    have hne : parts ≠ [] := by
      rintro rfl
      exact absurd h (by decide)
    have hjoin : join ([['t', 'm', 'p']] ++ [[]]) <+: join parts := (List.cons_prefix_cons.mp h).2
    obtain ⟨next, rest, hsame, -⟩ := prefix_join hne (by decide) hparts hjoin
    exact ⟨next, rest, hsame⟩
  · rintro ⟨next, rest, rfl⟩
    rw [placeText, join_cons (by simp)]
    exact ⟨join (next :: rest), rfl⟩

theorem isSessionID_replicate {digit : Char} (h : digit.isDigit = true) :
    IsSessionID (List.replicate 36 digit) := by
  refine ⟨List.length_replicate, fun c hc => ?_⟩
  rw [List.eq_of_mem_replicate hc]
  exact .inr (.inl h)

theorem plain_tempName {sessionID tail : List Char} (h : IsSessionID sessionID) (htail : '/' ∉ tail) :
    Plain (sessionID ++ tail) ∧ '/' ∉ sessionID ++ tail := by
  have hlong : ∀ name : Segment, name.length ≤ 2 → sessionID ++ tail ≠ name := by
    rintro name hshort rfl
    rw [List.length_append, h.1] at hshort
    omega
  refine ⟨⟨hlong _ (by decide), hlong _ (by decide), hlong _ (by decide)⟩, ?_⟩
  rw [List.mem_append, not_or]
  exact ⟨fun hmem => absurd (h.2 _ hmem) (by decide), htail⟩

theorem abs_tempPaths (hdir : dir ≠ []) {sessionID : List Char} (h : IsSessionID sessionID) :
    os.abs (uploadTempPath dir sessionID) = os.abs dir ++ [sessionID ++ ['.', 't', 'm', 'p']] ∧
      os.abs (encryptedTempPath dir sessionID) =
        os.abs dir ++ [sessionID ++ ['.', 't', 'm', 'p', '.', 'e', 'n', 'c']] := by
  have hname : Plain (sessionID ++ ['.', 't', 'm', 'p']) ∧ _ := plain_tempName h (by decide)
  have hlong : Plain (sessionID ++ ['.', 't', 'm', 'p', '.', 'e', 'n', 'c']) ∧ _ :=
    plain_tempName h (by decide)
  refine ⟨abs_joinPath hdir hname.1 hname.2, ?_⟩
  have hsplit : sessionID ++ ['.', 't', 'm', 'p', '.', 'e', 'n', 'c'] =
      (sessionID ++ ['.', 't', 'm', 'p']) ++ ['.', 'e', 'n', 'c'] := by simp
  rw [hsplit] at hlong ⊢
  rw [encryptedTempPath, uploadTempPath, joinPath_append hdir hname.1 hname.2 hlong.1 (by decide)]
  exact abs_joinPath hdir hlong.1 hlong.2

theorem tempDir_ne_nil (os : OsPaths) : os.tempDir ≠ [] := by
  unfold tempDir
  split_ifs with hunset
  · decide
  · exact hunset

/-- What begins with the text of `os.TempDir()` is in this directory, in `/tmp` or in the configured
one. -/
theorem TempDirAdmitted.inside (h : TempDirAdmitted os dir)
    (hbegins : os.tempDir <+: placeText (os.abs path)) :
    os.Inside os.tempDir path ∨ os.Inside ['/', 't', 'm', 'p'] path ∨ os.Inside dir path := by
  obtain ⟨c, text, htext⟩ := List.exists_cons_of_ne_nil (tempDir_ne_nil os)
  obtain ⟨above, last, hsplit⟩ : ∃ above last, segments text = above ++ [last] :=
    ⟨_, _, (List.dropLast_append_getLast (segments_ne_nil text)).symm⟩
  rw [htext, placeText, List.cons_prefix_cons, ← join_segments text, hsplit] at hbegins
  obtain ⟨rfl, hbegins⟩ := hbegins
  have htemp : os.tempDir = placeText (above ++ [last]) := by
    rw [htext, placeText, ← hsplit, join_segments]
  have hslash : ∀ part ∈ above ++ [last], '/' ∉ part := fun part hpart =>
    slash_not_mem (hsplit ▸ hpart)
  have habs : os.abs os.tempDir = (above ++ [last]).foldl (cleanStep true) [] := by
    rw [abs_eq, htext, segments_slash, hsplit]
    rfl
  by_cases hempty : os.abs path = []
  · rw [hempty] at hbegins
    have hnil : text = [] := by
      rw [← join_segments text, hsplit]
      exact List.prefix_nil.mp hbegins
    refine .inl ?_
    rw [Inside, htext, hnil]
    exact List.nil_prefix
  obtain ⟨next, rest, hparts, -⟩ := prefix_join hempty hslash
    (fun part hpart => (plain_abs path part hpart).2) hbegins
  have habove : ∀ part ∈ above, Plain part ∧ '/' ∉ part := fun part hpart =>
    plain_abs path part (hparts ▸ List.mem_append_left _ hpart)
  have hinside : above <+: os.abs path := hparts ▸ List.prefix_append ..
  rw [List.foldl_append, foldl_cleanStep fun part hpart => (habove part hpart).1, List.nil_append,
    List.foldl_cons, List.foldl_nil, cleanStep] at habs
  by_cases hskip : last = [] ∨ last = ['.']
  · rw [if_pos hskip] at habs
    refine .inl ?_
    rw [Inside, habs]
    exact hinside
  by_cases hup : last = ['.', '.']
  · rw [if_neg hskip, if_pos hup] at habs
    refine .inl ?_
    rw [Inside, habs]
    cases hlast : above.getLast? with
    | none => exact List.nil_prefix
    | some name =>
      dsimp only
      rw [if_neg (habove name (List.mem_of_getLast? hlast)).1.2.2]
      exact (List.dropLast_prefix above).trans hinside
  refine .inr ?_
  have hlast : Plain last := ⟨fun heq => hskip (.inl heq), fun heq => hskip (.inr heq), hup⟩
  have hplain : ∀ part ∈ above ++ [last], Plain part ∧ '/' ∉ part := by
    intro part hpart
    refine ⟨?_, hslash part hpart⟩
    rcases List.mem_append.mp hpart with hpart | hpart
    · exact (habove part hpart).1
    · exact List.mem_singleton.mp hpart ▸ hlast
  rcases h.apart above last htemp hplain with htmp | hdir
  · obtain ⟨others, rfl⟩ : ∃ others, above = ['t', 'm', 'p'] :: others :=
      List.head?_eq_some_iff.mp htmp
    exact .inl ((List.prefix_append [['t', 'm', 'p']] others).trans hinside)
  · exact .inr (hdir.trans hinside)

theorem accepts_name {name : Path} (hpath : os.abs path = os.abs dir ++ [name]) :
    os.Accepts path ↔ (os.abs dir).head? = some ['t', 'm', 'p'] ∨
      os.tempDir <+: placeText (os.abs dir ++ [[]]) ++ name := by
  have hparts : ∀ part ∈ os.abs dir ++ [name], '/' ∉ part := fun part hpart =>
    (plain_abs path part (hpath ▸ hpart)).2
  have htmp : (∃ next rest, os.abs dir ++ [name] = ['t', 'm', 'p'] :: next :: rest) ↔
      (os.abs dir).head? = some ['t', 'm', 'p'] := by
    cases os.abs dir with
    | nil => simp
    | cons first others =>
      rw [List.head?_cons, Option.some.injEq]
      constructor
      · rintro ⟨next, rest, heq⟩
        exact (List.cons.inj heq).1
      · rintro rfl
        obtain ⟨next, rest, hrest⟩ := List.exists_cons_of_ne_nil
          (List.append_ne_nil_of_right_ne_nil others (List.cons_ne_nil name []))
        exact ⟨next, rest, congrArg _ hrest⟩
  rw [accepts_iff, hpath, tmp_prefix_iff hparts, htmp, placeText_concat, or_comm]

theorem TempDirWorks.neighbour (h : TempDirWorks os dir) {above : List Segment} {last : Segment}
    (htemp : os.tempDir = placeText (above ++ [last]))
    (hplain : ∀ part ∈ above ++ [last], Plain part ∧ '/' ∉ part) {c : Char}
    (hc : c = '0' ∨ c = '1') :
    (above.head? = some ['t', 'm', 'p'] ∨ os.abs dir <+: above) ∨
      os.abs dir = above ++ [last ++ [c]] := by
  have hother : c ≠ '.' ∧ c ≠ '/' ∧ c ≠ 'p' := by rcases hc with rfl | rfl <;> decide
  have hends : ∀ name : Segment, name.getLast? ≠ some c → last ++ [c] ≠ name := by
    rintro name hname rfl
    simp at hname
  have hlast : Plain (last ++ [c]) ∧ '/' ∉ last ++ [c] := by
    refine ⟨⟨by simp, hends _ ?_, hends _ ?_⟩, ?_⟩
    · simpa using hother.1.symm
    · simpa using hother.1.symm
    · simpa [hother.2.1.symm] using (hplain last (by simp)).2
  have habs : os.abs (placeText (above ++ [last ++ [c]])) = above ++ [last ++ [c]] := by
    refine abs_placeText fun part hpart => ?_
    rcases List.mem_append.mp hpart with hpart | hpart
    · exact hplain part (List.mem_append_left _ hpart)
    · exact List.mem_singleton.mp hpart ▸ hlast
  have haccepts : os.Accepts (placeText (above ++ [last ++ [c]])) := by
    rw [accepts_iff, habs, htemp, placeText, placeText, join_concat, ← List.cons_append]
    exact .inl (List.prefix_append ..)
  by_contra hnot
  rw [not_or, not_or] at hnot
  refine h.rejected _ ?_ ?_ ?_ haccepts
  · rw [Inside, habs, htemp, abs_placeText hplain]
    intro hin
    have hsame := hin.eq_of_length (by simp)
    simp at hsame
  · rw [Inside, habs]
    rintro ⟨rest, hrest⟩
    cases above with
    | nil => exact hends _ (by simpa using hother.2.2.symm) (List.cons.inj hrest).1.symm
    | cons first others => exact hnot.1.1 (by rw [← (List.cons.inj hrest).1]; rfl)
  · rw [Inside, habs, List.prefix_concat_iff]
    exact not_or.mpr ⟨hnot.2, hnot.1.2⟩

/-- **The configured directory works** exactly if it is admitted. -/
theorem tempDir_works_iff {os : OsPaths} {mkdirAll : Path → Except OsError Unit}
    {old dir configured : Path} (hdir : dir ≠ [])
    (hset : setTempDir mkdirAll old dir = .ok configured) :
    TempDirWorks os configured ↔ TempDirAdmitted os configured := by
  obtain rfl : dir = configured := by
    rw [setTempDir, if_neg hdir] at hset
    split at hset
    · cases hset
    · exact Except.ok.inj hset
  constructor
  · intro h
    refine ⟨?_, fun above last htemp hplain => ?_⟩
    · have hzero : IsSessionID (List.replicate 36 '0') := isSessionID_replicate rfl
      have hone : IsSessionID (List.replicate 36 '1') := isSessionID_replicate rfl
      rcases (accepts_name (abs_tempPaths hdir hzero).1).mp (h.accepted _ hzero).1 with
        htmp | hfirst
      · exact .inl htmp
      rcases (accepts_name (abs_tempPaths hdir hone).1).mp (h.accepted _ hone).1 with
        htmp | hsecond
      · exact .inl htmp
      refine .inr ?_
      rcases List.prefix_or_prefix_of_prefix hfirst (List.prefix_append _ _) with hin | ⟨rest, hrest⟩
      · exact hin
      · rw [← hrest, List.prefix_append_right_inj] at hfirst hsecond
        cases rest with
        | nil => rw [← hrest, List.append_nil]
        | cons c rest =>
          have hc := (List.cons_prefix_cons.mp hfirst).1
          rw [hc] at hsecond
          exact absurd (List.cons_prefix_cons.mp hsecond).1 (by decide)
    · rcases h.neighbour htemp hplain (.inl rfl) with hdone | hzero
      · exact hdone
      rcases h.neighbour htemp hplain (.inr rfl) with hdone | hone
      · exact hdone
      rw [hzero] at hone
      simp at hone
  · intro h
    refine ⟨fun sessionID hid => ?_, fun path htemp htmp hconfigured haccepts => ?_⟩
    · obtain ⟨hupload, hencrypted⟩ : os.abs (uploadTempPath dir sessionID) = _ ∧ _ :=
        abs_tempPaths hdir hid
      have hbelow : ∀ name, (os.abs dir).head? = some ['t', 'm', 'p'] ∨
          os.tempDir <+: placeText (os.abs dir ++ [[]]) ++ name := fun name =>
        h.below.imp_right fun hin => hin.trans (List.prefix_append ..)
      exact ⟨(accepts_name hupload).mpr (hbelow _), (accepts_name hencrypted).mpr (hbelow _)⟩
    · rcases accepts_iff.mp haccepts with hbegins | hbegins
      · rcases h.inside hbegins with hin | hin | hin
        · exact htemp hin
        · exact htmp hin
        · exact hconfigured hin
      · obtain ⟨next, rest, hparts⟩ :=
          (tmp_prefix_iff fun part hpart => (plain_abs path part hpart).2).mp hbegins
        refine htmp ?_
        rw [Inside, hparts]
        exact List.prefix_append [['t', 'm', 'p']] _

end Works

def sampleOs (tmpdir : Path) : OsPaths := ⟨tmpdir, ['/'], rfl⟩

theorem tempDir_works_belowTmp :
    TempDirWorks (sampleOs ['/', 't', 'm', 'p', '/']) ['/', 't', 'm', 'p', '/', 'u'] := by
  have hset : setTempDir (fun _ => .ok ()) [] ['/', 't', 'm', 'p', '/', 'u'] =
      .ok ['/', 't', 'm', 'p', '/', 'u'] := rfl
  refine (tempDir_works_iff (by decide) hset).mpr ⟨.inl rfl, fun above last htemp hplain => ?_⟩
  have hlast := congrArg List.getLast? htemp
  rw [placeText_concat, List.getLast?_append_of_ne_nil _ (hplain last (by simp)).1.1] at hlast
  exact absurd (List.mem_of_getLast? hlast.symm) (hplain last (by simp)).2

/-- With `os.TempDir()` being `/tmp` no file in `/data` is accepted, and a file in `/tmpx` is. -/
theorem tempDir_refused :
    setTempDir (fun _ => .ok ()) [] ['/', 'd', 'a', 't', 'a'] = .ok ['/', 'd', 'a', 't', 'a'] ∧
      (∀ sessionID, IsSessionID sessionID →
        ¬ (sampleOs []).Accepts (uploadTempPath ['/', 'd', 'a', 't', 'a'] sessionID)) ∧
      (sampleOs []).Accepts ['/', 't', 'm', 'p', 'x', '/', 'f'] ∧
      ¬ (sampleOs []).Inside (sampleOs []).tempDir ['/', 't', 'm', 'p', 'x', '/', 'f'] ∧
      ¬ (sampleOs []).Inside ['/', 'd', 'a', 't', 'a'] ['/', 't', 'm', 'p', 'x', '/', 'f'] := by
  refine ⟨rfl, fun sessionID hid haccepts => ?_, accepts_iff.mpr (.inl (by decide)), ?_, ?_⟩
  · have hpath : (sampleOs []).abs (uploadTempPath ['/', 'd', 'a', 't', 'a'] sessionID) =
        (sampleOs []).abs ['/', 'd', 'a', 't', 'a'] ++ [sessionID ++ ['.', 't', 'm', 'p']] :=
      (abs_tempPaths (by decide) hid).1
    rcases (accepts_name hpath).mp haccepts with htmp | ⟨rest, hrest⟩
    · exact absurd htmp (by decide)
    · exact absurd (List.cons.inj (List.cons.inj hrest).2).1 (by decide)
  · rw [Inside]
    decide
  · rw [Inside]
    decide

end FsServer
