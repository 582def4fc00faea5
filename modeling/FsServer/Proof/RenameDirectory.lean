import FsServer.Proof.Directory

/-!
# Renaming a directory

The rows of the files under the directory are moved in one transaction and their objects one by one
afterwards, where errors are only logged. The files stay readable when nothing on the disk is in the
way of an object, when the pattern selects no file outside the directory, and when the directory does
not share its name with a file, which the last of the moves would take along.
-/

namespace FsServer

open Lib Program World GoPath DirectoryManager Database

/-- What a rename of a directory has to find: a path inside the storage and a valid name, no row
selected from outside, and the way of every object free. -/
structure Renamable (world : World) (oldPath newName : Path) : Prop where
  inside : Inside oldPath
  name : isValidFileName newName = true
  selects : ∀ path row, world.db.liveFile path = some row →
    likeUnder world.db.dialect oldPath path = true → ∃ rest, path = oldPath ++ '/' :: rest
  free : ∀ rest row, world.db.liveFile (oldPath ++ '/' :: rest) = some row →
    world.storage.tree.isDirectory (world.storage.getFullPath
      (FileManager.renamedPath oldPath newName ++ '/' :: rest)) = false
  clear : ∀ rest row, world.db.liveFile (oldPath ++ '/' :: rest) = some row →
    world.storage.tree.throughFile (world.storage.getFullPath
      (FileManager.renamedPath oldPath newName ++ '/' :: rest)).dropLast = false
  own : world.db.liveFile oldPath = none ∨ world.storage.tree.isDirectory
    (world.storage.getFullPath (FileManager.renamedPath oldPath newName)) = true

/-- The files under the old path are under the new one, and all others are where they were. -/
def Carries (world after : World) (oldPath newPath : Path) : Prop :=
  (∀ rest content, world.content (oldPath ++ '/' :: rest) = some content →
    after.content (newPath ++ '/' :: rest) = some content) ∧
  ∀ path content, (¬ ∃ rest, path = oldPath ++ '/' :: rest) →
    world.content path = some content → after.content path = some content

variable {path : Path}

section Paths

variable {above below : Path}

theorem Ordinary.append (habove : Ordinary above) (hbelow : Ordinary below) :
    Ordinary (above ++ '/' :: below) := by
  intro segment hsegment
  rw [segments_append, List.mem_append] at hsegment
  exact hsegment.elim (habove segment) (hbelow segment)

theorem Ordinary.of_append (h : Ordinary (above ++ '/' :: below)) :
    Ordinary above ∧ Ordinary below := by
  constructor
  · intro segment hsegment
    exact h segment (by rw [segments_append]; exact List.mem_append_left _ hsegment)
  · intro segment hsegment
    exact h segment (by rw [segments_append]; exact List.mem_append_right _ hsegment)

theorem movedPath_below (oldPath newPath rest : Path) :
    movedPath oldPath newPath (oldPath ++ '/' :: rest) = newPath ++ '/' :: rest := by
  rw [movedPath, List.drop_left]

theorem not_below_renamed {oldPath newName : Path} (hpath : Ordinary oldPath)
    (hname : isValidFileName newName = true)
    (hne : FileManager.renamedPath oldPath newName ≠ oldPath) (rest : Path) :
    ¬ segments oldPath <+: segments (FileManager.renamedPath oldPath newName ++ '/' :: rest) := by
  have hplain := Plain.of_isValidFileName hname
  have hsegments := segments_renamedPath hpath hplain.1 hplain.2
  have hlength : (segments (FileManager.renamedPath oldPath newName)).length
      = (segments oldPath).length := by
    have hpos := List.length_pos_iff.mpr (segments_ne_nil oldPath)
    rw [hsegments, List.length_append, List.length_dropLast, List.length_singleton]
    omega
  intro hpre
  rw [segments_append] at hpre
  have hsame : segments oldPath = segments (FileManager.renamedPath oldPath newName) :=
    (List.prefix_of_prefix_length_le hpre (List.prefix_append _ _) hlength.symm.le).eq_of_length
      hlength.symm
  exact hne (segments_injective hsame).symm

theorem Inside.renamedPath {name : Path} (h : Inside path) (hname : isValidFileName name = true) :
    Ordinary (FileManager.renamedPath path name) := by
  obtain ⟨hplain, hslash⟩ := Plain.of_isValidFileName hname
  rcases h with hroot | hordinary
  · have hdirectory : getDirectory path = ['.'] := by
      rcases hroot with rfl | rfl <;> rfl
    have hclean : cleanSegments (['.'] ++ '/' :: name) = [name] := by
      rw [cleanSegments, segments_append, segments_of_not_mem (by simp), segments_of_not_mem hslash]
      simp [cleanStep, hplain.1, hplain.2.1, hplain.2.2]
    have hnames : ∀ segment ∈ [name], Plain segment ∧ '/' ∉ segment := by
      intro segment hsegment
      rw [List.mem_singleton.mp hsegment]
      exact ⟨hplain, hslash⟩
    have hrenamed : FileManager.renamedPath path name = join [name] := by
      rw [FileManager.renamedPath, hdirectory]
      exact normalizePath_of_cleanSegments rfl hclean (by simp) hnames
    rw [hrenamed]
    exact ordinary_join (by simp) hnames
  · exact hordinary.renamedPath hplain hslash

end Paths

section Move

variable {sha256 : Bytes → String} {world after : World} {oldPath newName newPath : Path}

def World.bytesAt (world : World) (path : Path) : Bytes := (world.storage.object path).getD []

theorem Renamable.movable (h : Renamable world oldPath newName) (hworld : Consistent sha256 world)
    (hne : FileManager.renamedPath oldPath newName ≠ oldPath) {paths : List Path}
    (hnodup : paths.Nodup) (hpaths : ∀ path ∈ paths, ∃ row, world.db.liveFile path = some row ∧
      likeUnder world.db.dialect oldPath path = true) :
    world.storage.Movable paths
      (movedPath oldPath (FileManager.renamedPath oldPath newName))
      world.bytesAt := by
  have hnew := h.inside.renamedPath h.name
  have hbelow : ∀ path ∈ paths, ∃ rest row, path = oldPath ++ '/' :: rest ∧
      world.db.liveFile (oldPath ++ '/' :: rest) = some row := by
    intro path hpath
    obtain ⟨row, hlive, hlike⟩ := hpaths path hpath
    obtain ⟨rest, rfl⟩ := h.selects path row hlive hlike
    exact ⟨rest, row, rfl, hlive⟩
  have hparts : ∀ rest row, world.db.liveFile (oldPath ++ '/' :: rest) = some row →
      Ordinary oldPath ∧ Ordinary rest := fun rest row hlive =>
    (hworld.ordinary hlive).of_append
  refine ⟨hnodup, fun path hpath => ?_, fun path hpath => ?_, fun path hpath => ?_,
    fun path hpath => ?_, fun path hpath => ?_, fun path hpath => ?_,
    fun path hpath other hother => ?_, fun path hpath other hother hdistinct hpre => ?_⟩
  all_goals obtain ⟨rest, row, rfl, hlive⟩ := hbelow path hpath
  · exact hworld.rooted hlive
  · exact hworld.ordinary hlive
  · rw [movedPath_below]
    exact hnew.append (hparts rest row hlive).2
  · obtain ⟨content, hobject, -⟩ := hworld.stored hlive
    rw [bytesAt, hobject]
    rfl
  · rw [movedPath_below]
    exact h.free rest row hlive
  · rw [movedPath_below]
    exact h.clear rest row hlive
  · obtain ⟨below, -, rfl, -⟩ := hbelow other hother
    rw [movedPath_below]
    intro heq
    refine not_below_renamed (hparts rest row hlive).1 h.name hne below ?_
    rw [← heq, segments_append]
    exact List.prefix_append _ _
  -- a file above another one at the new place would be above it at the old place already
  · obtain ⟨below, lower, rfl, hlower⟩ := hbelow other hother
    obtain ⟨hold, hrest⟩ := hparts rest row hlive
    obtain ⟨-, hbelowOrdinary⟩ := hparts below lower hlower
    rw [movedPath_below, movedPath_below, getFullPath_ordinary _ (hnew.append hrest),
      getFullPath_ordinary _ (hnew.append hbelowOrdinary), segments_append, segments_append,
      List.prefix_append_right_inj, List.prefix_append_right_inj] at hpre
    obtain ⟨content, hobject, -⟩ := hworld.stored hlive
    obtain ⟨content', hobject', -⟩ := hworld.stored hlower
    have habove : world.storage.getFullPath (oldPath ++ '/' :: rest)
        <+: world.storage.getFullPath (oldPath ++ '/' :: below) := by
      rw [getFullPath_ordinary _ (hworld.ordinary hlive),
        getFullPath_ordinary _ (hworld.ordinary hlower), segments_append, segments_append,
        List.prefix_append_right_inj, List.prefix_append_right_inj]
      exact hpre
    have hplaces : world.storage.getFullPath (oldPath ++ '/' :: rest)
        ≠ world.storage.getFullPath (oldPath ++ '/' :: below) := fun heq =>
      hdistinct (getFullPath_injective _ (hworld.ordinary hlive) (hworld.ordinary hlower) heq)
    have hnone := world.storage.tree.node_below_file (FileTree.fileAt_eq_some.mp hobject) habove
      hplaces
    rw [FileTree.fileAt_eq_some.mp hobject'] at hnone
    cases hnone

/-- The rows of the selected files and their objects have been moved. -/
structure RowsMoved (world after : World) (oldPath newPath : Path) (now : String)
    (paths : List Path) : Prop where
  rows : after.db.files.rows = world.db.files.rows.map (world.db.moveRow oldPath newPath now)
  selected : ∀ path, path ∈ paths ↔ ∃ row, world.db.liveFile path = some row ∧
    likeUnder world.db.dialect oldPath path = true
  movable : world.storage.Movable paths (movedPath oldPath newPath) world.bytesAt
  moved : world.storage.Moved after.storage paths (movedPath oldPath newPath)
    world.bytesAt

namespace RowsMoved

variable {now : String} {paths : List Path}

variable {row : FileMetadata}

section

variable (h : RowsMoved world after oldPath newPath now paths)
include h

theorem live_selected (hlive : world.db.liveFile path = some row) (hpath : path ∈ paths) :
    after.db.liveFile (movedPath oldPath newPath path)
      = some (world.db.moveRow oldPath newPath now row) := by
  obtain rfl := path_of_liveFile hlive
  obtain ⟨-, -, hlike⟩ := (h.selected row.path).mp hpath
  refine (liveFile_moved h.rows).mpr ⟨row, hlive, rfl, ?_⟩
  rw [path_moveRow (liveFile_eq_some.mp hlive).2, if_pos hlike]

theorem live_other (hlive : world.db.liveFile path = some row) (hpath : path ∉ paths) :
    after.db.liveFile path = some (world.db.moveRow oldPath newPath now row) := by
  obtain rfl := path_of_liveFile hlive
  refine (liveFile_moved h.rows).mpr ⟨row, hlive, rfl, ?_⟩
  rw [path_moveRow (liveFile_eq_some.mp hlive).2, if_neg]
  exact fun hlike => hpath ((h.selected row.path).mpr ⟨row, hlive, hlike⟩)

theorem live_cases {key : Path} {found : FileMetadata} (hfound : after.db.liveFile key = some found) :
    ∃ path row, world.db.liveFile path = some row ∧
      found = world.db.moveRow oldPath newPath now row ∧
      (path ∈ paths ∧ key = movedPath oldPath newPath path ∨
        path ∉ paths ∧ key = path) := by
  obtain ⟨row, hlive, rfl, rfl⟩ := (liveFile_moved h.rows).mp hfound
  refine ⟨row.path, row, hlive, rfl, ?_⟩
  rw [path_moveRow (liveFile_eq_some.mp hlive).2]
  by_cases hlike : likeUnder world.db.dialect oldPath row.path = true
  · rw [if_pos hlike]
    exact .inl ⟨(h.selected row.path).mpr ⟨row, hlive, hlike⟩, rfl⟩
  · rw [if_neg hlike]
    refine .inr ⟨fun hpath => hlike ?_, rfl⟩
    obtain ⟨-, -, hselected⟩ := (h.selected row.path).mp hpath
    exact hselected

theorem ne_moved {other : Path} (hlive : world.db.liveFile path = some row) (hpath : path ∉ paths)
    (hother : other ∈ paths) :
    path ≠ movedPath oldPath newPath other := by
  intro heq
  obtain ⟨second, hsecond, -⟩ := (h.selected other).mp hother
  have hclash := h.live_other hlive hpath
  rw [heq, h.live_selected hsecond hother, Option.some.injEq] at hclash
  have hid : second.id = row.id := by
    rw [← (moveRow_spec world.db oldPath newPath now second).2.2.2, hclash,
      (moveRow_spec ..).2.2.2]
  have hsame := world.db.files.eq_of_id_eq
    (Table.mem_rows_iff.mpr (path_of_liveFile hsecond ▸
      (liveFile_eq_some.mp hsecond).1))
    (Table.mem_rows_iff.mpr (path_of_liveFile hlive ▸
      (liveFile_eq_some.mp hlive).1)) hid
  refine hpath ?_
  rw [← path_of_liveFile hlive, ← hsame, path_of_liveFile hsecond]
  exact hother

theorem object_other (hordinary : Ordinary path) (hpath : path ∉ paths)
    (hne : ∀ other ∈ paths, path ≠ movedPath oldPath newPath other) :
    after.storage.object path = world.storage.object path := by
  rw [LocalStorage.object, LocalStorage.getFullPath_congr h.moved.rootDir, h.moved.others]
  · rfl
  · intro other hother
    refine ⟨fun heq => hpath ?_, fun heq => hne other hother ?_⟩
    · rw [getFullPath_injective _ hordinary (h.movable.source other hother) heq]
      exact hother
    · exact getFullPath_injective _ hordinary (h.movable.target other hother) heq

theorem consistent (hworld : Consistent sha256 world) : Consistent sha256 after := by
  refine ⟨fun {key found} hfound => ?_, fun {key found} hfound => ?_,
    fun {key found} hfound => ?_, fun {key} hkey hnone => ?_, ?_⟩
  · obtain ⟨path, row, hlive, -, ⟨hpath, rfl⟩ | ⟨-, rfl⟩⟩ := h.live_cases hfound
    · exact h.movable.target path hpath
    · exact hworld.ordinary hlive
  · obtain ⟨path, row, hlive, -⟩ := h.live_cases hfound
    exact h.moved.rootDir ▸ hworld.rooted hlive
  · obtain ⟨path, row, hlive, rfl, hcases⟩ := h.live_cases hfound
    obtain ⟨content, hobject, hsize, hhash⟩ := hworld.stored hlive
    obtain ⟨-, hsameSize, hsameHash, -⟩ := moveRow_spec world.db oldPath newPath now row
    refine ⟨content, ?_, hsameSize.trans hsize, hsameHash.trans hhash⟩
    rcases hcases with ⟨hpath, rfl⟩ | ⟨hpath, rfl⟩
    · rw [h.moved.object path hpath, bytesAt, hobject]
      rfl
    · rw [h.object_other (hworld.ordinary hlive) hpath fun other => h.ne_moved hlive hpath]
      exact hobject
  · by_cases hpath : key ∈ paths
    · exact h.moved.gone key hpath
    by_cases hmoved : ∀ other ∈ paths, key ≠ movedPath oldPath newPath other
    · rw [h.object_other hkey hpath hmoved]
      refine hworld.owned hkey ?_
      cases hlive : world.db.liveFile key with
      | none => rfl
      | some row =>
        rw [h.live_other hlive hpath] at hnone
        cases hnone
    · simp only [not_forall, not_not] at hmoved
      obtain ⟨other, hother, rfl⟩ := hmoved
      obtain ⟨row, hlive, -⟩ := (h.selected other).mp hother
      rw [h.live_selected hlive hother] at hnone
      cases hnone
  · rw [h.moved.rootDir]
    exact h.moved.keeps _ hworld.root

theorem carries (hworld : Consistent sha256 world)
    (hbelow : ∀ path ∈ paths, ∃ rest, path = oldPath ++ '/' :: rest) :
    Carries world after oldPath newPath := by
  refine ⟨fun rest content hcontent => ?_, fun path content hnot hcontent => ?_⟩
  all_goals
    rw [World.content, Option.bind_eq_some_iff] at hcontent
    obtain ⟨row, hlive, hobject⟩ := hcontent
  · have hpath : oldPath ++ '/' :: rest ∈ paths :=
      (h.selected _).mpr ⟨row, hlive, likeUnder_self ..⟩
    have hmoved := h.live_selected hlive hpath
    have hthere := h.moved.object _ hpath
    rw [movedPath_below] at hmoved hthere
    rw [World.content, hmoved, Option.bind_some, hthere, bytesAt, hobject]
    rfl
  · have hpath : path ∉ paths := fun hmem => hnot (hbelow path hmem)
    rw [World.content, h.live_other hlive hpath, Option.bind_some,
      h.object_other (hworld.ordinary hlive) hpath fun other => h.ne_moved hlive hpath, hobject]

theorem live_old (hbelow : ∀ path ∈ paths, ∃ rest, path = oldPath ++ '/' :: rest)
    (hnot : ∀ rest, ¬ segments oldPath <+: segments (newPath ++ '/' :: rest))
    (hown : world.db.liveFile oldPath = none) (hpath : segments oldPath <+: segments path) :
    after.db.liveFile path = none := by
  cases hlive : after.db.liveFile path with
  | none => rfl
  | some found =>
    exfalso
    obtain ⟨source, row, hsource, -, ⟨hmem, rfl⟩ | ⟨hmem, rfl⟩⟩ := h.live_cases hlive
    · obtain ⟨rest, rfl⟩ := hbelow source hmem
      rw [movedPath_below] at hpath
      exact hnot rest hpath
    · rcases below_of_segments hpath with rfl | ⟨rest, rfl⟩
      · rw [hown] at hsource
        cases hsource
      · exact hmem ((h.selected _).mpr ⟨row, hsource, likeUnder_self ..⟩)

end

end RowsMoved

theorem object_of_transplants (h : Consistent sha256 world) {storage : LocalStorage}
    (hold : Ordinary oldPath) (hnew : Ordinary newPath)
    (hgone : ∀ path, segments oldPath <+: segments path → world.db.liveFile path = none)
    (hmoves : world.storage.Transplants storage (world.storage.getFullPath oldPath)
      (world.storage.getFullPath newPath)) (hpath : Ordinary path) :
    storage.object path = world.storage.object path := by
  have hnone : ∀ path, Ordinary path → segments oldPath <+: segments path →
      world.storage.object path = none := fun path hordinary hbelow =>
    h.owned hordinary (hgone path hbelow)
  have htarget : world.storage.object newPath = none := by
    rcases hmoves.taken with hfile | ⟨-, hfree⟩
    · exact absurd (hnone oldPath hold (List.prefix_refl _)) hfile
    · exact hfree
  have hplace : ∀ {above}, Ordinary above → (world.storage.getFullPath above
      <+: world.storage.getFullPath path ↔ segments above <+: segments path) := by
    intro above habove
    rw [getFullPath_ordinary _ habove, getFullPath_ordinary _ hpath, List.prefix_append_right_inj]
  rw [LocalStorage.object, LocalStorage.getFullPath_congr hmoves.rootDir, hmoves.files]
  split_ifs with hbelow hunder
  · rcases below_of_segments ((hplace hnew).mp hbelow) with rfl | ⟨rest, rfl⟩
    · rw [List.drop_length, List.append_nil, htarget]
      exact hnone oldPath hold (List.prefix_refl _)
    · have hrest := hpath.of_append.2
      have hsource : world.storage.getFullPath oldPath
          ++ (world.storage.getFullPath (newPath ++ '/' :: rest)).drop
            (world.storage.getFullPath newPath).length
          = world.storage.getFullPath (oldPath ++ '/' :: rest) := by
        rw [getFullPath_ordinary _ hpath, getFullPath_ordinary _ hnew, getFullPath_ordinary _ hold,
          getFullPath_ordinary _ (hold.append hrest), segments_append, segments_append,
          ← List.append_assoc, List.drop_left, List.append_assoc]
      rw [hsource]
      have hbefore : world.storage.object (newPath ++ '/' :: rest) = none := by
        by_contra hobject
        refine FileTree.isDirectory_eq_false.mp hmoves.free
          (world.storage.tree.node_of_prefix hbelow (fun heq => ?_) fun hnode => hobject ?_)
        · have hsame := getFullPath_injective _ hnew hpath heq
          simp at hsame
        · exact (FileTree.node_eq_none_iff.mp hnode).1
      rw [hbefore]
      refine hnone _ (hold.append hrest) ?_
      rw [segments_append]
      exact List.prefix_append _ _
  · exact (hnone path hpath ((hplace hold).mp hunder)).symm
  · rfl

theorem RowsMoved.last {now : String} {paths : List Path}
    (h : RowsMoved world after oldPath newPath now paths) (hafter : Consistent sha256 after)
    (hbelow : ∀ path ∈ paths, ∃ rest, path = oldPath ++ '/' :: rest) (hinside : Inside oldPath)
    (hnew : Ordinary newPath)
    (hnot : Ordinary oldPath → ∀ rest, ¬ segments oldPath <+: segments (newPath ++ '/' :: rest))
    (hown : world.db.liveFile oldPath = none ∨
      world.storage.tree.isDirectory (world.storage.getFullPath newPath) = true) :
    (after.storage.exec (.rename oldPath newPath)).2.rootDir = after.storage.rootDir ∧
      (∀ path, Ordinary path → (after.storage.exec (.rename oldPath newPath)).2.object path
        = after.storage.object path) ∧
      (after.storage.exec (.rename oldPath newPath)).2.tree.isDirectory
        (after.storage.exec (.rename oldPath newPath)).2.rootDir = true := by
  rcases LocalStorage.exec_rename after.storage oldPath newPath with hsame | hmoves
  · refine ⟨hsame.rootDir, fun path _ => hsame.object path, ?_⟩
    rw [hsame.rootDir]
    exact hsame.keeps _ hafter.root
  rcases hinside with hroot | hold
  · refine absurd ?_ hmoves.apart
    rw [getFullPath_atRoot _ hroot, getFullPath_ordinary _ hnew]
    exact List.prefix_append _ _
  have hfree : world.db.liveFile oldPath = none := by
    refine hown.resolve_right fun hdirectory => ?_
    have hkept := h.moved.keeps _ hdirectory
    rw [← LocalStorage.getFullPath_congr h.moved.rootDir, hmoves.free] at hkept
    cases hkept
  refine ⟨hmoves.rootDir, fun path hpath => object_of_transplants hafter hold hnew
    (fun path => h.live_old hbelow (hnot hold) hfree) hmoves hpath, ?_⟩
  rw [hmoves.rootDir]
  refine hmoves.keeps _ (fun hpre => ?_) hafter.root
  have hlength := hpre.length_le
  have hpos := List.length_pos_iff.mpr (segments_ne_nil oldPath)
  rw [getFullPath_ordinary _ hold, List.length_append] at hlength
  omega

theorem Carries.congr {middle : World} (h : Carries world middle oldPath newPath)
    (hmiddle : Consistent sha256 middle)
    (hlive : ∀ path, after.db.liveFile path = middle.db.liveFile path)
    (hobject : ∀ path, Ordinary path → after.storage.object path = middle.storage.object path) :
    Carries world after oldPath newPath := by
  have hcontent : ∀ path content, middle.content path = some content →
      after.content path = some content := by
    intro path content hfound
    rw [World.content, Option.bind_eq_some_iff] at hfound
    obtain ⟨row, hrow, hobject'⟩ := hfound
    rw [World.content, hlive, hrow, Option.bind_some, hobject path (hmiddle.ordinary hrow), hobject']
  exact ⟨fun rest content hbefore => hcontent _ _ (h.1 rest content hbefore),
    fun path content hnot hbefore => hcontent _ _ (h.2 path content hnot hbefore)⟩

theorem inside_moved (h : Orderly sha256 world) (hnew : Ordinary newPath) {entry : Entry}
    {now : String} (hentry : ∃ row ∈ world.db.directories.rows, row.path = entry.path ∧
      likeUnder world.db.dialect oldPath entry.path = true) :
    Inside (moveEntry oldPath newPath now entry).path := by
  obtain ⟨row, hrow, hpath, hlike⟩ := hentry
  have hordinary := ordinary_of_likeUnder (hpath ▸ h.directories row hrow) hlike
  obtain ⟨above, rest, hsplit, hlength⟩ := slash_of_likeUnder hlike
  refine .inr ?_
  change Ordinary (movedPath oldPath newPath entry.path)
  rw [movedPath, hsplit, ← hlength, List.drop_left]
  rw [hsplit] at hordinary
  exact hnew.append hordinary.of_append.2

end Move

section Body

variable {sha256 : Bytes → String} {world after : World} {hasLock : Bool} {α : Type}
  {post : α → World → Prop}

theorem ensures_getDirectoryMetadata {rest : Except DirectoryError DirectoryMetadata → Service α}
    (hfailed : ∀ cause, (rest (.error cause)).Ensures handle post world)
    (hok : ∀ metadata, world.db.liveDirectory (normalizePath (normalizePath path)) = some metadata →
      (rest (.ok metadata)).Ensures handle post world) :
    (getDirectoryMetadata path >>= rest).Ensures handle post world := by
  unfold getDirectoryMetadata DirectoryMetadataService.getByPath
  rw [bind_bind, ensures_sql]
  intro env
  rw [exec_directoryByPath]
  cases hlive : world.db.liveDirectory (normalizePath (normalizePath path)) with
  | none => exact hfailed _
  | some metadata => exact hok metadata hlive

theorem ensures_directoryAbsent {rest : Bool → Service α} (hpath : Ordinary path)
    (hfound : (rest true).Ensures handle post world)
    (habsent : world.db.liveDirectory path = none → (rest false).Ensures handle post world) :
    (directoryExists path >>= rest).Ensures handle post world := by
  unfold directoryExists
  rw [bind_bind, ensures_sql]
  intro env
  rw [exec_directoryExists, normalizePath_ordinary hpath, normalizePath_ordinary hpath]
  cases hlive : world.db.liveDirectory path with
  | none => exact habsent hlive
  | some metadata => exact hfound

theorem ensures_renameAll {oldPath newPath : Path} {now : String} {found : List Entry} {env : Env}
    {directories : List PathUpdate} {rest : Except SqlError Unit → Service α}
    (hfound : (world.db.exec env (.filesUnder oldPath)).1 = .ok found)
    (hok : ∀ db : Database,
      db.files.rows = world.db.files.rows.map (world.db.moveRow oldPath newPath now) →
      (∀ row ∈ db.directories.rows, (∃ old ∈ world.db.directories.rows, row.path = old.path) ∨
        ∃ change ∈ directories, row.path = change.path) →
      (rest (.ok ())).Ensures handle post { world with db := db })
    (hfailed : ∀ cause, (rest (.error cause)).Ensures handle post world) :
    (Service.sql (.renameAll (found.map (moveEntry oldPath newPath now))
      directories) >>= rest).Ensures handle post world := by
  rw [ensures_sql]
  intro env'
  simp only [exec]
  cases hrename : world.db.renameAll (found.map (moveEntry oldPath newPath now)) directories with
  | error violation => exact hfailed _
  | ok db =>
    obtain ⟨hrows, hdirectories⟩ := renameAll_ok hfound hrename
    exact hok db hrows hdirectories

theorem ensures_renameDirectoryBody (h : Orderly sha256 world) (ctx : Context)
    {oldPath newName : Path} (hrename : Renamable world oldPath newName) :
    ((localDirectories hasLock).renameDirectoryBody ctx oldPath newName).Ensures handle
      (fun result after => Orderly sha256 after ∧ (result = .ok () →
        Carries world after oldPath (FileManager.renamedPath oldPath newName))) world := by
  have hnew := hrename.inside.renamedPath hrename.name
  unfold renameDirectoryBody
  refine ensures_getDirectoryMetadata (fun cause => ⟨h, nofun⟩) fun metadata hmetadata => ?_
  dsimp only
  refine ensures_directoryAbsent hnew ⟨h, nofun⟩ fun habsent => ?_
  rw [if_neg Bool.false_ne_true]
  have hne : FileManager.renamedPath oldPath newName ≠ oldPath := by
    intro heq
    rw [heq] at hnew habsent
    rw [normalizePath_ordinary hnew, normalizePath_ordinary hnew, habsent] at hmetadata
    cases hmetadata
  refine ensures_filesUnder fun env found hfound => ?_
  refine ensures_directoriesUnder fun directories hdirectories => ?_
  dsimp only
  refine ensures_renameAll hfound (fun db hrows hchanged => ?_) fun cause => ⟨h, nofun⟩
  dsimp only
  rw [ensures_attemptAll, ensures_attempt]
  have hselected : ∀ path, path ∈ found.map Entry.path ↔ ∃ row,
      world.db.liveFile path = some row ∧ likeUnder world.db.dialect oldPath path = true := by
    intro path
    rw [List.mem_map]
    constructor
    · rintro ⟨entry, hentry, rfl⟩
      obtain ⟨row, hlive, hlike, rfl⟩ := (mem_filesUnder hfound entry).mp hentry
      exact ⟨row, hlive, hlike⟩
    · rintro ⟨row, hlive, hlike⟩
      obtain rfl := path_of_liveFile hlive
      exact ⟨row.entry, (mem_filesUnder hfound _).mpr ⟨row, hlive, hlike, rfl⟩, rfl⟩
  have hmovable := hrename.movable h.consistent hne (nodup_filesUnder hfound).2
    fun path hpath => (hselected path).mp hpath
  have hcalls : found.map (fun entry => StorageCall.rename entry.path (movedPath
        oldPath (FileManager.renamedPath oldPath newName) entry.path))
      = (found.map Entry.path).map fun path => .rename path (movedPath oldPath
        (FileManager.renamedPath oldPath newName) path) := by
    rw [List.map_map]
    rfl
  rw [hcalls]
  generalize hmiddle : world.storage.execAll ((found.map Entry.path).map fun path =>
    .rename path (movedPath oldPath
      (FileManager.renamedPath oldPath newName) path)) = storage
  have hmoved : RowsMoved world ⟨storage, db, world.locks, world.sessions⟩ oldPath
      (FileManager.renamedPath oldPath newName) ctx.now (found.map Entry.path) :=
    ⟨hrows, hselected, hmovable, hmiddle ▸ hmovable.execAll⟩
  have hbelow : ∀ path ∈ found.map Entry.path, ∃ rest, path = oldPath ++ '/' :: rest := by
    intro path hpath
    obtain ⟨row, hlive, hlike⟩ := (hselected path).mp hpath
    exact hrename.selects path row hlive hlike
  have hconsistent := hmoved.consistent h.consistent
  obtain ⟨hrootDir, hobject, hroot⟩ := hmoved.last hconsistent hbelow hrename.inside hnew
    (fun hold => not_below_renamed hold hrename.name hne) hrename.own
  refine ⟨⟨hconsistent.of_object (fun _ => rfl) hobject hrootDir hroot, fun row hrow => ?_⟩, fun _ =>
    (hmoved.carries h.consistent hbelow).congr hconsistent (fun _ => rfl) hobject⟩
  rcases hchanged row hrow with ⟨old, hold, hpath⟩ | ⟨change, hchange, hpath⟩
  · exact hpath ▸ h.directories old hold
  rw [hpath]
  rcases List.mem_append.mp hchange with hmem | hmem
  · obtain ⟨entry, hentry, rfl⟩ := List.mem_map.mp hmem
    exact inside_moved h hnew (hdirectories entry hentry)
  · rw [List.mem_singleton.mp hmem]
    exact .inr hnew

end Body

end FsServer
