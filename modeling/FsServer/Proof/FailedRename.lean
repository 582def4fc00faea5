import FsServer.Proof.FailedDelete

/-!
# A rename with at most one failing call

`RenameFile` moves the object, then the row, and moves the object back if the row cannot be moved.
Nothing is lost as long as no live file has its object at the place the object is moved to: the move
overwrites what is there, and the way back does not restore it. A live file can be there for two
reasons. The query whether the target exists may fail, which counts as no; and a path with leading
`..` elements can be another name of the place.
-/

namespace FsServer

open Lib Program World GoPath LocalStorage FileManager FileMetadataService

variable {world : World} {failing : Option Breakdown}

/-! ### Rules -/

variable {path : Path}

section Rules

variable {α β : Type} {post : α → World → Prop}

theorem atMost_withFileLock {ctx : Context} {body : Service (Except FileError α)}
    {post : Except FileError α → World → Prop}
    (hlocks : ∀ result after locks, post result after → post result { after with locks := locks })
    (hbody : ∀ locks, body.AtMost failing post { world with locks := locks }) :
    (withFileLock ctx path body).AtMost failing post world := by
  cases failing with
  | none => exact calm_withFileLock hlocks hbody
  | some fault =>
    unfold withFileLock
    refine spared_acquireMutex id fun _ => ?_
    refine spared_acquire id fun _ => ?_
    rw [if_pos rfl]
    refine ensuresOnce_bind ?_ ?_
    · refine EnsuresOnce.mono (hbody _) fun result after hpost => ?_
      exact calm_unlockFile (hlocks result) hpost
    · refine Ensures.of_forall _ (fun result after => ?_) _ _
      exact spared_unlock id (spared_unlock id trivial)

end Rules

/-! ### What a rename does -/

/-- The run gets to move the object to another place. -/
structure RenameMoves (failing : Option Breakdown) (world : World) (oldPath newPath : Path) :
    Prop where
  live : world.db.liveFile oldPath ≠ none
  looked : failing ≠ some .lookup
  unseen : failing = some .existence ∨ world.db.liveFile newPath = none
  unbroken : failing ≠ some (.moveObject oldPath newPath)
  apart : world.storage.getFullPath oldPath ≠ world.storage.getFullPath newPath
  moves : ∃ moved, world.storage.rename oldPath newPath = .ok moved

/-- The live row goes to the new path under the new name, and no other live row changes. -/
structure RowRenamed (db after : Database) (oldPath newPath newName : Path) : Prop where
  row : ∃ metadata renamed, db.liveFile oldPath = some metadata ∧
    after.liveFile newPath = some renamed ∧ renamed.id = metadata.id ∧
    renamed.name = newName ∧ renamed.size = metadata.size ∧ renamed.hash = metadata.hash
  gone : oldPath ≠ newPath → after.liveFile oldPath = none
  others : ∀ path, path ≠ oldPath → path ≠ newPath → after.liveFile path = db.liveFile path

inductive RenameEnds (failing : Option Breakdown) (world : World) (oldPath newPath newName : Path) :
    Except FileError Unit → World → Prop
  | refused {cause : FileError} {after : World} (hunmoved : ¬ RenameMoves failing world oldPath newPath)
      (hdb : after.db = world.db) (hfiles : world.storage.SameFiles after.storage) :
      RenameEnds failing world oldPath newPath newName (.error cause) after
  | inPlace {after : World} (hunmoved : ¬ RenameMoves failing world oldPath newPath)
      (hrow : RowRenamed world.db after.db oldPath newPath newName)
      (hfiles : world.storage.SameFiles after.storage)
      (hplace : world.storage.getFullPath newPath = world.storage.getFullPath oldPath)
      (hvalid : world.storage.validatePath newPath = true)
      (hfree : oldPath ≠ newPath → world.db.files.atPath newPath = none) :
      RenameEnds failing world oldPath newPath newName (.ok ()) after
  | moved {after : World} {content : Bytes} (hmoves : RenameMoves failing world oldPath newPath)
      (hupdates : failing ≠ some .update) (hfree : world.db.files.atPath newPath = none)
      (hrow : RowRenamed world.db after.db oldPath newPath newName)
      (hcontent : world.storage.object oldPath = some content)
      (hfiles : world.storage.Relocates after.storage (world.storage.getFullPath oldPath)
        (world.storage.getFullPath newPath) content) :
      RenameEnds failing world oldPath newPath newName (.ok ()) after
  | undone {cause : FileError} {after : World} (hmoves : RenameMoves failing world oldPath newPath)
      (hblocked : failing = some .update ∨ world.db.files.atPath newPath ≠ none)
      (hdb : after.db = world.db) (hroot : after.storage.rootDir = world.storage.rootDir)
      (hfiles : ∀ x, after.storage.tree.fileAt x
        = Function.update world.storage.tree.fileAt (world.storage.getFullPath newPath) none x) :
      RenameEnds failing world oldPath newPath newName (.error cause) after

theorem RenameEnds.setLocks {oldPath newPath newName : Path} {result : Except FileError Unit}
    {after : World} (h : RenameEnds failing world oldPath newPath newName result after)
    (locks : LockKey → Option Token) :
    RenameEnds failing world oldPath newPath newName result { after with locks := locks } := by
  cases h with
  | refused hunmoved hdb hfiles => exact .refused hunmoved hdb hfiles
  | inPlace hunmoved hrow hfiles hplace hvalid hfree =>
    exact .inPlace hunmoved hrow hfiles hplace hvalid hfree
  | moved hmoves hupdates hfree hrow hcontent hfiles =>
    exact .moved hmoves hupdates hfree hrow hcontent hfiles
  | undone hmoves hblocked hdb hroot hfiles => exact .undone hmoves hblocked hdb hroot hfiles

def renamedRow (metadata : FileMetadata) (newPath newName : Path) (now : String) : FileMetadata :=
  { metadata with path := newPath, name := newName, updatedAt := now }

theorem updateFile_renamed {db : Database} {oldPath : Path} {metadata : FileMetadata}
    (hlive : db.liveFile oldPath = some metadata) (env : Env) (newPath newName : Path)
    (now : String) :
    (∃ after, db.exec env (.updateFile (renamedRow metadata newPath newName now)) = (.ok (), after) ∧
        RowRenamed db after oldPath newPath newName ∧
        (oldPath ≠ newPath → db.files.atPath newPath = none)) ∨
      ∃ violation, db.exec env (.updateFile (renamedRow metadata newPath newName now))
          = (.error (.constraint violation), db) ∧ db.files.atPath newPath ≠ none := by
  obtain ⟨hrow, hdeleted⟩ := Database.liveFile_eq_some.mp hlive
  have hid : (renamedRow metadata newPath newName now).id = metadata.id := rfl
  have hfilter : (some (renamedRow metadata newPath newName now)).filter (fun row => !row.isDeleted)
      = some (renamedRow metadata newPath newName now) := by
    rw [Option.filter_some, show (renamedRow metadata newPath newName now).isDeleted = false from
      hdeleted]
    rfl
  by_cases hpaths : newPath = oldPath
  · subst hpaths
    obtain ⟨after, hafter, hputs⟩ := Database.updateFile_in_place hrow hid rfl
    refine .inl ⟨after, hafter, ⟨⟨metadata, _, hlive, ?_, hid, rfl, rfl, rfl⟩, ?_, ?_⟩, ?_⟩
    · exact (hputs.liveFile newPath).trans ((if_pos rfl).trans hfilter)
    · exact fun hne => absurd rfl hne
    · intro path hold hnew
      exact (hputs.liveFile path).trans (if_neg hold)
    · exact fun hne => absurd rfl hne
  · rcases Database.updateFile_move hrow hid rfl hpaths with
      ⟨hfree, after, hafter, hmoves⟩ | ⟨htaken, violation, hviolation⟩
    · refine .inl ⟨after, hafter, ⟨⟨metadata, _, hlive, ?_, hid, rfl, rfl, rfl⟩, ?_, ?_⟩, ?_⟩
      · exact (hmoves.liveFile newPath).trans ((if_pos rfl).trans hfilter)
      · intro hne
        exact (hmoves.liveFile oldPath).trans ((if_neg hne).trans (if_pos rfl))
      · intro path hold hnew
        exact (hmoves.liveFile path).trans ((if_neg hnew).trans (if_neg hold))
      · exact fun _ => hfree
    · exact .inr ⟨violation, hviolation, htaken⟩

section Ends

variable {ctx : Context} {locks : LockKey → Option Token} {oldPath newPath newName : Path}
  {metadata : FileMetadata} {content : Bytes}

def moveBoth (ctx : Context) (metadata : FileMetadata) (oldPath newPath newName : Path) :
    Service (Except FileError Unit) := do
  match ← Service.storage (.rename oldPath newPath) with
  | .error cause => return .error (.renameStorage cause)
  | .ok () =>
    match ← update (renamedRow metadata newPath newName ctx.now) with
    | .ok () => return .ok ()
    | .error cause =>
      let _ ← Service.storage (.rename newPath oldPath)
      return .error (.updateMetadata cause)

/-- The fault that is still to come, once the row was found and the target was not. -/
structure Awaits (failing pending : Option Breakdown) (world : World) (oldPath newPath : Path) :
    Prop where
  same : ∀ fault, pending = some fault → failing = some fault
  past : pending = none → failing = none ∨ failing = some .existence
  unseen : failing = some .existence ∨ world.db.liveFile newPath = none
  returns : failing ≠ some (.moveObject newPath oldPath)

variable {pending : Option Breakdown}

section

variable (hlive : world.db.liveFile oldPath = some metadata)
include hlive

theorem ends_moveBoth_inPlace
    (hplace : world.storage.getFullPath oldPath = world.storage.getFullPath newPath) :
    (moveBoth ctx metadata oldPath newPath newName).AtMost pending
      (RenameEnds failing world oldPath newPath newName) { world with locks := locks } := by
  have hunmoved : ¬ RenameMoves failing world oldPath newPath := fun h => h.apart hplace
  have hsame := sameFiles_rename hplace
  unfold moveBoth update
  refine atMost_storage ?_ ?_
  · rintro fault reply storage hpending ⟨-, rfl, cause, rfl⟩
    exact .refused hunmoved rfl (sameFiles_afterFailedRename _ _ _)
  rw [exec] at hsame ⊢
  cases hok : world.storage.rename oldPath newPath with
  | error cause =>
    rw [hok] at hsame
    exact ensuresAtMost_done fun _ => .refused hunmoved rfl hsame
  | ok moved =>
    rw [hok] at hsame
    have hback : moved.getFullPath newPath = moved.getFullPath oldPath := by
      rw [getFullPath, getFullPath, hsame.rootDir]
      exact hplace.symm
    have hreturns := hsame.trans (sameFiles_rename hback)
    refine atMost_sql ?_ fun env => ?_
    · rintro fault reply hpending ⟨-, rfl⟩
      exact calm_storage.mpr (.refused hunmoved rfl hreturns)
    rcases updateFile_renamed hlive env newPath newName ctx.now with
      ⟨after, hafter, hrow, hfree⟩ | ⟨_, hviolation, -⟩
    · rw [hafter]
      refine ensuresAtMost_done fun _ => .inPlace hunmoved hrow hsame hplace.symm ?_ hfree
      exact (validatePath_of_rename hok).2
    · rw [hviolation]
      refine atMost_storage ?_ ?_
      · rintro fault reply storage hpending ⟨-, rfl, cause, rfl⟩
        exact .refused hunmoved rfl (hsame.trans (sameFiles_afterFailedRename _ _ _))
      · exact ensuresAtMost_done fun _ => .refused hunmoved rfl hreturns

theorem ends_moveBoth_apart (hobject : world.storage.object oldPath = some content)
    (hawaits : Awaits failing pending world oldPath newPath)
    (hplace : world.storage.getFullPath oldPath ≠ world.storage.getFullPath newPath) :
    (moveBoth ctx metadata oldPath newPath newName).AtMost pending
      (RenameEnds failing world oldPath newPath newName) { world with locks := locks } := by
  have hpaths : oldPath ≠ newPath := fun h => hplace (h ▸ rfl)
  unfold moveBoth update
  refine atMost_storage ?_ ?_
  · rintro fault reply storage hpending ⟨rfl, rfl, cause, rfl⟩
    refine .refused (fun h => h.unbroken (hawaits.same _ hpending)) rfl ?_
    exact sameFiles_afterFailedRename _ _ _
  rw [exec]
  cases hok : world.storage.rename oldPath newPath with
  | error cause =>
    refine ensuresAtMost_done fun _ => .refused ?_ rfl
      (sameFiles_afterFailedRename _ _ _)
    intro h
    obtain ⟨moved, hmoved⟩ := h.moves
    rw [hmoved] at hok
    cases hok
  | ok moved =>
    obtain ⟨hold, hnew⟩ := validatePath_of_rename hok
    obtain ⟨hrelocates, -, hout⟩ := rename_object hold hnew hplace hobject hok
    obtain ⟨back, hback, hroot, hfiles, -⟩ := rename_undone hold hnew hplace hobject
      hout hrelocates
    have hmoves (hlooked : failing ≠ some .lookup)
        (hunbroken : failing ≠ some (.moveObject oldPath newPath)) :
        RenameMoves failing world oldPath newPath :=
      ⟨by simp [hlive], hlooked, hawaits.unseen, hunbroken, hplace, moved, hok⟩
    have hcalm (hnone : pending = none) :
        RenameMoves failing world oldPath newPath ∧ failing ≠ some .update := by
      rcases hawaits.past hnone with rfl | rfl
      · exact ⟨hmoves (by simp) (by simp), by simp⟩
      · exact ⟨hmoves (by simp) (by simp), by simp⟩
    refine atMost_sql ?_ fun env => ?_
    · rintro fault reply hpending ⟨rfl, rfl⟩
      have hupdate := hawaits.same _ hpending
      refine calm_storage.mpr ?_
      rw [exec, hback]
      exact .undone (hmoves (by simp [hupdate]) (by simp [hupdate])) (.inl hupdate) rfl hroot hfiles
    rcases updateFile_renamed hlive env newPath newName ctx.now with
      ⟨after, hafter, hrow, hfree⟩ | ⟨_, hviolation, htaken⟩
    · rw [hafter]
      exact ensuresAtMost_done fun hnone =>
        .moved (hcalm hnone).1 (hcalm hnone).2 (hfree hpaths) hrow hobject hrelocates
    · rw [hviolation]
      refine atMost_storage ?_ ?_
      · rintro fault reply storage hpending ⟨rfl, -⟩
        exact absurd (hawaits.same _ hpending) hawaits.returns
      · rw [exec, hback]
        exact ensuresAtMost_done fun hnone =>
          .undone (hcalm hnone).1 (.inr htaken) rfl hroot hfiles

theorem ends_moveBoth (hobject : world.storage.object oldPath = some content)
    (hawaits : Awaits failing pending world oldPath newPath) :
    (moveBoth ctx metadata oldPath newPath newName).AtMost pending
      (RenameEnds failing world oldPath newPath newName) { world with locks := locks } := by
  by_cases hplace : world.storage.getFullPath oldPath = world.storage.getFullPath newPath
  · exact ends_moveBoth_inPlace hlive hplace
  · exact ends_moveBoth_apart hlive hobject hawaits hplace

end

theorem ends_moveBoth_below (hdead : world.db.liveFile oldPath = none)
    (hobject : world.storage.object oldPath = some content)
    (hplace : world.storage.getFullPath oldPath ≠ world.storage.getFullPath newPath)
    (hbelow : world.storage.getFullPath oldPath <+: world.storage.getFullPath newPath) :
    (moveBoth ctx metadata oldPath newPath newName).AtMost pending
      (RenameEnds failing world oldPath newPath newName) { world with locks := locks } := by
  have hunmoved : ¬ RenameMoves failing world oldPath newPath := fun h => h.live hdead
  unfold moveBoth
  refine atMost_storage ?_ ?_
  · rintro fault reply storage hpending ⟨-, rfl, cause, rfl⟩
    exact .refused hunmoved rfl (sameFiles_afterFailedRename _ _ _)
  rw [exec]
  cases hok : world.storage.rename oldPath newPath with
  | error cause =>
    exact ensuresAtMost_done fun _ => .refused hunmoved rfl
      (sameFiles_afterFailedRename _ _ _)
  | ok moved =>
    obtain ⟨hold, hnew⟩ := validatePath_of_rename hok
    obtain ⟨-, -, hout⟩ := rename_object hold hnew hplace hobject hok
    exact absurd hbelow hout

theorem ends_renameFileBody (htwice : normalizePath (normalizePath oldPath) = normalizePath oldPath)
    (hnormal : world.db.liveFile oldPath ≠ none → normalizePath oldPath = oldPath)
    (htarget : normalizePath (renamedPath oldPath newName)
      = renamedPath oldPath newName)
    (hreturns : failing ≠ some (.moveObject (renamedPath oldPath newName) oldPath))
    (hmoves : ∀ metadata pending, world.db.liveFile (normalizePath oldPath) = some metadata →
      Awaits failing pending world oldPath (renamedPath oldPath newName) →
      (moveBoth ctx metadata oldPath (renamedPath oldPath newName) newName).AtMost
        pending (RenameEnds failing world oldPath (renamedPath oldPath newName) newName)
        { world with locks := locks }) :
    (renameFileBody ctx oldPath newName).AtMost failing
      (RenameEnds failing world oldPath (renamedPath oldPath newName) newName)
      { world with locks := locks } := by
  unfold renameFileBody getFileMetadata getByPath
  refine atMost_sql ?_ fun env => ?_
  · rintro fault reply hfailing ⟨rfl, rfl⟩
    exact .refused (fun h => h.looked hfailing) rfl (.refl _)
  rw [Database.exec_fileByPath, htwice]
  cases hlive : world.db.liveFile (normalizePath oldPath) with
  | none =>
    refine ensuresAtMost_done fun _ => .refused (fun h => h.live ?_) rfl (.refl _)
    rw [← hnormal h.live, hlive]
  | some metadata =>
    unfold fileExists
    refine atMost_sql ?_ fun env => ?_
    · rintro fault reply hfailing ⟨rfl, rfl⟩
      refine hmoves metadata none hlive ⟨?_, fun _ => .inr hfailing, .inl hfailing, hreturns⟩
      simp
    rw [Database.exec_fileExists, htarget, htarget]
    cases hfound : world.db.liveFile (renamedPath oldPath newName) with
    | none =>
      exact hmoves metadata failing hlive ⟨fun _ h => h, .inl, .inr hfound, hreturns⟩
    | some other =>
      refine ensuresAtMost_done fun hnone => .refused (fun h => ?_) rfl (.refl _)
      rcases h.unseen with hexistence | hunseen
      · rw [hnone] at hexistence
        cases hexistence
      · rw [hfound] at hunseen
        cases hunseen

end Ends

/-! ### When a rename is all or nothing -/

/-- Every live row has a normal path and its object. -/
structure LiveStored (world : World) : Prop where
  normal : ∀ path, world.db.liveFile path ≠ none → normalizePath path = path
  stored : ∀ path, world.db.liveFile path ≠ none → ∃ content, world.storage.read path = .ok content

theorem ends_renameFile (ctx : Context) {oldPath newName : Path} (hstored : LiveStored world)
    (hname : isValidFileName newName = true)
    (hreturns : failing ≠ some (.moveObject (renamedPath (normalizePath oldPath) newName)
      (normalizePath oldPath))) :
    (renameFile ctx oldPath newName).AtMost failing
      (RenameEnds failing world (normalizePath oldPath)
        (renamedPath (normalizePath oldPath) newName) newName) world := by
  obtain ⟨hplain, hslash⟩ := Plain.of_isValidFileName hname
  refine atMost_withFileLock (fun result after locks h => h.setLocks locks) fun locks => ?_
  refine ends_renameFileBody (normalizePath_thrice oldPath) (hstored.normal _)
    (normalizePath_renamedPath _ hplain hslash) hreturns fun metadata pending hlive hawaits => ?_
  obtain ⟨content, hread⟩ := hstored.stored _ (by rw [hlive]; simp)
  obtain ⟨-, hobject⟩ := read_eq_ok.mp hread
  by_cases hroot : normalizePath oldPath = []
  · have hempty : world.storage.getFullPath [] = world.storage.rootDir :=
      getFullPath_atRoot _ (.inl rfl)
    have hdot : world.storage.getFullPath ['.'] = world.storage.rootDir :=
      getFullPath_atRoot _ (.inr rfl)
    have hordinary : Ordinary newName := by
      intro segment hsegment
      rw [segments_of_not_mem hslash, List.mem_singleton] at hsegment
      exact hsegment ▸ hplain
    have hbelow : world.storage.getFullPath newName = world.storage.rootDir ++ [newName] := by
      rw [getFullPath_ordinary _ hordinary, segments_of_not_mem hslash]
    have hdead : world.db.liveFile [] = none := by
      by_contra hlive
      exact absurd (hstored.normal _ hlive) (by decide)
    rw [hroot] at hobject ⊢
    have hfile : world.storage.object [] = some content := by
      rw [object, hempty, ← hdot]
      exact hobject
    rw [renamedPath_nil hplain hslash]
    refine ends_moveBoth_below hdead hfile ?_ ?_
    · rw [hempty, hbelow]
      simp
    · rw [hempty, hbelow]
      simp
  · rw [normalizePath_normalizePath hroot] at hlive hobject
    exact ends_moveBoth hlive hobject hawaits

/-- The path has the row and the bytes it had. -/
structure PathKept (world after : World) (path : Path) : Prop where
  row : after.db.liveFile path = world.db.liveFile path
  bytes : world.db.liveFile path ≠ none → after.storage.read path = world.storage.read path

def RenameAtomic (world after : World) (oldPath newPath newName : Path) :
    Except FileError Unit → Prop
  | .error _ => ∀ path, PathKept world after path
  | .ok () =>
    RowRenamed world.db after.db oldPath newPath newName ∧
      after.storage.read newPath = world.storage.read oldPath ∧
      ∀ path, path ≠ oldPath → world.db.liveFile path ≠ none → PathKept world after path

/-- If the object is moved and comes back, no live file has its object there. If it stays, no other
live file had its object where it was, and one whose object is where it goes has the same bytes. -/
def RenameSafe (failing : Option Breakdown) (world : World) (oldPath newPath : Path) : Prop :=
  RenameMoves failing world oldPath newPath →
    (failing = some .update ∨ world.db.files.atPath newPath ≠ none →
      ∀ path, world.db.liveFile path ≠ none →
        world.storage.getFullPath path ≠ world.storage.getFullPath newPath) ∧
    (failing ≠ some .update → world.db.files.atPath newPath = none →
      ∀ path, path ≠ oldPath → world.db.liveFile path ≠ none →
        world.storage.getFullPath path ≠ world.storage.getFullPath oldPath ∧
        (world.storage.getFullPath path = world.storage.getFullPath newPath →
          world.storage.object path = world.storage.object oldPath))

section Atomic

variable {oldPath newPath newName : Path} {result : Except FileError Unit} {after : World}

theorem PathKept.of_sameFiles (hstored : LiveStored world)
    (hrow : after.db.liveFile path = world.db.liveFile path)
    (hfiles : world.storage.SameFiles after.storage) : PathKept world after path := by
  refine ⟨hrow, fun hlive => ?_⟩
  obtain ⟨content, hread⟩ := hstored.stored path hlive
  exact (read_same_iff hfiles.rootDir hread).mpr (hfiles.files _)

theorem RowRenamed.keeps (h : RowRenamed world.db after.db oldPath newPath newName)
    (hfree : oldPath ≠ newPath → world.db.files.atPath newPath = none) (hne : path ≠ oldPath)
    (hlive : world.db.liveFile path ≠ none) :
    after.db.liveFile path = world.db.liveFile path := by
  refine h.others path hne ?_
  rintro rfl
  rw [Database.liveFile, hfree (Ne.symm hne)] at hlive
  exact hlive rfl

variable {storage : LocalStorage} {bytes : Bytes}

/-- A file is read as before a move if it was not the one moved, and not the one overwritten by
other bytes. -/
theorem relocated_read_iff {moved : LocalStorage} {content : Bytes}
    (hne : storage.getFullPath oldPath ≠ storage.getFullPath newPath)
    (hcontent : storage.object oldPath = some content)
    (hmoved : storage.Relocates moved (storage.getFullPath oldPath) (storage.getFullPath newPath)
      content) (hread : storage.read path = .ok bytes) :
    moved.read path = storage.read path ↔
      storage.getFullPath path ≠ storage.getFullPath oldPath ∧
        (storage.getFullPath path = storage.getFullPath newPath →
          storage.object path = storage.object oldPath) := by
  obtain ⟨-, hobject⟩ := read_eq_ok.mp hread
  rw [read_same_iff hmoved.rootDir hread, hmoved.files, ← object, hcontent,
    hobject]
  by_cases htarget : storage.getFullPath path = storage.getFullPath newPath
  · rw [htarget, Function.update_self, eq_comm]
    exact ⟨fun h => ⟨Ne.symm hne, fun _ => h⟩, fun h => h.2 rfl⟩
  rw [Function.update_of_ne htarget]
  by_cases hsource : storage.getFullPath path = storage.getFullPath oldPath
  · rw [hsource, Function.update_self]
    simp
  · rw [Function.update_of_ne hsource]
    exact iff_of_true hobject ⟨hsource, fun h => absurd h htarget⟩

theorem undone_read_iff {back : LocalStorage} (hroot : back.rootDir = storage.rootDir)
    (hfiles : ∀ x, back.tree.fileAt x
      = Function.update storage.tree.fileAt (storage.getFullPath newPath) none x)
    (hread : storage.read path = .ok bytes) :
    back.read path = storage.read path ↔
      storage.getFullPath path ≠ storage.getFullPath newPath := by
  obtain ⟨-, hobject⟩ := read_eq_ok.mp hread
  rw [read_same_iff hroot hread, hfiles, ← object, hobject]
  by_cases hplace : storage.getFullPath path = storage.getFullPath newPath
  · rw [hplace, Function.update_self]
    simp
  · rw [Function.update_of_ne hplace]
    exact iff_of_true hobject hplace

theorem RenameEnds.atomic_iff (hstored : LiveStored world)
    (h : RenameEnds failing world oldPath newPath newName result after) :
    RenameAtomic world after oldPath newPath newName result ↔
      RenameSafe failing world oldPath newPath := by
  cases h with
  | refused hunmoved hdb hfiles =>
    refine iff_of_true (fun path => .of_sameFiles hstored (by rw [hdb]) hfiles) ?_
    exact fun h => absurd h hunmoved
  | inPlace hunmoved hrow hfiles hplace hvalid hfree =>
    refine iff_of_true ⟨hrow, ?_, fun path hne hlive => ?_⟩ fun h => absurd h hunmoved
    · obtain ⟨metadata, -, hlive, -⟩ := hrow.row
      obtain ⟨content, hread⟩ := hstored.stored oldPath (by simp [hlive])
      obtain ⟨-, hobject⟩ := read_eq_ok.mp hread
      have hmoved : world.storage.read newPath = .ok content := by
        rw [read_eq_ok, object, hplace]
        exact ⟨hvalid, hobject⟩
      rw [(read_same_iff hfiles.rootDir hmoved).mpr (hfiles.files _), hmoved, hread]
    · exact .of_sameFiles hstored (hrow.keeps hfree hne hlive) hfiles
  | moved hmoves hupdates hfree hrow hcontent hfiles =>
    obtain ⟨moved, hmoved⟩ := hmoves.moves
    obtain ⟨hold, hnew⟩ := validatePath_of_rename hmoved
    have hread := (hfiles.read_target hnew).trans
      (read_eq_ok.mpr ⟨hold, hcontent⟩).symm
    constructor
    · rintro ⟨-, -, hkept⟩ -
      refine ⟨fun hblocked => ?_, fun _ _ path hne hlive => ?_⟩
      · exact absurd hblocked (by simp [hupdates, hfree])
      · obtain ⟨bytes, hbytes⟩ := hstored.stored path hlive
        exact (relocated_read_iff hmoves.apart hcontent hfiles hbytes).mp
          ((hkept path hne hlive).bytes hlive)
    · intro hsafe
      refine ⟨hrow, hread, fun path hne hlive => ⟨hrow.keeps (fun _ => hfree) hne hlive, ?_⟩⟩
      intro _
      obtain ⟨bytes, hbytes⟩ := hstored.stored path hlive
      exact (relocated_read_iff hmoves.apart hcontent hfiles hbytes).mpr
        ((hsafe hmoves).2 hupdates hfree path hne hlive)
  | undone hmoves hblocked hdb hroot hfiles =>
    constructor
    · intro hkept _
      refine ⟨fun _ path hlive => ?_, fun hupdates hfree => ?_⟩
      · obtain ⟨bytes, hbytes⟩ := hstored.stored path hlive
        exact (undone_read_iff hroot hfiles hbytes).mp ((hkept path).bytes hlive)
      · rcases hblocked with hupdate | htaken
        · exact absurd hupdate hupdates
        · exact absurd hfree htaken
    · intro hsafe path
      refine ⟨by rw [hdb], fun hlive => ?_⟩
      obtain ⟨bytes, hbytes⟩ := hstored.stored path hlive
      exact (undone_read_iff hroot hfiles hbytes).mpr ((hsafe hmoves).1 hblocked path hlive)

end Atomic

/-- **A rename with at most one fault, other than in the move back, is all or nothing** exactly if
it is safe. -/
theorem renameFile_atomic_iff {ctx : Context} {oldPath newName : Path}
    {result : Except FileError Unit} {after : World} (hstored : LiveStored world)
    (hname : isValidFileName newName = true)
    (hreturns : failing ≠ some (.moveObject (renamedPath (normalizePath oldPath) newName)
      (normalizePath oldPath)))
    (hruns : (renameFile ctx oldPath newName).RunsAtMost calm Breaks failing world
      result after) :
    RenameAtomic world after (normalizePath oldPath)
        (renamedPath (normalizePath oldPath) newName) newName result ↔
      RenameSafe failing world (normalizePath oldPath)
        (renamedPath (normalizePath oldPath) newName) :=
  (EnsuresAtMost.of_runs (ends_renameFile ctx hstored hname hreturns) hruns).atomic_iff hstored

variable {paths : List Path}

theorem mem_of_live (hpaths : world.db.files.rows.map FileMetadata.path = paths) (path : Path)
    (hlive : world.db.liveFile path ≠ none) : path ∈ paths := by
  obtain ⟨row, hrow⟩ := Option.ne_none_iff_exists'.mp hlive
  obtain ⟨hmem, rfl⟩ := Table.atPath_eq_some.mp (Database.liveFile_eq_some.mp hrow).1
  exact hpaths ▸ List.mem_map_of_mem hmem

theorem LiveStored.of_paths (hpaths : world.db.files.rows.map FileMetadata.path = paths)
    (h : ∀ path ∈ paths, normalizePath path = path ∧
      ∃ content, world.storage.read path = .ok content) : LiveStored world :=
  ⟨fun path hlive => (h path (mem_of_live hpaths path hlive)).1, fun path hlive =>
    (h path (mem_of_live hpaths path hlive)).2⟩

/-- The row could not be moved, and nothing was at the target. -/
theorem renameFile_update_undone : ∃ world after,
    RenameAtomic world after ['f'] ['g'] ['g'] (.error (.updateMetadata .fault)) := by
  obtain ⟨world, metadata, after, -, hpaths, hread, hplaces, hfails⟩ : ∃ world metadata after,
      oneByteFile.run handle .textual (initial .postgresql [['r']]) = some (.ok metadata, world) ∧
      world.db.files.rows.map FileMetadata.path = [['f']] ∧
      world.storage.read ['f'] = .ok [97] ∧
      world.storage.getFullPath ['f'] ≠ world.storage.getFullPath ['g'] ∧
      (renameFile (.sample 2 "") ['f'] ['g']).RunsAtMost calm Breaks (some .update)
        world (.error (.updateMetadata .fault)) after :=
    ⟨_, _, _, rfl, rfl, rfl, by decide, .later .textual rfl (.later .textual rfl (.later .textual rfl
      (.later .textual rfl (.later .textual rfl (.of_run .textual ⟨⟨rfl, rfl⟩, rfl⟩ rfl)))))⟩
  have hmem := mem_of_live hpaths
  have hstored : LiveStored world := .of_paths hpaths (by simpa using ⟨rfl, _, hread⟩)
  refine ⟨world, after, (renameFile_atomic_iff hstored rfl (by decide) hfails).mpr fun _ => ⟨?_, ?_⟩⟩
  · intro _ path hlive
    obtain rfl := List.mem_singleton.mp (hmem path hlive)
    exact hplaces
  · exact fun hne => absurd rfl hne

/-- The query whether the target exists failed. The file there was overwritten, and the way back
left nothing at its place. -/
theorem failedRename_loses : ∃ before first world second after,
    Runs handle oneByteFile (initial .postgresql [['r']]) (.ok first) before ∧
      Runs handle (uploadFile (fun _ => "") (.sample 2 "b") ['g'] [98]) before
        (.ok second) world ∧
      LiveStored world ∧ world.db.liveFile ['g'] = some second ∧
      world.storage.read ['g'] = .ok [98] ∧
      (renameFile (.sample 3 "") ['f'] ['g']).RunsAtMost calm Breaks
        (some .existence) world (.error (.updateMetadata (.constraint .uniquePath))) after ∧
      after.db.liveFile ['g'] = some second ∧ after.storage.object ['g'] = none := by
  obtain ⟨before, first, world, second, after, hfirst, hsecond, hpaths, hold, hlive, hread, hfails,
      hkept, hlost⟩ : ∃ before first world second after,
      oneByteFile.run handle .textual (initial .postgresql [['r']]) = some (.ok first, before) ∧
      (uploadFile (fun _ => "") (.sample 2 "b") ['g'] [98]).run handle .textual before
        = some (.ok second, world) ∧
      world.db.files.rows.map FileMetadata.path = [['f'], ['g']] ∧
      world.storage.read ['f'] = .ok [97] ∧ world.db.liveFile ['g'] = some second ∧
      world.storage.read ['g'] = .ok [98] ∧
      (renameFile (.sample 3 "") ['f'] ['g']).RunsAtMost calm Breaks
        (some .existence) world (.error (.updateMetadata (.constraint .uniquePath))) after ∧
      after.db.liveFile ['g'] = some second ∧ after.storage.object ['g'] = none :=
    ⟨_, _, _, _, _, rfl, rfl, rfl, rfl, rfl, rfl, .later .textual rfl (.later .textual rfl
      (.later .textual rfl (.of_run .textual ⟨⟨rfl, rfl⟩, rfl⟩ rfl))), rfl, rfl⟩
  refine ⟨before, first, world, second, after, runs_of_run _ hfirst, runs_of_run _ hsecond,
    .of_paths hpaths ?_, hlive, hread, hfails, hkept, hlost⟩
  intro path hmem
  simp only [List.mem_cons, List.not_mem_nil, or_false] at hmem
  rcases hmem with rfl | rfl
  · exact ⟨rfl, _, hold⟩
  · exact ⟨rfl, _, hread⟩

end FsServer
