import FsServer.FileStore
import FsServer.Lib.Simulation
import FsServer.Proof.Consistent

/-!
# The file manager refines a finite map

A world represents a map when rows and objects are in step and the map has the content of every file.
Each call on the file manager is a step of the map with the same reply, and so is every sequential
run. The exception are uploads to paths that begin with `..`: such a path may resolve back into the
storage root and share an object with another.
-/

namespace FsServer

open Lib Program World FileManager LocalStorage FileStore

structure Represents (sha256 : Bytes → String) (world : World) (store : FileStore) : Prop where
  consistent : Consistent sha256 world
  content : ∀ path, store.lookup path = world.content path
  unlocked : ∀ key, world.locks key = none

/-- The calls the map accounts for: readers that do not fail, uploads that stay inside the storage
root, renames to valid names. -/
def FileCall.Allowed : FileCall → Prop
  | .upload _ path _ => StaysInside path
  | .uploadFromReader _ path reader => StaysInside path ∧ reader.fails = false
  | .rename _ _ newName => isValidFileName newName = true
  | _ => True

section Calls

variable {sha256 : Bytes → String} {world after : World} {store : FileStore} {path : Path}

theorem place_atRoot {storage : LocalStorage} (hpath : AtRoot path)
    (hroot : storage.tree.isDirectory storage.rootDir = true) (data : Bytes)
    (failed : OsError → StorageError) : ∃ cause, storage.place path data failed = .error cause := by
  cases hplace : storage.place path data failed with
  | error cause => exact ⟨cause, rfl⟩
  | ok after =>
    exfalso
    have hstores := place_ok hplace
    rw [getFullPath_atRoot storage hpath] at hstores
    have hfile : after.tree.fileAt storage.rootDir = some data := by
      rw [hstores.files, Function.update_self]
    rw [FileTree.fileAt_eq_none_of_isDirectory (hstores.keeps _ hroot)] at hfile
    cases hfile

theorem Consistent.missing (h : Consistent sha256 world) (hpath : ¬ Ordinary path) :
    world.db.liveFile path = none := by
  cases hlive : world.db.liveFile path with
  | none => rfl
  | some row => exact absurd (h.ordinary hlive) hpath

variable {row : FileMetadata} {call : FileCall}

section

variable (h : Represents sha256 world store)
include h

theorem Represents.keep (hdb : after.db = world.db) (hsame : world.storage.SameFiles after.storage)
    (hlocks : after.locks = world.locks) :
    Represents sha256 after store where
  consistent := h.consistent.same hdb hsame
  content path := by
    rw [h.content, World.content, World.content, hdb, hsame.object]
  unlocked key := by
    rw [hlocks]
    exact h.unlocked key

theorem Represents.failed (call : FileCall) (cause : FileError) (hdb : after.db = world.db)
    (hsame : world.storage.SameFiles after.storage) (hlocks : after.locks = world.locks) :
    ∃ next, Step sha256 store call (.error cause) next ∧ Represents sha256 after next :=
  ⟨store, .failed store call cause, h.keep hdb hsame hlocks⟩

theorem Represents.lookup (hlive : world.db.liveFile path = some row) :
    ∃ content, world.storage.object path = some content ∧ store.lookup path = some content ∧
      row.Describes sha256 content := by
  obtain ⟨content, hobject, hdescribes⟩ := h.consistent.stored hlive
  refine ⟨content, hobject, ?_, hdescribes⟩
  rw [h.content, h.consistent.content_eq (h.consistent.ordinary hlive), hobject]

variable {data : Bytes}

theorem Represents.upload (hpath : Ordinary path) (hrow : row.Describes sha256 data)
    (hlive : row.isDeleted = false) (hvalid : world.storage.validatePath path = true)
    (hputs : Database.Puts world.db after.db path row)
    (hstores : world.storage.Stores after.storage (world.storage.getFullPath path) (some data))
    (hlocks : after.locks = world.locks) : Represents sha256 after (store.insert path data) := by
  have hafter := h.consistent.replace hpath (.inl ⟨hlive, hvalid, data, rfl, hrow⟩) hputs hstores
  refine ⟨hafter, fun key => ?_, fun key => by rw [hlocks]; exact h.unlocked key⟩
  rw [h.consistent.content_replace hafter hpath hstores]
  split_ifs with hsame
  · rw [hsame, Finmap.lookup_insert]
  · rw [Finmap.lookup_insert_of_ne _ hsame, h.content]

theorem Represents.delete (hpath : Ordinary path) (hdeleted : row.isDeleted = true)
    (hputs : Database.Puts world.db after.db path row)
    (hstores : world.storage.Stores after.storage (world.storage.getFullPath path) none)
    (hlocks : after.locks = world.locks) : Represents sha256 after (store.erase path) := by
  have hafter := h.consistent.replace hpath (.inr ⟨hdeleted, rfl⟩) hputs hstores
  refine ⟨hafter, fun key => ?_, fun key => by rw [hlocks]; exact h.unlocked key⟩
  rw [h.consistent.content_replace hafter hpath hstores]
  split_ifs with hsame
  · rw [hsame, Finmap.lookup_erase]
  · rw [Finmap.lookup_erase_ne hsame, h.content]

theorem Represents.total_upload {ctx : Context} (hinside : StaysInside path)
    {body : Path → Service (Except FileError FileMetadata)}
    (hordinary : ∀ {world : World} {target : Path}, Ordinary target → (body target).Total handle
      (Uploaded target data data.length (sha256 data) world) world)
    (hroot : ∀ {world : World} {target : Path}, Consistent sha256 world → AtRoot target →
      (body target).Total handle (fun result after => after = world ∧ ∃ cause, result = .error cause)
        world)
    (hstep : ∀ row : FileMetadata, row.Describes sha256 data → Step sha256 store call
      (.ok (.metadata row)) (store.insert (normalizePath path) data)) :
    (do return (← withFileLock ctx (normalizePath path)
      (body (normalizePath path))).map FileReply.metadata : Service _).Total handle
        (fun reply after => ∃ next, Step sha256 store call reply next ∧
          Represents sha256 after next) world := by
  rw [total_bind]
  refine total_withFileLock (h.unlocked _) (h.unlocked _) ?_ ?_
  · exact h.failed call _ rfl (.refl _) rfl
  intro locks
  have hlocked : Consistent sha256 { world with locks := locks } := h.consistent.same rfl (.refl _)
  rcases hinside.cases with hpath | hpath
  · refine (hroot hlocked hpath).mono _ ?_
    rintro result after ⟨rfl, cause, rfl⟩
    exact ⟨rfl, h.failed call cause rfl (.refl _) rfl⟩
  · refine (hordinary hpath).mono _ ?_
    rintro result after ⟨hlocks, -, hresult⟩
    refine ⟨hlocks, ?_⟩
    cases result with
    | ok row =>
      obtain ⟨hsize, hhash, hlive, hvalid, hputs, hstores⟩ := hresult
      exact ⟨_, hstep row ⟨hsize, hhash⟩,
        h.upload hpath ⟨hsize, hhash⟩ hlive hvalid hputs hstores rfl⟩
    | error cause =>
      obtain ⟨hdb, hsame | ⟨hnone, hstores⟩⟩ := hresult
      · exact h.failed call cause hdb (hsame ▸ .refl _) rfl
      · exact h.failed call cause hdb (hstores.sameFiles (h.consistent.owned hpath hnone)) rfl

end

theorem total_uploadFileBody_atRoot (h : Consistent sha256 world) (hpath : AtRoot path)
    (ctx : Context) (data : Bytes) :
    (uploadFileBody sha256 ctx path data).Total handle
      (fun result after => after = world ∧ ∃ cause, result = .error cause) world := by
  have hdot : normalizePath (normalizePath path) = ['.'] := by
    rcases hpath with rfl | rfl <;> rfl
  have hmissing : world.db.liveFile ['.'] = none := h.missing (by decide)
  obtain ⟨cause, hcause⟩ := place_atRoot hpath h.root data .writeFile
  unfold uploadFileBody replacedRow fileExists
  rw [total_bind, total_bind, total_sql]
  intro env
  rw [hdot, Database.exec_fileExists, hmissing]
  simp only [Option.isSome_none, Bool.false_eq_true, if_false, pure_eq, total_done]
  rw [total_storage]
  simp only [exec, write, hcause, apply]
  exact ⟨rfl, _, rfl⟩

theorem total_uploadFileFromReaderBody_atRoot (h : Consistent sha256 world) (hpath : AtRoot path)
    (ctx : Context) (reader : Reader) :
    (uploadFileFromReaderBody sha256 ctx path reader).Total handle
      (fun result after => after = world ∧ ∃ cause, result = .error cause) world := by
  obtain ⟨cause, hcause⟩ := place_atRoot hpath h.root reader.data .createFile
  unfold uploadFileFromReaderBody
  rw [total_storage]
  simp only [exec, writeFromReader, hcause]
  exact ⟨rfl, _, rfl⟩

section

variable (h : Represents sha256 world store)
include h

theorem Represents.total_lookup {α : Type} {post : α → World → Prop}
    {rest : Except FileError FileMetadata → Service α}
    (hfailed : ∀ cause, store.lookup (normalizePath path) = none →
      (rest (.error cause)).Total handle post world)
    (hfound : ∀ row content, Ordinary (normalizePath path) →
      world.db.liveFile (normalizePath path) = some row →
      world.storage.object (normalizePath path) = some content →
      store.lookup (normalizePath path) = some content → row.Describes sha256 content →
      (rest (.ok row)).Total handle post world) :
    (getFileMetadata (normalizePath path) >>= rest).Total handle post world := by
  by_cases hpath : Ordinary (normalizePath path)
  · refine total_getFileMetadata hpath ?_ ?_
    · intro hnone
      apply hfailed
      rw [h.content, World.content, hnone]
      rfl
    · intro row hlive
      obtain ⟨content, hobject, hlookup, hdescribes⟩ := h.lookup hlive
      exact hfound row content hpath hlive hobject hlookup hdescribes
  · refine total_getFileMetadata_missing (h.consistent.missing ?_) ?_
    · exact not_ordinary_normalizePath (not_ordinary_normalizePath hpath)
    · apply hfailed
      rw [h.content, h.consistent.content_eq_none hpath]

theorem Represents.total_getMetadata (path : Path) :
    (getFileMetadata path).Total handle (fun result after => after = world ∧
      match result with
      | .ok row => ∃ content, store.lookup (normalizePath path) = some content ∧
          row.Describes sha256 content
      | .error _ => store.lookup (normalizePath path) = none) world := by
  unfold getFileMetadata FileMetadataService.getByPath
  rw [total_sql]
  intro env
  rw [Database.exec_fileByPath]
  by_cases hpath : Ordinary (normalizePath path)
  · rw [normalizePath_ordinary hpath]
    cases hlive : world.db.liveFile (normalizePath path) with
    | none =>
      refine ⟨rfl, ?_⟩
      rw [h.content, World.content, hlive]
      rfl
    | some row =>
      obtain ⟨content, -, hlookup, hdescribes⟩ := h.lookup hlive
      exact ⟨rfl, content, hlookup, hdescribes⟩
  · rw [h.consistent.missing (not_ordinary_normalizePath hpath)]
    refine ⟨rfl, ?_⟩
    rw [h.content, h.consistent.content_eq_none hpath]

theorem Represents.total_download (path : Path) :
    (downloadFile path).Total handle (fun result after => after = world ∧
      match result with
      | .ok content => store.lookup (normalizePath path) = some content
      | .error _ => store.lookup (normalizePath path) = none) world := by
  unfold downloadFile
  refine h.total_lookup (fun cause hnone => ⟨rfl, hnone⟩) ?_
  intro row content hpath hlive hobject hlookup hdescribes
  have hvalid := validatePath_ordinary (h.consistent.rooted hlive) hpath
  have hread := read_eq_ok.mpr ⟨hvalid, hobject⟩
  dsimp only
  rw [total_storage]
  simp only [exec, hread]
  exact ⟨rfl, hlookup⟩

theorem Represents.total_downloadAt (path : Path) (size offset : Int) :
    (downloadFileAt path size offset).Total handle (fun result after => after = world ∧
      match result with
      | .ok bytes => ∃ content, store.lookup (normalizePath path) = some content ∧ 0 < size ∧
          0 ≤ offset ∧ bytes = (content.drop offset.toNat).take size.toNat
      | .error _ => True) world := by
  unfold downloadFileAt
  refine h.total_lookup (fun cause _ => ⟨rfl, trivial⟩) ?_
  intro row content hpath hlive hobject hlookup hdescribes
  have hvalid := validatePath_ordinary (h.consistent.rooted hlive) hpath
  dsimp only
  rw [total_storage]
  simp only [exec]
  by_cases hrange : 0 < size ∧ 0 ≤ offset
  · rw [readAt_object hvalid hobject hrange.1 hrange.2]
    exact ⟨rfl, content, hlookup, hrange.1, hrange.2, rfl⟩
  · have hfailed : ∃ cause, world.storage.readAt (normalizePath path) size offset = .error cause := by
      unfold readAt
      rw [if_pos hvalid]
      split_ifs with hsize hoffset
      · exact ⟨_, rfl⟩
      · exact ⟨_, rfl⟩
      · exact absurd ⟨by omega, by omega⟩ hrange
    obtain ⟨cause, hcause⟩ := hfailed
    rw [hcause]
    exact ⟨rfl, trivial⟩

theorem Represents.total_delete (ctx : Context) (path : Path) :
    (deleteFile ctx path).Total handle (fun result after =>
      match result with
      | .ok () => ∃ content, store.lookup (normalizePath path) = some content ∧
          Represents sha256 after (store.erase (normalizePath path))
      | .error _ => Represents sha256 after store) world := by
  unfold deleteFile
  refine total_withFileLock (h.unlocked _) (h.unlocked _) h ?_
  intro locks
  have hlocked : Consistent sha256 { world with locks := locks } := h.consistent.same rfl (.refl _)
  by_cases hpath : Ordinary (normalizePath path)
  · refine Total.mono handle (total_deleteFileBody ctx hpath fun row => hlocked.read) ?_
    rintro result after ⟨hlocks, -, hresult⟩
    refine ⟨hlocks, ?_⟩
    cases result with
    | ok value =>
      obtain ⟨row, hlive, -, deleted, hdeleted, hputs, hstores⟩ := hresult
      obtain ⟨content, -, hlookup, -⟩ := h.lookup hlive
      exact ⟨content, hlookup, h.delete hpath hdeleted hputs hstores rfl⟩
    | error cause =>
      obtain rfl : after = _ := hresult
      exact h
  · unfold deleteFileBody
    refine total_getFileMetadata_missing (hlocked.missing ?_) ⟨rfl, h⟩
    exact not_ordinary_normalizePath (not_ordinary_normalizePath hpath)

end

variable {name : Path}

theorem renamedPath_eq_sibling (hpath : Ordinary path) (hname : isValidFileName name = true) :
    renamedPath path name = sibling path name := by
  have hplain := Plain.of_isValidFileName hname
  rw [sibling, ← segments_renamedPath hpath hplain.1 hplain.2, join_segments]

theorem Represents.rename (h : Represents sha256 world store) {target : Path}
    {metadata : FileMetadata} {content : Bytes} (hpath : Ordinary path)
    (hlive : world.db.liveFile path = some metadata)
    (hobject : world.storage.object path = some content) (htarget : Ordinary target)
    (hne : path ≠ target) (hrow : row.path = target ∧ row.size = metadata.size ∧
      row.hash = metadata.hash ∧ row.isDeleted = false)
    (hmoves : Database.Moves world.db after.db path row)
    (hrelocates : world.storage.Relocates after.storage (world.storage.getFullPath path)
      (world.storage.getFullPath target) content) (hlocks : after.locks = world.locks) :
    Represents sha256 after ((store.erase path).insert target content) := by
  have hafter := h.consistent.rename hlive hobject htarget hne hrow hmoves hrelocates
  refine ⟨hafter, fun key => ?_, fun key => by rw [hlocks]; exact h.unlocked key⟩
  rw [h.consistent.content_rename hafter hpath htarget hne hrelocates]
  split_ifs with hkeyTarget hkeyPath
  · rw [hkeyTarget, Finmap.lookup_insert]
  · rw [Finmap.lookup_insert_of_ne _ hkeyTarget, hkeyPath, Finmap.lookup_erase]
  · rw [Finmap.lookup_insert_of_ne _ hkeyTarget, Finmap.lookup_erase_ne hkeyPath, h.content]

theorem Represents.total_rename (h : Represents sha256 world store) (ctx : Context) (path : Path)
    (hname : isValidFileName name = true) :
    (renameFile ctx path name).Total handle (fun result after =>
      match result with
      | .ok () => ∃ content, store.lookup (normalizePath path) = some content ∧
          store.lookup (sibling (normalizePath path) name) = none ∧
          Represents sha256 after ((store.erase (normalizePath path)).insert
            (sibling (normalizePath path) name) content)
      | .error _ => Represents sha256 after store) world := by
  unfold renameFile
  refine total_withFileLock (h.unlocked _) (h.unlocked _) h ?_
  intro locks
  have hlocked : Consistent sha256 { world with locks := locks } := h.consistent.same rfl (.refl _)
  by_cases hpath : Ordinary (normalizePath path)
  · have htarget := ordinary_sibling hpath hname
    refine Total.mono handle (total_renameFileBody hpath hname ctx (fun row => hlocked.read)
      (hlocked.owned htarget)) ?_
    rintro result after ⟨hlocks, -, hresult⟩
    refine ⟨hlocks, ?_⟩
    cases result with
    | ok value =>
      obtain ⟨metadata, content, row, hlive, hfree, hobject, hrowPath, hsize, hhash, hnew, hmoves,
        hrelocates⟩ := hresult
      have hne : normalizePath path ≠ renamedPath (normalizePath path) name := by
        intro heq
        rw [← heq, hlive] at hfree
        cases hfree
      have hnone : store.lookup (renamedPath (normalizePath path) name) = none := by
        rw [h.content, World.content]
        exact hfree ▸ rfl
      obtain ⟨found, hfound, hlookup, -⟩ := h.lookup hlive
      cases hobject.symm.trans hfound
      rw [← renamedPath_eq_sibling hpath hname]
      exact ⟨content, hlookup, hnone, h.rename hpath hlive hobject htarget hne
        ⟨hrowPath, hsize, hhash, hnew⟩ hmoves hrelocates rfl⟩
    | error cause =>
      obtain ⟨hdb, hsame⟩ := hresult
      exact h.keep hdb hsame rfl
  · unfold renameFileBody
    refine total_getFileMetadata_missing (hlocked.missing ?_) ⟨rfl, h⟩
    exact not_ordinary_normalizePath (not_ordinary_normalizePath hpath)

theorem Represents.total_service (h : Represents sha256 world store) (hallowed : call.Allowed) :
    (call.service sha256).Total handle (fun reply after =>
      ∃ next, Step sha256 store call reply next ∧ Represents sha256 after next) world := by
  cases call with
  | upload ctx path data =>
    exact h.total_upload hallowed (total_uploadFileBody sha256 ctx)
      (fun hconsistent hpath => total_uploadFileBody_atRoot hconsistent hpath ctx data)
      fun row hrow => .upload hrow.1 hrow.2
  | uploadFromReader ctx path reader =>
    exact h.total_upload hallowed.1
      (fun hpath => total_uploadFileFromReaderBody sha256 ctx hpath hallowed.2)
      (fun hconsistent hpath => total_uploadFileFromReaderBody_atRoot hconsistent hpath ctx reader)
      fun row hrow => .uploadFromReader hrow.1 hrow.2
  | download path =>
    rw [FileCall.service, total_bind]
    refine (h.total_download path).mono _ ?_
    rintro result after ⟨rfl, hresult⟩
    cases result with
    | ok content => exact ⟨store, .download hresult, h⟩
    | error cause => exact ⟨store, .failed store _ cause, h⟩
  | downloadAt path size offset =>
    rw [FileCall.service, total_bind]
    refine (h.total_downloadAt path size offset).mono _ ?_
    rintro result after ⟨rfl, hresult⟩
    cases result with
    | ok bytes =>
      obtain ⟨content, hlookup, hsize, hoffset, rfl⟩ := hresult
      exact ⟨store, .downloadAt hlookup hsize hoffset, h⟩
    | error cause => exact ⟨store, .failed store _ cause, h⟩
  | getMetadata path =>
    rw [FileCall.service, total_bind]
    refine (h.total_getMetadata path).mono _ ?_
    rintro result after ⟨rfl, hresult⟩
    cases result with
    | ok row =>
      obtain ⟨content, hlookup, hdescribes⟩ := hresult
      exact ⟨store, .getMetadata hlookup hdescribes.1 hdescribes.2, h⟩
    | error cause => exact ⟨store, .failed store _ cause, h⟩
  | delete ctx path =>
    rw [FileCall.service, total_bind]
    refine (h.total_delete ctx path).mono _ ?_
    intro result after hresult
    cases result with
    | ok value =>
      obtain ⟨content, hlookup, hafter⟩ := hresult
      exact ⟨_, .delete hlookup, hafter⟩
    | error cause => exact ⟨store, .failed store _ cause, hresult⟩
  | rename ctx oldPath newName =>
    rw [FileCall.service, total_bind]
    refine (h.total_rename ctx oldPath hallowed).mono _ ?_
    intro result after hresult
    cases result with
    | ok value =>
      obtain ⟨content, hlookup, hfree, hafter⟩ := hresult
      exact ⟨_, .rename hlookup hfree, hafter⟩
    | error cause => exact ⟨store, .failed store _ cause, hresult⟩

end Calls

/-! ### Runs -/

def FileCall.Runs (sha256 : Bytes → String) (world : World) (call : FileCall)
    (reply : Except FileError FileReply) (after : World) : Prop :=
  Program.Runs handle (call.service sha256) world reply after

/-- What the file manager answers for a path: the content, and metadata that fit it. -/
def Answers (sha256 : Bytes → String) (world : World) (path : Path) : Option Bytes → Prop
  | some content =>
    (getFileMetadata path).Total handle (fun result after => after = world ∧
      ∃ row : FileMetadata, result = .ok row ∧ row.size = content.length ∧
        row.hash = sha256 content) world ∧
    (downloadFile path).Total handle (fun result after => after = world ∧
      result = .ok content) world
  | none =>
    (getFileMetadata path).Total handle (fun result after => after = world ∧
      ∃ cause, result = .error cause) world ∧
    (downloadFile path).Total handle (fun result after => after = world ∧
      ∃ cause, result = .error cause) world

theorem Represents.answers {sha256 : Bytes → String} {world : World} {store : FileStore}
    (h : Represents sha256 world store) (path : Path) :
    Answers sha256 world path (store.lookup (normalizePath path)) := by
  have hmetadata := h.total_getMetadata path
  have hdownload := h.total_download path
  cases hlookup : store.lookup (normalizePath path) with
  | some content =>
    rw [hlookup] at hmetadata hdownload
    constructor
    · refine hmetadata.mono _ ?_
      rintro result after ⟨rfl, hresult⟩
      cases result with
      | ok row =>
        obtain ⟨found, hfound, hdescribes⟩ := hresult
        cases hfound
        exact ⟨rfl, row, rfl, hdescribes⟩
      | error cause => cases hresult
    · refine hdownload.mono _ ?_
      rintro result after ⟨rfl, hresult⟩
      cases result with
      | ok bytes =>
        cases hresult
        exact ⟨rfl, rfl⟩
      | error cause => cases hresult
  | none =>
    rw [hlookup] at hmetadata hdownload
    constructor
    · refine hmetadata.mono _ ?_
      rintro result after ⟨rfl, hresult⟩
      cases result with
      | ok row =>
        obtain ⟨found, hfound, -⟩ := hresult
        cases hfound
      | error cause => exact ⟨rfl, cause, rfl⟩
    · refine hdownload.mono _ ?_
      rintro result after ⟨rfl, hresult⟩
      cases result with
      | ok bytes => cases hresult
      | error cause => exact ⟨rfl, cause, rfl⟩

theorem fileAt_initial (dialect : Dialect) (rootDir place : List Segment) :
    (initial dialect rootDir).storage.tree.fileAt place = none := by
  rw [FileTree.fileAt_eq_none]
  intro content
  simp only [initial, FileTree.putDirectories, FileTree.empty]
  split_ifs <;> simp

theorem represents_initial (sha256 : Bytes → String) (dialect : Dialect) (rootDir : List Segment) :
    Represents sha256 (initial dialect rootDir) ∅ where
  consistent :=
    { ordinary := fun hlive => nomatch hlive
      rooted := fun hlive => nomatch hlive
      stored := fun hlive => nomatch hlive
      owned := fun _ _ => fileAt_initial dialect rootDir _
      root := by
        rw [initial, FileTree.isDirectory_putDirectories]
        simp }
  content _ := rfl
  unlocked _ := rfl

/-- Every sequential run of the file manager, with its replies, is a run of the map, and in every
state reached each call returns. -/
theorem fileManager_refines_fileStore (sha256 : Bytes → String) (dialect : Dialect)
    (rootDir : List Segment) {past : List (FileCall × Except FileError FileReply)} {world : World}
    (hpast : History (FileCall.Runs sha256) (initial dialect rootDir) past world)
    (hallowed : ∀ entry ∈ past, entry.1.Allowed) :
    ∃ store, History (FileStore.Step sha256) ∅ past store ∧
      (∀ path, Answers sha256 world path (store.lookup (normalizePath path))) ∧
      ∀ call : FileCall, call.Allowed → (call.service sha256).Total handle (fun _ _ => True)
        world := by
  have hstep : ∀ {state : World} {model : FileStore} {call : FileCall}
      {reply : Except FileError FileReply} {after : World}, call.Allowed →
      Represents sha256 state model → FileCall.Runs sha256 state call reply after →
      ∃ next, Step sha256 model call reply next ∧ Represents sha256 after next := by
    intro state model call reply after hcall hrelated hruns
    exact ((hrelated.total_service hcall).ensures handle).of_runs handle hruns
  obtain ⟨store, hstore, hrepresents⟩ :=
    hpast.simulates FileCall.Allowed (Represents sha256)
      (represents_initial sha256 dialect rootDir) hstep hallowed
  refine ⟨store, hstore, hrepresents.answers, ?_⟩
  intro call hcall
  exact (hrepresents.total_service hcall).mono _ fun _ _ _ => trivial

def oneUpload : FileCall := .upload (.sample 1 "a") ['x'] [97]

/-- A second file, whose path leaves the storage root and comes back into it. -/
def aliasUpload : FileCall := .upload (.sample 2 "b") ['.', '.', '/', 'r', '/', 'x'] [98, 99]

def uploadReply (id : String) (path : Path) (size : Int) : Except FileError FileReply :=
  .ok (.metadata (newMetadata (.sample 0 id) path ['x'] size ""))

/-- A file is replaced, renamed, read and deleted. -/
def uploadedTwice : List FileCall :=
  [oneUpload, .upload (.sample 2 "b") ['x'] [98, 99], .rename (.sample 3 "") ['x'] ['y'],
    .download ['y'], .delete (.sample 4 "") ['y'], .download ['y']]

theorem fileManager_refines_uploadedTwice : ∃ replies world store,
    replies.map (fun reply => reply.isOk) = [true, true, true, true, true, false] ∧
    History (FileCall.Runs fun _ => "") (initial .postgresql [['r']]) (uploadedTwice.zip replies)
      world ∧
    History (FileStore.Step fun _ => "") ∅ (uploadedTwice.zip replies) store ∧
    ∀ path, Answers (fun _ => "") world path (store.lookup (normalizePath path)) := by
  have hruns := @runs_of_run Call Env World (Except FileError FileReply) handle .textual
  obtain ⟨replies, world, hreplies, hpast⟩ : ∃ replies world,
      replies.map (fun reply => reply.isOk) = [true, true, true, true, true, false] ∧
      History (FileCall.Runs fun _ => "") (initial .postgresql [['r']]) (uploadedTwice.zip replies)
        world :=
    ⟨[_, _, _, _, _, _], _, rfl, .snoc (.snoc (.snoc (.snoc (.snoc (.snoc .nil (hruns rfl))
      (hruns rfl)) (hruns rfl)) (hruns rfl)) (hruns rfl)) (hruns rfl)⟩
  have hcalls : ∀ call ∈ uploadedTwice, call.Allowed := by
    refine List.forall_mem_cons.mpr ⟨(by decide : StaysInside ['x']), ?_⟩
    refine List.forall_mem_cons.mpr ⟨(by decide : StaysInside ['x']), ?_⟩
    refine List.forall_mem_cons.mpr ⟨(by decide : isValidFileName ['y'] = true), ?_⟩
    simp [FileCall.Allowed]
  have hallowed : ∀ entry ∈ uploadedTwice.zip replies, entry.1.Allowed := fun entry hentry =>
    hcalls entry.1 (List.of_mem_zip hentry).1
  obtain ⟨store, hstore, hanswers, -⟩ :=
    fileManager_refines_fileStore (fun _ => "") .postgresql [['r']] hpast hallowed
  exact ⟨replies, world, store, hreplies, hpast, hstore, hanswers⟩

/-- After both uploads have succeeded the first file's metadata no longer fit its content. -/
theorem fileManager_aliases_paths :
    ∃ world, History (FileCall.Runs fun _ => "") (initial .postgresql [['r']])
        [(oneUpload, uploadReply "a" ['x'] 1),
          (aliasUpload, uploadReply "b" ['.', '.', '/', 'r', '/', 'x'] 2)] world ∧
      ¬ ∃ content, Answers (fun _ => "") world ['x'] content := by
  obtain ⟨first, second, hfirst, hsecond, hmetadata, hdownload⟩ : ∃ first second,
      (oneUpload.service fun _ => "").run handle .textual (initial .postgresql [['r']])
        = some (uploadReply "a" ['x'] 1, first) ∧
      (aliasUpload.service fun _ => "").run handle .textual first
        = some (uploadReply "b" ['.', '.', '/', 'r', '/', 'x'] 2, second) ∧
      ((getFileMetadata ['x']).run handle .textual second).map Prod.fst
        = some (.ok (newMetadata (.sample 0 "a") ['x'] ['x'] 1 "")) ∧
      ((downloadFile ['x']).run handle .textual second).map Prod.fst
        = some (.ok [98, 99]) := ⟨_, _, rfl, rfl, rfl, rfl⟩
  obtain ⟨⟨metadata, _⟩, hmetadata, rfl⟩ := Option.map_eq_some_iff.mp hmetadata
  obtain ⟨⟨bytes, _⟩, hdownload, rfl⟩ := Option.map_eq_some_iff.mp hdownload
  refine ⟨second, .snoc (.snoc .nil (runs_of_run _ hfirst)) (runs_of_run _ hsecond), ?_⟩
  rintro ⟨content, hanswers⟩
  cases content with
  | none =>
    obtain ⟨-, cause, hcause⟩ := (hanswers.1.ensures handle).of_runs _ (runs_of_run _ hmetadata)
    cases hcause
  | some content =>
    obtain ⟨-, row, hrow, hsize, -⟩ :=
      (hanswers.1.ensures handle).of_runs _ (runs_of_run _ hmetadata)
    obtain ⟨-, hcontent⟩ := (hanswers.2.ensures handle).of_runs _ (runs_of_run _ hdownload)
    cases hrow
    cases hcontent
    exact absurd hsize (by decide)

end FsServer
