import FsServer.Proof.FileManager

/-!
# Rows and objects in step

The invariant that ties the two halves of a file together: every live row is on an ordinary path and
describes the object there, and every object on an ordinary path has a live row. Each way the file
manager changes a row and an object keeps it.
-/

namespace FsServer

open Lib World LocalStorage

def World.content (world : World) (path : Path) : Option Bytes :=
  (world.db.liveFile path).bind fun _ => world.storage.object path

def FileMetadata.Describes (sha256 : Bytes → String) (row : FileMetadata) (content : Bytes) : Prop :=
  row.size = content.length ∧ row.hash = sha256 content

structure Consistent (sha256 : Bytes → String) (world : World) : Prop where
  ordinary : ∀ {path row}, world.db.liveFile path = some row → Ordinary path
  rooted : ∀ {path row}, world.db.liveFile path = some row → world.storage.rootDir ≠ []
  stored : ∀ {path row}, world.db.liveFile path = some row →
    ∃ content, world.storage.object path = some content ∧ row.Describes sha256 content
  owned : ∀ {path}, Ordinary path → world.db.liveFile path = none → world.storage.object path = none
  root : world.storage.tree.isDirectory world.storage.rootDir = true

variable {target : Path} {content : Bytes}

namespace LocalStorage

variable {storage after : LocalStorage} {path other : Path}

theorem Stores.object_other {content : Option Bytes} (hpath : Ordinary path)
    (hother : Ordinary other) (hne : other ≠ path)
    (h : storage.Stores after (storage.getFullPath path) content) :
    after.object other = storage.object other := by
  have hplace : storage.getFullPath other ≠ storage.getFullPath path := fun heq =>
    hne (getFullPath_injective storage hother hpath heq)
  rw [object, h.getFullPath, h.files, Function.update_of_ne hplace]
  rfl

theorem Relocates.object_target
    (h : storage.Relocates after (storage.getFullPath path) (storage.getFullPath target) content) :
    after.object target = some content := by
  rw [object, Rearranges.getFullPath h, h.files, Function.update_self]

theorem Relocates.object_source (hpath : Ordinary path) (htarget : Ordinary target)
    (hne : path ≠ target)
    (h : storage.Relocates after (storage.getFullPath path) (storage.getFullPath target) content) :
    after.object path = none := by
  have hplace : storage.getFullPath path ≠ storage.getFullPath target := fun heq =>
    hne (getFullPath_injective storage hpath htarget heq)
  rw [object, Rearranges.getFullPath h, h.files, Function.update_of_ne hplace, Function.update_self]

theorem Relocates.object_other (hpath : Ordinary path) (htarget : Ordinary target)
    (hother : Ordinary other) (hsource : other ≠ path) (hne : other ≠ target)
    (h : storage.Relocates after (storage.getFullPath path) (storage.getFullPath target) content) :
    after.object other = storage.object other := by
  have hplace : storage.getFullPath other ≠ storage.getFullPath target := fun heq =>
    hne (getFullPath_injective storage hother htarget heq)
  have hplace' : storage.getFullPath other ≠ storage.getFullPath path := fun heq =>
    hsource (getFullPath_injective storage hother hpath heq)
  rw [object, Rearranges.getFullPath h, h.files, Function.update_of_ne hplace,
    Function.update_of_ne hplace']
  rfl

theorem Rearranges.root {place : List Segment} {files : List Segment → Option Bytes}
    (h : storage.Rearranges after place files)
    (hroot : storage.tree.isDirectory storage.rootDir = true) :
    after.tree.isDirectory after.rootDir = true := by
  rw [h.rootDir]
  exact h.keeps _ hroot

end LocalStorage

namespace Consistent

variable {sha256 : Bytes → String} {world after : World} {path : Path}

section

variable (h : Consistent sha256 world)
include h

theorem content_eq (hpath : Ordinary path) : world.content path = world.storage.object path := by
  cases hlive : world.db.liveFile path with
  | none => rw [content, hlive, h.owned hpath hlive]; rfl
  | some row => rw [content, hlive]; rfl

theorem content_eq_none (hpath : ¬ Ordinary path) : world.content path = none := by
  cases hlive : world.db.liveFile path with
  | none => rw [content, hlive]; rfl
  | some row => exact absurd (h.ordinary hlive) hpath

theorem read {row : FileMetadata} (hlive : world.db.liveFile path = some row) :
    ∃ content, world.storage.read path = .ok content := by
  obtain ⟨content, hobject, -⟩ := h.stored hlive
  have hvalid := validatePath_ordinary (h.rooted hlive) (h.ordinary hlive)
  exact ⟨content, read_eq_ok.mpr ⟨hvalid, hobject⟩⟩

theorem same (hdb : after.db = world.db) (hsame : world.storage.SameFiles after.storage) :
    Consistent sha256 after where
  ordinary hlive := h.ordinary (hdb ▸ hlive)
  rooted hlive := by
    rw [hsame.rootDir]
    exact h.rooted (hdb ▸ hlive)
  stored hlive := by
    rw [hdb] at hlive
    rw [hsame.object]
    exact h.stored hlive
  owned hpath hlive := by
    rw [hdb] at hlive
    rw [hsame.object]
    exact h.owned hpath hlive
  root := by
    rw [hsame.rootDir]
    exact hsame.keeps _ h.root

theorem replace (hpath : Ordinary path) {row : FileMetadata} {content : Option Bytes}
    (hrow : row.isDeleted = false ∧ world.storage.validatePath path = true ∧
      (∃ data, content = some data ∧ row.Describes sha256 data) ∨
      row.isDeleted = true ∧ content = none) (hputs : Database.Puts world.db after.db path row)
    (hstores : world.storage.Stores after.storage (world.storage.getFullPath path) content) :
    Consistent sha256 after := by
  have hself := hstores.object_self
  refine ⟨fun {key found} hfound => ?_, fun {key found} hfound => ?_,
    fun {key found} hfound => ?_, fun {key} hkey hnone => ?_, hstores.root h.root⟩
  all_goals by_cases hsame : key = path
  · exact hsame ▸ hpath
  · rw [hputs.liveFile, if_neg hsame] at hfound
    exact h.ordinary hfound
  · rw [hputs.liveFile, if_pos hsame, Option.filter_some] at hfound
    rw [hstores.rootDir]
    rcases hrow with ⟨-, hvalid, -⟩ | ⟨hdeleted, -⟩
    · exact rooted_of_validatePath hpath hvalid
    · rw [hdeleted] at hfound
      cases hfound
  · rw [hputs.liveFile, if_neg hsame] at hfound
    rw [hstores.rootDir]
    exact h.rooted hfound
  · rw [hputs.liveFile, if_pos hsame, Option.filter_some] at hfound
    rcases hrow with ⟨hlive, -, data, hdata, hrow⟩ | ⟨hdeleted, -⟩
    · rw [hlive] at hfound
      cases hfound
      exact ⟨data, by rw [hsame, hself, hdata], hrow⟩
    · rw [hdeleted] at hfound
      cases hfound
  · rw [hputs.liveFile, if_neg hsame] at hfound
    rw [hstores.object_other hpath (h.ordinary hfound) hsame]
    exact h.stored hfound
  · rw [hputs.liveFile, if_pos hsame, Option.filter_some] at hnone
    rcases hrow with ⟨hlive, -⟩ | ⟨-, hcontent⟩
    · rw [hlive] at hnone
      cases hnone
    · rw [hsame, hself, hcontent]
  · rw [hputs.liveFile, if_neg hsame] at hnone
    rw [hstores.object_other hpath hkey hsame]
    exact h.owned hkey hnone

theorem content_replace (hafter : Consistent sha256 after) (hpath : Ordinary path)
    {content : Option Bytes}
    (hstores : world.storage.Stores after.storage (world.storage.getFullPath path) content)
    (key : Path) : after.content key = if key = path then content else world.content key := by
  split_ifs with hsame
  · rw [hsame, hafter.content_eq hpath, hstores.object_self]
  by_cases hkey : Ordinary key
  · rw [h.content_eq hkey, hafter.content_eq hkey, hstores.object_other hpath hkey hsame]
  · rw [h.content_eq_none hkey, hafter.content_eq_none hkey]

theorem rename {row metadata : FileMetadata} (hlive : world.db.liveFile path = some metadata)
    (hobject : world.storage.object path = some content) (htarget : Ordinary target)
    (hne : path ≠ target) (hrow : row.path = target ∧ row.size = metadata.size ∧
      row.hash = metadata.hash ∧ row.isDeleted = false)
    (hmoves : Database.Moves world.db after.db path row)
    (hrelocates : world.storage.Relocates after.storage (world.storage.getFullPath path)
      (world.storage.getFullPath target) content) :
    Consistent sha256 after := by
  obtain ⟨rfl, hsize, hhash, hnew⟩ := hrow
  have hpath := h.ordinary hlive
  have hdescribes : row.Describes sha256 content := by
    obtain ⟨found, hfound, hdescribes⟩ := h.stored hlive
    rw [hobject, Option.some.injEq] at hfound
    subst hfound
    exact ⟨hsize.trans hdescribes.1, hhash.trans hdescribes.2⟩
  refine ⟨fun {key found} hfound => ?_, fun _ => hrelocates.rootDir ▸ h.rooted hlive,
    fun {key found} hfound => ?_, fun {key} hkey hnone => ?_, hrelocates.root h.root⟩
  all_goals by_cases hkeyTarget : key = row.path
  · exact hkeyTarget ▸ htarget
  · rw [hmoves.liveFile, if_neg hkeyTarget] at hfound
    split_ifs at hfound with hkeyPath
    exact h.ordinary hfound
  · rw [hmoves.liveFile, if_pos hkeyTarget, Option.filter_some, hnew] at hfound
    cases hfound
    exact ⟨content, by rw [hkeyTarget, hrelocates.object_target], hdescribes⟩
  · rw [hmoves.liveFile, if_neg hkeyTarget] at hfound
    split_ifs at hfound with hkeyPath
    rw [hrelocates.object_other hpath htarget (h.ordinary hfound) hkeyPath hkeyTarget]
    exact h.stored hfound
  · rw [hmoves.liveFile, if_pos hkeyTarget, Option.filter_some, hnew] at hnone
    cases hnone
  · by_cases hkeyPath : key = path
    · rw [hkeyPath, hrelocates.object_source hpath htarget hne]
    · rw [hmoves.liveFile, if_neg hkeyTarget, if_neg hkeyPath] at hnone
      rw [hrelocates.object_other hpath htarget hkey hkeyPath hkeyTarget]
      exact h.owned hkey hnone

theorem content_rename (hafter : Consistent sha256 after) (hpath : Ordinary path)
    (htarget : Ordinary target) (hne : path ≠ target)
    (hrelocates : world.storage.Relocates after.storage (world.storage.getFullPath path)
      (world.storage.getFullPath target) content) (key : Path) :
    after.content key =
      if key = target then some content else if key = path then none else world.content key := by
  split_ifs with hkeyTarget hkeyPath
  · rw [hkeyTarget, hafter.content_eq htarget, hrelocates.object_target]
  · rw [hkeyPath, hafter.content_eq hpath, hrelocates.object_source hpath htarget hne]
  by_cases hkey : Ordinary key
  · rw [h.content_eq hkey, hafter.content_eq hkey,
      hrelocates.object_other hpath htarget hkey hkeyPath hkeyTarget]
  · rw [h.content_eq_none hkey, hafter.content_eq_none hkey]

end

end Consistent

end FsServer
