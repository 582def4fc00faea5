import FsServer.Faults
import FsServer.Proof.Consistent

/-!
# What a failed upload leaves behind

An upload that fails has left the rows alone, and the objects too but for the one at its own place.
What is there afterwards depends on the call that failed: nothing when a query or the new row failed,
since the object is then taken back; the new bytes when the update of the row failed; the first of
them when the write itself did. So the rows still fit their objects exactly when the live rows at
that place fit what is left there.
-/

namespace FsServer

open Lib Program World LocalStorage

variable {α β : Type} {post : α → World → Prop} {world : World} {fault : Fault}

/-- A run with the fault does not return outside `post`. -/
abbrev Lib.Program.Once (fault : Fault) (post : α → World → Prop) (service : Service α)
    (world : World) : Prop :=
  service.EnsuresOnce calm Fails fault post world

/-! ### Rules -/

theorem Program.Ensures.calm {program : Service α} (h : program.Ensures handle post world) :
    program.Ensures calm post world := by
  induction program generalizing world with
  | done value => exact h
  | call operation next ih =>
    intro env reply after hcall
    exact ih reply (h _ reply after hcall)

variable {call : SessionCall β} {rest : β → Service α}

theorem calm_session_iff :
    (Service.session call >>= rest).Ensures calm post world ↔
      ∀ env : Env, env.fault = none →
        (rest (world.sessions.exec env call).1).Ensures calm post
          { world with sessions := (world.sessions.exec env call).2 } := by
  constructor
  · intro h env hcalm
    have henv : ({ env with fault := none } : Env) = env := by rw [← hcalm]
    refine h env _ _ ?_
    rw [calm, henv]
    rfl
  · intro h env reply after hcall
    cases hcall
    exact h _ rfl

theorem calm_session (h : ∀ env : Env, env.fault = none →
      (rest (world.sessions.exec env call).1).Ensures calm post
        { world with sessions := (world.sessions.exec env call).2 }) :
    (Service.session call >>= rest).Ensures calm post world := calm_session_iff.mpr h

theorem calm_outcome {reply : β} {sessions : Sessions}
    (h : ∀ env : Env, env.fault = none → world.sessions.exec env call = (reply, sessions)) :
    (Service.session call >>= rest).Ensures calm post world ↔
      (rest reply).Ensures calm post { world with sessions := sessions } := by
  rw [calm_session_iff]
  constructor
  · intro hall
    have hone := hall .textual rfl
    rw [h .textual rfl] at hone
    exact hone
  · intro hone env hcalm
    rw [h env hcalm]
    exact hone

theorem calm_readUpload {address : Address} {rest : UploadSession → Service α} :
    (Service.session (.readUpload address) >>= rest).Ensures calm post world ↔
      (rest (world.sessions.uploads address)).Ensures calm post world :=
  calm_outcome fun _ _ => rfl

theorem calm_skip {program : Service β}
    (h : ∀ value after, (rest value).Ensures calm post after) :
    (program >>= rest).Ensures calm post world := by
  rw [ensures_bind]
  exact Ensures.of_forall _ h program world

theorem once_sql {call : SqlCall β}
    (hfails : ∀ reply, call.Fails fault reply → (rest reply).Ensures calm post world)
    (h : ∀ env, (rest (world.db.exec env call).1).Once fault post
      { world with db := (world.db.exec env call).2 }) :
    (Service.sql call >>= rest).Once fault post world := by
  constructor
  · rintro reply after ⟨hreply, rfl⟩
    exact hfails reply hreply
  · intro env reply after hcall
    cases hcall
    exact h _

theorem once_storage {call : StorageCall β}
    (hfails : ∀ reply storage, call.Fails fault world.storage storage reply →
      (rest reply).Ensures calm post { world with storage := storage })
    (h : (rest (world.storage.exec call).1).Once fault post
      { world with storage := (world.storage.exec call).2 }) :
    (Service.storage call >>= rest).Once fault post world := by
  constructor
  · rintro reply after ⟨storage, hreply, rfl⟩
    exact hfails reply storage hreply
  · intro env reply after hcall
    cases hcall
    exact h

theorem once_move {path : Path} {temp : TempName} {rest : Except StorageError Unit → Service α}
    (hfails : ∀ storage, (fault = .write none ∧ storage = world.storage ∨
        ∃ content, world.sessions.fileOf temp = some content ∧
          world.storage.PartlyWritten storage path content .createDestination fault) →
      (rest (.error .fault)).Ensures calm post { world with storage := storage })
    (h : (rest (world.writeFromTempFile path temp).1).Once fault post
      (world.writeFromTempFile path temp).2) :
    (Service.writeFromTempFile path temp >>= rest).Once fault post world := by
  constructor
  · rintro reply after ⟨rfl, storage, rfl, hstorage⟩
    exact hfails storage hstorage
  intro env reply after hcall
  have houtcome : world.writeFromTempFile path temp = (reply, after) := Option.some.inj hcall
  rw [houtcome] at h
  exact h

theorem once_session (h : ∀ env : Env, env.fault = none →
      (rest (world.sessions.exec env call).1).Once fault post
        { world with sessions := (world.sessions.exec env call).2 }) :
    (Service.session call >>= rest).Once fault post world := by
  constructor
  · intro reply after hfails
    exact hfails.elim
  · intro env reply after hcall
    cases hcall
    exact h _ rfl

section Locks

variable {F : Type} {fails : Failure F Call World} {failing : F} {key : LockKey} {token : Token}

/-- No call on a lock goes wrong in this way. -/
def SparesLocks (fails : Failure F Call World) (failing : F) : Prop :=
  ∀ {β : Type} {call : LockCall β} {world reply after}, ¬ fails _ failing (.lock call) world reply after

variable (hspares : SparesLocks fails failing)
include hspares

theorem spared_lock {β : Type} {call : LockCall β} {rest : β → Service α}
    (h : ∀ env reply after, calm _ env (.lock call) world = some (reply, after) →
      (rest reply).EnsuresOnce calm fails failing post after) :
    (perform (.lock call) >>= rest).EnsuresOnce calm fails failing post world :=
  ⟨fun _ _ hfails => (hspares hfails).elim, h⟩

theorem spared_acquireMutex {rest : Unit → Service α}
    (h : world.locks key = none →
      (rest ()).EnsuresOnce calm fails failing post (world.setLock key (some token))) :
    (Service.acquireMutex key token >>= rest).EnsuresOnce calm fails failing post world := by
  refine spared_lock hspares fun env reply after hcall => ?_
  simp only [calm, handle, lockExec] at hcall
  split_ifs at hcall with hfree
  cases hcall
  exact h hfree

theorem spared_acquire {rest : Bool → Service α}
    (h : world.locks key = none →
      (rest true).EnsuresOnce calm fails failing post (world.setLock key (some token))) :
    (Service.acquire key token >>= rest).EnsuresOnce calm fails failing post world := by
  refine spared_lock hspares fun env reply after hcall => ?_
  simp only [calm, handle, lockExec, Option.isSome_none, Bool.false_eq_true, if_false] at hcall
  split_ifs at hcall with hfree
  cases hcall
  exact h hfree

theorem spared_unlock {rest : Unit → Service α}
    (h : (rest ()).EnsuresOnce calm fails failing post
      (if world.locks key = some token then world.setLock key none else world)) :
    (Service.unlock key token >>= rest).EnsuresOnce calm fails failing post world := by
  refine spared_lock hspares fun env reply after hcall => ?_
  cases hcall
  exact h

end Locks

/-! ### Rows that fit their objects -/

/-- Every live row has an object of its size and hash. -/
def Intact (sha256 : Bytes → String) (world : World) : Prop :=
  ∀ path row, world.db.liveFile path = some row →
    ∃ content, world.storage.read path = .ok content ∧ row.Describes sha256 content

def Fits (sha256 : Bytes → String) (world : World) (place : List Segment)
    (content : Option Bytes) : Prop :=
  ∀ path row, world.db.liveFile path = some row → world.storage.getFullPath path = place →
    ∃ bytes, content = some bytes ∧ row.Describes sha256 bytes

section Fits

variable {sha256 : Bytes → String} {after : World} {place : List Segment} {content : Option Bytes}

/-- When one object was replaced, only the rows at its place have to be looked at again. -/
theorem intact_iff (h : Intact sha256 world) (hdb : after.db = world.db)
    (hstores : world.storage.Stores after.storage place content) :
    Intact sha256 after ↔ Fits sha256 world place content := by
  have hobject : ∀ path, after.storage.object path =
      if world.storage.getFullPath path = place then content else world.storage.object path := by
    intro path
    rw [object, hstores.getFullPath, hstores.files, Function.update_apply]
    rfl
  constructor
  · intro hafter path row hlive hplace
    obtain ⟨bytes, hread, hdescribes⟩ := hafter path row (hdb ▸ hlive)
    have hbytes := (read_eq_ok.mp hread).2
    rw [hobject, if_pos hplace] at hbytes
    exact ⟨bytes, hbytes, hdescribes⟩
  · intro hfits path row hlive
    rw [hdb] at hlive
    obtain ⟨bytes, hread, hdescribes⟩ := h path row hlive
    obtain ⟨hvalid, hbytes⟩ := read_eq_ok.mp hread
    rw [← validatePath_congr hstores.rootDir] at hvalid
    by_cases hplace : world.storage.getFullPath path = place
    · obtain ⟨stored, rfl, hstored⟩ := hfits path row hlive hplace
      refine ⟨stored, read_eq_ok.mpr ⟨hvalid, ?_⟩, hstored⟩
      rw [hobject, if_pos hplace]
    · refine ⟨bytes, read_eq_ok.mpr ⟨hvalid, ?_⟩, hdescribes⟩
      rw [hobject, if_neg hplace, hbytes]

theorem intact_same (h : Intact sha256 world) (hdb : after.db = world.db)
    (hstorage : after.storage = world.storage) : Intact sha256 after := by
  intro path row hlive
  rw [hdb] at hlive
  rw [hstorage]
  exact h path row hlive

theorem place_succeeds {path other : Path} {row : FileMetadata} (h : Intact sha256 world)
    (hlive : world.db.liveFile other = some row)
    (hplace : world.storage.getFullPath other = world.storage.getFullPath path) (data : Bytes)
    (failed : OsError → StorageError) :
    ∃ storage, world.storage.place path data failed = .ok storage := by
  obtain ⟨bytes, hread, -⟩ := h other row hlive
  obtain ⟨hvalid, hbytes⟩ := read_eq_ok.mp hread
  rw [validatePath, hplace] at hvalid
  rw [object, hplace] at hbytes
  have hne := FileTree.fileAt_ne_nil hbytes
  have hnode : world.storage.tree.node ((world.storage.getFullPath path).dropLast
      ++ [(world.storage.getFullPath path).getLast hne]) ≠ none := by
    rw [List.dropLast_append_getLast, FileTree.fileAt_eq_some.mp hbytes]
    simp
  have hparent := FileTree.isDirectory_eq_true.mpr (world.storage.tree.node_parent _ _ hnode)
  have hdirectory : ensureDirectoryExists world.storage.tree
      (world.storage.getFullPath path).dropLast = .ok world.storage.tree := by
    simp [ensureDirectoryExists, FileTree.stat, FileTree.isDirectory_eq_true.mp hparent]
  obtain ⟨written, hwritten⟩ : ∃ written,
      world.storage.tree.writeFile (world.storage.getFullPath path) data = .ok written :=
    ⟨_, FileTree.writeFile_eq_ok hne hparent (FileTree.isDirectory_eq_false_of_fileAt hbytes)⟩
  refine ⟨{ world.storage with tree := written }, ?_⟩
  rw [place, validatePath, if_pos hvalid]
  simp only [hdirectory, hwritten]

end Fits

/-- What is left at the place of the upload once it has failed, if it has changed anything. -/
def Fault.leaves (data : Bytes) : Fault → Option (Option Bytes)
  | .query | .create | .getSize => some none
  | .update | .remove => some (some data)
  | .write none => none
  | .write (some kept) => some (some (data.take kept))

/-- The rows at the place of the upload fit what the failure leaves there. -/
def Harmless (sha256 : Bytes → String) (world : World) (path : Path) (data : Bytes)
    (fault : Fault) : Prop :=
  ∀ left, fault.leaves data = some left → Fits sha256 world (world.storage.getFullPath path) left

def Unowned (world : World) (path : Path) : Prop :=
  ∀ other row, world.db.liveFile other = some row →
    world.storage.getFullPath other ≠ world.storage.getFullPath path

/-- A failed upload to this path has changed no row, and at most the object at its own place. -/
def Left (world : World) (path : Path) (data : Bytes) (fault : Fault) (ok : Bool) (after : World) :
    Prop :=
  ok = false → after.db = world.db ∧
    (after.storage = world.storage ∧ (fault.leaves data = none ∨ Unowned world path) ∨
      ∃ left, fault.leaves data = some left ∧
        world.storage.Stores after.storage (world.storage.getFullPath path) left)

abbrev Leaving {α : Type} (world : World) (path : Path) (data : Bytes) (fault : Fault)
    (ok : α → Bool) (result : α) (after : World) : Prop :=
  Left world path data fault (ok result) after

section Left

variable {sha256 : Bytes → String} {middle after : World} {path : Path} {data : Bytes} {ok : Bool}

theorem Left.intact_iff (h : Left world path data fault false after)
    (hintact : Intact sha256 world) :
    Intact sha256 after ↔ Harmless sha256 world path data fault := by
  obtain ⟨hdb, ⟨hsame, hnone | hunowned⟩ | ⟨left, hleft, hstores⟩⟩ := h rfl
  · refine iff_of_true (intact_same hintact hdb hsame) fun left hleft => ?_
    rw [hnone] at hleft
    cases hleft
  · refine iff_of_true (intact_same hintact hdb hsame) fun left _ other row hlive hplace => ?_
    exact absurd hplace (hunowned other row hlive)
  · rw [FsServer.intact_iff hintact hdb hstores]
    constructor
    · intro hfits left' hleft'
      rw [hleft, Option.some.injEq] at hleft'
      exact hleft' ▸ hfits
    · intro hharmless
      exact hharmless left hleft

/-- The object is written and the row is not. -/
structure Wrote (world : World) (path : Path) (data : Bytes) (after : World) : Prop where
  valid : world.storage.validatePath path = true
  db : after.db = world.db
  stores : world.storage.Stores after.storage (world.storage.getFullPath path) (some data)

theorem Wrote.left (h : Wrote world path data middle) (hleaves : fault.leaves data = some (some data)) :
    Left world path data fault ok middle :=
  fun _ => ⟨h.db, .inr ⟨_, hleaves, h.stores⟩⟩

theorem Wrote.remove (h : Wrote world path data middle) :
    ∃ storage, middle.storage.remove path = .ok storage ∧
      world.storage.Stores storage (world.storage.getFullPath path) none := by
  obtain ⟨storage, hremove, hstores⟩ := remove_object
    ((validatePath_congr h.stores.rootDir).trans h.valid) h.stores.object_self
  rw [Rearranges.getFullPath h.stores] at hstores
  exact ⟨storage, hremove, h.stores.trans hstores⟩

end Left

end FsServer
