import FsServer.Transfer

/-!
# Rules for the calls

What has to be shown for a program that starts with a call, for each kind of call. The environment is
free, so a call that can fail has to be followed both ways.
-/

namespace FsServer

open Lib Program World Service

def Context.sample (token : Token) (id : String) : Context where
  inst := 0
  token := token
  id := id
  now := "2024-01-01T00:00:00Z"
  nonce := ⟨List.replicate 12 0, rfl⟩

variable {α β : Type} {post : α → World → Prop} {world : World}

variable {call : SessionCall β} {rest : β → Service α}

theorem ensures_session :
    (session call >>= rest).Ensures handle post world ↔
      ∀ env, (rest (world.sessions.exec env call).1).Ensures handle post
        { world with sessions := (world.sessions.exec env call).2 } := by
  constructor
  · intro h env
    exact h env _ _ rfl
  · intro h env reply after hcall
    cases hcall
    exact h env

theorem ensures_outcome {reply : β} {sessions : Sessions}
    (h : ∀ env, world.sessions.exec env call = (reply, sessions)) :
    (session call >>= rest).Ensures handle post world ↔
      (rest reply).Ensures handle post { world with sessions := sessions } := by
  rw [ensures_session]
  constructor
  · intro hall
    have hone := hall .textual
    rw [h .textual] at hone
    exact hone
  · intro hone env
    rw [h env]
    exact hone

variable {address : Address}

theorem ensures_readUpload {rest : UploadSession → Service α} :
    (session (.readUpload address) >>= rest).Ensures handle post world ↔
      (rest (world.sessions.uploads address)).Ensures handle post world :=
  ensures_outcome fun _ => rfl

theorem ensures_readMultipart {rest : MultipartUploadSession → Service α} :
    (session (.readMultipart address) >>= rest).Ensures handle post world ↔
      (rest (world.sessions.multiparts address)).Ensures handle post world :=
  ensures_outcome fun _ => rfl

theorem ensures_createTemp {name : TempName} {rest : Option Inode → Service α}
    (hfailed : (rest none).Ensures handle post world)
    (hcreated : (rest (some (world.sessions.create name).1)).Ensures handle post
      { world with sessions := (world.sessions.create name).2 }) :
    (session (.createTemp name) >>= rest).Ensures handle post world := by
  rw [ensures_session]
  intro env
  simp only [Sessions.exec]
  split_ifs
  · exact hfailed
  · exact hcreated

theorem ensures_truncateTemp {inode : Inode} {size : Int} {rest : Bool → Service α}
    (hfailed : (rest false).Ensures handle post world)
    (htruncated : 0 ≤ size → (rest true).Ensures handle post { world with
      sessions := world.sessions.setInode inode
        (Sessions.truncate (world.sessions.inodes inode) size.toNat) }) :
    (session (.truncateTemp inode size) >>= rest).Ensures handle post world := by
  rw [ensures_session]
  intro env
  simp only [Sessions.exec]
  split_ifs with hsize
  · exact hfailed
  · exact htruncated (by omega)

theorem ensures_storage {call : StorageCall β} :
    (storage call >>= rest).Ensures handle post world ↔
      (rest (world.storage.exec call).1).Ensures handle post
        { world with storage := (world.storage.exec call).2 } := by
  constructor
  · intro h
    exact h .textual _ _ rfl
  · intro h env reply after hcall
    cases hcall
    exact h

theorem ensures_sql {call : SqlCall β} :
    (sql call >>= rest).Ensures handle post world ↔
      ∀ env, (rest (world.db.exec env call).1).Ensures handle post
        { world with db := (world.db.exec env call).2 } := by
  constructor
  · intro h env
    exact h env _ _ rfl
  · intro h env reply after hcall
    cases hcall
    exact h env

variable {key : LockKey} {token : Token}

theorem ensures_acquire {rest : Bool → Service α} (hfailed : (rest false).Ensures handle post world)
    (htaken : world.locks key = none →
      (rest true).Ensures handle post (world.setLock key (some token))) :
    (acquire key token >>= rest).Ensures handle post world := by
  intro env reply after hcall
  simp only [handle, lockExec] at hcall
  split_ifs at hcall with hfault hfree
  · cases hcall
    exact hfailed
  · cases hcall
    exact htaken hfree

theorem ensures_unlock {rest : Unit → Service α} (h : (rest ()).Ensures handle post
      (if world.locks key = some token then world.setLock key none else world)) :
    (unlock key token >>= rest).Ensures handle post world := by
  intro env reply after hcall
  cases hcall
  exact h

/-! ### Runs that return -/

variable {env : Env}

theorem returns_session :
    (session call >>= rest).Returns handle env post world ↔
      (rest (world.sessions.exec env call).1).Returns handle env post
        { world with sessions := (world.sessions.exec env call).2 } := by
  constructor
  · rintro ⟨reply, after, hcall, hnext⟩
    cases hcall
    exact hnext
  · intro h
    exact ⟨_, _, rfl, h⟩

theorem returns_readMultipart {rest : MultipartUploadSession → Service α} :
    (session (.readMultipart address) >>= rest).Returns handle env post world ↔
      (rest (world.sessions.multiparts address)).Returns handle env post world := returns_session

theorem returns_changeMultipart {change : MultipartChange}
    {rest : MultipartUploadSession → Service α} :
    (session (.changeMultipart address change) >>= rest).Returns handle env post world ↔
      (rest ((world.sessions.multiparts address).change change)).Returns handle env post
        { world with
          sessions := world.sessions.setMultipart address
            ((world.sessions.multiparts address).change change) } := returns_session

theorem returns_acquire {rest : Bool → Service α} (hfault : env.fault = none)
    (hfree : world.locks key = none) :
    (acquire key token >>= rest).Returns handle env post world ↔
      (rest true).Returns handle env post (world.setLock key (some token)) := by
  have hcall : handle _ env (.lock (.acquire key token)) world
      = some (true, world.setLock key (some token)) := by
    simp [handle, lockExec, hfault, hfree]
  constructor
  · rintro ⟨reply, after, houtcome, hnext⟩
    rw [hcall] at houtcome
    cases houtcome
    exact hnext
  · intro h
    exact ⟨_, _, hcall, h⟩

theorem returns_unlock {rest : Unit → Service α} :
    (unlock key token >>= rest).Returns handle env post world ↔
      (rest ()).Returns handle env post
        (if world.locks key = some token then world.setLock key none else world) := by
  constructor
  · rintro ⟨reply, after, hcall, hnext⟩
    cases hcall
    exact hnext
  · intro h
    exact ⟨_, _, rfl, h⟩

theorem returns_writeFromTempFile {path : Path} {temp : TempName}
    {rest : Except StorageError Unit → Service α} :
    (writeFromTempFile path temp >>= rest).Returns handle env post world ↔
      (rest (world.writeFromTempFile path temp).1).Returns handle env post
        (world.writeFromTempFile path temp).2 := by
  constructor
  · rintro ⟨reply, after, hcall, hnext⟩
    have houtcome : world.writeFromTempFile path temp = (reply, after) := Option.some.inj hcall
    rw [houtcome]
    exact hnext
  · intro h
    exact ⟨_, _, rfl, h⟩

theorem returns_sql {call : SqlCall β} :
    (sql call >>= rest).Returns handle env post world ↔
      (rest (world.db.exec env call).1).Returns handle env post
        { world with db := (world.db.exec env call).2 } := by
  constructor
  · rintro ⟨reply, after, hcall, hnext⟩
    cases hcall
    exact hnext
  · intro h
    exact ⟨_, _, rfl, h⟩

/-! ### Total runs -/

theorem total_sql {call : SqlCall β} :
    (sql call >>= rest).Total handle post world ↔
      ∀ env, (rest (world.db.exec env call).1).Total handle post
        { world with db := (world.db.exec env call).2 } := by
  constructor
  · intro h env
    obtain ⟨reply, after, hcall, hnext⟩ := h env
    cases hcall
    exact hnext
  · intro h env
    exact ⟨_, _, rfl, h env⟩

theorem total_storage {call : StorageCall β} :
    (storage call >>= rest).Total handle post world ↔
      (rest (world.storage.exec call).1).Total handle post
        { world with storage := (world.storage.exec call).2 } := by
  constructor
  · intro h
    obtain ⟨reply, after, hcall, hnext⟩ := h .textual
    cases hcall
    exact hnext
  · intro h env
    exact ⟨_, _, rfl, h⟩

theorem total_acquireMutex {rest : Unit → Service α} (hfree : world.locks key = none)
    (h : (rest ()).Total handle post (world.setLock key (some token))) :
    (acquireMutex key token >>= rest).Total handle post world := by
  intro env
  refine ⟨_, _, ?_, h⟩
  simp [handle, lockExec, hfree]

theorem total_acquire {rest : Bool → Service α} (hfree : world.locks key = none)
    (hfailed : (rest false).Total handle post world)
    (htaken : (rest true).Total handle post (world.setLock key (some token))) :
    (acquire key token >>= rest).Total handle post world := by
  intro env
  cases hfault : env.fault with
  | none => exact ⟨_, _, by simp [handle, lockExec, hfault, hfree], htaken⟩
  | some n => exact ⟨_, _, by simp [handle, lockExec, hfault], hfailed⟩

theorem total_unlock {rest : Unit → Service α} (hheld : world.locks key = some token)
    (h : (rest ()).Total handle post (world.setLock key none)) :
    (unlock key token >>= rest).Total handle post world := by
  intro env
  refine ⟨_, _, ?_, h⟩
  simp [handle, lockExec, hheld]

end FsServer
