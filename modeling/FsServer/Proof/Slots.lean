import FsServer.Proof.Calls
import FsServer.Faults
import Mathlib.Logic.Relation

/-!
# Session slots

An instance counts a slot for each session it holds. A call's effect on the account is read off as a
sequence of openings and closings, each of which keeps the count equal to the number of sessions. The
one exception is a session that is restored from the session store: it is held without a slot, and its
end gives one back.
-/

namespace FsServer

open Lib Program World Sessions

/-- The identifiers of the sessions an instance holds, its slot counter and the limit. -/
structure Slots where
  uploads : List String
  multiparts : List String
  count : Int
  limit : Int

namespace Slots

def dropUpload (slots : Slots) (sessionID : String) : Slots :=
  { slots with uploads := slots.uploads.erase sessionID, count := slots.count - 1 }

def dropMultipart (slots : Slots) (sessionID : String) : Slots :=
  { slots with multiparts := slots.multiparts.erase sessionID, count := slots.count - 1 }

inductive Step : Slots → Slots → Prop
  | openUpload (slots : Slots) (sessionID : String) (hlimit : slots.count < slots.limit) :
      Step slots { slots with uploads := sessionID :: slots.uploads, count := slots.count + 1 }
  | openMultipart (slots : Slots) (sessionID : String) (hlimit : slots.count < slots.limit) :
      Step slots { slots with multiparts := sessionID :: slots.multiparts, count := slots.count + 1 }
  | closeUpload (slots : Slots) (sessionID : String) (hheld : sessionID ∈ slots.uploads) :
      Step slots (slots.dropUpload sessionID)
  | closeMultipart (slots : Slots) (sessionID : String) (hheld : sessionID ∈ slots.multiparts) :
      Step slots (slots.dropMultipart sessionID)

/-- One slot for each session, and no more than allowed; the limit leaves the counter room. -/
structure Balanced (slots : Slots) : Prop where
  exact : slots.count = slots.uploads.length + slots.multiparts.length
  within : slots.count ≤ slots.limit
  room : slots.limit < maxInt64

theorem Balanced.nonneg {slots : Slots} (h : slots.Balanced) : 0 ≤ slots.count := by
  rw [h.exact]
  omega

theorem length_erase_cast {sessionID : String} {held : List String} (h : sessionID ∈ held) :
    ((held.erase sessionID).length : Int) = held.length - 1 := by
  have hpos := List.length_pos_of_mem h
  rw [List.length_erase_of_mem h]
  omega

theorem Step.balanced {slots after : Slots} (hstep : Step slots after) (h : slots.Balanced) :
    after.Balanced := by
  obtain ⟨hexact, hwithin, hroom⟩ := h
  cases hstep with
  | openUpload sessionID hlimit =>
    refine ⟨?_, hlimit, hroom⟩
    dsimp only
    rw [List.length_cons]
    omega
  | openMultipart sessionID hlimit =>
    refine ⟨?_, hlimit, hroom⟩
    dsimp only
    rw [List.length_cons]
    omega
  | closeUpload sessionID hheld =>
    have hlength := length_erase_cast hheld
    exact ⟨by dsimp only [dropUpload]; omega, by dsimp only [dropUpload]; omega, hroom⟩
  | closeMultipart sessionID hheld =>
    have hlength := length_erase_cast hheld
    exact ⟨by dsimp only [dropMultipart]; omega, by dsimp only [dropMultipart]; omega, hroom⟩

theorem balanced_of_steps {slots after : Slots} (hsteps : Relation.ReflTransGen Step slots after)
    (h : slots.Balanced) : after.Balanced := by
  induction hsteps with
  | refl => exact h
  | tail _ hstep ih => exact hstep.balanced ih

end Slots

def Sessions.slots (sessions : Sessions) (inst : Nat) : Slots where
  uploads := (sessions.instances inst).uploadSessions.keys
  multiparts := (sessions.instances inst).multipartSessions.keys
  count := (sessions.instances inst).sessionCount
  limit := sessions.maxSessions

/-! ### Calls that do not touch the account -/

def SessionCall.Quiet : {β : Type} → SessionCall β → Prop
  | _, .addSessionCount .. | _, .storeUpload .. | _, .loadOrStoreUpload .. => False
  | _, .deleteUpload .. | _, .storeMultipart .. | _, .deleteMultipart .. => False
  | _, _ => True

def Quiet : ∀ β : Type, Call β → Prop
  | _, .session request => request.Quiet
  | _, _ => True

/-- A quiet call on the sessions and on nothing else. -/
def OnSession : ∀ β : Type, Call β → Prop
  | _, .session request => request.Quiet
  | _, _ => False

theorem Quiet.of_onSession {β : Type} {operation : Call β} (h : OnSession β operation) :
    Quiet β operation := by
  cases operation with
  | session request => exact h
  | storage request | sql request | lock request | move request => trivial

theorem slots_writeAt (env : Env) (sessions : Sessions) (inode : Inode) (data : Bytes) (offset : Int)
    (inst : Nat) : (sessions.writeAt env inode data offset).2.slots inst = sessions.slots inst := by
  unfold writeAt
  split_ifs
  · rfl
  · cases env.fault <;> rfl

theorem slots_create (sessions : Sessions) (name : TempName) (inst : Nat) :
    (sessions.create name).2.slots inst = sessions.slots inst := by
  unfold create
  cases sessions.temps.lookup name <;> rfl

theorem slots_setInstance_downloads (sessions : Sessions) (inst other : Nat)
    (downloads : AList fun _ : String => Address) :
    (sessions.setInstance other { sessions.instances other with downloadSessions := downloads }).slots
      inst = sessions.slots inst := by
  unfold slots setInstance
  by_cases h : inst = other
  · subst h
    simp
  · simp [h]

theorem SessionCall.Quiet.slots {β : Type} {call : SessionCall β} (h : call.Quiet)
    (sessions : Sessions) (env : Env) (inst : Nat) :
    (sessions.exec env call).2.slots inst = sessions.slots inst := by
  cases call with
  | addSessionCount | storeUpload | loadOrStoreUpload => cases h
  | deleteUpload | storeMultipart | deleteMultipart => cases h
  | writeChunk address sessionID data offset =>
    simp only [exec, Sessions.writeChunk]
    cases (sessions.uploads address).tempFile with
    | some inode => exact slots_writeAt ..
    | none =>
      cases sessions.temps.lookup (.upload sessionID) with
      | some inode => exact slots_writeAt ..
      | none => rfl
  | writePart address data offset =>
    simp only [exec, Sessions.writePart]
    cases (sessions.multiparts address).tempFile with
    | some inode => exact slots_writeAt ..
    | none => rfl
  | closeTempFile address =>
    simp only [exec, Sessions.closeTempFile]
    cases (sessions.uploads address).tempFile with
    | none => rfl
    | some inode =>
      rcases env.fault with _ | _ | n <;> rfl
  | storeDownload other sessionID session => exact slots_setInstance_downloads ..
  | deleteDownload other sessionID => exact slots_setInstance_downloads ..
  | createTemp name =>
    simp only [exec]
    split_ifs
    · rfl
    · exact slots_create ..
  | writeTemp name data =>
    simp only [exec]
    rcases env.fault with _ | _ | n
    · exact slots_create ..
    · rfl
    · exact slots_create ..
  | setUploadRecord | deleteUploadRecord | setDownloadRecord | deleteDownloadRecord | truncateTemp
  | removeTemp =>
    simp only [exec]
    split_ifs <;> rfl
  | _ => rfl

variable {world after : World}

variable {env : Env}

theorem sessions_lockExec {β : Type} {call : LockCall β} {reply : β}
    (hcall : world.lockExec env call = some (reply, after)) : after.sessions = world.sessions := by
  cases call with
  | acquireMutex key token =>
    simp only [lockExec] at hcall
    split_ifs at hcall
    cases hcall
    rfl
  | acquire key token =>
    simp only [lockExec] at hcall
    split_ifs at hcall <;> cases hcall <;> rfl
  | unlock key token =>
    simp only [lockExec] at hcall
    split_ifs at hcall <;> cases hcall <;> rfl

theorem slots_writeFromTempFile (world : World) (path : Path) (temp : TempName) (inst : Nat) :
    (world.writeFromTempFile path temp).2.sessions.slots inst = world.sessions.slots inst := by
  unfold writeFromTempFile
  split_ifs with hvalid hallowed
  · cases world.sessions.fileOf temp with
    | some content =>
      dsimp only
      cases world.storage.writeFromTempFile path content <;> rfl
    | none =>
      dsimp only
      cases LocalStorage.ensureDirectoryExists world.storage.tree
        (world.storage.getFullPath path).dropLast <;> rfl
  · rfl
  · rfl

theorem handle_quiet {β : Type} {call : Call β} (h : Quiet β call) {reply : β}
    (hcall : handle _ env call world = some (reply, after)) (inst : Nat) :
    after.sessions.slots inst = world.sessions.slots inst := by
  cases call with
  | storage call | sql call =>
    cases hcall
    rfl
  | session call =>
    cases hcall
    exact h.slots world.sessions env inst
  | lock call => rw [sessions_lockExec hcall]
  | move call =>
    cases call with
    | writeFromTempFile path temp =>
      have hafter : (world.writeFromTempFile path temp).2 = after :=
        congrArg Prod.snd (Option.some.inj hcall)
      rw [← hafter]
      exact slots_writeFromTempFile world path temp inst

theorem fails_quiet {β : Type} {call : Call β} {fault : Fault} {reply : β}
    (hfails : World.Fails _ fault call world reply after) :
    after.sessions = world.sessions := by
  cases call with
  | sql call => exact congrArg sessions hfails.2
  | storage call =>
    obtain ⟨storage, -, rfl⟩ := hfails
    rfl
  | move call =>
    cases call with
    | writeFromTempFile path temp =>
      obtain ⟨-, storage, rfl, -⟩ := hfails
      rfl
  | session call => cases hfails
  | lock call => cases hfails

/-! ### What a program does to the account -/

/-- From every world with this account the program returns a value and an account as `post` says. -/
def Accounts {α : Type} (inst : Nat) (program : Service α) (slots : Slots)
    (post : α → Slots → Prop) : Prop :=
  ∀ world : World, world.sessions.slots inst = slots →
    program.EnsuresAmid handle World.Fails
      (fun value after => post value (after.sessions.slots inst)) world

namespace Accounts

variable {α β : Type} {inst : Nat} {slots : Slots}

variable {post : α → Slots → Prop}

theorem pure {value : α} (h : post value slots) : Accounts inst (Pure.pure value) slots post := by
  intro world hworld
  subst hworld
  exact h

variable {program : Service α}

theorem mono {weaker : α → Slots → Prop} (h : Accounts inst program slots post)
    (himp : ∀ value after, post value after → weaker value after) :
    Accounts inst program slots weaker := fun world hworld =>
  (h world hworld).mono fun value _ hpost => himp value _ hpost

variable {rest : α → Service β}

theorem bind {middle : α → Slots → Prop} {post : β → Slots → Prop}
    (h : Accounts inst program slots middle)
    (hrest : ∀ value after, middle value after → Accounts inst (rest value) after post) :
    Accounts inst (program >>= rest) slots post := by
  intro world hworld
  rw [ensuresAmid_bind]
  exact (h world hworld).mono fun value after hvalue => hrest value _ hvalue after rfl

theorem quiet (h : program.Only Quiet) :
    Accounts inst program slots fun _ after => after = slots := by
  intro world hworld
  refine h.ensuresAmid (fun hquiet hcall hstate => ?_) (fun _ hfails hstate => ?_) hworld
  · rw [handle_quiet hquiet hcall]
    exact hstate
  · rw [fails_quiet hfails]
    exact hstate

theorem quiet_bind {post : β → Slots → Prop} (h : program.Only Quiet)
    (hrest : ∀ value, Accounts inst (rest value) slots post) :
    Accounts inst (program >>= rest) slots post := by
  refine (quiet h).bind fun value after hafter => ?_
  subst hafter
  exact hrest value

theorem skip {call : Call β} {rest : β → Service α} (h : Quiet β call)
    (hrest : ∀ value, Accounts inst (rest value) slots post) :
    Accounts inst (perform call >>= rest) slots post := quiet_bind (only_perform h) hrest

theorem session {call : SessionCall α}
    (h : ∀ (sessions : Sessions) (env : Env), sessions.slots inst = slots →
      post (sessions.exec env call).1 ((sessions.exec env call).2.slots inst)) :
    Accounts inst (Service.session call) slots post := by
  intro world hworld
  constructor
  · intro env reply after hcall
    cases hcall
    exact h world.sessions env hworld
  · intro fault reply after hfails
    cases hfails

end Accounts

section Sessions

variable {inst : Nat} {slots : Slots} {sessionID : String}

theorem slots_setInstance (sessions : Sessions) (inst : Nat) (changed : Instance) :
    (sessions.setInstance inst changed).slots inst =
      ⟨changed.uploadSessions.keys, changed.multipartSessions.keys, changed.sessionCount,
        sessions.maxSessions⟩ := by
  simp [slots, setInstance]

theorem accounts_addSessionCount (delta : Int) :
    Accounts inst (Service.session (.addSessionCount inst delta)) slots fun count after =>
      count = int64 (slots.count + delta) ∧
        after = { slots with count := int64 (slots.count + delta) } := by
  refine Accounts.session fun sessions env hslots => ?_
  subst hslots
  exact ⟨rfl, slots_setInstance ..⟩

theorem accounts_maxSessions :
    Accounts inst (Service.session .maxSessions) slots fun limit after =>
      limit = slots.limit ∧ after = slots := by
  refine Accounts.session fun sessions env hslots => ?_
  subst hslots
  exact ⟨rfl, rfl⟩

theorem accounts_loadUpload :
    Accounts inst (Service.session (.loadUpload inst sessionID)) slots fun found after =>
      (found.isSome → sessionID ∈ slots.uploads) ∧ after = slots := by
  refine Accounts.session fun sessions env hslots => ?_
  subst hslots
  exact ⟨fun h => AList.mem_keys.mp (AList.lookup_isSome.mp h), rfl⟩

theorem accounts_loadMultipart :
    Accounts inst (Service.session (.loadMultipart inst sessionID)) slots fun found after =>
      (found.isSome → sessionID ∈ slots.multiparts) ∧ after = slots := by
  refine Accounts.session fun sessions env hslots => ?_
  subst hslots
  exact ⟨fun h => AList.mem_keys.mp (AList.lookup_isSome.mp h), rfl⟩

theorem keys_insert_of_free {map : AList fun _ : String => Address} (hfree : sessionID ∉ map.keys)
    (address : Address) : (map.insert sessionID address).keys = sessionID :: map.keys := by
  rw [AList.keys_insert, List.erase_of_not_mem hfree]

theorem accounts_storeUpload (hfree : sessionID ∉ slots.uploads) (session : UploadSession) :
    Accounts inst (Service.session (.storeUpload inst sessionID session)) slots fun _ after =>
      after = { slots with uploads := sessionID :: slots.uploads } := by
  refine Accounts.session fun sessions env hslots => ?_
  subst hslots
  refine (slots_setInstance ..).trans ?_
  rw [keys_insert_of_free hfree]
  rfl

theorem accounts_storeMultipart (hfree : sessionID ∉ slots.multiparts)
    (session : MultipartUploadSession) :
    Accounts inst (Service.session (.storeMultipart inst sessionID session)) slots fun _ after =>
      after = { slots with multiparts := sessionID :: slots.multiparts } := by
  refine Accounts.session fun sessions env hslots => ?_
  subst hslots
  refine (slots_setInstance ..).trans ?_
  rw [keys_insert_of_free hfree]
  rfl

theorem accounts_deleteUpload :
    Accounts inst (Service.session (.deleteUpload inst sessionID)) slots fun _ after =>
      after = { slots with uploads := slots.uploads.erase sessionID } := by
  refine Accounts.session fun sessions env hslots => ?_
  subst hslots
  refine (slots_setInstance ..).trans ?_
  rw [AList.keys_erase]
  rfl

theorem accounts_deleteMultipart :
    Accounts inst (Service.session (.deleteMultipart inst sessionID)) slots fun _ after =>
      after = { slots with multiparts := slots.multiparts.erase sessionID } := by
  refine Accounts.session fun sessions env hslots => ?_
  subst hslots
  refine (slots_setInstance ..).trans ?_
  rw [AList.keys_erase]
  rfl

theorem map_fst_range (map : AList fun _ : String => Address) :
    (range map).map Prod.fst = map.keys := by
  rw [range, List.map_map]
  rfl

theorem accounts_rangeUploads :
    Accounts inst (Service.session (.rangeUploads inst)) slots fun entries after =>
      entries.map Prod.fst = slots.uploads ∧ slots.uploads.Nodup ∧ after = slots := by
  refine Accounts.session fun sessions env hslots => ?_
  subst hslots
  exact ⟨map_fst_range _, AList.keys_nodup _, rfl⟩

theorem accounts_rangeMultiparts :
    Accounts inst (Service.session (.rangeMultiparts inst)) slots fun entries after =>
      entries.map Prod.fst = slots.multiparts ∧ slots.multiparts.Nodup ∧ after = slots := by
  refine Accounts.session fun sessions env hslots => ?_
  subst hslots
  exact ⟨map_fst_range _, AList.keys_nodup _, rfl⟩

theorem accounts_releaseSessionSlot (hmin : 0 ≤ slots.count) (hmax : slots.count ≤ maxInt64) :
    Accounts inst (FileTransferService.releaseSessionSlot inst) slots fun _ after =>
      after = { slots with count := slots.count - 1 } := by
  refine (accounts_addSessionCount (-1)).bind fun count after hafter => ?_
  obtain ⟨-, rfl⟩ := hafter
  refine Accounts.pure ?_
  rw [int64_of_range (by omega) (by omega)]
  rfl

theorem accounts_acquireSessionSlot (h : slots.Balanced) :
    Accounts inst (FileTransferService.acquireSessionSlot inst) slots fun granted after =>
      (granted = true ∧ slots.count < slots.limit ∧
        after = { slots with count := slots.count + 1 }) ∨ (granted = false ∧ after = slots) := by
  have hnonneg := h.nonneg
  have hwithin := h.within
  have hroom := h.room
  refine (accounts_addSessionCount 1).bind fun count after hafter => ?_
  rw [int64_of_range (by omega) (by omega)] at hafter
  obtain ⟨rfl, rfl⟩ := hafter
  refine accounts_maxSessions.bind fun limit after hafter => ?_
  obtain ⟨rfl, rfl⟩ := hafter
  by_cases hfull : slots.count + 1 > slots.limit
  · rw [if_pos hfull]
    refine (accounts_releaseSessionSlot (by dsimp only; omega) (by dsimp only; omega)).bind
      fun _ after hafter => ?_
    refine Accounts.pure (.inr ⟨rfl, ?_⟩)
    rw [hafter, Int.add_sub_cancel]
  · rw [if_neg hfull]
    exact Accounts.pure (.inl ⟨rfl, by omega, rfl⟩)

theorem accounts_discardUpload (h : slots.Balanced) :
    Accounts inst (FileTransferService.discardUpload inst sessionID) slots fun _ after =>
      after = slots.dropUpload sessionID := by
  have hnonneg := h.nonneg
  have hwithin := h.within
  have hroom := h.room
  refine accounts_deleteUpload.bind fun _ after hafter => ?_
  subst hafter
  exact accounts_releaseSessionSlot hnonneg (by dsimp only; omega)

theorem accounts_discardMultipart (h : slots.Balanced) :
    Accounts inst (FileTransferService.discardMultipart inst sessionID) slots fun _ after =>
      after = slots.dropMultipart sessionID := by
  have hnonneg := h.nonneg
  have hwithin := h.within
  have hroom := h.room
  refine accounts_deleteMultipart.bind fun _ after hafter => ?_
  subst hafter
  exact accounts_releaseSessionSlot hnonneg (by dsimp only; omega)

end Sessions

end FsServer
