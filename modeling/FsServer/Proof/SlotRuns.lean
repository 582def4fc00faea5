import FsServer.Proof.Slots
import FsServer.Proof.Frames
import FsServer.Lib.Simulation

/-!
# Session slots over a run

The effect of each transfer call on the account of its instance, and from it the account after any
run of such calls on one instance, whichever of their steps fail.
-/

namespace FsServer

open Lib Program World FileTransferService Accounts

/-! ### The parts that do not touch the account -/

section QuietParts

variable (sha256 : Bytes → String) (crypto : Option CryptoService)

theorem Quiet.of_onFiles {β : Type} {call : Call β} (h : OnFiles β call) : Quiet β call := by
  cases call with
  | session call => cases h
  | storage call | sql call | lock call | move call => trivial

theorem quiet_recordUpload (ctx : Context) (filePath fileName : Path) (size : Int) (hash : String) :
    (recordUpload ctx filePath fileName size hash).Only Quiet :=
  (onFiles_recordUpload ctx filePath fileName size hash).mono Quiet.of_onFiles

theorem quiet_updateHash (address : Address) (data : Bytes) (offset : Int) :
    (updateHash address data offset).Only Quiet := by
  unfold updateHash
  refine only_call trivial fun current => ?_
  split_ifs
  · exact only_call trivial fun _ => only_call trivial fun _ => trivial
  · exact only_call trivial fun _ => trivial
  · trivial

theorem quiet_uploadChunkBody (ctx : Context) (address : Address) (sessionID : String) (data : Bytes)
    (offset : Int) : (uploadChunkBody ctx address sessionID data offset).Only Quiet := by
  unfold uploadChunkBody
  refine only_call trivial fun current => ?_
  split_ifs
  · trivial
  · trivial
  · trivial
  · refine only_call trivial fun outcome => ?_
    cases outcome with
    | notOpened | failed => trivial
    | written =>
      refine only_bind (quiet_updateHash address data offset) fun _ => ?_
      refine only_call trivial fun _ => only_call trivial fun counted => ?_
      split_ifs
      · exact only_call trivial fun _ => only_call trivial fun _ => trivial
      · trivial

theorem quiet_uploadPartBody (ctx : Context) (address : Address) (sessionID : String)
    (partNumber offset : Int) (data : Bytes) :
    (uploadPartBody sha256 ctx address sessionID partNumber offset data).Only Quiet := by
  unfold uploadPartBody
  refine only_call trivial fun current => ?_
  split_ifs
  · trivial
  · trivial
  · trivial
  · trivial
  · trivial
  · refine only_call trivial fun outcome => ?_
    cases outcome with
    | notOpened | failed => trivial
    | written =>
      refine only_call trivial fun _ => only_call trivial fun _ => only_call trivial fun counted => ?_
      split_ifs
      · exact only_call trivial fun _ => trivial
      · trivial

theorem onSession_verifyHash (address : Address) (sessionID expected : String) :
    (verifyHash sha256 address sessionID expected).Only OnSession := by
  unfold verifyHash hashedBytes
  split_ifs
  · refine only_bind (only_call trivial fun current => ?_) fun bytes => ?_
    · split_ifs
      · exact only_call trivial fun _ => trivial
      · exact only_perform trivial
    · cases bytes with
      | none => trivial
      | some bytes =>
        dsimp only
        split_ifs <;> trivial
  · trivial

theorem quiet_verifyHash (address : Address) (sessionID expected : String) :
    (verifyHash sha256 address sessionID expected).Only Quiet :=
  (onSession_verifyHash sha256 address sessionID expected).mono Quiet.of_onSession

theorem quiet_verifyMultipartHash (sessionID expected : String) :
    (verifyMultipartHash sha256 sessionID expected).Only Quiet := by
  unfold verifyMultipartHash
  split_ifs
  · refine only_call trivial fun bytes => ?_
    cases bytes with
    | none => trivial
    | some bytes =>
      dsimp only
      split_ifs <;> trivial
  · trivial

theorem onSession_encryptTempFile (nonce : Nonce) (sessionID hash : String) :
    (encryptTempFile sha256 crypto nonce sessionID hash).Only OnSession := by
  unfold encryptTempFile
  cases crypto with
  | none => trivial
  | some service =>
    dsimp only
    split_ifs
    · refine only_call trivial fun data => ?_
      cases data with
      | none => exact only_call trivial fun _ => trivial
      | some data =>
        refine only_call trivial fun written => ?_
        cases written with
        | true =>
          refine only_call trivial fun _ => only_call trivial fun stored => ?_
          cases stored with
          | none => exact only_call trivial fun _ => trivial
          | some stored => trivial
        | false => exact only_call trivial fun _ => trivial
    · trivial

theorem quiet_encryptTempFile (nonce : Nonce) (sessionID hash : String) :
    (encryptTempFile sha256 crypto nonce sessionID hash).Only Quiet :=
  (onSession_encryptTempFile sha256 crypto nonce sessionID hash).mono Quiet.of_onSession

theorem quiet_checkMultipart (address : Address) : (checkMultipart address).Only Quiet := by
  unfold checkMultipart
  refine only_call trivial fun sized => ?_
  split_ifs
  · trivial
  · refine only_call trivial fun covered => ?_
    split_ifs
    · refine only_call trivial fun recorded => ?_
      cases incompletePart recorded <;> trivial
    · trivial

end QuietParts

/-! ### The effect of each call -/

variable {world : World}

section Effects

variable (sha256 : Bytes → String) (crypto : Option CryptoService) {ctx : Context} {slots : Slots}

variable {α : Type}

theorem accounts_giveBack {value : α} {post : α → Slots → Prop} (h : slots.Balanced)
    (hlimit : slots.count < slots.limit) (hpost : post value slots) :
    Accounts ctx.inst (do releaseSessionSlot ctx.inst; return value)
      { slots with count := slots.count + 1 } post := by
  have hnonneg := h.nonneg
  have hroom := h.room
  refine (accounts_releaseSessionSlot (by dsimp only; omega) (by dsimp only; omega)).bind
    fun _ after hafter => pure ?_
  rw [hafter, Int.add_sub_cancel]
  exact hpost

theorem accounts_createUploadSession (h : slots.Balanced) (hfree : ctx.id ∉ slots.uploads)
    (filePath fileName : Path) (totalSize : Int) (clientID hash : String) :
    Accounts ctx.inst (createUploadSession ctx filePath fileName totalSize clientID hash) slots
      fun _ after => after = slots ∨ Slots.Step slots after := by
  unfold createUploadSession
  refine (accounts_acquireSessionSlot h).bind fun granted after hafter => ?_
  rcases hafter with ⟨rfl, hlimit, rfl⟩ | ⟨rfl, rfl⟩
  · refine .skip trivial fun file => ?_
    cases file with
    | none => exact accounts_giveBack h hlimit (.inl rfl)
    | some file =>
      have hpreallocate : (preallocate file totalSize).Only Quiet := by
        unfold preallocate
        split_ifs
        · exact only_perform trivial
        · trivial
      refine quiet_bind hpreallocate fun allocated => ?_
      cases allocated with
      | true =>
        have hstill : ctx.id ∉ { slots with count := slots.count + 1 }.uploads := hfree
        refine (accounts_storeUpload hstill _).bind fun _ after hafter => ?_
        subst hafter
        exact .skip trivial fun _ =>
          pure (.inr (.openUpload slots ctx.id hlimit))
      | false =>
        exact .skip trivial fun _ => accounts_giveBack h hlimit (.inl rfl)
  · exact pure (.inl rfl)

theorem accounts_createMultipartUpload (h : slots.Balanced) (hfree : ctx.id ∉ slots.multiparts)
    (filePath fileName : Path) (totalSize : Int) (clientID hash : String) :
    Accounts ctx.inst (createMultipartUpload ctx filePath fileName totalSize clientID hash) slots
      fun _ after => after = slots ∨ Slots.Step slots after := by
  unfold createMultipartUpload
  refine (accounts_acquireSessionSlot h).bind fun granted after hafter => ?_
  rcases hafter with ⟨rfl, hlimit, rfl⟩ | ⟨rfl, rfl⟩
  · refine .skip trivial fun file => ?_
    cases file with
    | none => exact accounts_giveBack h hlimit (.inl rfl)
    | some file =>
      refine .skip trivial fun allocated => ?_
      cases allocated with
      | true =>
        have hstill : ctx.id ∉ { slots with count := slots.count + 1 }.multiparts := hfree
        refine (accounts_storeMultipart hstill _).bind fun _ after hafter => ?_
        subst hafter
        exact pure (.inr (.openMultipart slots ctx.id hlimit))
      | false =>
        exact .skip trivial fun _ => accounts_giveBack h hlimit (.inl rfl)
  · exact pure (.inl rfl)

variable {sessionID : String}

section

variable (h : slots.Balanced)
include h

variable {rest : Service α}

theorem accounts_discardUpload_bind (hrest : rest.Only Quiet) :
    Accounts ctx.inst (discardUpload ctx.inst sessionID >>= fun _ => rest) slots
      fun _ after => after = slots.dropUpload sessionID := by
  refine (accounts_discardUpload h).bind fun _ after hafter => ?_
  subst hafter
  exact quiet hrest

theorem accounts_storeUploadFile (address : Address) (current : UploadSession) (sessionID : String)
    (hashVerified : Bool) (temp : TempName) (hash : String) :
    Accounts ctx.inst (storeUpload ctx address current sessionID hashVerified temp hash) slots
      fun _ after => after = slots.dropUpload sessionID := by
  unfold storeUpload
  refine .skip trivial fun moved => ?_
  cases moved with
  | error cause =>
    exact .skip trivial fun _ => accounts_discardUpload_bind h trivial
  | ok _ =>
    refine quiet_bind (quiet_recordUpload ..) fun recorded => ?_
    cases recorded with
    | error cause => exact accounts_discardUpload_bind h trivial
    | ok metadata =>
      exact .skip trivial fun _ => accounts_discardUpload_bind h
        (only_call trivial fun _ => only_call trivial fun _ => trivial)

/-- Every exit of `CompleteUpload` after the session is closed drops it and gives back its slot. -/
theorem accounts_finishUpload (address : Address) (current : UploadSession) (sessionID : String) :
    Accounts ctx.inst (finishUpload sha256 crypto ctx address current sessionID) slots
      fun _ after => after = slots.dropUpload sessionID := by
  unfold finishUpload
  refine .skip trivial fun outcome => ?_
  cases outcome with
  | syncFailed =>
    exact .skip trivial fun _ => accounts_discardUpload_bind h trivial
  | closeFailed => exact accounts_discardUpload_bind h trivial
  | closed =>
    refine quiet_bind (quiet_verifyHash ..) fun verified => ?_
    cases verified with
    | error cause =>
      exact .skip trivial fun _ => accounts_discardUpload_bind h trivial
    | ok hashVerified =>
      refine quiet_bind (quiet_encryptTempFile ..) fun encrypted => ?_
      cases encrypted with
      | error cause => exact accounts_discardUpload_bind h trivial
      | ok stored =>
        refine .skip trivial fun taken => ?_
        cases taken with
        | true =>
          refine (accounts_storeUploadFile h address current sessionID hashVerified _ _).bind
            fun _ after hafter => ?_
          subst hafter
          exact quiet (only_call trivial fun _ => trivial)
        | false =>
          exact .skip trivial fun _ => accounts_discardUpload_bind h trivial

theorem accounts_abortUpload (sessionID : String) :
    Accounts ctx.inst (abortUpload ctx sessionID) slots
      fun _ after => after = slots ∨ Slots.Step slots after := by
  unfold abortUpload
  refine accounts_loadUpload.bind fun found after hafter => ?_
  obtain ⟨hheld, rfl⟩ := hafter
  cases found with
  | none => exact pure (.inl rfl)
  | some address =>
    refine .skip trivial fun _ => ?_
    refine .skip trivial fun _ => ?_
    refine .skip trivial fun _ => ?_
    refine (accounts_discardUpload h).bind fun _ after hafter => ?_
    subst hafter
    refine .skip trivial fun _ => ?_
    exact .skip trivial fun _ =>
      pure (.inr (.closeUpload after sessionID (hheld rfl)))

theorem accounts_discardMultipart_bind (hrest : rest.Only Quiet) :
    Accounts ctx.inst (discardMultipart ctx.inst sessionID >>= fun _ => rest) slots
      fun _ after => after = slots.dropMultipart sessionID := by
  refine (accounts_discardMultipart h).bind fun _ after hafter => ?_
  subst hafter
  exact quiet hrest

theorem accounts_storeMultipartFile (address : Address) (current : MultipartUploadSession)
    (sessionID : String) (temp : TempName) (hash : String) :
    Accounts ctx.inst (storeMultipart ctx address current sessionID temp hash)
      slots fun _ after => after = slots.dropMultipart sessionID := by
  unfold storeMultipart
  refine .skip trivial fun moved => ?_
  cases moved with
  | error cause =>
    exact .skip trivial fun _ => accounts_discardMultipart_bind h trivial
  | ok _ =>
    refine quiet_bind (quiet_recordUpload ..) fun recorded => ?_
    cases recorded with
    | error cause =>
      exact .skip trivial fun _ => accounts_discardMultipart_bind h trivial
    | ok metadata =>
      exact .skip trivial fun _ => accounts_discardMultipart_bind h (only_call trivial fun _ => trivial)

theorem accounts_finishMultipart (address : Address) (current : MultipartUploadSession)
    (sessionID : String) :
    Accounts ctx.inst (finishMultipart sha256 crypto ctx address current sessionID) slots
      fun _ after => after = slots.dropMultipart sessionID := by
  unfold finishMultipart
  refine .skip trivial fun synced => ?_
  cases synced with
  | false =>
    refine .skip trivial fun _ => ?_
    exact .skip trivial fun _ => accounts_discardMultipart_bind h trivial
  | true =>
    refine .skip trivial fun closed => ?_
    cases closed with
    | false =>
      exact .skip trivial fun _ => accounts_discardMultipart_bind h trivial
    | true =>
      refine quiet_bind (quiet_verifyMultipartHash ..) fun verified => ?_
      cases verified with
      | error cause =>
        exact .skip trivial fun _ => accounts_discardMultipart_bind h trivial
      | ok _ =>
        refine quiet_bind (quiet_encryptTempFile ..) fun encrypted => ?_
        cases encrypted with
        | error cause => exact accounts_discardMultipart_bind h trivial
        | ok stored =>
          refine .skip trivial fun taken => ?_
          cases taken with
          | true =>
            refine (accounts_storeMultipartFile h address current sessionID _ _).bind
              fun _ after hafter => ?_
            subst hafter
            exact quiet (only_call trivial fun _ => trivial)
          | false =>
            exact .skip trivial fun _ => accounts_discardMultipart_bind h trivial

theorem accounts_completeMultipartUpload (sessionID : String) :
    Accounts ctx.inst (completeMultipartUpload sha256 crypto ctx sessionID) slots
      fun _ after => after = slots ∨ Slots.Step slots after := by
  unfold completeMultipartUpload
  refine accounts_loadMultipart.bind fun found after hafter => ?_
  obtain ⟨hheld, rfl⟩ := hafter
  cases found with
  | none => exact pure (.inl rfl)
  | some address =>
    refine quiet_bind (quiet_checkMultipart address) fun checked => ?_
    cases checked with
    | error cause => exact pure (.inl rfl)
    | ok _ =>
      refine .skip trivial fun current => ?_
      exact (accounts_finishMultipart sha256 crypto h address current sessionID).mono
        fun _ after hafter => .inr (hafter ▸ .closeMultipart _ sessionID (hheld rfl))

theorem accounts_abortMultipartUpload (sessionID : String) :
    Accounts ctx.inst (abortMultipartUpload ctx sessionID) slots
      fun _ after => after = slots ∨ Slots.Step slots after := by
  unfold abortMultipartUpload
  refine accounts_loadMultipart.bind fun found after hafter => ?_
  obtain ⟨hheld, rfl⟩ := hafter
  cases found with
  | none => exact pure (.inl rfl)
  | some address =>
    refine .skip trivial fun _ => ?_
    refine .skip trivial fun _ => ?_
    refine .skip trivial fun _ => ?_
    refine (accounts_discardMultipart h).bind fun _ after hafter => ?_
    subst hafter
    exact .skip trivial fun _ =>
      pure (.inr (.closeMultipart after sessionID (hheld rfl)))

end

theorem accounts_uploadPartData (sessionID : String) (partNumber offset : Int) (data : Bytes) :
    Accounts ctx.inst (uploadPartData sha256 ctx sessionID partNumber offset data) slots
      fun _ after => after = slots := by
  unfold uploadPartData
  refine quiet (only_call trivial fun found => ?_)
  cases found with
  | none => trivial
  | some address => exact quiet_uploadPartBody ..

variable {inst : Nat}

theorem slots_uploadSession (hknown : sessionID ∈ (world.sessions.slots inst).uploads ∨
      world.sessions.uploadStore.lookup sessionID = none) :
    (uploadSession inst sessionID).EnsuresAmid handle World.Fails
      (fun found after => after.sessions.slots inst = world.sessions.slots inst ∧
        (found.isSome → sessionID ∈ (world.sessions.slots inst).uploads)) world := by
  unfold uploadSession
  refine ⟨fun env reply after hcall => ?_, fun _ _ _ hfails => hfails.elim⟩
  cases hcall
  simp only [Sessions.exec]
  cases hlookup : (world.sessions.instances inst).uploadSessions.lookup sessionID with
  | some address =>
    exact ⟨rfl, fun _ => AList.mem_keys.mp (AList.lookup_isSome.mp (by rw [hlookup]; rfl))⟩
  | none =>
    have hrecord : world.sessions.uploadStore.lookup sessionID = none := by
      refine hknown.resolve_left fun hheld => ?_
      have hsome := AList.lookup_isSome.mpr (AList.mem_keys.mpr hheld)
      rw [hlookup] at hsome
      cases hsome
    refine ⟨fun env reply after hcall => ?_, fun _ _ _ hfails => hfails.elim⟩
    have hanswer : (if env.fault.isSome then none
        else world.sessions.uploadStore.lookup sessionID, world) = (reply, after) :=
      Option.some.inj hcall
    rw [hrecord, ite_self, Prod.mk.injEq] at hanswer
    obtain ⟨rfl, rfl⟩ := hanswer
    exact ⟨rfl, fun hsome => absurd hsome Bool.false_ne_true⟩

theorem slots_uploadChunk (hknown : sessionID ∈ (world.sessions.slots ctx.inst).uploads ∨
      world.sessions.uploadStore.lookup sessionID = none) (data : Bytes) (offset : Int) :
    (uploadChunk ctx sessionID data offset).EnsuresAmid handle World.Fails
      (fun _ after => after.sessions.slots ctx.inst = world.sessions.slots ctx.inst) world := by
  unfold uploadChunk
  rw [ensuresAmid_bind]
  refine (slots_uploadSession hknown).mono fun found after hafter => ?_
  refine quiet ?_ after hafter.1
  cases found with
  | none => trivial
  | some address =>
    refine only_call trivial fun taken => ?_
    cases taken with
    | true =>
      exact only_bind (quiet_uploadChunkBody ..) fun _ => only_call trivial fun _ => trivial
    | false => trivial

theorem slots_completeUpload (h : (world.sessions.slots ctx.inst).Balanced)
    (hknown : sessionID ∈ (world.sessions.slots ctx.inst).uploads ∨
      world.sessions.uploadStore.lookup sessionID = none) :
    (completeUpload sha256 crypto ctx sessionID).EnsuresAmid handle World.Fails
      (fun _ after => after.sessions.slots ctx.inst = world.sessions.slots ctx.inst ∨
        Slots.Step (world.sessions.slots ctx.inst) (after.sessions.slots ctx.inst)) world := by
  unfold completeUpload
  rw [ensuresAmid_bind]
  refine (slots_uploadSession hknown).mono fun found after hafter => ?_
  obtain ⟨hslots, hheld⟩ := hafter
  refine (?_ : Accounts ctx.inst _ (world.sessions.slots ctx.inst) fun _ after =>
    after = world.sessions.slots ctx.inst ∨
      Slots.Step (world.sessions.slots ctx.inst) after) after hslots
  cases found with
  | none => exact pure (.inl rfl)
  | some address =>
    refine .skip trivial fun current => ?_
    split_ifs with hsize
    · exact .skip trivial fun _ => pure (.inl rfl)
    · refine .skip trivial fun _ => ?_
      exact (accounts_finishUpload sha256 crypto h address current sessionID).mono
        fun _ after hafter => .inr (hafter ▸ .closeUpload _ sessionID (hheld rfl))

/-! ### Cleanup -/

theorem accounts_expireUpload (h : slots.Balanced) (expired : String → Bool) (address : Address) :
    Accounts inst (expireUpload inst expired sessionID address) slots
      fun _ after => after = slots ∨ after = slots.dropUpload sessionID := by
  have hnonneg := h.nonneg
  have hwithin := h.within
  have hroom := h.room
  unfold expireUpload
  refine .skip trivial fun current => ?_
  split_ifs
  · refine .skip trivial fun _ => ?_
    refine .skip trivial fun _ => ?_
    refine .skip trivial fun _ => ?_
    refine .skip trivial fun _ => ?_
    refine accounts_deleteUpload.bind fun _ after hafter => ?_
    have hcount : after.count = slots.count := by rw [hafter]
    refine (accounts_releaseSessionSlot (by omega) (by omega)).bind fun _ last hlast => ?_
    subst hafter hlast
    refine mono (quiet ?_) fun _ after hafter => .inr hafter
    exact only_perform trivial
  · exact pure (.inl rfl)

theorem accounts_expireMultipart (h : slots.Balanced) (expired : String → Bool) (address : Address) :
    Accounts inst (expireMultipart inst expired sessionID address) slots
      fun _ after => after = slots ∨ after = slots.dropMultipart sessionID := by
  have hnonneg := h.nonneg
  have hwithin := h.within
  have hroom := h.room
  unfold expireMultipart
  refine .skip trivial fun current => ?_
  split_ifs
  · refine .skip trivial fun _ => ?_
    refine .skip trivial fun _ => ?_
    refine .skip trivial fun _ => ?_
    refine .skip trivial fun _ => ?_
    refine accounts_deleteMultipart.bind fun _ after hafter => ?_
    have hcount : after.count = slots.count := by rw [hafter]
    refine (accounts_releaseSessionSlot (by omega) (by omega)).mono fun _ last hlast => ?_
    subst hafter hlast
    exact .inr rfl
  · exact pure (.inl rfl)

theorem quiet_expireDownload (inst : Nat) (expired : String → Bool) (sessionID : String)
    (address : Address) : (expireDownload inst expired sessionID address).Only Quiet := by
  unfold expireDownload removeDecrypted
  refine only_call trivial fun current => ?_
  split_ifs
  · refine only_call trivial fun ended => only_bind ?_ fun _ => only_call trivial fun _ =>
      only_perform trivial
    split_ifs
    · exact only_perform trivial
    · trivial
  · trivial

variable {visit : String → Address → Service Unit}

theorem quiet_visitAll (hvisit : ∀ sessionID address, (visit sessionID address).Only Quiet)
    (entries : List (String × Address)) : (visitAll visit entries).Only Quiet := by
  induction entries with
  | nil => trivial
  | cons entry rest ih => exact only_bind (hvisit _ _) fun _ => ih

theorem accounts_visitAll (held : Slots → List String) (drop : Slots → String → Slots)
    (hvisit : ∀ {slots : Slots} (sessionID : String) (address : Address), slots.Balanced →
      Accounts inst (visit sessionID address) slots fun _ after =>
        after = slots ∨ after = drop slots sessionID)
    (hdrop : ∀ (slots : Slots) (sessionID : String), sessionID ∈ held slots →
      Slots.Step slots (drop slots sessionID))
    (hkeeps : ∀ (slots : Slots) (sessionID other : String), other ≠ sessionID →
      other ∈ held slots → other ∈ held (drop slots sessionID)) {entries : List (String × Address)}
    (h : slots.Balanced) (hnodup : (entries.map Prod.fst).Nodup)
    (hheld : ∀ sessionID ∈ entries.map Prod.fst, sessionID ∈ held slots) :
    Accounts inst (visitAll visit entries) slots
      fun _ after => Relation.ReflTransGen Slots.Step slots after := by
  induction entries generalizing slots with
  | nil => exact pure .refl
  | cons entry rest ih =>
    rw [List.map_cons, List.nodup_cons] at hnodup
    have hfirst : entry.1 ∈ held slots := hheld _ List.mem_cons_self
    have hrest : ∀ sessionID ∈ rest.map Prod.fst, sessionID ∈ held slots :=
      fun sessionID hmem => hheld sessionID (List.mem_cons_of_mem _ hmem)
    refine (hvisit entry.1 entry.2 h).bind fun _ after hafter => ?_
    rcases hafter with rfl | rfl
    · exact ih h hnodup.2 hrest
    · have hstep := hdrop slots entry.1 hfirst
      refine (ih (hstep.balanced h) hnodup.2 fun sessionID hmem => ?_).mono
        fun _ after hafter => .head hstep hafter
      refine hkeeps slots entry.1 sessionID ?_ (hrest sessionID hmem)
      rintro rfl
      exact hnodup.1 hmem

theorem accounts_cleanupExpiredSessions (h : slots.Balanced) (expired : String → Bool) :
    Accounts inst (cleanupExpiredSessions inst expired) slots
      fun _ after => Relation.ReflTransGen Slots.Step slots after := by
  unfold cleanupExpiredSessions
  refine accounts_rangeUploads.bind fun uploads after hafter => ?_
  obtain ⟨hkeys, hnodup, rfl⟩ := hafter
  refine (accounts_visitAll Slots.uploads Slots.dropUpload
    (fun _ address h => accounts_expireUpload h expired address) .closeUpload
    (fun slots sessionID other hne hmem => (List.mem_erase_of_ne hne).mpr hmem) h
    (hkeys ▸ hnodup) (fun _ hmem => hkeys ▸ hmem)).bind fun _ middle hmiddle => ?_
  have hbalanced := Slots.balanced_of_steps hmiddle h
  refine .skip trivial fun downloads => ?_
  refine quiet_bind (quiet_visitAll (quiet_expireDownload inst expired) _) fun _ => ?_
  refine accounts_rangeMultiparts.bind fun multiparts after hafter => ?_
  obtain ⟨hkeys, hnodup, rfl⟩ := hafter
  refine (accounts_visitAll Slots.multiparts Slots.dropMultipart
    (fun _ address h => accounts_expireMultipart h expired address) .closeMultipart
    (fun slots sessionID other hne hmem => (List.mem_erase_of_ne hne).mpr hmem) hbalanced
    (hkeys ▸ hnodup) (fun _ hmem => hkeys ▸ hmem)).mono fun _ last hlast => hmiddle.trans hlast

end Effects

/-! ### Runs -/

namespace TransferCall

/-- `GenerateUUID` gives an identifier that no session of the instance has. -/
def Fresh (world : World) (ctx : Context) : TransferCall → Prop
  | .createUploadSession _ => ctx.id ∉ (world.sessions.slots ctx.inst).uploads
  | .createMultipartUpload _ => ctx.id ∉ (world.sessions.slots ctx.inst).multiparts
  | _ => True

/-- A chunk or a completion is for a session that the instance holds or that the session store does
not know. -/
def Held (world : World) (ctx : Context) : TransferCall → Prop
  | .uploadChunk sessionID _ _ | .completeUpload sessionID =>
    sessionID ∈ (world.sessions.slots ctx.inst).uploads ∨
      world.sessions.uploadStore.lookup sessionID = none
  | _ => True

variable (sha256 : Bytes → String) (crypto : Option CryptoService)

theorem steps_of_call {ctx : Context} {call : TransferCall} (hfresh : call.Fresh world ctx)
    (hheld : call.Held world ctx) (h : (world.sessions.slots ctx.inst).Balanced) :
    (call.service sha256 crypto ctx).EnsuresAmid handle World.Fails
      (fun _ after => Relation.ReflTransGen Slots.Step (world.sessions.slots ctx.inst)
        (after.sessions.slots ctx.inst)) world := by
  have hcall : ∀ {β : Type} {program : Service β} {ok : β → Bool},
      program.EnsuresAmid handle World.Fails
        (fun _ after => after.sessions.slots ctx.inst = world.sessions.slots ctx.inst ∨
          Slots.Step (world.sessions.slots ctx.inst) (after.sessions.slots ctx.inst)) world →
      (program >>= fun result => pure (ok result)).EnsuresAmid handle World.Fails
        (fun _ after => Relation.ReflTransGen Slots.Step (world.sessions.slots ctx.inst)
          (after.sessions.slots ctx.inst)) world := by
    intro β program ok hprogram
    refine ensuresAmid_bind.mpr (hprogram.mono fun _ after hafter => ?_)
    rcases hafter with hsame | hstep
    · exact hsame ▸ .refl
    · exact .single hstep
  cases call with
  | createUploadSession file =>
    exact hcall (accounts_createUploadSession h hfresh _ _ _ _ _ world rfl)
  | createMultipartUpload file =>
    exact hcall (accounts_createMultipartUpload h hfresh _ _ _ _ _ world rfl)
  | uploadChunk sessionID data offset =>
    exact hcall ((slots_uploadChunk hheld data offset).mono fun _ _ => .inl)
  | uploadPartData sessionID partNumber offset data =>
    exact hcall ((accounts_uploadPartData sha256 sessionID partNumber offset data world rfl).mono
      fun _ _ => .inl)
  | completeUpload sessionID => exact hcall (slots_completeUpload sha256 crypto h hheld)
  | completeMultipartUpload sessionID =>
    exact hcall (accounts_completeMultipartUpload sha256 crypto h sessionID world rfl)
  | abortUpload sessionID => exact hcall (accounts_abortUpload h sessionID world rfl)
  | abortMultipartUpload sessionID =>
    exact hcall (accounts_abortMultipartUpload h sessionID world rfl)
  | cleanupExpiredSessions expired =>
    exact ensuresAmid_bind.mpr (accounts_cleanupExpiredSessions h expired world rfl)

/-- One call of a run on an instance, any of whose steps may fail. -/
def Runs (inst : Nat) (world : World) (entry : Context × TransferCall) (reply : Bool)
    (after : World) : Prop :=
  entry.1.inst = inst ∧ entry.2.Fresh world entry.1 ∧
    RunsAmid handle World.Fails (entry.2.service sha256 crypto entry.1) world reply after

/-- The slot counter is the number of sessions, as long as no chunk and no completion is for a
session that the instance has given up while its record is still in the session store. -/
theorem sessionSlots_exact {inst : Nat} {start state : World}
    {past : List ((Context × TransferCall) × Bool)}
    (hempty : start.sessions.instances inst = .empty) (hmax : start.sessions.maxSessions = 1000)
    (hrun : History (fun world entry reply after => entry.2.Held world entry.1 ∧
      Runs sha256 crypto inst world entry reply after) start past state) :
    (state.sessions.instances inst).sessionCount =
        (state.sessions.instances inst).uploadSessions.entries.length +
        (state.sessions.instances inst).multipartSessions.entries.length ∧
      0 ≤ (state.sessions.instances inst).sessionCount ∧
      (state.sessions.instances inst).sessionCount ≤ state.sessions.maxSessions := by
  have hstart : (start.sessions.slots inst).Balanced := by
    refine ⟨?_, ?_, ?_⟩
    · simp [Sessions.slots, hempty, Instance.empty]
    · simp [Sessions.slots, hempty, hmax, Instance.empty]
    · change start.sessions.maxSessions < maxInt64
      rw [hmax]
      decide
  have hbalanced : (state.sessions.slots inst).Balanced := by
    refine hrun.invariant (fun _ => True) (fun world => (world.sessions.slots inst).Balanced)
      hstart ?_ (fun _ _ => trivial)
    rintro world ⟨ctx, call⟩ reply after - hworld ⟨hheld, rfl, hfresh, hruns⟩
    exact Slots.balanced_of_steps
      ((steps_of_call sha256 crypto hfresh hheld hworld).of_runs hruns) hworld
  have hlength : ∀ map : AList fun _ : String => Address, map.keys.length = map.entries.length :=
    fun map => List.length_map _
  refine ⟨?_, hbalanced.nonneg, hbalanced.within⟩
  have hexact := hbalanced.exact
  simp only [Sessions.slots, hlength] at hexact
  exact hexact

def opening : Context := .sample 1 "s"

def oneByte : Announcement := ⟨['f'], ['f'], 1, "c", "expected"⟩

/-- A session is opened, gets its byte and is completed, and another one is open beside it. -/
def besideAnother : List ((Context × TransferCall) × Bool) :=
  [((opening, .createUploadSession oneByte), true), ((opening, .uploadChunk "s" [7] 0), true),
    ((.sample 2 "t", .createMultipartUpload oneByte), true),
    ((.sample 3 "f", .completeUpload "s"), true)]

theorem sessionSlots_exact_besideAnother : ∃ state,
    History (fun world entry reply after => entry.2.Held world entry.1 ∧
        Runs (fun _ => "expected") none 0 world entry reply after) (initial .postgresql [['r']])
      besideAnother state ∧
    (state.sessions.instances 0).sessionCount = 1 ∧
    (state.sessions.instances 0).sessionCount =
        (state.sessions.instances 0).uploadSessions.entries.length +
        (state.sessions.instances 0).multipartSessions.entries.length ∧
      0 ≤ (state.sessions.instances 0).sessionCount ∧
      (state.sessions.instances 0).sessionCount ≤ state.sessions.maxSessions := by
  have hruns := @runs_of_run Call Env World Bool handle .textual
  obtain ⟨state, hrun, hcount⟩ : ∃ state,
      History (fun world entry reply after => entry.2.Held world entry.1 ∧
        Runs (fun _ => "expected") none 0 world entry reply after) (initial .postgresql [['r']])
        besideAnother state ∧ (state.sessions.instances 0).sessionCount = 1 :=
    ⟨_, (((History.nil.snoc ⟨trivial, rfl, by exact List.not_mem_nil, (hruns rfl).amid⟩).snoc
      ⟨.inl (by decide), rfl, trivial, (hruns rfl).amid⟩).snoc
      ⟨trivial, rfl, by exact List.not_mem_nil, (hruns rfl).amid⟩).snoc
      ⟨.inl (by decide), rfl, trivial, (hruns rfl).amid⟩, rfl⟩
  exact ⟨state, hrun, hcount, sessionSlots_exact _ _ rfl rfl hrun⟩

/-- A completion fails on the hash, the next chunk brings the session back without a slot, and its
abort gives back a slot that was never taken. -/
theorem sessionSlots_negative : ∃ state,
    History (Runs (fun _ => "computed") none 0) (initial .postgresql [['r']])
      [((opening, .createUploadSession oneByte), true), ((opening, .uploadChunk "s" [7] 0), true),
        ((opening, .completeUpload "s"), false),
        ((opening, .uploadChunk "s" [7] 0), false),
        ((opening, .abortUpload "s"), true)] state ∧
    (state.sessions.instances 0).sessionCount = -1 := by
  have hruns := @runs_of_run Call Env World Bool handle .textual
  exact ⟨_, ((((History.nil.snoc ⟨rfl, by exact List.not_mem_nil, (hruns rfl).amid⟩).snoc
    ⟨rfl, trivial, (hruns rfl).amid⟩).snoc ⟨rfl, trivial, (hruns rfl).amid⟩).snoc
    ⟨rfl, trivial, (hruns rfl).amid⟩).snoc ⟨rfl, trivial, (hruns rfl).amid⟩, rfl⟩

end TransferCall

end FsServer
