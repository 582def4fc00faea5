import FsServer.Proof.Faults

/-!
# Uploads with one failing call

Each upload followed from the call that fails to its end. The rows are read and written by the same
few functions in all four, so what a failed query or statement leads to is said once for each of them.
-/

namespace FsServer

open Lib Program World FileTransferService FileManager FileMetadataService LocalStorage

variable {world middle : World} {path : Path} {data : Bytes} {fault : Fault}

/-! ### The row of a written object -/

variable {call : SqlCall (Except SqlError Unit)}

theorem ensures_onFiles {α : Type} {post : α → World → Prop}
    {rest : Except SqlError Unit → Service α}
    (hcall : ∀ env, ∃ result, world.db.exec env call = world.db.onFiles result)
    (hok : ∀ db, (rest (.ok ())).Ensures handle post { world with db := db })
    (hfailed : ∀ cause, (rest (.error cause)).Ensures handle post world) :
    (Service.sql call >>= rest).Ensures handle post world := by
  rw [ensures_sql]
  intro env
  obtain ⟨result, hresult⟩ := hcall env
  rw [hresult]
  cases result with
  | ok files => exact hok _
  | error violation => exact hfailed _

variable {metadata : FileMetadata}

theorem ensures_create {α : Type} {post : α → World → Prop}
    {rest : Except CreateError Unit → Service α}
    (hok : ∀ db, (rest (.ok ())).Ensures handle post { world with db := db })
    (hfailed : ∀ cause, (rest (.error cause)).Ensures handle post world) :
    (create metadata >>= rest).Ensures handle post world := by
  unfold create
  rw [ensures_bind, ensures_sql]
  intro env
  rw [Database.exec_deletedFileId]
  split
  · exact ensures_onFiles (fun _ => ⟨_, rfl⟩) (fun db => hok db) fun cause => hfailed _
  · exact ensures_onFiles (fun _ => ⟨_, rfl⟩) (fun db => hok db) fun cause => hfailed _

theorem Wrote.ensures_remove {α : Type} {ok : α → Bool} {value : α}
    (h : Wrote world path data middle) (hleaves : fault.leaves data = some none) :
    (Service.storage (.remove path) >>= fun _ => .done value).Ensures handle
      (Leaving world path data fault ok) middle := by
  obtain ⟨storage, hremove, hstores⟩ := h.remove
  rw [ensures_storage]
  simp only [exec, hremove, apply]
  exact fun _ => ⟨h.db, .inr ⟨none, hleaves, hstores⟩⟩

theorem Wrote.ensures_createRow (h : Wrote world path data middle)
    (hleaves : fault.leaves data = some none) :
    (createRow metadata path).Ensures handle
      (Leaving world path data fault Except.isOk) middle := by
  unfold createRow
  refine ensures_create (fun db hfailed => by cases hfailed) fun cause => ?_
  exact h.ensures_remove hleaves

section Once

variable {α : Type} {post : α → World → Prop}

theorem once_onFiles {rest : Except SqlError Unit → Service α}
    (hcall : ∀ env, ∃ result, world.db.exec env call = world.db.onFiles result)
    (hfails : ∀ reply, call.Fails fault reply → (rest reply).Ensures calm post world)
    (hok : ∀ db, (rest (.ok ())).Once fault post { world with db := db })
    (hfailed : ∀ cause, (rest (.error cause)).Once fault post world) :
    (Service.sql call >>= rest).Once fault post world := by
  refine once_sql hfails fun env => ?_
  obtain ⟨result, hresult⟩ := hcall env
  rw [hresult]
  cases result with
  | ok files => exact hok _
  | error violation => exact hfailed _

theorem once_create {rest : Except CreateError Unit → Service α}
    (hfault : fault.leaves data = some none → ∀ cause,
      (rest (.error cause)).Ensures handle post world)
    (hmade : ∀ db, (rest (.ok ())).Ensures handle post { world with db := db })
    (hfailed : ∀ cause, (rest (.error cause)).Once fault post world)
    (hok : ∀ db, (rest (.ok ())).Once fault post { world with db := db }) :
    (create metadata >>= rest).Once fault post world := by
  unfold create
  rw [bind_bind]
  refine once_sql (fun reply hreply => ?_) fun env => ?_
  · obtain ⟨rfl, rfl⟩ := hreply
    refine Program.Ensures.calm ?_
    exact ensures_onFiles (fun _ => ⟨_, rfl⟩) (fun db => hmade db) fun cause => hfault rfl _
  · rw [Database.exec_deletedFileId]
    cases (world.db.files.atPath _).filter _ with
    | some old =>
      simp only [Option.map_some, bind_bind]
      refine once_onFiles (fun _ => ⟨_, rfl⟩) ?_ (fun db => hok db) fun cause => hfailed _
      rintro _ ⟨rfl, rfl⟩
      exact Program.Ensures.calm (hfault rfl _)
    | none =>
      simp only [Option.map_none, bind_bind]
      refine once_onFiles (fun _ => ⟨_, rfl⟩) ?_ (fun db => hok db) fun cause => hfailed _
      rintro _ ⟨rfl, rfl⟩
      exact Program.Ensures.calm (hfault rfl _)

section

variable {rest : Option FileMetadata → Service α}
  (hquery : fault = .query → (rest none).Ensures calm post world)
  (h : ∀ found, (rest found).Once fault post world)
include hquery h

theorem once_existing : (existing path >>= rest).Once fault post world := by
  unfold existing getByPath
  rw [bind_bind]
  refine once_sql (fun reply hreply => ?_) fun env => ?_
  · obtain ⟨hfault, rfl⟩ := hreply
    exact hquery hfault
  · rw [Database.exec_fileByPath]
    exact h _

theorem once_replacedRow : (replacedRow path >>= rest).Once fault post world := by
  unfold replacedRow fileExists
  rw [bind_bind, bind_bind]
  refine once_sql (fun reply hreply => ?_) fun env => ?_
  · obtain ⟨hfault, rfl⟩ := hreply
    exact hquery hfault
  · rw [Database.exec_fileExists]
    simp only [pure_eq, done_bind]
    split_ifs
    · exact once_existing hquery h
    · exact h none

end

end Once

theorem Wrote.once_createRow (h : Wrote world path data middle) :
    (createRow metadata path).Once fault
      (Leaving world path data fault Except.isOk) middle := by
  unfold createRow
  refine once_create (fun (hleaves : fault.leaves data = some none) _ => h.ensures_remove hleaves)
    (fun db hfailed => by cases hfailed) (fun cause => ?_) fun db => trivial
  refine once_storage ?_ trivial
  rintro reply storage ⟨rfl, rfl, rfl⟩
  exact h.left rfl

theorem Wrote.once_updateRow (h : Wrote world path data middle) :
    (updateRow metadata).Once fault
      (Leaving world path data fault Except.isOk) middle := by
  unfold updateRow update
  refine once_onFiles (fun _ => ⟨_, rfl⟩) ?_ (fun db => trivial) fun cause => trivial
  rintro reply ⟨rfl, rfl⟩
  exact h.left rfl

/-! ### The file manager's uploads -/

variable {failed : OsError → StorageError}

variable {storage : LocalStorage}

theorem left_of_partlyWritten {ok : Bool}
    (h : world.storage.PartlyWritten storage path data failed fault) :
    Left world path data fault ok { world with storage := storage } := by
  intro _
  refine ⟨rfl, ?_⟩
  match fault, h with
  | .write none, h => exact .inl ⟨h, .inl rfl⟩
  | .write (some kept), h => exact .inr ⟨_, rfl, place_ok h⟩

theorem wrote_of_place (h : world.storage.place path data failed = .ok storage) :
    Wrote world path data { world with storage := storage } :=
  ⟨place_eq_ok_valid h, rfl, place_ok h⟩

variable {sha256 : Bytes → String}

theorem ensures_writeNew (h : Intact sha256 world) (hleaves : fault.leaves data = some none) :
    (Service.storage (.write path data) >>= fun reply => match reply with
      | .error cause => return .error (.write cause)
      | .ok () => createRow metadata path).Ensures handle
        (Leaving world path data fault Except.isOk) world := by
  rw [ensures_storage]
  simp only [exec, write]
  cases hplace : world.storage.place path data .writeFile with
  | ok storage => exact (wrote_of_place hplace).ensures_createRow hleaves
  | error cause =>
    refine fun _ => ⟨rfl, .inl ⟨rfl, .inr fun other row hlive hsame => ?_⟩⟩
    obtain ⟨storage, hok⟩ := place_succeeds h hlive hsame data .writeFile
    rw [hplace] at hok
    cases hok

theorem once_place {α : Type} {ok : α → Bool} {call : StorageCall (Except StorageError Unit)}
    {rest : Except StorageError Unit → Service α}
    (hcall : world.storage.exec call = world.storage.apply (world.storage.place path data failed))
    (hfails : ∀ reply storage, call.Fails fault world.storage storage reply →
      world.storage.PartlyWritten storage path data failed fault ∧ ∃ cause, reply = .error cause)
    (herror : ∀ cause, ∃ value, rest (.error cause) = .done value)
    (hok : ∀ storage, Wrote world path data { world with storage := storage } →
      (rest (.ok ())).Once fault
        (Leaving world path data fault ok)
        { world with storage := storage }) :
    (Service.storage call >>= rest).Once fault
      (Leaving world path data fault ok) world := by
  refine once_storage (fun reply storage hreply => ?_) ?_
  · obtain ⟨hpartly, cause, rfl⟩ := hfails reply storage hreply
    obtain ⟨value, hvalue⟩ := herror cause
    rw [hvalue]
    exact left_of_partlyWritten hpartly
  · rw [hcall]
    cases hplace : world.storage.place path data failed with
    | ok storage => exact hok storage (wrote_of_place hplace)
    | error cause =>
      obtain ⟨value, hvalue⟩ := herror cause
      simp only [apply, hvalue]
      trivial

variable {ctx : Context}

theorem once_uploadFileBody (h : Intact sha256 world) :
    (uploadFileBody sha256 ctx path data).Once fault
      (Leaving world path data fault Except.isOk) world := by
  unfold uploadFileBody
  refine once_replacedRow (fun hquery => ?_) fun found => ?_
  · refine Program.Ensures.calm (ensures_writeNew h ?_)
    rw [hquery]
    rfl
  have hfails : ∀ reply storage,
      (StorageCall.write path data).Fails fault world.storage storage reply →
      world.storage.PartlyWritten storage path data .writeFile fault ∧
        ∃ cause, reply = .error cause := fun _ _ hreply => ⟨hreply.1, _, hreply.2⟩
  cases found with
  | some metadata =>
    exact once_place rfl hfails (fun _ => ⟨_, rfl⟩) fun _ hwrote => hwrote.once_updateRow
  | none => exact once_place rfl hfails (fun _ => ⟨_, rfl⟩) fun _ hwrote => hwrote.once_createRow

variable {hash : String}

variable {size : Int} {key : Path}

theorem ensures_updateFound {now : String} (hlive : middle.db.liveFile key = some metadata) :
    (updateRow (refreshed metadata size hash now)).Ensures handle
      (Leaving world path data fault Except.isOk) middle := by
  have hrow : middle.db.files.atPath (refreshed metadata size hash now).path = some metadata := by
    rw [refreshed, Database.path_of_liveFile hlive]
    exact (Database.liveFile_eq_some.mp hlive).1
  unfold updateRow
  refine (total_update hrow rfl rfl fun db _ => ?_).ensures handle
  intro hfailed
  cases hfailed

theorem Wrote.once_recordStored {middle : World} (hwrote : Wrote world path data middle)
    (size : Int) :
    (existing path >>= fun found => match found with
      | some metadata => updateRow (refreshed metadata size (sha256 data) ctx.now)
      | none => createRow
          (newMetadata ctx path (getFileName path) size (sha256 data)) path).Once fault
        (Leaving world path data fault Except.isOk) middle := by
  refine once_existing (fun hquery => ?_) fun found => ?_
  · refine Program.Ensures.calm (hwrote.ensures_createRow ?_)
    rw [hquery]
    rfl
  · cases found with
    | some metadata => exact hwrote.once_updateRow
    | none => exact hwrote.once_createRow

theorem once_uploadFileFromReaderBody :
    (uploadFileFromReaderBody sha256 ctx path ⟨data, false⟩).Once fault
      (Leaving world path data fault Except.isOk) world := by
  unfold uploadFileFromReaderBody
  have hcall : world.storage.exec (.writeFromReader path ⟨data, false⟩)
      = world.storage.apply (world.storage.place path data .createFile) := by
    simp only [exec, writeFromReader]
    cases world.storage.place path data .createFile <;> rfl
  refine once_place hcall (fun reply storage hreply => ⟨hreply.1, ?_⟩) (fun _ => ⟨_, rfl⟩)
    fun storage hwrote => ?_
  · exact hreply.2.elim (fun h => ⟨_, h⟩) fun h => ⟨_, h⟩
  unfold storedSize
  rw [bind_bind]
  refine once_storage (fun reply after hreply => ?_) ?_
  · obtain ⟨rfl, rfl, rfl⟩ := hreply
    refine Program.Ensures.calm ?_
    simp only [pure_eq, done_bind, existing, getByPath]
    rw [ensures_bind, ensures_sql]
    intro env
    rw [Database.exec_fileByPath]
    cases hlive : world.db.liveFile (normalizePath path) with
    | some metadata => exact ensures_updateFound hlive
    | none => exact hwrote.ensures_createRow rfl
  · simp only [exec]
    cases storage.getSize path with
    | ok size => exact hwrote.once_recordStored size
    | error cause => exact hwrote.once_recordStored 0

variable {token : Token}

theorem ensures_unlockLeft {α : Type} {ok : α → Bool} {key : LockKey} {rest : Unit → Service α}
    (h : ∀ locks, (rest ()).Ensures handle
      (Leaving world path data fault ok)
      { middle with locks := locks }) :
    (Service.unlock key token >>= rest).Ensures handle
      (Leaving world path data fault ok) middle := by
  refine ensures_unlock ?_
  split_ifs
  · exact h _
  · exact h middle.locks

theorem once_withFileLock {α : Type} {body : Service (Except FileError α)}
    (h : ∀ locks, body.Once fault
      (Leaving world path data fault Except.isOk)
      { world with locks := locks }) :
    (withFileLock ctx key body).Once fault
      (Leaving world path data fault Except.isOk) world := by
  unfold withFileLock
  refine spared_acquireMutex id fun _ => spared_acquire id fun _ => ensuresOnce_bind ?_ ?_
  · refine (h _).mono fun result after hleft => Program.Ensures.calm ?_
    exact ensures_unlockLeft fun _ => ensures_unlockLeft fun _ => hleft
  · refine Ensures.of_forall _ (fun result after => ?_) _ _
    refine spared_unlock id (spared_unlock id ?_)
    trivial

/-! ### The transfer service's uploads -/

theorem Wrote.once_recordUpload {name : Path} (h : Wrote world path data middle) :
    (recordUpload ctx path name size hash).Once fault
      (Leaving world path data fault Except.isOk) middle := by
  unfold recordUpload
  refine once_existing (fun hquery => ?_) fun found => ?_
  · refine Program.Ensures.calm (ensures_create (fun db hfailed => by cases hfailed) fun cause => ?_)
    refine h.ensures_remove ?_
    rw [hquery]
    rfl
  cases found with
  | some metadata =>
    refine once_onFiles (fun _ => ⟨_, rfl⟩) ?_ (fun db => trivial) fun cause => trivial
    rintro reply ⟨rfl, rfl⟩
    exact h.left rfl
  | none =>
    refine once_create (fun (hleaves : fault.leaves data = some none) _ => h.ensures_remove hleaves)
      (fun db hfailed => by cases hfailed) (fun cause => ?_) fun db => trivial
    refine once_storage ?_ trivial
    rintro reply storage ⟨rfl, rfl, rfl⟩
    exact h.left rfl

variable {temp : TempName}

theorem wrote_of_move {after : World}
    (htemp : ∀ content, world.sessions.fileOf temp = some content → content = data)
    (h : world.writeFromTempFile path temp = (.ok (), after)) : Wrote world path data after := by
  unfold World.writeFromTempFile at h
  split_ifs at h
  · cases hfile : world.sessions.fileOf temp with
    | none =>
      rw [hfile] at h
      dsimp only at h
      split at h <;> cases h
    | some content =>
      rw [hfile, htemp content hfile] at h
      dsimp only at h
      cases hplace : world.storage.writeFromTempFile path data with
      | error cause =>
        rw [hplace] at h
        cases h
      | ok storage =>
        rw [hplace] at h
        cases h
        exact ⟨place_eq_ok_valid hplace, rfl, place_ok hplace⟩
  · cases h
  · cases h

variable {locks : LockKey → Option Token} {sessions : Sessions}

theorem once_moveIntoPlace {α : Type} {ok : α → Bool} {rest : Except StorageError Unit → Service α}
    (htemp : ∀ content, sessions.fileOf temp = some content → content = data)
    (hfailed : ∀ storage, world.storage.PartlyWritten storage path data .createDestination fault →
      (rest (.error .fault)).Ensures handle
        (Leaving world path data fault ok)
        ⟨storage, world.db, locks, sessions⟩)
    (herror : ∀ cause after, (rest (.error cause)).Once fault
      (Leaving world path data fault ok) after)
    (hok : ∀ after, Wrote world path data after →
      (rest (.ok ())).Once fault
        (Leaving world path data fault ok) after) :
    (Service.writeFromTempFile path temp >>= rest).Once fault
      (Leaving world path data fault ok)
      ⟨world.storage, world.db, locks, sessions⟩ := by
  refine once_move (fun storage hstorage => Program.Ensures.calm (hfailed storage ?_)) ?_
  · rcases hstorage with ⟨rfl, rfl⟩ | ⟨content, hcontent, hpartly⟩
    · rfl
    · rw [← htemp content hcontent]
      exact hpartly
  cases hmove : World.writeFromTempFile ⟨world.storage, world.db, locks, sessions⟩ path temp with
  | mk reply after =>
    cases reply with
    | error cause => exact herror cause after
    | ok value =>
      have hwrote := wrote_of_move htemp hmove
      exact hok after ⟨hwrote.valid, hwrote.db, hwrote.stores⟩

section Sessions

variable {α β : Type} {post : α → World → Prop} {rest : Unit → Service α} {inst : Nat}
  {sessionID : String}

theorem ensures_anySession {call : SessionCall β} {rest : β → Service α}
    (h : ∀ reply sessions, (rest reply).Ensures handle post { world with sessions := sessions }) :
    (Service.session call >>= rest).Ensures handle post world := by
  rw [ensures_session]
  exact fun _ => h _ _

theorem once_anySession {call : SessionCall β} {rest : β → Service α}
    (h : ∀ reply sessions, (rest reply).Once fault post { world with sessions := sessions }) :
    (Service.session call >>= rest).Once fault post world :=
  once_session fun _ _ => h _ _

theorem ensures_discardUpload
    (h : ∀ sessions, (rest ()).Ensures handle post { world with sessions := sessions }) :
    (discardUpload inst sessionID >>= rest).Ensures handle post world := by
  unfold discardUpload releaseSessionSlot
  simp only [bind_bind]
  exact ensures_anySession fun _ _ => ensures_anySession fun _ _ => h _

theorem once_discardUpload
    (h : ∀ sessions, (rest ()).Once fault post { world with sessions := sessions }) :
    (discardUpload inst sessionID >>= rest).Once fault post world := by
  unfold discardUpload releaseSessionSlot
  simp only [bind_bind]
  exact once_anySession fun _ _ => once_anySession fun _ _ => h _

theorem ensures_discardMultipart
    (h : ∀ sessions, (rest ()).Ensures handle post { world with sessions := sessions }) :
    (discardMultipart inst sessionID >>= rest).Ensures handle post world := by
  unfold discardMultipart releaseSessionSlot
  simp only [bind_bind]
  exact ensures_anySession fun _ _ => ensures_anySession fun _ _ => h _

theorem once_discardMultipart
    (h : ∀ sessions, (rest ()).Once fault post { world with sessions := sessions }) :
    (discardMultipart inst sessionID >>= rest).Once fault post world := by
  unfold discardMultipart releaseSessionSlot
  simp only [bind_bind]
  exact once_anySession fun _ _ => once_anySession fun _ _ => h _

end Sessions

variable {address : Address}

variable {current : UploadSession}

theorem once_storeUpload {sessionID : String} {hashVerified : Bool}
    (htemp : ∀ content, sessions.fileOf temp = some content → content = data) :
    (storeUpload ctx address current sessionID hashVerified temp
      hash).Once fault
      (Leaving world current.filePath data fault Except.isOk)
      ⟨world.storage, world.db, locks, sessions⟩ := by
  unfold storeUpload
  refine once_moveIntoPlace htemp (fun storage hpartly => ?_) (fun cause after => ?_)
    fun after hwrote => ?_
  · refine ensures_anySession fun _ _ => ensures_discardUpload fun _ => ?_
    exact left_of_partlyWritten hpartly
  · refine once_anySession fun _ _ => once_discardUpload fun _ => ?_
    trivial
  refine ensuresOnce_bind ?_ (Ensures.of_forall _ (fun result after => ?_) _ _)
  · refine hwrote.once_recordUpload.mono fun result after hleft => Program.Ensures.calm ?_
    cases result with
    | error cause => exact ensures_discardUpload fun _ => hleft
    | ok metadata =>
      refine ensures_anySession fun _ _ => ensures_discardUpload fun _ =>
        ensures_anySession fun _ _ => ensures_anySession fun _ _ => ?_
      exact hleft
  · cases result with
    | error cause =>
      refine once_discardUpload fun _ => ?_
      trivial
    | ok metadata =>
      refine once_anySession fun _ _ => once_discardUpload fun _ =>
        once_anySession fun _ _ => once_anySession fun _ _ => ?_
      trivial

theorem once_storeMultipart {current : MultipartUploadSession} {sessionID : String}
    (htemp : ∀ content, sessions.fileOf temp = some content → content = data) :
    (storeMultipart ctx address current sessionID temp hash).Once fault
      (Leaving world current.filePath data fault Except.isOk)
      ⟨world.storage, world.db, locks, sessions⟩ := by
  unfold storeMultipart
  refine once_moveIntoPlace htemp (fun storage hpartly => ?_) (fun cause after => ?_)
    fun after hwrote => ?_
  · refine ensures_anySession fun _ _ => ensures_discardMultipart fun _ => ?_
    exact left_of_partlyWritten hpartly
  · refine once_anySession fun _ _ => once_discardMultipart fun _ => ?_
    trivial
  refine ensuresOnce_bind ?_ (Ensures.of_forall _ (fun result after => ?_) _ _)
  · refine hwrote.once_recordUpload.mono fun result after hleft => Program.Ensures.calm ?_
    cases result with
    | error cause =>
      exact ensures_anySession fun _ _ => ensures_discardMultipart fun _ => hleft
    | ok metadata =>
      refine ensures_anySession fun _ _ => ensures_discardMultipart fun _ =>
        ensures_anySession fun _ _ => ?_
      exact hleft
  · cases result with
    | error cause =>
      refine once_anySession fun _ _ => once_discardMultipart fun _ => ?_
      trivial
    | ok metadata =>
      refine once_anySession fun _ _ => once_discardMultipart fun _ =>
        once_anySession fun _ _ => ?_
      trivial

theorem fileOf_writeTemp (sessions : Sessions) (name : TempName) (data : Bytes) :
    ((sessions.create name).2.setInode (sessions.create name).1 data).fileOf name = some data := by
  unfold Sessions.create
  cases hname : sessions.temps.lookup name <;> simp [Sessions.fileOf, Sessions.setInode, hname]

theorem fileOf_erase (sessions : Sessions) {name other : TempName} (hne : other ≠ name) :
    ({ sessions with temps := sessions.temps.erase name } : Sessions).fileOf other
      = sessions.fileOf other := by
  simp [Sessions.fileOf, AList.lookup_erase_ne hne]

variable {crypto : Option CryptoService}

theorem once_encryptTempFile {α : Type} {post : α → World → Prop} {nonce : Nonce}
    {sessionID : String} {rest : Except TransferError (TempName × String) → Service α}
    (herror : ∀ cause sessions, (rest (.error cause)).Once fault post { world with sessions := sessions })
    (hok : ∀ temp hash sessions,
      (∀ content, sessions.fileOf temp = some content → content = UploadOperation.sealed crypto nonce
        ((world.sessions.fileOf (.upload sessionID)).getD [])) →
      (rest (.ok (temp, hash))).Once fault post { world with sessions := sessions }) :
    (encryptTempFile sha256 crypto nonce sessionID hash >>= rest).Once fault post
      world := by
  unfold encryptTempFile
  cases crypto with
  | none =>
    refine hok _ _ world.sessions fun content hcontent => ?_
    rw [hcontent]
    rfl
  | some service =>
    dsimp only
    split_ifs with henabled
    · rw [bind_bind]
      refine once_session fun env hcalm => ?_
      simp only [Sessions.exec, hcalm, Option.isSome_none, Bool.false_eq_true, if_false]
      cases hfile : world.sessions.fileOf (.upload sessionID) with
      | none =>
        rw [bind_bind]
        exact once_anySession fun _ sessions => herror _ sessions
      | some content =>
        rw [bind_bind]
        refine once_session fun env hcalm => ?_
        simp only [Sessions.exec, hcalm, if_true]
        rw [bind_bind]
        refine once_session fun env hcalm => ?_
        simp only [Sessions.exec, hcalm, Option.isSome_none, Bool.false_eq_true, if_false]
        rw [bind_bind]
        refine once_session fun env hcalm => ?_
        have hsealed := (fileOf_erase ((world.sessions.create (.uploadEncrypted sessionID)).2.setInode
          (world.sessions.create (.uploadEncrypted sessionID)).1 (service.encrypt nonce content))
          (show TempName.uploadEncrypted sessionID ≠ .upload sessionID by simp)).trans
          (fileOf_writeTemp world.sessions _ _)
        simp only [Sessions.exec, Sessions.hashTemp, hcalm, hsealed]
        refine hok _ _ _ fun stored hstored => ?_
        rw [hsealed, Option.some.injEq] at hstored
        rw [← hstored, hfile]
        rfl
    · refine hok _ _ world.sessions fun content hcontent => ?_
      rw [hcontent]
      simp [UploadOperation.sealed, CryptoService.encrypt, henabled]

variable {expected : String}

section

variable {α : Type} {post : α → World → Prop} {rest : Except TransferError Bool → Service α}
  (h : ∀ result, (rest result).Once fault post world)
include h

theorem once_checkedHash (bytes : Option Bytes) :
    ((match bytes with
      | none => return .error .computeHash
      | some bytes =>
        if sha256 bytes = expected then return .ok true
        else return .error (.hashMismatch expected (sha256 bytes)) :
        Service (Except TransferError Bool)) >>= rest).Once fault post world := by
  cases bytes with
  | none => exact h _
  | some bytes =>
    dsimp only
    split_ifs <;> exact h _

theorem once_verifyHash {sessionID : String} :
    (verifyHash sha256 address sessionID expected >>= rest).Once fault post world := by
  unfold verifyHash
  split_ifs
  · unfold hashedBytes
    rw [bind_bind, bind_bind]
    refine once_session fun env _ => ?_
    split
    · rw [bind_bind]
      exact once_session fun env _ => once_checkedHash h (some _)
    · exact once_session fun env _ => once_checkedHash h _
  · exact h _

end

theorem once_locked {ε α : Type} {key : LockKey} {body : Service (Except ε α)}
    {otherwise : Service (Except ε α)} (h : ∀ locks, body.Once fault
      (Leaving world path data fault Except.isOk)
      ⟨world.storage, world.db, locks, sessions⟩) :
    (Service.acquire key token >>= fun taken =>
      if taken = true then do
        let result ← body
        Service.unlock key token
        return result
      else otherwise).Once fault
      (Leaving world path data fault Except.isOk)
      ⟨world.storage, world.db, world.locks, sessions⟩ := by
  refine spared_acquire id fun _ => ensuresOnce_bind ?_ ?_
  · refine (h _).mono fun result after hleft => Program.Ensures.calm ?_
    exact ensures_unlockLeft fun _ => hleft
  · refine Ensures.of_forall _ (fun result after => ?_) _ _
    refine spared_unlock id ?_
    trivial

theorem closeTempFile_calm {env : Env} (hcalm : env.fault = none) (sessions : Sessions)
    (address : Address) :
    ∃ after, sessions.closeTempFile env address = (.closed, after) ∧
      ∀ name, after.fileOf name = sessions.fileOf name := by
  cases htemp : (sessions.uploads address).tempFile with
  | none =>
    refine ⟨sessions, ?_, fun _ => rfl⟩
    simp only [Sessions.closeTempFile, htemp]
  | some inode =>
    refine ⟨sessions.setUpload address { sessions.uploads address with tempFile := none }, ?_,
      fun _ => rfl⟩
    simp only [Sessions.closeTempFile, htemp, hcalm]

theorem once_finishUpload {sessionID : String}
    (hbytes : data = UploadOperation.sealed crypto ctx.nonce
      ((sessions.fileOf (.upload sessionID)).getD [])) :
    (finishUpload sha256 crypto ctx address current sessionID).Once fault
      (Leaving world current.filePath data fault Except.isOk)
      ⟨world.storage, world.db, world.locks, sessions⟩ := by
  unfold finishUpload
  refine once_session fun env hcalm => ?_
  obtain ⟨closed, hclosed, hfiles⟩ := closeTempFile_calm hcalm sessions address
  simp only [Sessions.exec, hclosed]
  refine once_verifyHash fun verified => ?_
  cases verified with
  | error cause =>
    refine once_anySession fun _ _ => once_discardUpload fun _ => ?_
    trivial
  | ok hashVerified =>
    refine once_encryptTempFile (fun cause _ => ?_) fun temp hash sealed htemp => ?_
    · refine once_discardUpload fun _ => ?_
      trivial
    · refine once_locked fun locks => once_storeUpload fun content hcontent => ?_
      rw [hbytes, ← hfiles]
      exact htemp content hcontent

theorem once_uploadSession {α : Type} {post : α → World → Prop} {sessionID : String}
    {rest : Option Address → Service α}
    (hnone : (rest none).Once fault post world) (hsome : ∀ address sessions,
      (sessions.uploads address).filePath =
        (UploadOperation.completeUpload ctx sessionID).target world →
      (∀ name, sessions.fileOf name = world.sessions.fileOf name) →
      (rest (some address)).Once fault post { world with sessions := sessions }) :
    (uploadSession ctx.inst sessionID >>= rest).Once fault post world := by
  unfold uploadSession
  rw [bind_bind]
  refine once_session fun env _ => ?_
  simp only [Sessions.exec]
  cases hload : (world.sessions.instances ctx.inst).uploadSessions.lookup sessionID with
  | some address =>
    refine hsome address world.sessions ?_ fun _ => rfl
    rw [UploadOperation.target, hload]
  | none =>
    dsimp only
    rw [bind_bind]
    refine once_session fun env hcalm => ?_
    simp only [Sessions.exec, hcalm, Option.isSome_none, Bool.false_eq_true, if_false]
    cases hrecord : world.sessions.uploadStore.lookup sessionID with
    | none => exact hnone
    | some record =>
      dsimp only
      rw [bind_bind]
      refine once_session fun env hcalm => ?_
      rw [bind_bind]
      refine once_session fun env hcalm => ?_
      simp only [Sessions.exec, hload]
      refine hsome _ _ ?_ fun _ => rfl
      rw [UploadOperation.target, hload]
      simp [Sessions.setUpload, Sessions.setInstance, UploadRecord.restore, hrecord]

theorem once_completeUpload {sessionID : String} :
    (completeUpload sha256 crypto ctx sessionID).Once fault
      (Leaving world ((UploadOperation.completeUpload ctx sessionID).target world)
        ((UploadOperation.completeUpload ctx sessionID).bytes crypto world) fault Except.isOk)
      world := by
  unfold completeUpload
  refine once_uploadSession ?_ fun address sessions hpath hfiles => ?_
  · trivial
  dsimp only
  refine once_session fun env _ => ?_
  split
  · refine once_anySession fun _ _ => ?_
    trivial
  refine once_session fun env _ => ?_
  have hbytes : (UploadOperation.completeUpload ctx sessionID).bytes crypto world
      = UploadOperation.sealed crypto ctx.nonce ((sessions.fileOf (.upload sessionID)).getD []) := by
    rw [hfiles]
    rfl
  rw [← hpath]
  exact once_finishUpload hbytes

section

variable {α : Type} {post : α → World → Prop} {rest : Except TransferError Unit → Service α}
  (h : ∀ result, (rest result).Once fault post world)
include h

theorem once_verifyMultipartHash {sessionID : String} :
    (verifyMultipartHash sha256 sessionID expected >>= rest).Once fault post world := by
  unfold verifyMultipartHash
  split_ifs
  · rw [bind_bind]
    refine once_session fun env _ => ?_
    cases (world.sessions.exec env (.hashTemp (.upload sessionID))).1 with
    | none => exact h _
    | some bytes =>
      dsimp only
      split_ifs <;> exact h _
  · exact h _

theorem once_checkMultipart : (checkMultipart address >>= rest).Once fault post world := by
  unfold checkMultipart
  rw [bind_bind]
  refine once_session fun env _ => ?_
  split
  · exact h _
  rw [bind_bind]
  refine once_session fun env _ => ?_
  split
  · rw [bind_bind]
    refine once_session fun env _ => ?_
    split <;> exact h _
  · exact h _

end

theorem once_finishMultipart {current : MultipartUploadSession} {sessionID : String}
    (hbytes : data = UploadOperation.sealed crypto ctx.nonce
      ((sessions.fileOf (.upload sessionID)).getD [])) :
    (finishMultipart sha256 crypto ctx address current sessionID).Once fault
      (Leaving world current.filePath data fault Except.isOk)
      ⟨world.storage, world.db, world.locks, sessions⟩ := by
  unfold finishMultipart
  refine once_session fun env _ => ?_
  split
  · refine once_session fun env _ => ?_
    split
    · refine once_verifyMultipartHash fun verified => ?_
      cases verified with
      | error cause =>
        refine once_anySession fun _ _ => once_discardMultipart fun _ => ?_
        trivial
      | ok value =>
        refine once_encryptTempFile (fun cause _ => ?_) fun temp hash sealed htemp => ?_
        · refine once_discardMultipart fun _ => ?_
          trivial
        · rw [hbytes]
          exact once_locked fun locks => once_storeMultipart htemp
    · refine once_anySession fun _ _ => once_discardMultipart fun _ => ?_
      trivial
  · refine once_anySession fun _ _ => once_anySession fun _ _ => once_discardMultipart fun _ => ?_
    trivial

theorem once_completeMultipartUpload {sessionID : String} :
    (completeMultipartUpload sha256 crypto ctx sessionID).Once fault
      (Leaving world ((UploadOperation.completeMultipartUpload ctx sessionID).target world)
        ((UploadOperation.completeMultipartUpload ctx sessionID).bytes crypto world) fault
        Except.isOk) world := by
  unfold completeMultipartUpload
  refine once_session fun env _ => ?_
  simp only [Sessions.exec, UploadOperation.target]
  cases (world.sessions.instances ctx.inst).multipartSessions.lookup sessionID with
  | none => trivial
  | some address =>
    refine once_checkMultipart fun checked => ?_
    cases checked with
    | error cause => trivial
    | ok value =>
      refine once_session fun env _ => ?_
      exact once_finishMultipart rfl

/-! ### Every upload -/

theorem once_service (sha256 : Bytes → String) (crypto : Option CryptoService)
    (operation : UploadOperation) (h : Intact sha256 world) :
    (operation.service sha256 crypto).Once fault
      (fun ok after => Left world (operation.target world) (operation.bytes crypto world) fault ok
        after) world := by
  have hresult : ∀ {ε α : Type} {program : Service (Except ε α)},
      program.Once fault (fun result after => Left world
        (operation.target world) (operation.bytes crypto world) fault result.isOk after) world →
      (program >>= fun result => .done result.isOk).Once fault
        (fun ok after => Left world (operation.target world) (operation.bytes crypto world) fault ok
          after) world := by
    intro ε α program honce
    exact ensuresOnce_bind honce (Ensures.of_forall _ (fun _ _ => trivial) _ _)
  cases operation with
  | uploadFile ctx path data =>
    exact hresult (once_withFileLock fun locks => once_uploadFileBody h)
  | uploadFileFromReader ctx path data =>
    exact hresult (once_withFileLock fun locks => once_uploadFileFromReaderBody)
  | completeUpload ctx sessionID => exact hresult once_completeUpload
  | completeMultipartUpload ctx sessionID => exact hresult once_completeMultipartUpload

/-- When an upload fails because of one failing call, every live row still has its object exactly if
the rows at its place fit what that failure leaves there. -/
theorem failedUpload_keeps_files_iff (sha256 : Bytes → String) (crypto : Option CryptoService)
    (operation : UploadOperation) (fault : Fault) {world after : World}
    (hintact : Intact sha256 world)
    (hruns : RunsOnce calm Fails fault (operation.service sha256 crypto) world false after) :
    Intact sha256 after ↔
      Harmless sha256 world (operation.target world) (operation.bytes crypto world) fault :=
  ((once_service sha256 crypto operation hintact).of_runs hruns).intact_iff hintact

def firstVersion : UploadOperation := .uploadFile (.sample 1 "a") ['f'] [97]

def secondVersion : UploadOperation := .uploadFile (.sample 2 "b") ['f'] [98, 99]

theorem intact_of_singleRow {row : FileMetadata} {content : Bytes}
    (hrows : world.db.files.rows = [row]) (hread : world.storage.read row.path = .ok content)
    (hrow : row.Describes sha256 content) : Intact sha256 world := by
  intro path other hlive
  obtain ⟨hmem, rfl⟩ := Table.atPath_eq_some.mp (Database.liveFile_eq_some.mp hlive).1
  rw [hrows, List.mem_singleton] at hmem
  exact hmem ▸ ⟨content, hread, hrow⟩

/-- The query whether the file exists fails, and taking back the object after the row could not be
made leaves the old row without one. -/
theorem failedQuery_removes_object :
    ∃ world after, Runs handle (firstVersion.service (fun _ => "") none)
        (initial .postgresql [['r']]) true world ∧
      Intact (fun _ => "") world ∧
      RunsOnce calm Fails .query (secondVersion.service (fun _ => "") none) world false
        after ∧
      ¬ Intact (fun _ => "") after := by
  have hruns := @runs_of_run Call Env World Bool handle .textual
  refine ⟨_, _, hruns rfl, intact_of_singleRow rfl rfl ⟨rfl, rfl⟩, .later .textual rfl
    (.later .textual rfl (.of_run .textual ⟨⟨rfl, rfl⟩, rfl⟩ rfl)), fun hintact => ?_⟩
  obtain ⟨content, hcontent, -⟩ :=
    hintact ['f'] (newMetadata (.sample 1 "a") ['f'] ['f'] 1 "") rfl
  cases (hcontent : (.error (.readFile .notExist) : Except StorageError Bytes) = .ok content)

/-- The same content once more, with the update of the row failing. -/
theorem failedUpdate_keeps_sameContent :
    ∃ world after, Intact (fun _ => "") world ∧
      RunsOnce calm Fails .update (firstVersion.service (fun _ => "") none) world false
        after ∧
      Intact (fun _ => "") after := by
  obtain ⟨world, after, -, hrows, hread, hruns⟩ : ∃ world after,
      (firstVersion.service (fun _ => "") none).run handle .textual (initial .postgresql [['r']])
        = some (true, world) ∧
      world.db.files.rows = [newMetadata (.sample 1 "a") ['f'] ['f'] 1 ""] ∧
      world.storage.read ['f'] = .ok [97] ∧
      RunsOnce calm Fails .update (firstVersion.service (fun _ => "") none) world false
        after :=
    ⟨_, _, rfl, rfl, rfl, .later .textual rfl (.later .textual rfl (.later .textual rfl
      (.later .textual rfl (.later .textual rfl (.of_run .textual ⟨⟨rfl, rfl⟩, rfl⟩ rfl)))))⟩
  have hintact : Intact (fun _ => "") world := intact_of_singleRow hrows hread ⟨rfl, rfl⟩
  refine ⟨world, after, hintact, hruns, ?_⟩
  rw [failedUpload_keeps_files_iff (fun _ => "") none firstVersion .update hintact hruns]
  intro left hleft path row hlive _
  cases hleft
  obtain ⟨hmem, -⟩ := Table.atPath_eq_some.mp (Database.liveFile_eq_some.mp hlive).1
  rw [hrows, List.mem_singleton] at hmem
  exact ⟨[97], rfl, hmem ▸ ⟨rfl, rfl⟩⟩

end FsServer
