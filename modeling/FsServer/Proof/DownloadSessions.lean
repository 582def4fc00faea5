import FsServer.Lib.Rely
import FsServer.Lib.Schedule
import FsServer.Proof.FastPath

/-!
# Download sessions

A session is made, and any number of calls of `DownloadChunk` for it are made at once on its instance,
as by `ParallelDownloadChunks`. What they return are slices of the file, be they read from the storage
or from the decrypted copy.
-/

namespace FsServer

open Lib Program World FileTransferService GoPath Sessions

/-! ### The decrypted copy -/

section Temp

variable {env : Env} {sessions : Sessions} {name : TempName} {data : Bytes}

theorem fileOf_of_writeTemp (h : (sessions.exec env (.writeTemp name data)).1 = true) :
    (sessions.exec env (.writeTemp name data)).2.fileOf name = some data := by
  simp only [exec] at h ⊢
  split at h
  · exact fileOf_writeTemp sessions name data
  · cases h
  · cases h

theorem fileOf_of_readTemp (h : (sessions.exec env (.readTemp name)).1 = some data) :
    sessions.fileOf name = some data := by
  simp only [exec] at h
  split_ifs at h
  exact h

theorem fileOf_removeTemp {other : TempName} (hne : other ≠ name) :
    (sessions.exec env (.removeTemp name)).2.fileOf other = sessions.fileOf other := by
  simp only [exec]
  split_ifs
  · rfl
  · exact fileOf_erase sessions hne

theorem inodes_of_openTemp {file : Inode}
    (h : (sessions.exec env (.openTemp name)).1 = some file)
    (hfile : sessions.fileOf name = some data) : sessions.inodes file = data := by
  simp only [exec] at h
  split_ifs at h
  rw [fileOf, h] at hfile
  exact Option.some.inj hfile

end Temp

theorem of_error {ε α : Type} {cause : ε} {holds : α → Prop} (value : α)
    (h : Except.error cause = .ok value) : holds value := nomatch h

variable {world : World} {crypto : Option CryptoService} {path : Path} {stored content : Bytes}

/-- A copy that is handed over holds what the stored file decrypts to. -/
theorem ensures_decryptToTemp {service : CryptoService} {sessionID : String}
    (hread : world.storage.read path = .ok stored) :
    (decryptToTemp service path sessionID).Ensures handle (fun result after =>
      ∃ sessions, after = { world with sessions := sessions } ∧
        ∀ opened : Inode × Int, result = .ok opened → service.decrypt stored =
          .ok (sessions.inodes opened.1) ∧ opened.2 = (sessions.inodes opened.1).length) world := by
  unfold decryptToTemp
  refine ensures_session.mpr fun env => ?_
  split
  · exact ⟨_, rfl, of_error⟩
  refine ensures_storage.mpr ?_
  simp only [LocalStorage.exec, hread]
  refine ensures_session.mpr fun _ => ?_
  split_ifs with hwritten
  rotate_left
  · exact ensures_session.mpr fun _ => ⟨_, rfl, of_error⟩
  refine ensures_session.mpr fun _ => ?_
  split
  · exact ensures_session.mpr fun _ => ⟨_, rfl, of_error⟩
  rename_i data hdata
  obtain rfl : stored = data :=
    Option.some.inj ((fileOf_of_writeTemp hwritten).symm.trans (fileOf_of_readTemp hdata))
  cases hplain : service.decrypt stored with
  | error cause => exact ensures_session.mpr fun _ => ⟨_, rfl, of_error⟩
  | ok plaintext =>
    refine ensures_session.mpr fun _ => ?_
    split_ifs with hcopied
    rotate_left
    · exact ensures_session.mpr fun _ => ⟨_, rfl, of_error⟩
    refine ensures_session.mpr fun _ => ensures_session.mpr fun _ => ?_
    split
    · exact ensures_session.mpr fun _ => ⟨_, rfl, of_error⟩
    rename_i file hfile
    refine ⟨_, rfl, ?_⟩
    rintro _ ⟨⟩
    have hne : TempName.downloadDecrypted sessionID ≠ .downloadEncrypted sessionID := by simp
    have hcopy := inodes_of_openTemp hfile
      ((fileOf_removeTemp hne).trans (fileOf_of_writeTemp hcopied))
    exact ⟨congrArg Except.ok hcopy.symm,
      congrArg (fun bytes : Bytes => (bytes.length : Int)) hcopy.symm⟩

/-! ### A session and its source -/

/-- The object of a session, the bytes it is to deliver and the decrypted copy of them, if there is
one. -/
structure Served where
  inst : Nat
  id : String
  address : Address
  path : Path
  content : Bytes
  copy : Option Inode

namespace Served

variable (served : Served)

def Describes (session : DownloadSession) : Prop :=
  session.filePath = served.path ∧ session.totalSize = served.content.length ∧
    session.decryptedFile = served.copy

structure Holds (world : World) : Prop where
  loaded : (world.sessions.instances served.inst).downloadSessions.lookup served.id =
    some served.address
  object : served.Describes (world.sessions.downloads served.address)
  source : served.copy.elim (world.storage.read served.path = .ok served.content)
    (world.sessions.inodes · = served.content)

/-- What every step of a chunk keeps. -/
def Keeps (world later : World) : Prop := served.Holds world → served.Holds later

variable {served} {α β : Type} {post : α → World → Prop} {env : Env}

theorem Keeps.refl (world : World) : served.Keeps world world := fun h => h

theorem Keeps.trans {later last : World} (h : served.Keeps world later)
    (hlast : served.Keeps later last) : served.Keeps world last := hlast ∘ h

theorem keeps_change (address : Address) (change : DownloadChange) : served.Keeps world
    { world with sessions := (world.sessions.exec env (.changeDownload address change)).2 } := by
  intro h
  refine ⟨h.loaded, ?_, h.source⟩
  simp only [exec, setDownload]
  by_cases heq : served.address = address
  · rw [heq, Function.update_self, ← heq]
    cases change <;> exact h.object
  · rw [Function.update_of_ne heq]
    exact h.object

theorem keeps_record (sessionID : String) (record : DownloadRecord) : served.Keeps world
    { world with sessions := (world.sessions.exec env (.setDownloadRecord sessionID record)).2 } := by
  intro h
  simp only [exec]
  split_ifs
  · exact h
  · exact ⟨h.loaded, h.object, h.source⟩

theorem ensures_prepareDownload {row : FileMetadata} {sessionID : String}
    (hsize : row.size = content.length) (hplain : world.plaintext crypto path = some content) :
    (prepareDownload crypto row path sessionID).Ensures handle (fun result after =>
      ∃ sessions, after = { world with sessions := sessions } ∧
        ∀ prepared : Int × Option Inode, result = .ok prepared → prepared.1 = content.length ∧
          prepared.2.elim (world.storage.read path = .ok content) (sessions.inodes · = content))
      world := by
  unfold plaintext at hplain
  cases hread : world.storage.read path with
  | error cause => rw [hread] at hplain; cases hplain
  | ok stored =>
    simp only [hread] at hplain
    cases crypto with
    | none =>
      refine ⟨_, rfl, ?_⟩
      rintro _ ⟨⟩
      exact ⟨hsize, congrArg Except.ok (Option.some.inj hplain)⟩
    | some service =>
      simp only [prepareDownload]
      split_ifs with henabled
      · refine (ensures_bind _ _ _ _ _).mpr ((ensures_decryptToTemp hread).mono _ ?_)
        rintro result _ ⟨sessions, rfl, hopened⟩
        cases result with
        | error cause => exact ⟨sessions, rfl, of_error⟩
        | ok opened =>
          obtain ⟨hdecrypt, hlength⟩ := hopened opened rfl
          simp only [hdecrypt] at hplain
          obtain rfl := Option.some.inj hplain
          refine ⟨sessions, rfl, ?_⟩
          rintro _ ⟨⟩
          exact ⟨hlength, rfl⟩
      · refine ⟨_, rfl, ?_⟩
        rintro _ ⟨⟩
        simp only [CryptoService.decrypt, if_neg henabled] at hplain
        exact ⟨hsize, congrArg Except.ok (Option.some.inj hplain)⟩

variable {ctx : Context} {filePath : Path} {clientID : String}

theorem ensures_createDownloadSession (hpath : normalizePath filePath = path)
    (hnormal : normalizePath path = path)
    (hsize : ∀ row, world.db.liveFile path = some row → row.size = content.length)
    (hplain : world.plaintext crypto path = some content) :
    (createDownloadSession crypto ctx filePath clientID).Ensures handle (fun result after =>
      ∀ id, result = .ok id → ∃ served : Served, served.inst = ctx.inst ∧ served.id = id ∧
        served.content = content ∧ served.Holds after) world := by
  simp only [createDownloadSession, FileMetadataService.getByPath, hpath, hnormal]
  refine ensures_sql.mpr fun env => ?_
  rw [Database.exec_fileByPath]
  cases hrow : world.db.liveFile path with
  | none => exact of_error
  | some row =>
    refine (ensures_bind _ _ _ _ _).mpr ((ensures_prepareDownload (hsize row hrow) hplain).mono _ ?_)
    rintro result _ ⟨sessions, rfl, hprepared⟩
    cases result with
    | error cause => exact of_error
    | ok prepared =>
      obtain ⟨hlength, hsource⟩ := hprepared prepared rfl
      refine ensures_session.mpr fun _ => ensures_session.mpr fun _ => ?_
      rintro _ ⟨⟩
      refine ⟨⟨ctx.inst, ctx.id, sessions.nextAddress, path, content, prepared.2⟩, rfl, rfl, rfl,
        keeps_record _ _ ⟨?_, ?_, hsource⟩⟩
      · simp [exec, setInstance, setDownload]
      · simp [exec, setInstance, setDownload, Describes, hlength, newDownloadSession]

/-! ### Chunks -/

theorem among_session {call : SessionCall β} {rest : β → Service α}
    (h : ∀ later, served.Keeps world later → ∀ env, served.Keeps later
        { later with sessions := (later.sessions.exec env call).2 } ∧
      (rest (later.sessions.exec env call).1).Among handle served.Keeps post
        { later with sessions := (later.sessions.exec env call).2 }) :
    (Service.session call >>= rest).Among handle served.Keeps post world := by
  rw [Service.session, perform_bind]
  rintro later hlater env reply after ⟨⟩
  exact h later hlater env

theorem among_readDownload {address : Address} {rest : DownloadSession → Service α}
    (h : ∀ later, served.Keeps world later →
      (rest (later.sessions.downloads address)).Among handle served.Keeps post later) :
    (Service.session (.readDownload address) >>= rest).Among handle served.Keeps post world :=
  among_session fun later hlater _ => ⟨.refl _, h later hlater⟩

variable (content) in
/-- What a chunk is to be. -/
def Slice (size offset : Int) (data : Bytes) : Prop :=
  0 ≤ offset ∧ offset < content.length ∧ data = (content.drop offset.toNat).take size.toNat

variable {size offset : Int}

theorem among_readDownloadChunk {current : DownloadSession} (h : served.Holds world)
    (hcurrent : served.Describes current) (hoffset : 0 ≤ offset) :
    (readDownloadChunk current size offset).Among handle served.Keeps (fun result _ =>
      ∀ data, result = .ok data →
        data = (served.content.drop offset.toNat).take size.toNat) world := by
  obtain ⟨hpath, -, hcopy⟩ := hcurrent
  unfold readDownloadChunk
  rw [hpath, hcopy]
  cases hsource : served.copy with
  | some file =>
    refine among_session fun later hlater env => ⟨.refl _, ?_⟩
    have hbytes := (hlater h).source
    rw [hsource, Option.elim_some] at hbytes
    simp only [exec, hbytes]
    split_ifs
    · exact among_done fun _ _ => of_error
    · exact among_done fun _ _ data hdata => (Except.ok.inj hdata).symm
  | none =>
    rw [Service.storage, perform_bind]
    rintro later hlater env reply after ⟨⟩
    refine ⟨.refl _, ?_⟩
    have hbytes := (hlater h).source
    rw [hsource] at hbytes
    obtain ⟨hvalid, hobject⟩ := LocalStorage.read_eq_ok.mp hbytes
    simp only [LocalStorage.exec]
    by_cases hsize : 0 < size
    · rw [LocalStorage.readAt_object hvalid hobject hsize hoffset]
      exact among_done fun _ _ data hdata => (Except.ok.inj hdata).symm
    · rw [LocalStorage.readAt, if_pos hvalid, if_pos (Int.not_lt.mp hsize)]
      exact among_done fun _ _ => of_error

theorem among_downloadChunk (h : served.Holds world) (hinst : ctx.inst = served.inst) :
    (downloadChunk ctx served.id size offset).Among handle served.Keeps
      (fun result _ => ∀ data, result = .ok data → Slice served.content size offset data) world := by
  unfold downloadChunk downloadSession
  rw [bind_bind, hinst]
  refine among_session fun first hfirst _ => ⟨.refl _, ?_⟩
  simp only [exec, (hfirst h).loaded]
  refine among_readDownload fun later hlater => ?_
  have hholds := hlater (hfirst h)
  split_ifs with hnegative hbeyond
  · exact among_done fun _ _ => of_error
  · exact among_done fun _ _ => of_error
  refine among_bind Keeps.refl ((among_readDownloadChunk hholds hholds.object
    (Int.not_lt.mp hnegative)).mono fun result _ hresult => ?_)
  cases result with
  | error cause => exact among_done fun _ _ => of_error
  | ok bytes =>
    have hslice : ∀ data, (Except.ok bytes : Except TransferError Bytes) = .ok data →
        Slice served.content size offset data := fun data hdata =>
      ⟨Int.not_lt.mp hnegative, hholds.object.2.1 ▸ Int.not_le.mp hbeyond, hresult data hdata⟩
    refine among_session fun _ _ _ => ⟨keeps_change _ _, ?_⟩
    refine among_session fun _ _ _ => ⟨keeps_change _ _, ?_⟩
    refine among_readDownload fun _ _ => ?_
    split_ifs
    · refine among_session fun _ _ _ => ⟨keeps_change _ _, ?_⟩
      exact among_session fun _ _ _ => ⟨keeps_record _ _, among_done fun _ _ => hslice⟩
    · exact among_done fun _ _ => hslice

/-! ### Any interleaving -/

structure SegmentCall where
  ctx : Context
  size : Int
  offset : Int

def SegmentCall.program (sessionID : String) (call : SegmentCall) :
    Service (Except TransferError Bytes) :=
  downloadChunk call.ctx sessionID call.size call.offset

variable {T : Type} (labels : List (Label T SegmentCall (Except TransferError Bytes)))

/-- Chunks that were returned, each for the offset at which the one before it ends, up to the end. -/
def Returned (length : Nat) : Nat → List Bytes → Prop
  | offset, [] => offset = length
  | offset, data :: later =>
    (∃ task ctx size, .finish task ⟨ctx, size, offset⟩ (.ok data) ∈ labels) ∧
      Returned length (offset + data.length) later

variable {labels}

theorem Returned.flatten {offset : Nat} {chunks : List Bytes}
    (h : Returned labels content.length offset chunks)
    (hslice : ∀ task call data, .finish task call (.ok data) ∈ labels →
      Slice content call.size call.offset data) :
    chunks.flatten = content.drop offset := by
  induction chunks generalizing offset with
  | nil =>
    obtain rfl : offset = content.length := h
    exact List.drop_length.symm
  | cons chunk later ih =>
    obtain ⟨⟨task, ctx, size, hmem⟩, hlater⟩ := h
    have hfront : chunk <+: content.drop offset := by
      rw [(hslice task _ _ hmem).2.2]
      exact List.take_prefix _ _
    rw [List.flatten_cons, ih hlater, ← List.drop_drop]
    exact List.prefix_iff_eq_append.mp hfront

/-- Once the session has been made, in every interleaving of calls for it a chunk that is returned is
the slice that was asked for, and chunks from the start to the end make up the file. -/
theorem downloadSession_reassembles [DecidableEq T] {id : String}
    {config last : Config Call World T SegmentCall (Except TransferError Bytes)}
    (hpath : normalizePath filePath = path) (hnormal : normalizePath path = path)
    (hsize : ∀ row, world.db.liveFile path = some row → row.size = content.length)
    (hplain : world.plaintext crypto path = some content)
    (hcreate : (createDownloadSession crypto ctx filePath clientID).Runs handle world (.ok id)
      config.shared) (hidle : ∀ task, config.task task = .idle)
    (htrace : Trace (fun state label after =>
        (∀ task call, label = .start task call → call.ctx.inst = ctx.inst) ∧
        Move handle (SegmentCall.program id) state label after) config labels last) :
    (∀ task call data, .finish task call (.ok data) ∈ labels →
      Slice content call.size call.offset data) ∧
    ∀ chunks, Returned labels content.length 0 chunks → chunks.flatten = content := by
  obtain ⟨served, hinst, rfl, rfl, h⟩ :=
    (ensures_createDownloadSession hpath hnormal hsize hplain).of_runs _ hcreate id rfl
  have hslice : ∀ task call data, .finish task call (.ok data) ∈ labels →
      Slice served.content call.size call.offset data := by
    -- the call that finishes last has kept to `Keeps` among all the steps before
    induction htrace with
    | nil => exact fun _ _ _ hmem => nomatch hmem
    | snoc hpast hlast ih =>
      intro task call data hmem
      rcases List.mem_append.mp hmem with hmem | hmem
      · exact ih task call data hmem
      · obtain rfl := List.mem_singleton.mp hmem
        have hamong := (hpast.among Keeps.refl Keeps.trans (Config.Each.of_idle hidle)
          fun hkeeps hstart => among_downloadChunk (hkeeps h) ((hstart _ _ rfl).trans hinst.symm)).2
        exact hamong.finish Keeps.refl hlast.2 data rfl
  exact ⟨hslice, fun chunks hchunks => hchunks.flatten hslice⟩

def startsOn (inst : Nat) (_ : Config Call World T SegmentCall (Except TransferError Bytes)) :
    Label T SegmentCall (Except TransferError Bytes) → Bool
  | .start _ request => request.ctx.inst = inst
  | _ => true

theorem call_of_startsOn {inst : Nat}
    {config : Config Call World T SegmentCall (Except TransferError Bytes)}
    {label : Label T SegmentCall (Except TransferError Bytes)} (h : startsOn inst config label = true)
    (task : T) (call : SegmentCall) (hlabel : label = .start task call) : call.ctx.inst = inst := by
  subst hlabel
  exact of_decide_eq_true h

/-- Two calls go on in turns, and the second one asks for more than is left. -/
def chunksInTurns : List (Turn Env Bool SegmentCall) :=
  [.start false ⟨.sample 2 "", 2, 0⟩, .start true ⟨.sample 3 "", 2, 2⟩] ++
    (List.replicate 6 [.step false .textual, .step true .textual]).flatten ++
    [.finish false, .finish true]

theorem downloadSession_reassembles_threeBytes : ∃ world labels,
    ∃ config last : Config Call World Bool SegmentCall (Except TransferError Bytes),
      (createDownloadSession none (.sample 1 "s") ['f'] "").Runs handle world (.ok "s")
        config.shared ∧
      Trace (Move handle (SegmentCall.program "s")) config labels last ∧
      Returned labels 3 0 [[1, 2], [3]] ∧ [[1, 2], [3]].flatten = ([1, 2, 3] : Bytes) := by
  obtain ⟨reply, world, row, created, labels, last, -, hlive, hsize, hplain, hcreate, hplay,
      hfirst, hsecond⟩ :
      ∃ reply world row created labels last,
        (FileManager.uploadFile (fun _ => "") (.sample 0 "f") ['f'] [1, 2, 3]).run handle .textual
          (initial .postgresql [['r']]) = some (reply, world) ∧
        world.db.liveFile ['f'] = some row ∧ row.size = 3 ∧
        world.plaintext none ['f'] = some [1, 2, 3] ∧
        (createDownloadSession none (.sample 1 "s") ['f'] "").run handle .textual world
          = some (.ok "s", created) ∧
        (Config.mk created fun _ => .idle).play handle (SegmentCall.program "s")
          (startsOn (Context.sample 1 "s").inst) chunksInTurns = some (labels, last) ∧
        labels[14]? = some (.finish false ⟨.sample 2 "", 2, 0⟩ (.ok [1, 2])) ∧
        labels[15]? = some (.finish true ⟨.sample 3 "", 2, 2⟩ (.ok [3])) :=
    ⟨_, _, _, _, _, _, rfl, rfl, rfl, rfl, rfl, rfl, rfl, rfl⟩
  have hreturned : Returned labels 3 0 [[1, 2], [3]] :=
    ⟨⟨_, _, _, List.mem_of_getElem? hfirst⟩, ⟨_, _, _, List.mem_of_getElem? hsecond⟩, rfl⟩
  have htrace := (Config.trace_of_play hplay).mono fun hstep =>
    And.imp_left call_of_startsOn hstep
  refine ⟨world, labels, _, last, runs_of_run _ hcreate, htrace.mono And.right, hreturned, ?_⟩
  refine (downloadSession_reassembles rfl rfl ?_ hplain (runs_of_run _ hcreate) (fun _ => rfl)
    htrace).2 _ hreturned
  intro other hother
  exact Option.some.inj (hlive.symm.trans hother) ▸ hsize

end Served

end FsServer
