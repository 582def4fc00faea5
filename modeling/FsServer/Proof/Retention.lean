import FsServer.Cleanup
import FsServer.Lib.Interleaving
import FsServer.Proof.SlotRuns
import FsServer.Proof.Subtrees

/-!
# The retention sweep among uploads

A sweep works from the list it has selected and takes no lock, so what counts is the list: as long as
no row comes to life at a place that a sweep has still to remove, it removes nothing that belongs to a
live row. An upload that takes over a row of the list in the meantime loses its object.
-/

namespace FsServer

open Lib Program Service LocalStorage CleanupService World

variable {α β : Type}

inductive RetentionCall where
  | cleanup (cutoff : String)
  | uploadFile (ctx : Context) (path : Path) (data : Bytes)
  | completeUpload (ctx : Context) (sessionID : String)

def RetentionCall.service (sha256 : Bytes → String) (crypto : Option CryptoService) :
    RetentionCall → Service Bool
  | .cleanup cutoff => do
    CleanupService.cleanup cutoff
    return true
  | .uploadFile ctx path data => do
    return (← FileManager.uploadFile sha256 ctx path data).isOk
  | .completeUpload ctx sessionID => do
    return (← FileTransferService.completeUpload sha256 crypto ctx sessionID).isOk

/-! ### The list of a sweep -/

/-- The paths that the rest of a sweep is going to remove. -/
def waiting : Service α → List Path
  | .call (.storage (.remove path)) next => path :: waiting (next (.ok ()))
  | .call (.sql (.permanentlyDeleteFile _)) next => waiting (next (.ok ()))
  | _ => []

/-- The path of the row that the next call of the program writes. -/
def written : Service α → Option Path
  | .call (.sql (.insertFile row)) _ => some row.path
  | .call (.sql (.restoreFile row)) _ => some row.path
  | .call (.sql (.updateFile row)) _ => some row.path
  | _ => none

def Selects : Service α → Prop
  | .call (.sql (.deletedFiles _)) _ => True
  | _ => False

/-- The paths that the reply of a call adds to the list. -/
def selected : {β : Type} → Call β → β → List Path
  | _, .sql (.deletedFiles _), .ok entries => entries.map Entry.path
  | _, _, _ => []

def OnSweep : ∀ β : Type, Call β → Prop
  | _, .storage (.remove _) => True
  | _, .sql (.deletedFiles _) | _, .sql (.permanentlyDeleteFile _) => True
  | _, .sql (.deletedDirectories _) | _, .sql (.permanentlyDeleteDirectory _) => True
  | _, _ => False

/-- Whatever its calls answer, the list of the program grows by what is selected only. -/
def Dwindles : Service α → Prop
  | .done _ => True
  | .call operation next => OnSweep _ operation ∧ ∀ reply,
      waiting (next reply) ⊆ selected operation reply ++ waiting (.call operation next) ∧
        Dwindles (next reply)

theorem dwindles_sweepDirectories (entries : List Entry) (rest : Unit → Service α)
    (hrest : Dwindles (rest ())) (hnone : waiting (rest ()) = []) :
    Dwindles (sweepDirectories entries >>= rest) ∧
      waiting (sweepDirectories entries >>= rest) = [] := by
  induction entries with
  | nil => exact ⟨hrest, hnone⟩
  | cons entry entries ih =>
    refine ⟨⟨trivial, fun _ => ⟨?_, ih.1⟩⟩, rfl⟩
    change waiting (sweepDirectories entries >>= rest) ⊆ _
    rw [ih.2]
    exact List.nil_subset _

def goesOn : Except StorageError Unit → Bool
  | .ok () => true
  | .error cause => cause.isNotExist

theorem sweepFiles_cons (entry : Entry) (entries : List Entry) (rest : Unit → Service α) :
    (sweepFiles (entry :: entries) >>= rest) =
      .call (.storage (.remove entry.path)) fun reply =>
        if goesOn reply then
          .call (.sql (.permanentlyDeleteFile entry.id)) fun _ =>
            sweepFiles entries >>= rest
        else sweepFiles entries >>= rest := by
  change call _ _ = _
  congr 1
  funext reply
  match reply with
  | .ok () => rfl
  | .error cause =>
    change ((if cause.isNotExist = true then _ else _ : Service Unit) >>= rest) = _
    by_cases hmissing : cause.isNotExist = true
    · rw [if_pos hmissing, if_pos (show goesOn (.error cause) = true from hmissing)]
      rfl
    · rw [if_neg hmissing, if_neg (show ¬ goesOn (.error cause) = true from hmissing)]

theorem waiting_sweepFiles (entries : List Entry) (rest : Unit → Service α) :
    waiting (sweepFiles entries >>= rest) =
      entries.map Entry.path ++ waiting (rest ()) := by
  induction entries with
  | nil => rfl
  | cons entry entries ih => exact congrArg (entry.path :: ·) ih

theorem dwindles_sweepFiles (entries : List Entry) {rest : Unit → Service α}
    (hrest : Dwindles (rest ())) : Dwindles (sweepFiles entries >>= rest) := by
  induction entries with
  | nil => exact hrest
  | cons entry entries ih =>
    have hlater : waiting (sweepFiles entries >>= rest) ⊆
        waiting (sweepFiles (entry :: entries) >>= rest) := by
      rw [waiting_sweepFiles, waiting_sweepFiles]
      exact List.subset_cons_self _ _
    rw [sweepFiles_cons] at hlater ⊢
    refine ⟨trivial, fun reply => ?_⟩
    by_cases hgone : goesOn reply = true
    · simp only [if_pos hgone]
      exact ⟨hlater, trivial, fun _ => ⟨List.Subset.refl _, ih⟩⟩
    · simp only [if_neg hgone]
      exact ⟨hlater, ih⟩

theorem dwindles_cleanup (sha256 : Bytes → String) (crypto : Option CryptoService) (cutoff : String) :
    Dwindles ((RetentionCall.cleanup cutoff).service sha256 crypto) := by
  refine ⟨trivial, fun reply => ?_⟩
  cases reply with
  | error cause => exact ⟨List.nil_subset _, trivial⟩
  | ok entries =>
    change waiting ((sweepFiles entries >>= _) >>= _) ⊆ _ ∧
      Dwindles ((sweepFiles entries >>= _) >>= _)
    rw [bind_bind, waiting_sweepFiles]
    refine ⟨List.Subset.refl _, dwindles_sweepFiles entries ⟨trivial, fun reply => ?_⟩⟩
    cases reply with
    | error cause => exact ⟨List.nil_subset _, trivial⟩
    | ok directories =>
      have hlast := dwindles_sweepDirectories directories
        (fun _ => (pure true : Service Bool)) trivial rfl
      refine ⟨?_, hlast.1⟩
      change waiting (sweepDirectories directories >>= _) ⊆ _
      rw [hlast.2]
      exact List.nil_subset _

/-! ### What a step does to the live rows -/

/-- A call that gives no row another path, unless it is the row it writes. -/
def KeepsPaths : ∀ β : Type, Call β → Prop
  | _, .sql (.renameAll ..) => False
  | _, _ => True

def Call.writes : {β : Type} → Call β → Option Path
  | _, .sql (.insertFile row) | _, .sql (.restoreFile row) | _, .sql (.updateFile row) =>
    some row.path
  | _, _ => none

variable {operation : Call β}

variable {next : β → Service α}

theorem written_call : written (.call operation next) = operation.writes := by
  cases operation with
  | sql statement => cases statement <;> rfl
  | storage call | session call | lock call | move call => rfl

/-- Every live row was live before under its path, or it is the one that is written. -/
def Grows (db after : Database) (path : Option Path) : Prop :=
  ∀ row ∈ after.files.rows, row.isDeleted = false →
    (∃ old ∈ db.files.rows, old.isDeleted = false ∧ old.path = row.path) ∨ path = some row.path

theorem Grows.refl (db : Database) (path : Option Path) : Grows db db path :=
  fun row hrow hlive => Or.inl ⟨row, hrow, hlive, rfl⟩

theorem grows_update {db : Database} {select : FileMetadata → Bool}
    {change : FileMetadata → FileMetadata} {path : Option Path}
    (hchange : ∀ row ∈ db.files.rows, select row = true → (change row).isDeleted = false →
      path = some (change row).path) :
    Grows db (db.onFiles (db.files.update select change)).2 path := by
  cases hresult : db.files.update select change with
  | error violation => exact Grows.refl db path
  | ok files =>
    intro row hrow hlive
    change row ∈ files.rows at hrow
    rw [Table.rows_of_ofRows hresult, List.mem_map] at hrow
    obtain ⟨old, hold, rfl⟩ := hrow
    by_cases hselect : select old = true
    · rw [if_pos hselect] at hlive ⊢
      exact Or.inr (hchange old hold hselect hlive)
    · rw [if_neg hselect] at hlive ⊢
      exact Or.inl ⟨old, hold, hlive, rfl⟩

theorem grows_sql (db : Database) (env : Env) {statement : SqlCall β}
    (hkeeps : KeepsPaths _ (.sql statement)) :
    Grows db (db.exec env statement).2 (Call.writes (.sql statement)) := by
  cases statement with
  | renameAll => exact hkeeps.elim
  | restoreFile new =>
    refine grows_update fun row _ hselect _ => ?_
    exact congrArg some (of_decide_eq_true hselect).symm
  | updateFile new => exact grows_update fun _ _ _ _ => rfl
  | removeFile | removeFiles => exact grows_update fun _ _ _ hlive => by cases hlive
  | permanentlyDeleteFile id =>
    intro row hrow hlive
    exact Or.inl ⟨row, (List.mem_filter.mp hrow).1, hlive, rfl⟩
  | insertFile new =>
    simp only [Database.exec]
    cases hresult : db.files.insert new with
    | error violation => exact Grows.refl db _
    | ok files =>
      intro row hrow hlive
      change row ∈ files.rows at hrow
      rw [Table.rows_of_ofRows hresult, List.mem_append, List.mem_singleton] at hrow
      rcases hrow with hrow | rfl
      · exact Or.inl ⟨row, hrow, hlive, rfl⟩
      · exact Or.inr rfl
  | restoreDirectory | insertDirectory | removeDirectory | removeDirectories =>
    simp only [Database.exec, Database.onDirectories]
    split
    · exact Grows.refl db _
    · exact Grows.refl db _
  | _ => exact Grows.refl db _

/-! The root of the storage stays where it is. -/

variable {path : Path}

namespace LocalStorage

variable {storage after : LocalStorage}

theorem apply_rootDir {result : Except StorageError LocalStorage}
    (h : ∀ changed, result = .ok changed → changed.rootDir = storage.rootDir) :
    (storage.apply result).2.rootDir = storage.rootDir := by
  cases result with
  | ok changed => exact h changed rfl
  | error cause => rfl

theorem place_rootDir {data : Bytes} {failed : OsError → StorageError}
    (h : storage.place path data failed = .ok after) : after.rootDir = storage.rootDir :=
  (place_ok h).rootDir

theorem exec_rootDir (storage : LocalStorage) (request : StorageCall β) :
    (storage.exec request).2.rootDir = storage.rootDir := by
  cases request with
  | write path data => exact apply_rootDir fun changed h => place_rootDir h
  | writeFromReader path reader =>
    simp only [exec]
    cases hresult : storage.writeFromReader path reader.data with
    | ok written => exact place_rootDir hresult
    | error cause => rfl
  | read | readAt | getSize => rfl
  | remove path =>
    refine apply_rootDir fun changed h => ?_
    unfold remove at h
    split at h
    · split at h
      · cases h
        rfl
      · cases h
    · cases h
  | rename oldPath newPath =>
    rcases storage.exec_rename oldPath newPath with hsame | hmoved
    · exact hsame.rootDir
    · exact hmoved.rootDir
  | createDirectory path =>
    refine apply_rootDir fun changed h => ?_
    unfold createDirectory at h
    split at h
    · split at h
      · cases h
        rfl
      · cases h
    · cases h
  | removeDirectory path =>
    refine apply_rootDir fun changed h => ?_
    unfold removeDirectory at h
    split at h
    · split at h
      · cases h
        rfl
      · cases h
    · cases h

end LocalStorage

theorem writeFromTempFile_rootDir (world : World) (path : Path) (temp : TempName) :
    (world.writeFromTempFile path temp).2.storage.rootDir = world.storage.rootDir ∧
      (world.writeFromTempFile path temp).2.db = world.db := by
  unfold World.writeFromTempFile
  split_ifs
  · split
    · split
      · rename_i hresult
        exact ⟨place_rootDir hresult, rfl⟩
      · exact ⟨rfl, rfl⟩
    · split <;> exact ⟨rfl, rfl⟩
  · exact ⟨rfl, rfl⟩
  · exact ⟨rfl, rfl⟩

def World.Clear (world : World) (path : Path) : Prop :=
  ∀ row ∈ world.db.files.rows, row.isDeleted = false →
    world.storage.getFullPath row.path ≠ world.storage.getFullPath path

variable {world : World} {env : Env} {reply : β}

/-- One call of any program: the storage stays where it is, and live rows come from it only where it
writes one. -/
theorem handle_grows {after : World} (hkeeps : KeepsPaths _ operation)
    (hcall : handle _ env operation world = some (reply, after)) :
    after.storage.rootDir = world.storage.rootDir ∧ Grows world.db after.db operation.writes := by
  cases operation with
  | storage request =>
    cases hcall
    exact ⟨exec_rootDir _ _, Grows.refl _ _⟩
  | sql statement =>
    cases hcall
    exact ⟨rfl, grows_sql world.db env hkeeps⟩
  | session request =>
    cases hcall
    exact ⟨rfl, Grows.refl _ _⟩
  | lock request =>
    have hsame : after.storage = world.storage ∧ after.db = world.db := by
      cases request with
      | acquireMutex key token =>
        simp only [handle, lockExec] at hcall
        split_ifs at hcall
        cases hcall
        exact ⟨rfl, rfl⟩
      | acquire key token =>
        simp only [handle, lockExec] at hcall
        split_ifs at hcall <;> cases hcall <;> exact ⟨rfl, rfl⟩
      | unlock key token =>
        cases hcall
        split_ifs <;> exact ⟨rfl, rfl⟩
    rw [hsame.1, hsame.2]
    exact ⟨rfl, Grows.refl _ _⟩
  | move request =>
    cases request with
    | writeFromTempFile path temp =>
      have hafter : (world.writeFromTempFile path temp).2 = after :=
        congrArg Prod.snd (Option.some.inj hcall)
      obtain ⟨hroot, hdb⟩ := writeFromTempFile_rootDir world path temp
      rw [hafter] at hroot hdb
      rw [hdb]
      exact ⟨hroot, Grows.refl _ _⟩

theorem World.Clear.step {after : World} (h : world.Clear path) (hkeeps : KeepsPaths _ operation)
    (hcall : handle _ env operation world = some (reply, after))
    (hapart : ∀ new, operation.writes = some new →
      world.storage.getFullPath path ≠ world.storage.getFullPath new) : after.Clear path := by
  obtain ⟨hroot, hgrows⟩ := handle_grows hkeeps hcall
  intro row hrow hlive
  rw [getFullPath_congr hroot]
  rcases hgrows row hrow hlive with ⟨old, hold, holdLive, hpath⟩ | hnew
  · rw [← hpath]
    exact h old hold holdLive
  · exact Ne.symm (hapart row.path hnew)

/-! ### The calls of an upload -/

theorem KeepsPaths.of_onFiles (h : OnFiles β operation) : KeepsPaths β operation := by
  cases operation with
  | sql statement =>
    cases statement with
    | renameAll => cases h
    | _ => trivial
  | storage request | session request | lock request | move request => trivial

theorem KeepsPaths.of_onSession (h : OnSession β operation) : KeepsPaths β operation := by
  cases operation with
  | session request => trivial
  | storage request | sql request | lock request | move request => cases h

theorem KeepsPaths.of_onSweep (h : OnSweep β operation) : KeepsPaths β operation := by
  cases operation with
  | sql statement =>
    cases statement with
    | renameAll => cases h
    | _ => trivial
  | storage request | session request | lock request | move request => trivial

namespace FileTransferService

variable (sha256 : Bytes → String) (crypto : Option CryptoService)

theorem keepsPaths_uploadSession (inst : Nat) (sessionID : String) :
    (uploadSession inst sessionID).Only KeepsPaths := by
  unfold uploadSession
  refine only_call trivial fun found => ?_
  cases found with
  | some address => trivial
  | none =>
    refine only_call trivial fun record => ?_
    cases record with
    | none => trivial
    | some record => exact only_call trivial fun _ => only_call trivial fun _ => trivial

theorem keepsPaths_discardUpload (inst : Nat) (sessionID : String) :
    (discardUpload inst sessionID).Only KeepsPaths :=
  only_call trivial fun _ => only_call trivial fun _ => trivial

theorem keepsPaths_storeUpload (ctx : Context) (address : Address) (current : UploadSession)
    (sessionID : String) (hashVerified : Bool) (temp : TempName) (hash : String) :
    (storeUpload ctx address current sessionID hashVerified temp hash).Only KeepsPaths := by
  unfold storeUpload
  refine only_call trivial fun moved => ?_
  cases moved with
  | error cause =>
    exact only_call trivial fun _ => only_bind (keepsPaths_discardUpload _ _) fun _ => trivial
  | ok done =>
    refine only_bind ((onFiles_recordUpload ..).mono KeepsPaths.of_onFiles) fun recorded => ?_
    cases recorded with
    | error cause => exact only_bind (keepsPaths_discardUpload _ _) fun _ => trivial
    | ok metadata =>
      refine only_call trivial fun _ => only_bind (keepsPaths_discardUpload _ _) fun _ => ?_
      exact only_call trivial fun _ => only_call trivial fun _ => trivial

theorem keepsPaths_finishUpload (ctx : Context) (address : Address) (current : UploadSession)
    (sessionID : String) :
    (finishUpload sha256 crypto ctx address current sessionID).Only KeepsPaths := by
  unfold finishUpload
  refine only_call trivial fun outcome => ?_
  cases outcome with
  | syncFailed =>
    exact only_call trivial fun _ => only_bind (keepsPaths_discardUpload _ _) fun _ => trivial
  | closeFailed => exact only_bind (keepsPaths_discardUpload _ _) fun _ => trivial
  | closed =>
    refine only_bind ((onSession_verifyHash sha256 _ _ _).mono KeepsPaths.of_onSession)
      fun verified => ?_
    cases verified with
    | error cause =>
      exact only_call trivial fun _ => only_bind (keepsPaths_discardUpload _ _) fun _ => trivial
    | ok hashVerified =>
      refine only_bind ((onSession_encryptTempFile sha256 crypto _ _ _).mono
        KeepsPaths.of_onSession) fun encrypted => ?_
      match encrypted with
      | .error cause => exact only_bind (keepsPaths_discardUpload _ _) fun _ => trivial
      | .ok (temp, hash) =>
        refine only_call trivial fun locked => ?_
        cases locked with
        | true =>
          refine only_bind (keepsPaths_storeUpload _ _ _ _ _ _ _) fun _ => ?_
          exact only_call trivial fun _ => trivial
        | false =>
          refine only_call trivial fun _ => ?_
          exact only_bind (keepsPaths_discardUpload _ _) fun _ => trivial

theorem keepsPaths_completeUpload (ctx : Context) (sessionID : String) :
    (completeUpload sha256 crypto ctx sessionID).Only KeepsPaths := by
  unfold completeUpload
  refine only_bind (keepsPaths_uploadSession _ _) fun found => ?_
  cases found with
  | none => trivial
  | some address =>
    refine only_call trivial fun current => ?_
    split_ifs
    · exact only_call trivial fun _ => trivial
    · exact only_call trivial fun _ => keepsPaths_finishUpload sha256 crypto _ _ _ _

end FileTransferService

theorem keepsPaths_uploadFile (sha256 : Bytes → String) (ctx : Context) (path : Path)
    (data : Bytes) : (FileManager.uploadFile sha256 ctx path data).Only KeepsPaths :=
  (onFiles_withFileLock ctx _ (onFiles_uploadFileBody sha256 ctx _ data)).mono
    KeepsPaths.of_onFiles

/-! ### Any interleaving -/

/-- No live row shares its place in the storage with a deleted one. -/
def World.Unshared (world : World) : Prop :=
  ∀ row ∈ world.db.files.rows, row.isDeleted = false →
    ∀ dead ∈ world.db.files.rows, dead.isDeleted = true →
      world.storage.getFullPath row.path ≠ world.storage.getFullPath dead.path

variable {T : Type}

/-- A sweep that selects its list finds no live row at the place of a deleted one; a call that
writes a row, no sweep that still has its place on the list. -/
def Spares (config : Config Call World T RetentionCall Bool) : Label T RetentionCall Bool → Prop
  | .step task => ∀ request rest, config.task task = .working request rest →
      (Selects rest → config.shared.Unshared) ∧
      ∀ path, written rest = some path → ∀ other cutoff left,
        config.task other = .working (.cleanup cutoff) left → ∀ doomed ∈ waiting left,
          config.shared.storage.getFullPath doomed ≠ config.shared.storage.getFullPath path
  | _ => True

/-- What holds of every call in progress: no live row is at a place on the list of a sweep. -/
def SparesLive : RetentionCall → Service Bool → World → Prop
  | .cleanup _, rest, world => Dwindles rest ∧ ∀ path ∈ waiting rest, world.Clear path
  | _, rest, _ => rest.Only KeepsPaths

theorem clear_selected {after : World} (hshared : Selects (.call operation next) → world.Unshared)
    (hcall : handle _ env operation world = some (reply, after))
    (hpath : path ∈ selected operation reply) : after.Clear path := by
  cases operation with
  | storage request | session request | lock request | move request => cases hpath
  | sql statement =>
    cases statement with
    | deletedFiles cutoff =>
      cases hcall
      obtain ⟨entry, hentry, rfl⟩ := List.mem_map.mp hpath
      rw [(env.scan_perm _).mem_iff, List.mem_map] at hentry
      obtain ⟨dead, hdead, rfl⟩ := hentry
      rw [Table.select, List.mem_filter, Bool.and_eq_true] at hdead
      exact fun row hrow hlive => hshared trivial row hrow hlive dead hdead.1 hdead.2.1
    | _ => cases hpath

section Interleaving

variable [DecidableEq T] (sha256 : Bytes → String) (crypto : Option CryptoService)

theorem sparesLive_start (request : RetentionCall) (world : World) :
    SparesLive request (request.service sha256 crypto) world := by
  cases request with
  | cleanup cutoff => exact ⟨dwindles_cleanup sha256 crypto cutoff, fun path hpath => (nomatch hpath)⟩
  | uploadFile ctx path data =>
    exact only_bind (keepsPaths_uploadFile sha256 ctx path data) fun _ => trivial
  | completeUpload ctx sessionID =>
    exact only_bind (FileTransferService.keepsPaths_completeUpload sha256 crypto ctx sessionID)
      fun _ => trivial

variable {config after : Config Call World T RetentionCall Bool}

omit [DecidableEq T] in
theorem SparesLive.keepsPaths {request : RetentionCall} {next : β → Service Bool}
    (h : SparesLive request (.call operation next) world) : KeepsPaths _ operation := by
  cases request with
  | cleanup cutoff => exact KeepsPaths.of_onSweep h.1.1
  | uploadFile | completeUpload => exact h.1

theorem sparesLive_move {label : Label T RetentionCall Bool} (h : config.Each SparesLive)
    (hspares : Spares config label)
    (hmove : Move handle (RetentionCall.service sha256 crypto) config label after) :
    after.Each SparesLive := by
  refine h.move hmove (fun _ request _ => sparesLive_start sha256 crypto request _) ?_
  rintro task request left rfl ⟨β, operation, next, env, reply, hworking, hcall, rfl⟩
  obtain ⟨hselects, hwrites⟩ := hspares request _ hworking
  have hbefore := h task request _ hworking
  have hkeeps := hbefore.keepsPaths
  -- the lists of all sweeps stay clear
  have hclear : ∀ other cutoff left, config.task other = .working (.cleanup cutoff) left →
      ∀ path ∈ waiting left, after.shared.Clear path := by
    intro other cutoff left hother path hpath
    refine ((h other _ left hother).2 path hpath).step hkeeps hcall fun new hnew => ?_
    exact hwrites new (written_call.trans hnew) other cutoff left hother path hpath
  refine ⟨?_, fun other request' rest hother => ?_⟩
  · cases request with
    | cleanup cutoff =>
      obtain ⟨hlist, hrest⟩ := hbefore.1.2 reply
      refine ⟨hrest, fun path hpath => ?_⟩
      rcases List.mem_append.mp (hlist hpath) with hnew | hold
      · exact clear_selected hselects hcall hnew
      · exact hclear task cutoff _ hworking path hold
    | uploadFile | completeUpload => exact hbefore.2 reply
  · cases request' with
    | cleanup cutoff => exact ⟨(h other _ rest hother).1, hclear other cutoff rest hother⟩
    | uploadFile | completeUpload => exact h other _ rest hother

theorem object_remove {storage : LocalStorage} {other : Path}
    (hne : storage.getFullPath other ≠ storage.getFullPath path) :
    (storage.exec (.remove path)).2.object other = storage.object other := by
  simp only [exec, remove]
  split_ifs
  · cases hremoved : storage.tree.remove (storage.getFullPath path) with
    | error cause => rfl
    | ok tree => exact FileTree.fileAt_of_node_update (FileTree.remove_ok hremoved) hne
  · rfl

/-- As long as every step finds what it has to find, no step of a sweep changes the object of a path
with a live row. -/
theorem cleanup_spares_live {start : Config Call World T RetentionCall Bool}
    {labels : List (Label T RetentionCall Bool)} {task : T} {cutoff : String} {rest : Service Bool}
    (hidle : ∀ task, start.task task = .idle)
    (htrace : Trace (fun config label after => Spares config label ∧
      Move handle (RetentionCall.service sha256 crypto) config label after) start labels config)
    (hsweep : config.task task = .working (.cleanup cutoff) rest)
    (hstep : Move handle (RetentionCall.service sha256 crypto) config (.step task) after)
    (path : Path) (hlive : config.shared.db.liveFile path ≠ none) :
    after.shared.storage.object path = config.shared.storage.object path := by
  have heach : config.Each SparesLive :=
    htrace.invariant _ (Config.Each.of_idle hidle) fun h hmove =>
      sparesLive_move sha256 crypto h hmove.1 hmove.2
  cases hstep with
  | @step _ request β operation next reply final env hworking hcall =>
    rw [hsweep] at hworking
    cases hworking
    obtain ⟨⟨hsweeps, -⟩, hclear⟩ := heach task _ _ hsweep
    cases operation with
    | sql statement =>
      cases hcall
      rfl
    | storage request =>
      cases request with
      | remove doomed =>
        cases hcall
        obtain ⟨row, hrow⟩ := Option.ne_none_iff_exists'.mp hlive
        obtain ⟨hfound, hrowLive⟩ := Database.liveFile_eq_some.mp hrow
        obtain ⟨hmem, rfl⟩ := Table.atPath_eq_some.mp hfound
        exact object_remove (hclear doomed List.mem_cons_self row hmem hrowLive)
      | _ => cases hsweeps
    | session request | lock request | move request => cases hsweeps

end Interleaving

/-! ### A sweep of one row -/

def yearLater : String := "2025-01-01 00:00:00"

def deletedEntry : Entry := ⟨"a", ['a']⟩

def uploadThen (id : String) (path : Path) (rest : Service (Except FileError Unit)) :
    Service (Except FileError Unit) := do
  let _ ← FileManager.uploadFile (fun _ => "") (.sample 1 id) path [97]
  rest

theorem cleanup_calls : ∃ next last,
    (RetentionCall.cleanup yearLater).service (fun _ => "") none =
      .call (.sql (.deletedFiles yearLater)) next ∧
    next (.ok [deletedEntry]) = .call (.storage (.remove ['a'])) last ∧
    waiting (.call (.storage (.remove ['a'])) last) = [['a']] := ⟨_, _, rfl, rfl, rfl⟩

theorem unshared_of_rows {columns : List (Path × Bool)}
    (hrows : world.db.files.rows.map (fun row => (row.path, row.isDeleted)) = columns)
    (h : ∀ live ∈ columns, live.2 = false → ∀ dead ∈ columns, dead.2 = true →
      world.storage.getFullPath live.1 ≠ world.storage.getFullPath dead.1) : world.Unshared := by
  subst hrows
  intro row hrow hlive dead hdead hgone
  exact h _ (List.mem_map_of_mem hrow) hlive _ (List.mem_map_of_mem hdead) hgone

/-- The sweep by one of two tasks up to its list. -/
theorem cleanup_selects {next : Except SqlError (List Entry) → Service Bool}
    (hnext : (RetentionCall.cleanup yearLater).service (fun _ => "") none =
      .call (.sql (.deletedFiles yearLater)) next)
    (hselect : handle _ .textual (.sql (.deletedFiles yearLater)) world =
      some (.ok [deletedEntry], world)) (hunshared : world.Unshared) :
    Trace (fun config label after => Spares config label ∧
        Move handle (RetentionCall.service (fun _ => "") none) config label after)
      (⟨world, fun _ => .idle⟩ : Config Call World Bool RetentionCall Bool)
      [.start false (.cleanup yearLater), .step false]
      ((⟨world, fun _ => .idle⟩ : Config Call World Bool RetentionCall Bool).next false
        (.working (.cleanup yearLater) (next (.ok [deletedEntry]))) world) := by
  have hstart : Move handle (RetentionCall.service (fun _ => "") none)
      (⟨world, fun _ => .idle⟩ : Config Call World Bool RetentionCall Bool)
      (.start false (.cleanup yearLater)) _ := .start rfl
  rw [hnext] at hstart
  have hstep : Move handle (RetentionCall.service (fun _ => "") none) _ (.step false) _ :=
    .step .textual (Config.next_task_self ⟨world, fun _ => .idle⟩ false
      (.working (.cleanup yearLater) (.call (.sql (.deletedFiles yearLater)) next)) world) hselect
  rw [Config.next_next] at hstep
  refine .snoc (.snoc .nil ⟨trivial, hstart⟩) ⟨fun request rest hworking => ?_, hstep⟩
  rw [Config.next_task_self] at hworking
  cases hworking
  exact ⟨fun _ => hunshared, fun path hpath => (nomatch hpath)⟩

/-- The list has one row, and the object of another path stays. -/
theorem cleanup_spares_other :
    ∃ (config after : Config Call World Bool RetentionCall Bool) (rest : Service Bool),
      config.task false = .working (.cleanup yearLater) rest ∧ waiting rest = [['a']] ∧
      Move handle (RetentionCall.service (fun _ => "") none) config (.step false) after ∧
      config.shared.storage.object ['b'] = some [97] ∧
      after.shared.storage.object ['b'] = config.shared.storage.object ['b'] := by
  obtain ⟨next, last, hnext, hlast, hwaiting⟩ := cleanup_calls
  obtain ⟨world, hworld, hselect, hrows, hplaces, hlive, hobject⟩ : ∃ world,
      (uploadThen "a" ['a'] (uploadThen "b" ['b'] (FileManager.deleteFile (.sample 2 "") ['a']))).run
        handle .textual (initial .postgresql [['r']]) = some (.ok (), world) ∧
      handle _ .textual (.sql (.deletedFiles yearLater)) world =
        some (.ok [deletedEntry], world) ∧
      world.db.files.rows.map (fun row => (row.path, row.isDeleted)) =
        [(['a'], true), (['b'], false)] ∧
      (world.storage.getFullPath ['b'], world.storage.getFullPath ['a']) =
        ([['r'], ['b']], [['r'], ['a']]) ∧
      (world.db.liveFile ['b']).isSome = true ∧ world.storage.object ['b'] = some [97] :=
    ⟨_, rfl, rfl, rfl, rfl, rfl, rfl⟩
  obtain ⟨hplaceB, hplaceA⟩ := Prod.mk.inj hplaces
  have hunshared : world.Unshared := by
    refine unshared_of_rows hrows fun live hlive hlive' dead hdead hdead' => ?_
    simp only [List.mem_cons, List.not_mem_nil, or_false] at hlive hdead
    rcases hlive with rfl | rfl
    · cases hlive'
    · rcases hdead with rfl | rfl
      · rw [hplaceB, hplaceA]
        decide
      · cases hdead'
  have htrace := cleanup_selects hnext hselect hunshared
  rw [hlast] at htrace
  have hworking := Config.next_task_self (⟨world, fun _ => .idle⟩ :
    Config Call World Bool RetentionCall Bool) false
    (.working (.cleanup yearLater) (.call (.storage (.remove ['a'])) last)) world
  have hstep : Move handle (RetentionCall.service (fun _ => "") none) _ (.step false) _ :=
    .step .textual hworking rfl
  exact ⟨_, _, _, hworking, hwaiting, hstep, hobject, cleanup_spares_live (fun _ => "") none
    (fun _ => rfl) htrace hworking hstep ['b'] (Option.isSome_iff_ne_none.mp hlive)⟩

/-- An upload takes over a row that a sweep has selected; the next step of the sweep removes the new
object. -/
theorem cleanup_removes_live :
    ∃ (start config after : Config Call World Bool RetentionCall Bool)
      (labels : List (Label Bool RetentionCall Bool)) (rest : Service Bool),
      Program.Runs handle (uploadThen "a" ['a'] (FileManager.deleteFile (.sample 2 "") ['a']))
        (initial .postgresql [['r']]) (.ok ()) start.shared ∧
      (∀ task, start.task task = .idle) ∧
      Trace (Move handle (RetentionCall.service (fun _ => "") none)) start
        (labels ++ [.finish true (.uploadFile (.sample 3 "b") ['a'] [98]) true]) config ∧
      config.task false = .working (.cleanup yearLater) rest ∧
      Move handle (RetentionCall.service (fun _ => "") none) config (.step false) after ∧
      config.shared.db.liveFile ['a'] ≠ none ∧
      config.shared.storage.object ['a'] = some [98] ∧
      after.shared.storage.object ['a'] = none := by
  obtain ⟨next, last, hnext, hlast, -⟩ := cleanup_calls
  obtain ⟨world, stored, hworld, hselect, hupload, hrows, hlive, hobject, hgone⟩ : ∃ world stored,
      (uploadThen "a" ['a'] (FileManager.deleteFile (.sample 2 "") ['a'])).run handle .textual
        (initial .postgresql [['r']]) = some (.ok (), world) ∧
      handle _ .textual (.sql (.deletedFiles yearLater)) world =
        some (.ok [deletedEntry], world) ∧
      ((RetentionCall.uploadFile (.sample 3 "b") ['a'] [98]).service (fun _ => "") none).run
        handle .textual world = some (true, stored) ∧
      world.db.files.rows.map (fun row => (row.path, row.isDeleted)) = [(['a'], true)] ∧
      (stored.db.liveFile ['a']).isSome = true ∧
      stored.storage.object ['a'] = some [98] ∧
      (stored.storage.exec (.remove ['a'])).2.object ['a'] = none :=
    ⟨_, _, rfl, rfl, rfl, rfl, rfl, rfl, rfl⟩
  have hunshared : world.Unshared := by
    refine unshared_of_rows hrows fun live hlive hlive' => ?_
    rw [List.mem_singleton.mp hlive] at hlive'
    cases hlive'
  have hselected := (cleanup_selects hnext hselect hunshared).mono fun hstep => hstep.2
  rw [hlast] at hselected
  have huploaded : ∃ labels, Trace (fun config label after =>
      Alone (fun _ => False) (fun _ _ => True) config label ∧
        Move handle (RetentionCall.service (fun _ => "") none) config label after)
      ((⟨world, fun _ => .idle⟩ : Config Call World Bool RetentionCall Bool).next false
        (.working (.cleanup yearLater) (.call (.storage (.remove ['a'])) last)) world)
      (labels ++ [.finish true (.uploadFile (.sample 3 "b") ['a'] [98]) true]) _ :=
    Trace.of_runs rfl ⟨fun _ _ _ _ => ⟨id, id⟩, fun _ => trivial⟩ (runs_of_run handle hupload)
  obtain ⟨labels, huploaded⟩ := huploaded
  have htrace := hselected.append (huploaded.mono fun hstep => hstep.2)
  rw [← List.append_assoc] at htrace
  exact ⟨_, _, _, _, _, runs_of_run handle hworld, fun _ => rfl, htrace, rfl,
    .step .textual rfl rfl, Option.isSome_iff_ne_none.mp hlive, hobject, hgone⟩

end FsServer
