import FsServer.Proof.Frames
import FsServer.Proof.RenameDirectory

/-!
# Runs over files and directories

Sequential runs of the file manager and the directory manager from an empty store. As long as every
path stays inside the storage root, every new name is valid and every rename of a directory finds its
way free, rows and objects stay in step; a rename of a directory that returns then leaves every file
readable, the ones of the directory under their new paths.
-/

namespace FsServer

open Lib Program World GoPath

variable {sha256 : Bytes → String} {world after : World} {hasLock : Bool}

/-- What a call has to find so that rows and objects stay in step. -/
def TreeCall.Meets (world : World) : TreeCall → Prop
  | .file request => request.Allowed
  | .createDirectory _ path => StaysInside path
  | .deleteDirectory .. => True
  | .renameDirectory _ oldPath newName => Renamable world (normalizePath oldPath) newName

/-- One call of a run in which every call finds what it has to find. -/
def TreeCall.Runs (sha256 : Bytes → String) (hasLock : Bool) (world : World) (call : TreeCall)
    (reply : TreeReply) (after : World) : Prop :=
  call.Meets world ∧ Program.Runs handle (call.service sha256 (localDirectories hasLock)) world reply
    after

structure Settled (sha256 : Bytes → String) (world : World) : Prop where
  orderly : Orderly sha256 world
  unlocked : ∀ key, world.locks key = none

theorem settled_initial (sha256 : Bytes → String) (dialect : Dialect) (rootDir : List Segment) :
    Settled sha256 (initial dialect rootDir) where
  orderly := ⟨(represents_initial sha256 dialect rootDir).consistent, fun _ hrow => nomatch hrow⟩
  unlocked _ := rfl

theorem Orderly.withLocks (h : Orderly sha256 world) (locks : LockKey → Option Token) :
    Orderly sha256 { world with locks := locks } :=
  h.congr (fun _ => rfl) h.directories (.refl _)

/-! ### Calls on files -/

theorem exists_finmap (values : Path → Option Bytes) (keys : List Path)
    (hkeys : ∀ key, values key ≠ none → key ∈ keys) :
    ∃ store : FileStore, ∀ key, store.lookup key = values key := by
  induction keys generalizing values with
  | nil =>
    refine ⟨∅, fun key => ?_⟩
    by_contra hne
    exact absurd (hkeys key fun hnone => hne (by rw [hnone, Finmap.lookup_empty])) (by simp)
  | cons first rest ih =>
    obtain ⟨store, hstore⟩ := ih (Function.update values first none) fun key hkey => by
      by_cases hfirst : key = first
      · rw [hfirst, Function.update_self] at hkey
        exact absurd rfl hkey
      · rw [Function.update_of_ne hfirst] at hkey
        exact (List.mem_cons.mp (hkeys key hkey)).resolve_left hfirst
    cases hvalue : values first with
    | none =>
      refine ⟨store, fun key => ?_⟩
      rw [hstore, ← hvalue, Function.update_eq_self]
    | some content =>
      refine ⟨store.insert first content, fun key => ?_⟩
      by_cases hfirst : key = first
      · rw [hfirst, Finmap.lookup_insert, hvalue]
      · rw [Finmap.lookup_insert_of_ne _ hfirst, hstore, Function.update_of_ne hfirst]

theorem Settled.represents (h : Settled sha256 world) : ∃ store, Represents sha256 world store := by
  obtain ⟨store, hstore⟩ := exists_finmap world.content (world.db.files.rows.map FileMetadata.path)
    fun key hkey => by
      cases hlive : world.db.liveFile key with
      | none => exact absurd (by rw [World.content, hlive]; rfl) hkey
      | some row =>
        obtain ⟨hrow, -⟩ := Database.liveFile_eq_some.mp hlive
        obtain ⟨hmem, hpath⟩ := Table.atPath_eq_some.mp hrow
        exact List.mem_map.mpr ⟨row, hmem, hpath⟩
  exact ⟨store, h.orderly.consistent, hstore, h.unlocked⟩

theorem Settled.ensures_file (h : Settled sha256 world) {call : FileCall}
    (hallowed : call.Allowed) :
    (call.service sha256).Ensures handle (fun _ after => Settled sha256 after) world := by
  obtain ⟨store, hstore⟩ := h.represents
  have hservice := (hstore.total_service hallowed).ensures handle
  have hdirectories : (call.service sha256).Ensures handle
      (fun _ after => after.db.directories = world.db.directories) world :=
    directories_of_onFiles (onFiles_service sha256 call)
  refine (hservice.and handle hdirectories).mono _ ?_
  rintro reply after ⟨⟨next, -, hnext⟩, hsame⟩
  refine ⟨⟨hnext.consistent, ?_⟩, hnext.unlocked⟩
  rw [hsame]
  exact h.orderly.directories

/-! ### Calls on directories -/

variable {α : Type} {post : α → World → Prop}

theorem ensures_settled {program : Service α} (hdata : program.Only OnData)
    (hprogram : program.Ensures handle (fun result after => Orderly sha256 after ∧ post result after)
      world) (h : ∀ key, world.locks key = none) :
    program.Ensures handle (fun result after => Settled sha256 after ∧ post result after) world := by
  refine (hprogram.and handle (locks_of_onData hdata)).mono _ ?_
  rintro result after ⟨⟨hafter, hpost⟩, hlocks⟩
  exact ⟨⟨hafter, fun key => by rw [hlocks, h key]⟩, hpost⟩

theorem ensures_settled_locked {key : LockKey} {token : Token} {body otherwise : Service α}
    (hdata : body.Only OnData)
    (hpost : ∀ {result after locks}, post result after → post result { after with locks := locks })
    (hbody : ∀ locks, body.Ensures handle (fun result after => Orderly sha256 after ∧
      post result after) { world with locks := locks })
    (hfailed : otherwise.Ensures handle (fun result after => Settled sha256 after ∧ post result after)
      world) (h : ∀ key, world.locks key = none) :
    (Service.acquire key token >>= fun taken =>
      if taken = true then do
        let result ← body
        Service.unlock key token
        return result
      else otherwise).Ensures handle (fun result after => Settled sha256 after ∧ post result after)
        world := by
  refine ensures_locked hfailed fun _ locks => ?_
  refine ((hbody locks).and handle (locks_of_onData hdata)).mono _ ?_
  rintro result after ⟨⟨hafter, hresult⟩, hlocks⟩
  exact ⟨hlocks, ⟨hafter.withLocks _, h⟩, hpost hresult⟩

theorem Settled.ensures_withDirectoryLock (h : Settled sha256 world) (ctx : Context) (path : Path)
    {body : Service (Except DirectoryError α)} (hdata : body.Only OnData)
    {post : Except DirectoryError α → World → Prop}
    (hpost : ∀ {result after locks}, post result after → post result { after with locks := locks })
    (hlock : post (.error (.lock path)) world)
    (hbody : ∀ locks, body.Ensures handle (fun result after => Orderly sha256 after ∧
      post result after) { world with locks := locks }) :
    ((localDirectories hasLock).withDirectoryLock ctx path body).Ensures handle
      (fun result after => Settled sha256 after ∧ post result after) world := by
  unfold DirectoryManager.withDirectoryLock
  cases hasLock with
  | false => exact ensures_settled hdata (hbody world.locks) h.unlocked
  | true => exact ensures_settled_locked hdata hpost hbody ⟨h, hlock⟩ h.unlocked

variable {path : Path}

theorem Settled.ensures_createDirectory (h : Settled sha256 world) (ctx : Context)
    (hpath : StaysInside path) :
    ((localDirectories hasLock).createDirectory ctx path).Ensures handle
      (fun _ after => Settled sha256 after) world := by
  have hinside : Inside (normalizePath path) := hpath.cases
  refine (h.ensures_withDirectoryLock ctx _ (onData_createDirectoryBody _ ctx _)
    (fun _ => trivial) trivial fun locks => ?_ : Program.Ensures handle (fun result after =>
      Settled sha256 after ∧ True) _ world).mono _ fun _ _ hafter => hafter.1
  exact (ensures_createDirectoryBody (h.orderly.withLocks locks) ctx hinside).mono _
    fun _ _ hafter => ⟨hafter, trivial⟩

theorem Settled.ensures_deleteDirectory (h : Settled sha256 world) (ctx : Context) (path : Path)
    (recursive : Bool) (rounds : Nat) :
    ((localDirectories hasLock).deleteDirectory ctx path recursive rounds).Ensures handle
      (fun _ after => Settled sha256 after) world := by
  have hbody : ∀ locks, ((localDirectories hasLock).deleteDirectoryBody ctx (normalizePath path)
      recursive rounds).Ensures handle (fun _ after => Orderly sha256 after ∧ True)
      { world with locks := locks } := fun locks =>
    (ensures_deleteDirectoryBody (h.orderly.withLocks locks) ctx _ recursive rounds).mono _
      fun _ _ hafter => ⟨hafter, trivial⟩
  have hdata := onData_deleteDirectoryBody (localDirectories hasLock) ctx (normalizePath path)
    recursive rounds
  have hdelete : ((localDirectories hasLock).deleteDirectory ctx path recursive rounds).Ensures
      handle (fun _ after => Settled sha256 after ∧ True) world := by
    unfold DirectoryManager.deleteDirectory
    cases hasLock with
    | false => exact ensures_settled hdata (hbody world.locks) h.unlocked
    | true =>
      exact ensures_settled_locked hdata (fun _ => trivial) hbody ⟨h, trivial⟩ h.unlocked
  exact hdelete.mono _ fun _ _ hafter => hafter.1

theorem Settled.ensures_renameDirectory (h : Settled sha256 world) (ctx : Context)
    {oldPath newName : Path} (hrename : Renamable world (normalizePath oldPath) newName) :
    ((localDirectories hasLock).renameDirectory ctx oldPath newName).Ensures handle
      (fun result after => Settled sha256 after ∧ (result = .ok () →
        Carries world after (normalizePath oldPath)
          (FileManager.renamedPath (normalizePath oldPath) newName))) world := by
  refine h.ensures_withDirectoryLock ctx _ (onData_renameDirectoryBody _ ctx _ _)
    (fun hcarries hok => hcarries hok) nofun fun locks => ?_
  have hlocked : Renamable { world with locks := locks } (normalizePath oldPath) newName :=
    ⟨hrename.inside, hrename.name, hrename.selects, hrename.free, hrename.clear, hrename.own⟩
  exact ensures_renameDirectoryBody (h.orderly.withLocks locks) ctx hlocked

/-! ### Runs -/

theorem Settled.ensures_service (h : Settled sha256 world) {request : TreeCall}
    (hmeets : request.Meets world) :
    (request.service sha256 (localDirectories hasLock)).Ensures handle
      (fun _ after => Settled sha256 after) world := by
  cases request with
  | file request =>
    rw [TreeCall.service, ensures_bind]
    exact h.ensures_file hmeets
  | createDirectory ctx path =>
    rw [TreeCall.service, ensures_bind]
    exact h.ensures_createDirectory ctx hmeets
  | deleteDirectory ctx path recursive rounds =>
    rw [TreeCall.service, ensures_bind]
    refine (h.ensures_deleteDirectory ctx path recursive rounds).mono _ ?_
    intro result after hafter
    cases result with
    | some result => exact hafter
    | none => exact hafter
  | renameDirectory ctx oldPath newName =>
    rw [TreeCall.service, ensures_bind]
    exact (h.ensures_renameDirectory ctx hmeets).mono _ fun _ _ hafter => hafter.1

theorem settled_of_history {dialect : Dialect} {rootDir : List Segment}
    {past : List (TreeCall × TreeReply)}
    (hpast : History (TreeCall.Runs sha256 hasLock) (initial dialect rootDir) past world) :
    Settled sha256 world := by
  refine hpast.invariant (fun _ => True) (Settled sha256) (settled_initial sha256 dialect rootDir)
    (fun {state request reply after} _ hstate hstep => ?_) fun _ _ => trivial
  exact (hstate.ensures_service hstep.1).of_runs _ hstep.2

def Reads (world : World) (path : Path) (content : Bytes) : Prop :=
  (FileManager.downloadFile path).Total handle (fun result after => after = world ∧
    result = .ok content) world

theorem Settled.reads (h : Settled sha256 world) {content : Bytes}
    (hcontent : world.content path = some content) : Reads world path content := by
  obtain ⟨store, hstore⟩ := h.represents
  have hordinary : Ordinary path := by
    by_contra hnot
    rw [h.orderly.consistent.content_eq_none hnot] at hcontent
    cases hcontent
  have hanswers := hstore.answers path
  rw [normalizePath_ordinary hordinary, hstore.content, hcontent] at hanswers
  exact hanswers.2

/-- In every run whose calls find what they have to find, a rename of a directory that does so and
returns without an error keeps all files readable. -/
theorem renameDirectory_keeps_files (sha256 : Bytes → String) (hasLock : Bool) (dialect : Dialect)
    (rootDir : List Segment) {past : List (TreeCall × TreeReply)} {world after : World}
    {ctx : Context} {oldPath newName : Path}
    (hpast : History (TreeCall.Runs sha256 hasLock) (initial dialect rootDir) past world)
    (hrename : Renamable world (normalizePath oldPath) newName)
    (hruns : Program.Runs handle ((localDirectories hasLock).renameDirectory ctx oldPath newName) world
      (.ok ()) after) :
    (∀ rest content, world.content (normalizePath oldPath ++ '/' :: rest) = some content →
      Reads after (FileManager.renamedPath (normalizePath oldPath) newName ++ '/' :: rest)
        content) ∧
      ∀ path content, (¬ ∃ rest, path = normalizePath oldPath ++ '/' :: rest) →
        world.content path = some content → Reads after path content := by
  have hworld := settled_of_history hpast
  obtain ⟨hafter, hcarries⟩ := (hworld.ensures_renameDirectory ctx hrename).of_runs _ hruns
  obtain ⟨hbelow, hothers⟩ := hcarries rfl
  exact ⟨fun rest content hcontent => hafter.reads (hbelow rest content hcontent),
    fun path content hnot hcontent => hafter.reads (hothers path content hnot hcontent)⟩

def makeDirectory : TreeCall := .createDirectory (.sample 1 "d") ['d']

def fillDirectory : TreeCall := .file (.upload (.sample 2 "x") ['d', '/', 'x'] [97])

def blockTarget : TreeCall := .file (.upload (.sample 3 "y") ['e', '/', 'x', '/', 'y'] [98])

def newPlace : TreeCall := .renameDirectory (.sample 4 "") ['d'] ['e']

theorem renamable_onlyFile
    (hpaths : world.db.files.rows.map FileMetadata.path = [['d', '/', 'x']])
    (hfree : world.storage.tree.isDirectory (world.storage.getFullPath ['e', '/', 'x']) = false)
    (hclear : world.storage.tree.throughFile (world.storage.getFullPath ['e', '/', 'x']).dropLast
      = false) : Renamable world (normalizePath ['d']) ['e'] := by
  have hlive : ∀ path row, world.db.liveFile path = some row → path = ['d', '/', 'x'] := by
    intro path row hfound
    have hmem := (Table.atPath_eq_some.mp (Database.liveFile_eq_some.mp hfound).1).1
    have hpath : row.path ∈ world.db.files.rows.map FileMetadata.path := List.mem_map_of_mem hmem
    rw [hpaths, List.mem_singleton, Database.path_of_liveFile hfound] at hpath
    exact hpath
  have hrest : ∀ rest row, world.db.liveFile (['d'] ++ '/' :: rest) = some row → rest = ['x'] := by
    intro rest row hfound
    simpa using hlive _ row hfound
  exact
    { inside := .inr (by decide)
      name := by decide
      selects := fun path row hfound _ => ⟨['x'], hlive path row hfound⟩
      free := fun rest row hfound => hrest rest row hfound ▸ hfree
      clear := fun rest row hfound => hrest rest row hfound ▸ hclear
      own := .inl (Option.eq_none_iff_forall_ne_some.mpr fun row hfound =>
        absurd (hlive _ row hfound) (by decide)) }

/-- A directory with a file in it is renamed, or the name that the file goes to is blocked before. -/
theorem exists_filled : ∃ past filled,
    History (TreeCall.Runs (fun _ => "") true) (initial .postgresql [['r']]) past filled ∧
    filled.content ['d', '/', 'x'] = some [97] ∧ Renamable filled (normalizePath ['d']) ['e'] ∧
    (∃ renamed, ((localDirectories true).renameDirectory (.sample 4 "") ['d'] ['e']).run handle
        .textual filled = some (.ok (), renamed) ∧
      (newPlace.service (fun _ => "") (localDirectories true)).run handle .textual filled
        = some (.directory (.ok ()), renamed) ∧
      ∃ row, renamed.db.liveFile ['e', '/', 'x'] = some row) ∧
    ∃ reply blocked renamed,
      (blockTarget.service (fun _ => "") (localDirectories true)).run handle .textual filled
        = some (reply, blocked) ∧
      ((localDirectories true).renameDirectory (.sample 4 "") ['d'] ['e']).run handle .textual blocked
        = some (.ok (), renamed) ∧
      blocked.content ['d', '/', 'x'] = some [97] ∧
      ((FileManager.downloadFile ['e', '/', 'x']).run handle .textual renamed).map Prod.fst
        = some (.error (.read (.readFile .isDirectory))) := by
  have hmake : makeDirectory.Meets (initial .postgresql [['r']]) := (by decide : StaysInside ['d'])
  have hfill : ∀ world, fillDirectory.Meets world := fun _ => (by decide : StaysInside ['d', '/', 'x'])
  have hruns := @runs_of_run Call Env World TreeReply handle .textual
  exact ⟨_, _, .snoc (.snoc .nil ⟨hmake, hruns rfl⟩) ⟨hfill _, hruns rfl⟩, rfl,
    renamable_onlyFile rfl rfl rfl, ⟨_, rfl, rfl, _, rfl⟩, _, _, _, rfl, rfl, rfl, rfl⟩

theorem renameDirectory_keeps_onlyFile :
    ∃ past world after, History (TreeCall.Runs (fun _ => "") true) (initial .postgresql [['r']]) past
        world ∧
      Program.Runs handle ((localDirectories true).renameDirectory (.sample 4 "") ['d'] ['e']) world
        (.ok ()) after ∧
      world.content ['d', '/', 'x'] = some [97] ∧ Reads after ['e', '/', 'x'] [97] := by
  obtain ⟨past, world, hpast, hcontent, hrename, ⟨after, hrun, -⟩, -⟩ := exists_filled
  have hruns := runs_of_run _ hrun
  obtain ⟨hbelow, -⟩ :=
    renameDirectory_keeps_files (fun _ => "") true .postgresql [['r']] hpast hrename hruns
  exact ⟨past, world, after, hpast, hruns, hcontent, hbelow ['x'] [97] hcontent⟩

/-- The name the file goes to is a directory on the disk: the file can no longer be read. -/
theorem renameDirectory_loses_file :
    ∃ past world after, History (TreeCall.Runs (fun _ => "") true) (initial .postgresql [['r']]) past
        world ∧
      Program.Runs handle ((localDirectories true).renameDirectory (.sample 4 "") ['d'] ['e']) world
        (.ok ()) after ∧
      world.content (normalizePath ['d'] ++ '/' :: ['x']) = some [97] ∧
      ¬ Reads after (FileManager.renamedPath (normalizePath ['d']) ['e'] ++ '/' :: ['x']) [97] := by
  obtain ⟨past, filled, hpast, -, -, -, reply, world, after, hblock, hrun, hcontent, hdownload⟩ :=
    exists_filled
  have hmeets : blockTarget.Meets filled := (by decide : StaysInside ['e', '/', 'x', '/', 'y'])
  refine ⟨_, world, after, hpast.snoc ⟨hmeets, runs_of_run _ hblock⟩, runs_of_run _ hrun, hcontent,
    fun hreads => ?_⟩
  obtain ⟨⟨result, _⟩, hdownload, rfl⟩ := Option.map_eq_some_iff.mp hdownload
  obtain ⟨-, hok⟩ := (hreads.ensures handle).of_runs _ (runs_of_run _ hdownload)
  cases hok

/-- In every run whose calls find what they have to find, the live rows are the files on the disk: each
can be downloaded and has the size and hash of its row, no other file is there, and no lock is left. -/
theorem treeRuns_readable (sha256 : Bytes → String) (hasLock : Bool) (dialect : Dialect)
    (rootDir : List Segment) {past : List (TreeCall × TreeReply)} {world : World}
    (hpast : History (TreeCall.Runs sha256 hasLock) (initial dialect rootDir) past world) :
    (∀ path row, world.db.liveFile path = some row →
      ∃ content, Reads world path content ∧ row.Describes sha256 content) ∧
    (∀ path, Ordinary path → world.db.liveFile path = none → world.storage.object path = none) ∧
    ∀ key, world.locks key = none := by
  have hsettled := settled_of_history hpast
  have hconsistent := hsettled.orderly.consistent
  refine ⟨fun path row hlive => ?_, fun path => hconsistent.owned, hsettled.unlocked⟩
  obtain ⟨content, hobject, hdescribes⟩ := hconsistent.stored hlive
  refine ⟨content, hsettled.reads ?_, hdescribes⟩
  rw [World.content, hlive]
  exact hobject

theorem treeRuns_readable_renamed : ∃ past world row content,
    History (TreeCall.Runs (fun _ => "") true) (initial .postgresql [['r']])
      (past ++ [(newPlace, .directory (.ok ()))]) world ∧
    world.db.liveFile ['e', '/', 'x'] = some row ∧ Reads world ['e', '/', 'x'] content := by
  obtain ⟨past, filled, hpast, -, hrename, ⟨world, -, hrun, row, hlive⟩, -⟩ := exists_filled
  have hrenamed := hpast.snoc (⟨hrename, runs_of_run _ hrun⟩ : newPlace.Runs _ _ filled _ world)
  obtain ⟨content, hreads, -⟩ :=
    (treeRuns_readable (fun _ => "") true .postgresql [['r']] hrenamed).1 _ _ hlive
  exact ⟨past, world, row, content, hrenamed, hlive, hreads⟩

end FsServer
