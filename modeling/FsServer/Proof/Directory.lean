import FsServer.Proof.FileStore
import FsServer.Proof.Subtrees

/-!
# The directory manager keeps rows and objects in step

The directory manager over local storage. Every directory row is on a path that stays inside the
storage root, as every live file row is; creating and deleting directories keeps that, and keeps the
rows of the files in step with their objects.
-/

namespace FsServer

open Lib Program World GoPath DirectoryManager DirectoryMetadataService

variable {sha256 : Bytes → String} {world after : World} {hasLock : Bool}

def localDirectories (hasLock : Bool) : DirectoryManager := ⟨true, hasLock⟩

/-- A path in normal form that does not begin with `..`. -/
def Inside (path : Path) : Prop := AtRoot path ∨ Ordinary path

structure Orderly (sha256 : Bytes → String) (world : World) : Prop where
  consistent : Consistent sha256 world
  directories : ∀ row ∈ world.db.directories.rows, Inside row.path

variable {path : Path}

theorem Inside.normalizePath (h : Inside path) : Inside (normalizePath path) := by
  rcases h with (rfl | rfl) | hordinary
  · exact .inl (.inr rfl)
  · exact .inl (.inr rfl)
  · rw [normalizePath_ordinary hordinary]
    exact .inr hordinary

theorem Consistent.of_object (h : Consistent sha256 world)
    (hlive : ∀ path, after.db.liveFile path = world.db.liveFile path)
    (hobject : ∀ path, Ordinary path → after.storage.object path = world.storage.object path)
    (hrootDir : after.storage.rootDir = world.storage.rootDir)
    (hroot : after.storage.tree.isDirectory after.storage.rootDir = true) :
    Consistent sha256 after where
  ordinary hfound := h.ordinary (hlive _ ▸ hfound)
  rooted hfound := hrootDir ▸ h.rooted (hlive _ ▸ hfound)
  stored hfound := by
    rw [hlive] at hfound
    rw [hobject _ (h.ordinary hfound)]
    exact h.stored hfound
  owned hpath hnone := by
    rw [hlive] at hnone
    rw [hobject _ hpath]
    exact h.owned hpath hnone
  root := hroot

theorem Consistent.congr (h : Consistent sha256 world)
    (hlive : ∀ path, after.db.liveFile path = world.db.liveFile path)
    (hsame : world.storage.SameFiles after.storage) : Consistent sha256 after :=
  h.of_object hlive (fun path _ => hsame.object path) hsame.rootDir (by
    rw [hsame.rootDir]
    exact hsame.keeps _ h.root)

theorem Orderly.congr (h : Orderly sha256 world)
    (hlive : ∀ path, after.db.liveFile path = world.db.liveFile path)
    (hdirectories : ∀ row ∈ after.db.directories.rows, Inside row.path)
    (hsame : world.storage.SameFiles after.storage) : Orderly sha256 after :=
  ⟨h.consistent.congr hlive hsame, hdirectories⟩

variable {directory : Path}

section Rules

variable {α : Type} {post : α → World → Prop}

variable {rest : Unit → Service α}

theorem ensures_attempt {call : StorageCall (Except StorageError Unit)} :
    ((localDirectories hasLock).attempt call >>= rest).Ensures handle post world ↔
      (rest ()).Ensures handle post { world with storage := (world.storage.exec call).2 } := by
  have hattempt : (localDirectories hasLock).attempt call >>= rest
      = Service.storage call >>= fun _ => rest () := rfl
  rw [hattempt, ensures_storage]

theorem ensures_attemptAll {calls : List (StorageCall (Except StorageError Unit))} :
    ((localDirectories hasLock).attemptAll calls >>= rest).Ensures handle post world ↔
      (rest ()).Ensures handle post { world with storage := world.storage.execAll calls } := by
  induction calls generalizing world with
  | nil => exact Iff.rfl
  | cons call others ih =>
    rw [attemptAll, bind_bind, ensures_attempt, ih]
    rfl

theorem ensures_directoryExists {rest : Bool → Service α}
    (h : ∀ found, (rest found).Ensures handle post world) :
    (directoryExists path >>= rest).Ensures handle post world := by
  unfold directoryExists
  rw [bind_bind, ensures_sql]
  exact fun env => h _

theorem ensures_filesUnder {rest : Except SqlError (List Entry) → Service α}
    (h : ∀ env found, (world.db.exec env (.filesUnder directory)).1 = .ok found →
      (rest (.ok found)).Ensures handle post world) :
    (Service.sql (.filesUnder directory) >>= rest).Ensures handle post world := by
  rw [ensures_sql]
  exact fun env => h env _ rfl

theorem ensures_directoriesUnder {rest : Except SqlError (List Entry) → Service α}
    (h : ∀ found, (∀ entry ∈ found, ∃ row ∈ world.db.directories.rows, row.path = entry.path ∧
      likeUnder world.db.dialect directory entry.path = true) →
      (rest (.ok found)).Ensures handle post world) :
    (Service.sql (.directoriesUnder directory) >>= rest).Ensures handle post world := by
  rw [ensures_sql]
  intro env
  have hfound : (world.db.exec env (.directoriesUnder directory)).1 = .ok _ := rfl
  refine h _ fun entry hentry => ?_
  obtain ⟨row, hrow, hlike, -, rfl⟩ := (Database.rows_directoriesUnder hfound entry).mp hentry
  exact ⟨row, hrow, rfl, hlike⟩

theorem ensures_locked {key : LockKey} {token : Token} {body otherwise : Service α}
    (hfailed : otherwise.Ensures handle post world)
    (hbody : world.locks key = none → ∀ locks, body.Ensures handle (fun result after =>
      after.locks = locks ∧ post result { after with locks := world.locks })
        { world with locks := locks }) :
    (Service.acquire key token >>= fun taken =>
      if taken = true then do
        let result ← body
        Service.unlock key token
        return result
      else otherwise).Ensures handle post world := by
  refine ensures_acquire hfailed fun hfree => ?_
  rw [if_pos rfl, ensures_bind]
  refine (hbody hfree _).mono _ ?_
  rintro result after ⟨hlocks, hpost⟩
  refine ensures_unlock ?_
  have hheld : after.locks key = some token := by
    rw [hlocks, Function.update_self]
  have hback : after.setLock key none = { after with locks := world.locks } := by
    rw [setLock, hlocks, Function.update_idem, ← hfree, Function.update_eq_self]
  rw [if_pos hheld, hback]
  exact hpost

end Rules

/-! ### Creating -/

theorem exec_createDirectory (storage : LocalStorage) (path : Path) :
    storage.SameFiles (storage.exec (.createDirectory path)).2 := by
  simp only [LocalStorage.exec, LocalStorage.createDirectory]
  split_ifs
  · rw [FileTree.mkdirAll_eq]
    split_ifs with hclear
    · exact .refl _
    · refine ⟨rfl, FileTree.fileAt_putDirectories (by simpa using hclear), fun x hx => ?_⟩
      rw [LocalStorage.apply, FileTree.isDirectory_putDirectories, hx, Bool.or_true]
  · exact .refl _

theorem ensures_onDirectories {α : Type} {post : α → World → Prop}
    {call : SqlCall (Except SqlError Unit)} {rest : Except SqlError Unit → Service α}
    {result : Except Violation (Table DirectoryMetadata.id DirectoryMetadata.path)}
    (hcall : ∀ env, world.db.exec env call = world.db.onDirectories result)
    (hok : ∀ directories, result = .ok directories → (rest (.ok ())).Ensures handle post
      { world with db := { world.db with directories := directories } })
    (hfailed : ∀ cause, (rest (.error cause)).Ensures handle post world) :
    (Service.sql call >>= rest).Ensures handle post world := by
  rw [ensures_sql]
  intro env
  rw [hcall env]
  cases hresult : result with
  | ok directories => exact hok directories hresult
  | error violation => exact hfailed _

theorem ensures_createDirectoryRow {α : Type} {post : α → World → Prop}
    {metadata : DirectoryMetadata} {rest : Except CreateError Unit → Service α}
    (h : Orderly sha256 world) (hpath : Inside metadata.path)
    (hok : ∀ db, Orderly sha256 { world with db := db } →
      (rest (.ok ())).Ensures handle post { world with db := db })
    (hfailed : ∀ cause, (rest (.error cause)).Ensures handle post world) :
    (create metadata >>= rest).Ensures handle post world := by
  unfold create
  rw [bind_bind, ensures_sql]
  intro env
  simp only [Database.exec]
  generalize Option.map _ _ = reply
  cases reply with
  | some id =>
    dsimp only
    rw [bind_bind]
    refine ensures_onDirectories (fun _ => rfl) (fun directories hrows => ?_) fun cause =>
      hfailed _
    refine hok _ (h.congr (fun _ => rfl) (fun row hrow => ?_) (.refl _))
    rw [Table.rows_of_ofRows hrows, List.mem_map] at hrow
    obtain ⟨old, hold, rfl⟩ := hrow
    split_ifs <;> exact h.directories old hold
  | none =>
    dsimp only
    rw [bind_bind]
    refine ensures_onDirectories (fun _ => rfl) (fun directories hrows => ?_) fun cause =>
      hfailed _
    refine hok _ (h.congr (fun _ => rfl) (fun row hrow => ?_) (.refl _))
    rw [Table.rows_of_ofRows hrows, List.mem_append, List.mem_singleton] at hrow
    rcases hrow with hold | rfl
    · exact h.directories row hold
    · exact hpath.normalizePath

theorem ensures_createDirectoryBody (h : Orderly sha256 world) (ctx : Context) (hpath : Inside path) :
    ((localDirectories hasLock).createDirectoryBody ctx path).Ensures handle
      (fun _ after => Orderly sha256 after) world := by
  unfold createDirectoryBody
  refine ensures_directoryExists fun found => ?_
  split_ifs
  · exact h
  refine ensures_createDirectoryRow h hpath (fun db hcreated => ?_) fun cause => h
  dsimp only
  rw [ensures_attempt]
  exact hcreated.congr (fun _ => rfl) hcreated.directories (exec_createDirectory _ _)

/-! ### Deleting -/

def Emptied (world : World) (directory : Path) : Prop :=
  ∀ path row, world.db.liveFile path = some row → likeUnder world.db.dialect directory path = false

theorem ensures_deleteFiles (h : Orderly sha256 world) (ctx : Context) (path : Path)
    (rounds : Nat) :
    ((localDirectories hasLock).deleteFiles ctx path rounds).Ensures handle (fun result after =>
      Orderly sha256 after ∧ (result = some (.ok ()) → Emptied after path)) world := by
  induction rounds generalizing world with
  | zero => exact ⟨h, nofun⟩
  | succ rounds ih =>
    rw [deleteFiles]
    refine ensures_filesUnder fun env found hfound => ?_
    have hmem := Database.mem_filesUnder hfound
    dsimp only
    split_ifs with hempty
    · refine ⟨h, fun _ key row hlive => ?_⟩
      by_contra hlike
      rw [Bool.not_eq_false] at hlike
      obtain rfl := Database.path_of_liveFile hlive
      have hentry := (hmem row.entry).mpr ⟨row, hlive, hlike, rfl⟩
      cases found with
      | nil => cases hentry
      | cons first rest => simp [batchSize] at hempty
    generalize hbatch : found.take batchSize = entries
    have hentries : ∀ entry ∈ entries, ∃ row, world.db.liveFile row.path = some row ∧
        row.entry = entry := by
      intro entry hentry
      rw [← hbatch] at hentry
      obtain ⟨row, hlive, -, hrow⟩ := (hmem entry).mp (List.mem_of_mem_take hentry)
      exact ⟨row, hlive, hrow⟩
    have hordinary : ∀ path ∈ entries.map Entry.path, world.storage.validatePath path = true ∧
        world.storage.tree.isDirectory (world.storage.getFullPath path) = false := by
      intro path hpath
      obtain ⟨entry, hentry, rfl⟩ := List.mem_map.mp hpath
      obtain ⟨row, hlive, rfl⟩ := hentries entry hentry
      obtain ⟨content, hobject, -⟩ := h.consistent.stored hlive
      exact ⟨validatePath_ordinary (h.consistent.rooted hlive) (h.consistent.ordinary hlive),
        FileTree.isDirectory_eq_false_of_fileAt hobject⟩
    rw [ensures_sql]
    intro env'
    obtain ⟨db, houtcome, -, hdirectories, hlive⟩ :=
      Database.removeFiles_ok world.db env' (entries.map Entry.id) ctx.now
    rw [houtcome]
    dsimp only
    rw [ensures_attemptAll]
    have hcalls : entries.map (fun entry => StorageCall.remove entry.path)
        = (entries.map Entry.path).map fun path => .remove path := by
      rw [List.map_map]
      rfl
    have hclears := LocalStorage.execAll_remove (fun path hpath => (hordinary path hpath).2)
      fun path hpath => (hordinary path hpath).1
    rw [hcalls]
    refine ih ⟨h.consistent.clear hentries hlive hclears, ?_⟩
    rw [hdirectories]
    exact h.directories

variable {dialect : Dialect}

theorem likeUnder_below {above : Path} (h : likeUnder dialect directory above = true)
    (hbelow : segments above <+: segments path) :
    likeUnder dialect directory path = true := by
  rcases below_of_segments hbelow with rfl | ⟨rest, rfl⟩
  · exact h
  · exact likeUnder_append h _

theorem ordinary_of_likeUnder (hinside : Inside path) (h : likeUnder dialect directory path = true) :
    Ordinary path := by
  obtain ⟨above, rest, hpath, -⟩ := slash_of_likeUnder h
  rcases hinside with (hnil | hdot) | hordinary
  · simp [hnil] at hpath
  · have hslash : '/' ∈ path := by simp [hpath]
    simp [hdot] at hslash
  · exact hordinary

theorem ensures_deleteDirectories (h : Orderly sha256 world) (ctx : Context)
    (hempty : Emptied world path) (rounds : Nat) :
    ((localDirectories hasLock).deleteDirectories ctx path rounds).Ensures handle
      (fun _ after => Orderly sha256 after) world := by
  induction rounds generalizing world with
  | zero => exact h
  | succ rounds ih =>
    rw [deleteDirectories]
    refine ensures_directoriesUnder fun found hfound => ?_
    dsimp only
    split_ifs
    · exact h
    generalize hbatch : found.take batchSize = entries
    refine ensures_onDirectories (fun _ => rfl) (fun directories hrows => ?_) fun cause => h
    dsimp only
    rw [ensures_attemptAll]
    have hpaths : ∀ below ∈ entries.map Entry.path, Ordinary below ∧
        likeUnder world.db.dialect path below = true := by
      intro below hbelow
      obtain ⟨entry, hentry, rfl⟩ := List.mem_map.mp hbelow
      rw [← hbatch] at hentry
      obtain ⟨row, hrow, hpath, hlike⟩ := hfound entry (List.mem_of_mem_take hentry)
      exact ⟨ordinary_of_likeUnder (hpath ▸ h.directories row hrow) hlike, hlike⟩
    have hcalls : entries.map (fun entry => StorageCall.removeDirectory entry.path)
        = (entries.map Entry.path).map fun path => .removeDirectory path := by
      rw [List.map_map]
      rfl
    rw [hcalls]
    refine ih ⟨h.consistent.prune (fun _ => rfl) (fun below hbelow => (hpaths below hbelow).1)
      (fun below hbelow key row hlive hpre => ?_)
      (LocalStorage.execAll_removeDirectory _ _), ?_⟩ hempty
    · have hlike := likeUnder_below (hpaths below hbelow).2 hpre
      rw [hempty key row hlive] at hlike
      cases hlike
    · intro row hrow
      change row ∈ directories.rows at hrow
      rw [Table.rows_of_ofRows hrows, List.mem_map] at hrow
      obtain ⟨old, hold, rfl⟩ := hrow
      split_ifs <;> exact h.directories old hold

theorem ensures_removeRow (h : Orderly sha256 world) (ctx : Context) (path : Path) :
    (removeRow ctx path).Ensures handle (fun _ after => Orderly sha256 after)
      world := by
  unfold removeRow getByPath
  rw [ensures_sql]
  intro env
  cases (world.db.exec env (.directoryByPath (normalizePath path))).1 with
  | error cause => exact h
  | ok found =>
    cases found with
    | none => exact h
    | some metadata =>
      refine ensures_onDirectories (fun _ => rfl) (fun directories hrows => ?_) fun cause => h
      refine h.congr (fun _ => rfl) (fun row hrow => ?_) (.refl _)
      change row ∈ directories.rows at hrow
      rw [Table.rows_of_ofRows hrows, List.mem_map] at hrow
      obtain ⟨old, hold, rfl⟩ := hrow
      split_ifs <;> exact h.directories old hold

theorem ensures_deleteDirectoryBody (h : Orderly sha256 world) (ctx : Context) (path : Path)
    (recursive : Bool) (rounds : Nat) :
    ((localDirectories hasLock).deleteDirectoryBody ctx path recursive rounds).Ensures handle
      (fun _ after => Orderly sha256 after) world := by
  unfold deleteDirectoryBody
  refine ensures_directoryExists fun found => ?_
  split_ifs
  · unfold deleteRecursively
    rw [ensures_bind]
    refine (ensures_deleteFiles h ctx path rounds).mono _ ?_
    rintro result middle ⟨hmiddle, hempty⟩
    match result, hempty with
    | some (.ok ()), hempty =>
      dsimp only
      rw [ensures_bind]
      refine (ensures_deleteDirectories hmiddle ctx (hempty rfl) rounds).mono _ ?_
      intro result after hafter
      match result with
      | some (.ok ()) =>
        dsimp only
        rw [ensures_bind]
        exact (ensures_removeRow hafter ctx path).mono _ fun _ _ hlast => hlast
      | some (.error _) => exact hafter
      | none => exact hafter
    | some (.error _), _ => exact hmiddle
    | none, _ => exact hmiddle
  · unfold deleteEmpty
    rw [ensures_bind]
    refine ensures_filesUnder fun env found _ => ?_
    cases found with
    | cons first rest => exact h
    | nil =>
      refine ensures_directoriesUnder fun found _ => ?_
      cases found with
      | cons first rest => exact h
      | nil => exact (ensures_removeRow h ctx path).mono _ fun _ _ hlast => hlast
  · exact h

end FsServer
