import FsServer.Transaction
import FsServer.Faults
import FsServer.Proof.Frames

/-!
# A transaction is one call

Whatever fails, a transaction is over when its program returns. Either all of its statements have
taken effect, or none has and the program returned an error. So it has no other outcome than the call
that the other modules take for it, and what holds of a service whatever its statements do holds of it
statement by statement.
-/

namespace FsServer

open Lib Program Connection DirectoryManager Transaction

variable {world : World} {reliable : Bool}

/-- The outcomes of a transaction that makes these changes. -/
inductive Transacted (changes : List Change) (world : World) : Except SqlError Unit → World → Prop
  | committed {db : Database} (hdb : changes.foldlM Database.change world.db = .ok db) :
      Transacted changes world (.ok ()) { world with db := db }
  | refused {violation : Violation}
      (hdb : changes.foldlM Database.change world.db = .error violation) :
      Transacted changes world (.error (.constraint violation)) world
  | failed : Transacted changes world (.error .fault) world

inductive Executed (changes : List Change) (world : World) (db : Database) :
    Except SqlError Unit → Connection → Prop
  | all {changed : Database} (hdb : changes.foldlM Database.change db = .ok changed) :
      Executed changes world db (.ok ()) ⟨world, some changed⟩
  | refused {violation : Violation} {pending : Option Database}
      (hdb : changes.foldlM Database.change db = .error violation) :
      Executed changes world db (.error (.constraint violation)) ⟨world, pending⟩
  | failed {pending : Option Database} : Executed changes world db (.error .fault) ⟨world, pending⟩

theorem total_execAll (changes : List Change) (db : Database) :
    (execAll changes).Total handle
      (fun reply final => Executed changes world db reply final ∧ reply ≠ .error .fault)
      ⟨world, some db⟩ := by
  induction changes generalizing db with
  | nil => exact ⟨.all rfl, by simp⟩
  | cons change rest ih =>
    intro env
    cases hchange : db.change change with
    | error violation =>
      refine ⟨.error (.constraint violation), ⟨world, some db⟩, ?_, .refused ?_, by simp⟩
      · simp only [handle, transact, hchange]
      · rw [List.foldlM_cons, hchange]
        rfl
    | ok changed =>
      have hfold : (change :: rest).foldlM Database.change db
          = rest.foldlM Database.change changed := by
        rw [List.foldlM_cons, hchange]
        rfl
      refine ⟨.ok (), ⟨world, some changed⟩, ?_, ?_⟩
      · simp only [handle, transact, hchange]
      · refine Total.mono _ (ih changed) fun reply final h => ⟨?_, h.2⟩
        cases h.1 with
        | all hdb => exact .all (hfold.trans hdb)
        | refused hdb => exact .refused (hfold.trans hdb)
        | failed => exact .failed

theorem faulty_execAll (changes : List Change) (db : Database) :
    (execAll changes).EnsuresFaulty handle (Connection.Fails reliable)
      (fun reply final => reply = .error .fault ∧ final.world = world) ⟨world, some db⟩ := by
  induction changes generalizing db with
  | nil => trivial
  | cons change rest ih =>
    constructor
    · intro env reply after hcall
      cases hchange : db.change change with
      | error violation =>
        simp only [handle, transact, hchange] at hcall
        cases hcall
        trivial
      | ok changed =>
        simp only [handle, transact, hchange] at hcall
        cases hcall
        exact ih changed
    · rintro fault reply after ⟨rfl, rfl⟩
      exact ⟨rfl, rfl⟩

theorem total_transaction (changes : List Change) (world : World) :
    (Transaction.run changes).Total handle
      (fun reply final => ∃ after, final = .idle after ∧ Transacted changes world reply after ∧
        reply ≠ .error .fault) (.idle world) := by
  unfold Transaction.run begin
  rw [perform_bind]
  intro env
  refine ⟨.ok (), ⟨world, some world.db⟩, rfl, ?_⟩
  refine (total_bind _ _ _ _ _).mpr (Total.mono _ (total_execAll changes world.db) ?_)
  rintro reply final ⟨h, hreply⟩
  cases h with
  | all hdb => exact fun env => ⟨.ok (), _, rfl, _, rfl, .committed hdb, by simp⟩
  | refused hdb => exact fun env => ⟨(), _, rfl, _, rfl, .refused hdb, by simp⟩
  | failed => exact absurd rfl hreply

theorem faulty_transaction (changes : List Change) (world : World) :
    (Transaction.run changes).EnsuresFaulty handle (Connection.Fails reliable)
      (fun reply final => reply = .error .fault ∧ final = .idle world) (.idle world) := by
  unfold Transaction.run begin
  rw [perform_bind]
  constructor
  · intro env reply after hcall
    cases hcall
    refine ensuresFaulty_bind (EnsuresFaulty.mono (faulty_execAll changes world.db) ?_)
      (Ensures.mono _ (total_execAll changes world.db).ensures ?_)
    · rintro reply ⟨world', pending⟩ ⟨rfl, rfl⟩
      constructor
      · intro env reply after hcall
        cases hcall
        exact ⟨rfl, rfl⟩
      · intro fault reply after hfails
        exact hfails.elim
    · rintro reply final ⟨h, hreply⟩
      cases h with
      | all hdb =>
        refine ⟨fun env reply after _ => trivial, ?_⟩
        rintro fault reply after ⟨rfl, rfl⟩
        exact ⟨rfl, rfl⟩
      | refused hdb =>
        exact ⟨fun env reply after _ => trivial, fun fault reply after hfails => hfails.elim⟩
      | failed => exact absurd rfl hreply
  · rintro fault reply after ⟨rfl, rfl⟩
    exact ⟨rfl, rfl⟩

/-! ### The transactions of the directory manager -/

variable {C : Type}

theorem foldlM_part {T : Type} (get : Database → T) (set : Database → T → Database)
    (change : C → Change) (update : T → C → Except Violation T)
    (hget : ∀ db part, get (set db part) = part) (hset : ∀ db part, set (set db part) = set db)
    (hsame : ∀ db, set db (get db) = db)
    (hchange : ∀ db c, db.change (change c) = (update (get db) c).map (set db)) (changes : List C)
    (db : Database) :
    (changes.map change).foldlM Database.change db
      = (changes.foldlM update (get db)).map (set db) := by
  induction changes generalizing db with
  | nil => exact congrArg Except.ok (hsame db).symm
  | cons c rest ih =>
    rw [List.map_cons, List.foldlM_cons, List.foldlM_cons, hchange]
    cases update (get db) c with
    | error violation => rfl
    | ok part =>
      have hrest := ih (set db part)
      rw [hget, hset] at hrest
      exact hrest

theorem foldlM_files (change : C → Change) (select : C → FileMetadata → Bool)
    (alter : C → FileMetadata → FileMetadata) (hchange : ∀ (db : Database) c,
      db.change (change c) = (db.files.update (select c) (alter c)).map db.withFiles)
    (changes : List C) (db : Database) :
    (changes.map change).foldlM Database.change db = (changes.foldlM (fun table c =>
      Table.update table (select c) (alter c)) db.files).map db.withFiles :=
  foldlM_part Database.files Database.withFiles change _ (fun _ _ => rfl) (fun _ _ => rfl)
    (fun _ => rfl) hchange changes db

theorem foldlM_directories (change : C → Change) (select : C → DirectoryMetadata → Bool)
    (alter : C → DirectoryMetadata → DirectoryMetadata) (hchange : ∀ (db : Database) c,
      db.change (change c) = (db.directories.update (select c) (alter c)).map db.withDirectories)
    (changes : List C) (db : Database) :
    (changes.map change).foldlM Database.change db = (changes.foldlM (fun table c =>
      Table.update table (select c) (alter c)) db.directories).map db.withDirectories :=
  foldlM_part Database.directories Database.withDirectories change _ (fun _ _ => rfl)
    (fun _ _ => rfl) (fun _ => rfl) hchange changes db

theorem renameAll_eq (db : Database) (files directories : List PathUpdate) :
    db.renameAll files directories
      = (files.map Change.renameFile ++ directories.map Change.renameDirectory).foldlM
          Database.change db := by
  rw [List.foldlM_append, foldlM_files Change.renameFile (fun change row => row.id = change.id)
    (fun change row => row.setPath change) (fun _ _ => rfl)]
  unfold Database.renameAll
  cases files.foldlM (fun table change => table.update (fun row => decide (row.id = change.id))
      fun row => row.setPath change) db.files with
  | error violation => rfl
  | ok renamed =>
    refine Eq.trans ?_ (foldlM_directories Change.renameDirectory
      (fun change row => row.id = change.id) (fun change row => row.setPath change) (fun _ _ => rfl)
      directories (db.withFiles renamed)).symm
    have hdirectories : (db.withFiles renamed).directories = db.directories := rfl
    rw [hdirectories]
    cases directories.foldlM (fun table change => table.update
        (fun row => decide (row.id = change.id)) fun row => row.setPath change) db.directories with
    | error violation => rfl
    | ok moved => rfl

/-- The statement is what the changes of a transaction come to. -/
structure MadeOf (changes : List Change) (statement : SqlCall (Except SqlError Unit)) : Prop where
  ok : ∀ {db after}, changes.foldlM Database.change db = .ok after →
    ∀ env, db.exec env statement = (.ok (), after)
  error : ∀ {db violation}, changes.foldlM Database.change db = .error violation →
    ∀ env, db.exec env statement = (.error (.constraint violation), db)
  failed : statement.failed = .error .fault

theorem madeOf_renameAll (files directories : List PathUpdate) :
    MadeOf (files.map .renameFile ++ directories.map .renameDirectory)
      (.renameAll files directories) := by
  refine ⟨fun hdb env => ?_, fun hdb env => ?_, rfl⟩
  all_goals
    rw [← renameAll_eq] at hdb
    simp only [Database.exec, hdb]

theorem madeOf_of_ok {changes : List Change} {statement : SqlCall (Except SqlError Unit)}
    (h : ∀ db env, ∃ after, changes.foldlM Database.change db = .ok after ∧
      db.exec env statement = (.ok (), after)) (hfailed : statement.failed = .error .fault) :
    MadeOf changes statement := by
  refine ⟨fun {db after} hdb env => ?_, fun {db violation} hdb env => ?_, hfailed⟩
  · obtain ⟨changed, hchanged, hexec⟩ := h db env
    rw [hchanged] at hdb
    cases hdb
    exact hexec
  · obtain ⟨changed, hchanged, -⟩ := h db env
    rw [hchanged] at hdb
    cases hdb

/-- Marking the rows of the ids one by one is marking them all, in either table. -/
theorem madeOf_marks {R : Type} {key : R → String} {place : R → Path}
    {get : Database → Table key place} (put : Database → Table key place → Database)
    (mark : R → R) (hkey : ∀ row, key (mark row) = key row)
    (hplace : ∀ row, place (mark row) = place row) (htwice : ∀ row, mark (mark row) = mark row)
    {changes : List Change} {ids : List String} {statement : SqlCall (Except SqlError Unit)}
    (hchanges : ∀ db, changes.foldlM Database.change db = (ids.foldlM (fun table id =>
      Table.update table (fun row => key row = id) mark) (get db)).map (put db))
    (hexec : ∀ db env table, (get db).update (fun row => key row ∈ ids) mark = .ok table →
      db.exec env statement = (.ok (), put db table)) (hfailed : statement.failed = .error .fault) :
    MadeOf changes statement := by
  refine madeOf_of_ok (fun db env => ?_) hfailed
  obtain ⟨table, hmarked, -⟩ := Table.update_marks hkey hplace (get db) fun row => key row ∈ ids
  refine ⟨put db table, ?_, hexec db env table hmarked⟩
  rw [hchanges, Table.foldlM_update_marks hkey hplace htwice, hmarked]
  rfl

theorem madeOf_removeFiles (ids : List String) (now : String) :
    MadeOf (ids.map fun id => .removeFile id now) (.removeFiles ids now) :=
  madeOf_marks Database.withFiles (fun row => { row with isDeleted := true, updatedAt := now })
    (fun _ => rfl) (fun _ => rfl) (fun _ => rfl) (foldlM_files (fun id => Change.removeFile id now)
      (fun id row => row.id = id) _ (fun _ _ => rfl) ids)
    (fun db _ _ h => congrArg db.onFiles h) rfl

theorem madeOf_removeDirectories (ids : List String) (now : String) :
    MadeOf (ids.map fun id => .removeDirectory id now) (.removeDirectories ids now) :=
  madeOf_marks Database.withDirectories
    (fun row => { row with isDeleted := true, updatedAt := now }) (fun _ => rfl) (fun _ => rfl)
    (fun _ => rfl) (foldlM_directories (fun id => Change.removeDirectory id now)
      (fun id row => row.id = id) _ (fun _ _ => rfl) ids)
    (fun db _ _ h => congrArg db.onDirectories h) rfl

/-- A call is carried out as it is, or as a transaction. -/
inductive Carried : {β : Type} → Call β → Program TxCall β → Prop
  | one {β : Type} (call : Call β) : Carried call (.perform (.call call))
  | all {changes : List Change} {statement : SqlCall (Except SqlError Unit)}
      (h : MadeOf changes statement) : Carried (.sql statement) (Transaction.run changes)

theorem carried {β : Type} (call : Call β) : Carried call (carry β call) := by
  cases call with
  | sql statement =>
    cases statement with
    | renameAll files directories => exact .all (madeOf_renameAll files directories)
    | removeFiles ids now => exact .all (madeOf_removeFiles ids now)
    | removeDirectories ids now => exact .all (madeOf_removeDirectories ids now)
    | _ => exact .one _
  | _ => exact .one _

theorem MadeOf.total {changes : List Change} {statement : SqlCall (Except SqlError Unit)}
    (h : MadeOf changes statement) (world : World) :
    (Transaction.run changes).Total handle (fun reply final => ∃ after,
      final = .idle after ∧ World.handle _ .textual (.sql statement) world = some (reply, after))
      (.idle world) := by
  refine Total.mono _ (total_transaction changes world) ?_
  rintro reply final ⟨after, rfl, houtcome, hreply⟩
  refine ⟨after, rfl, ?_⟩
  cases houtcome with
  | committed hdb => simp only [World.handle, h.ok hdb]
  | refused hdb => simp only [World.handle, h.error hdb]
  | failed => exact absurd rfl hreply

theorem calm_carry {β : Type} (call : Call β) (world : World) :
    (carry β call).Ensures handle
      (fun reply final => ∃ after, final = .idle after ∧
        ∃ env, World.handle _ env call world = some (reply, after)) (.idle world) := by
  have hcarried := carried call
  generalize carry β call = program at hcarried ⊢
  cases hcarried with
  | one call =>
    intro env reply after hcall
    obtain ⟨⟨reply', after'⟩, hworld, houtcome⟩ := Option.map_eq_some_iff.mp hcall
    cases houtcome
    exact ⟨after', rfl, env, hworld⟩
  | all h =>
    refine Ensures.mono _ (h.total world).ensures ?_
    rintro reply final ⟨after, rfl, hcall⟩
    exact ⟨after, rfl, .textual, hcall⟩

theorem faulty_carry {β : Type} (call : Call β) (world : World) :
    (carry β call).EnsuresFaulty handle (Connection.Fails reliable)
      (fun reply final => ∃ after, final = .idle after ∧
        ∃ fault, World.StatementFails reliable _ fault call world reply after) (.idle world) := by
  have hcarried := carried call
  generalize carry β call = program at hcarried ⊢
  cases hcarried with
  | one call =>
    refine ⟨fun env reply after _ => trivial, ?_⟩
    rintro fault reply after ⟨after', hfails, rfl⟩
    exact ⟨after', rfl, fault, hfails⟩
  | all h =>
    refine EnsuresFaulty.mono (faulty_transaction _ world) ?_
    rintro reply final ⟨rfl, rfl⟩
    exact ⟨world, rfl, (), h.failed.symm, rfl⟩

theorem total_carry {β : Type} (call : Call β) (world : World)
    (h : ∀ env, World.calm _ env call world ≠ none) :
    (carry β call).Total calm
      (fun reply final => ∃ after, final = .idle after ∧
        ∃ env, World.calm _ env call world = some (reply, after)) (.idle world) := by
  have hcarried := carried call
  generalize carry β call = program at hcarried ⊢
  cases hcarried with
  | one call =>
    intro env
    obtain ⟨⟨reply, after⟩, hcall⟩ := Option.ne_none_iff_exists'.mp (h env)
    refine ⟨reply, .idle after, ?_, after, rfl, env, hcall⟩
    have hworld : World.handle _ { env with fault := none } call world = some (reply, after) := hcall
    simp only [calm, handle, idle, hworld, Option.map_some]
  | all hmade =>
    refine Total.mono _ ((hmade.total world).restrict _ fun env =>
      ⟨{ env with fault := none }, fun _ _ => rfl⟩) ?_
    rintro reply final ⟨after, rfl, hcall⟩
    exact ⟨after, rfl, .textual, hcall⟩

section Amid

variable {α : Type} (reliable : Bool) (post : α → World → Prop) (service : Service α) (world : World)

/-- Whatever the statements do and whichever of them fail, the service does not return outside
`post`. -/
abbrev Lib.Program.Amid : Prop :=
  service.EnsuresAmid World.handle (World.StatementFails reliable) post world

abbrev Lib.Program.Faulty : Prop :=
  service.EnsuresFaulty World.handle (World.StatementFails reliable) post world

end Amid

section InStatements

variable {α : Type} {service : Service α} {post : α → World → Prop} {value : α} {final : Connection}

/-- What a service ensures whatever its statements do, it ensures statement by statement, and no
transaction is left open. -/
theorem inStatements_of_runs
    (h : service.Amid reliable post world)
    (hruns : (inStatements service).RunsAmid handle
      (Connection.Fails reliable) (.idle world) value final) :
    ∃ after, final = .idle after ∧ post value after :=
  EnsuresAmid.of_runs (EnsuresAmid.expand calm_carry faulty_carry h) hruns

theorem inStatements_of_runsFaulty
    (h : service.Faulty reliable post world)
    (hruns : (inStatements service).RunsFaulty handle
      (Connection.Fails reliable) (.idle world) value final) :
    ∃ after, final = .idle after ∧ post value after :=
  EnsuresFaulty.of_runs (EnsuresFaulty.expand calm_carry faulty_carry h) hruns

theorem inStatements_total (h : service.Total World.calm post world) :
    (inStatements service).Total calm
      (fun value final => ∃ after, final = .idle after ∧ post value after) (.idle world) :=
  Total.expand total_carry h

end InStatements

/-! ### Rules -/

section Rules

variable {α β : Type} {post : α → World → Prop} {dm : DirectoryManager}

variable {call : SqlCall β}

theorem amid_sql {rest : β → Service α} (hfailed : (rest call.failed).Amid reliable post world)
    (h : ∀ env, (rest (world.db.exec env call).1).Amid reliable post
      { world with db := (world.db.exec env call).2 }) :
    (Service.sql call >>= rest).Amid reliable post world := by
  constructor
  · intro env reply after hcall
    cases hcall
    exact h env
  · rintro fault reply after ⟨rfl, rfl⟩
    exact hfailed

variable {rest : Bool → Service α}

theorem amid_directoryExists {path : Path}
    (h : ∀ found, (rest found).Amid reliable post world) :
    (directoryExists path >>= rest).Amid reliable
      post world := by
  unfold directoryExists
  rw [bind_bind]
  exact amid_sql (h false) fun env => h _

variable {directory : Path}

theorem amid_filesUnder {rest : Except SqlError (List Entry) → Service α}
    (hfailed : (rest (.error .fault)).Amid reliable post world)
    (h : ∀ env found, (world.db.exec env (.filesUnder directory)).1 = .ok found →
      (rest (.ok found)).Amid reliable post world) :
    (Service.sql (.filesUnder directory) >>= rest).Amid reliable
      post world :=
  amid_sql hfailed fun env => h env _ rfl

theorem amid_directoriesUnder {rest : Except SqlError (List Entry) → Service α}
    (hfailed : (rest (.error .fault)).Amid reliable post world)
    (h : ∀ env found, (world.db.exec env (.directoriesUnder directory)).1 = .ok found →
      (rest (.ok found)).Amid reliable post world) :
    (Service.sql (.directoriesUnder directory) >>= rest).Amid reliable post world :=
  amid_sql hfailed fun env => h env _ rfl

theorem amid_renameAll {files directories : List PathUpdate}
    {rest : Except SqlError Unit → Service α}
    (hfailed : ∀ cause, (rest (.error cause)).Amid reliable post
      world)
    (h : ∀ db, world.db.renameAll files directories = .ok db →
      (rest (.ok ())).Amid reliable post { world with db := db }) :
    (Service.sql (.renameAll files directories) >>= rest).Amid reliable post world := by
  refine amid_sql (hfailed _) fun env => ?_
  rw [Database.exec]
  cases hrename : world.db.renameAll files directories with
  | error violation => exact hfailed _
  | ok db => exact h db hrename

theorem amid_attempt {call : StorageCall (Except StorageError Unit)} {rest : Unit → Service α}
    (h : ∀ storage, (rest ()).Amid reliable post
      { world with storage := storage }) :
    (dm.attempt call >>= rest).Amid reliable post world := by
  unfold attempt
  cases dm.hasStore with
  | false => exact h world.storage
  | true =>
    constructor
    · intro env reply after hcall
      cases hcall
      exact h _
    · rintro fault reply after ⟨-, storage, rfl⟩
      exact h storage

variable {calls : List (StorageCall (Except StorageError Unit))}

theorem amid_attemptAll {rest : Unit → Service α}
    (h : ∀ storage, (rest ()).Amid reliable post { world with storage := storage }) :
    (dm.attemptAll calls >>= rest).Amid reliable post world := by
  induction calls generalizing world with
  | nil => exact h world.storage
  | cons call calls ih =>
    rw [attemptAll, bind_bind]
    exact amid_attempt fun storage => ih h

variable {key : LockKey} {token : Token}

theorem amid_acquire
    (hrefused : (rest false).Amid reliable post world)
    (htaken : world.locks key = none → (rest true).Amid reliable post
      (world.setLock key (some token))) :
    (Service.acquire key token >>= rest).Amid reliable post world := by
  constructor
  · intro env taken after hcall
    simp only [World.handle, World.lockExec] at hcall
    split_ifs at hcall with hfault hfree
    · cases hcall
      exact hrefused
    · cases hcall
      exact htaken hfree
  · intro fault reply after hfails
    exact hfails.elim

theorem amid_unlock {rest : Unit → Service α}
    (h : (rest ()).Amid reliable post
      (if world.locks key = some token then world.setLock key none else world)) :
    (Service.unlock key token >>= rest).Amid reliable post world := by
  constructor
  · intro env reply after hcall
    cases hcall
    exact h
  · intro fault reply after hfails
    exact hfails.elim

variable {program : Service α}

theorem amid_locks (hdata : program.Only OnData) :
    program.Amid reliable
      (fun _ final => final.locks = world.locks) world := by
  refine Only.ensuresAmid hdata
    (fun {β env operation state after reply} hallowed hcall hlocks => ?_)
    (fun {β fault operation state after reply} hallowed hfails hlocks => ?_)
    (rfl : world.locks = world.locks)
  · cases operation with
    | storage call | sql call =>
      cases hcall
      exact hlocks
    | session call | lock call | move call => cases hallowed
  · cases operation with
    | storage call =>
      obtain ⟨-, storage, rfl⟩ := hfails
      exact hlocks
    | sql call =>
      obtain ⟨-, rfl⟩ := hfails
      exact hlocks
    | session call | lock call | move call => cases hallowed

variable {body : Service α}

variable {otherwise : Service α}

theorem amid_locked (hdata : body.Only OnData)
    (hlocks : ∀ {result after locks}, post result after → post result { after with locks := locks })
    (hrefused : otherwise.Amid reliable
      (fun result after => post result after ∧ after.locks = world.locks) world)
    (hbody : ∀ locks, body.Amid reliable post { world with locks := locks }) :
    (Service.acquire key token >>= fun taken =>
      if taken = true then do
        let result ← body
        Service.unlock key token
        return result
      else otherwise).Amid reliable
        (fun result after => post result after ∧ after.locks = world.locks) world := by
  refine amid_acquire hrefused fun hfree => ?_
  rw [if_pos rfl]
  refine ensuresAmid_bind.mpr (EnsuresAmid.mono (EnsuresAmid.and (hbody _) (amid_locks hdata)) ?_)
  rintro result after ⟨hpost, hsame⟩
  have hheld : after.locks = Function.update world.locks key (some token) := hsame
  refine amid_unlock ?_
  have htoken : after.locks key = some token := by
    rw [hheld, Function.update_self]
  have hback : after.setLock key none = { after with locks := world.locks } := by
    rw [World.setLock, hheld, Function.update_idem, ← hfree, Function.update_eq_self]
  rw [if_pos htoken, hback]
  exact ⟨hlocks hpost, rfl⟩

theorem faulty_sql {rest : β → Service α} (hfailed : (rest call.failed).Amid reliable post world)
    (h : ∀ env, (rest (world.db.exec env call).1).Faulty reliable post
      { world with db := (world.db.exec env call).2 }) :
    (Service.sql call >>= rest).Faulty reliable post
      world := by
  constructor
  · intro env reply after hcall
    cases hcall
    exact h env
  · rintro fault reply after ⟨rfl, rfl⟩
    exact hfailed

theorem faulty_attemptAll {rest : Unit → Service α}
    (h : ∀ storage, (rest ()).Faulty true post { world with storage := storage }) :
    (dm.attemptAll calls >>= rest).Faulty true post
      world := by
  induction calls generalizing world with
  | nil => exact h world.storage
  | cons call calls ih =>
    rw [attemptAll, bind_bind]
    unfold attempt
    cases dm.hasStore with
    | false => exact ih h
    | true =>
      constructor
      · intro env reply after hcall
        cases hcall
        exact ih h
      · rintro fault reply after ⟨hreliable, -⟩
        cases hreliable

theorem faulty_acquire
    (h : ∀ taken locks, (rest taken).Faulty reliable post
      { world with locks := locks }) :
    (Service.acquire key token >>= rest).Faulty reliable
      post world := by
  constructor
  · intro env taken after hcall
    simp only [World.handle, World.lockExec] at hcall
    split_ifs at hcall
    · cases hcall
      exact h false world.locks
    · cases hcall
      exact h true _
  · intro fault reply after hfails
    exact hfails.elim

theorem faulty_locked {refused : α}
    (hlocks : ∀ {result after locks}, post result after → post result { after with locks := locks })
    (hbody : ∀ locks, body.Faulty reliable post
      { world with locks := locks }) :
    (Service.acquire key token >>= fun taken =>
      if taken = true then do
        let result ← body
        Service.unlock key token
        return result
      else return refused).Faulty reliable post world := by
  refine faulty_acquire fun taken locks => ?_
  cases taken with
  | false => trivial
  | true =>
    rw [if_pos rfl]
    refine ensuresFaulty_bind (EnsuresFaulty.mono (hbody _) fun result after hpost => ?_) ?_
    · refine amid_unlock ?_
      split_ifs
      · exact hlocks hpost
      · exact hpost
    · refine Ensures.of_forall _ (fun result after => ?_) _ _
      exact ⟨fun _ _ _ _ => trivial, fun _ _ _ hfails => hfails.elim⟩

theorem total_onData (h : program.Only OnData) (world : World) :
    program.Total World.handle (fun _ _ => True) world := by
  induction program generalizing world with
  | done value => trivial
  | call operation next ih =>
    intro env
    cases operation with
    | storage call => exact ⟨_, _, rfl, ih _ (h.2 _) _⟩
    | sql call => exact ⟨_, _, rfl, ih _ (h.2 _) _⟩
    | session call | lock call | move call => cases h.1

theorem total_acquireFree (hfree : world.locks key = none)
    (h : (rest true).Total World.calm post (world.setLock key (some token))) :
    (Service.acquire key token >>= rest).Total World.calm post world := by
  intro env
  refine ⟨true, world.setLock key (some token), ?_, h⟩
  simp [World.calm, World.handle, World.lockExec, hfree]

theorem total_locked (hfree : world.locks key = none)
    (hlocks : ∀ {result after locks}, post result after → post result { after with locks := locks })
    (hbody : ∀ locks, body.Total World.calm post { world with locks := locks }) :
    (Service.acquire key token >>= fun taken =>
      if taken = true then do
        let result ← body
        Service.unlock key token
        return result
      else otherwise).Total World.calm post world := by
  refine total_acquireFree hfree ?_
  rw [if_pos rfl]
  refine (total_bind _ _ _ _ _).mpr (Total.mono _ (hbody _) fun result after hpost env => ?_)
  refine ⟨(), _, rfl, ?_⟩
  split_ifs
  · exact hlocks hpost
  · exact hpost

end Rules

/-- Every run of a service in which the transactions are carried out statement by statement, with any
statements and commits failing, is a run in which each of them is one step or fails without effect, and
leaves none open. -/
theorem transactions_refine {α : Type} {service : Service α} {reliable : Bool} {world : World}
    {value : α} {final : Connection}
    (hruns : (Transaction.inStatements service).RunsAmid Connection.handle
      (Connection.Fails reliable) (.idle world) value final) :
    ∃ after, final = .idle after ∧
      service.RunsAmid World.handle (World.StatementFails reliable) world value after :=
  inStatements_of_runs (ensuresAmid_runs service world) hruns

/-- The first statement has taken effect in the transaction when the second one fails. -/
theorem transactions_refine_secondExec : ∃ world changed,
    (world.db.files.select fun row => !row.isDeleted).map FileMetadata.path = [['x'], ['y']] ∧
    world.db.change (.removeFile "a" "") = .ok changed ∧
    (changed.files.select fun row => !row.isDeleted).map FileMetadata.path = [['y']] ∧
    ∃ after, idle world = .idle after ∧
      (Service.sql (.removeFiles ["a", "b"] "")).RunsAmid World.handle (World.StatementFails true)
        world (.error .fault) after := by
  obtain ⟨_, uploaded, _, world, changed, -, -, hlive, hchange, hremoved⟩ :
      ∃ first uploaded second world changed,
        (FileManager.uploadFile (fun _ => "") (.sample 1 "a") ['x'] [1]).run World.handle .textual
          (World.initial .postgresql [['r']]) = some (first, uploaded) ∧
        (FileManager.uploadFile (fun _ => "") (.sample 2 "b") ['y'] [2]).run World.handle .textual
          uploaded = some (second, world) ∧
        (world.db.files.select fun row => !row.isDeleted).map FileMetadata.path = [['x'], ['y']] ∧
        world.db.change (.removeFile "a" "") = .ok changed ∧
        (changed.files.select fun row => !row.isDeleted).map FileMetadata.path = [['y']] :=
    ⟨_, _, _, _, _, rfl, rfl, rfl, rfl, rfl⟩
  have hexec : handle _ Env.textual (.transaction (.exec (.removeFile "a" "")))
      ⟨world, some world.db⟩ = some (.ok (), ⟨world, some changed⟩) := by
    simp only [handle, transact, hchange]
  refine ⟨world, changed, hlive, hchange, hremoved, transactions_refine ?_⟩
  exact .call .textual rfl (.call .textual hexec (.fails () ⟨rfl, rfl⟩
    (.call .textual rfl (.done _ _))))

end FsServer
