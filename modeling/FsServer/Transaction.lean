import FsServer.Directory
import FsServer.Lib.Expand

/-!
# Transactions, statement by statement

The directory manager changes many rows in a transaction: `BeginTx`, one `UPDATE` for each row, and
`Commit`, or `Rollback` after the first statement that fails. The other modules take a transaction for
one call. Here it is the program it is in the source, and every statement, the commit included, may
fail. A transaction works on a copy of the tables, which takes their place when it commits.
-/

namespace FsServer

open Lib Program

inductive Change where
  | renameFile (change : PathUpdate)
  | renameDirectory (change : PathUpdate)
  | removeFile (id updatedAt : String)
  | removeDirectory (id updatedAt : String)

namespace Database

def withFiles (db : Database) (files : Table FileMetadata.id FileMetadata.path) : Database :=
  { db with files := files }

def withDirectories (db : Database)
    (directories : Table DirectoryMetadata.id DirectoryMetadata.path) : Database :=
  { db with directories := directories }

def change (db : Database) : Change → Except Violation Database
  | .renameFile change =>
    (db.files.update (fun row => row.id = change.id) fun row => row.setPath change).map db.withFiles
  | .renameDirectory change =>
    (db.directories.update (fun row => row.id = change.id) fun row => row.setPath change).map
      db.withDirectories
  | .removeFile id now =>
    (db.files.update (fun row => row.id = id) fun row =>
      { row with isDeleted := true, updatedAt := now }).map db.withFiles
  | .removeDirectory id now =>
    (db.directories.update (fun row => row.id = id) fun row =>
      { row with isDeleted := true, updatedAt := now }).map db.withDirectories

end Database

inductive TransactionCall : Type → Type where
  | begin : TransactionCall (Except SqlError Unit)
  | exec (change : Change) : TransactionCall (Except SqlError Unit)
  | commit : TransactionCall (Except SqlError Unit)
  | rollback : TransactionCall Unit

inductive TxCall (β : Type) where
  | transaction (call : TransactionCall β)
  | call (call : Call β)

structure Connection where
  world : World
  pending : Option Database

namespace Connection

def idle (world : World) : Connection := ⟨world, none⟩

def transact (connection : Connection) : {β : Type} → TransactionCall β → Option (β × Connection)
  | _, .begin =>
    match connection.pending with
    | none => some (.ok (), { connection with pending := some connection.world.db })
    | some _ => none
  | _, .exec change =>
    match connection.pending with
    | none => none
    | some db =>
      match db.change change with
      | .ok changed => some (.ok (), { connection with pending := some changed })
      | .error violation => some (.error (.constraint violation), connection)
  | _, .commit =>
    match connection.pending with
    | none => none
    | some db => some (.ok (), .idle { connection.world with db := db })
  | _, .rollback => some ((), .idle connection.world)

def handle : Handler Env TxCall Connection := fun _ env call connection =>
  match call with
  | .transaction call => connection.transact call
  | .call call =>
    (World.handle _ env call connection.world).map fun outcome =>
      (outcome.1, { connection with world := outcome.2 })

def calm : Handler Env TxCall Connection := fun _ env call connection =>
  handle _ { env with fault := none } call connection

end Connection

/-! ### Failing statements -/

def SqlCall.failed : {β : Type} → SqlCall β → β
  | _, .fileExists _ => .error .fault
  | _, .fileByPath _ => .error .fault
  | _, .deletedFileId _ => .error .fault
  | _, .restoreFile _ => .error .fault
  | _, .insertFile _ => .error .fault
  | _, .updateFile _ => .error .fault
  | _, .removeFile _ _ => .error .fault
  | _, .filesUnder _ => .error .fault
  | _, .deletedFiles _ => .error .fault
  | _, .permanentlyDeleteFile _ => .error .fault
  | _, .removeFiles _ _ => .error .fault
  | _, .directoryExists _ => .error .fault
  | _, .directoryByPath _ => .error .fault
  | _, .deletedDirectoryId _ => .error .fault
  | _, .restoreDirectory _ => .error .fault
  | _, .insertDirectory _ => .error .fault
  | _, .removeDirectory _ _ => .error .fault
  | _, .directoriesUnder _ => .error .fault
  | _, .deletedDirectories _ => .error .fault
  | _, .permanentlyDeleteDirectory _ => .error .fault
  | _, .removeDirectories _ _ => .error .fault
  | _, .renameAll _ _ => .error .fault
  | _, .listItems _ _ _ _ => .error .fault
  | _, .countItems _ => .error .fault

/-- A statement that fails has no effect. If the storage is not reliable its calls may fail as well,
with any effect. -/
def World.StatementFails (reliable : Bool) : Failure Unit Call World :=
  fun _ _ call world reply after =>
    match call with
    | .sql call => reply = call.failed ∧ after = world
    | .storage _ => reliable = false ∧ ∃ storage, after = { world with storage := storage }
    | _ => False

/-- A commit that fails ends the transaction without an effect. -/
def TransactionCall.Fails (connection after : Connection) :
    {β : Type} → TransactionCall β → β → Prop
  | _, .begin, reply => reply = .error .fault ∧ after = connection
  | _, .exec _, reply => reply = .error .fault ∧ after = connection
  | _, .commit, reply => reply = .error .fault ∧ after = .idle connection.world
  | _, .rollback, _ => False

def Connection.Fails (reliable : Bool) : Failure Unit TxCall Connection :=
  fun _ fault call connection reply after =>
    match call with
    | .transaction call => call.Fails connection after reply
    | .call call => ∃ world, World.StatementFails reliable _ fault call connection.world reply world ∧
        after = { connection with world := world }

/-! ### The transactions of the directory manager -/

namespace Transaction

def begin : Program TxCall (Except SqlError Unit) := .perform (.transaction .begin)

def exec (change : Change) : Program TxCall (Except SqlError Unit) :=
  .perform (.transaction (.exec change))

def commit : Program TxCall (Except SqlError Unit) := .perform (.transaction .commit)

def rollback : Program TxCall Unit := .perform (.transaction .rollback)

def execAll : List Change → Program TxCall (Except SqlError Unit)
  | [] => return .ok ()
  | change :: rest => do
    match ← exec change with
    | .error cause => return .error cause
    | .ok () => execAll rest

def run (changes : List Change) : Program TxCall (Except SqlError Unit) := do
  match ← begin with
  | .error cause => return .error cause
  | .ok () =>
    match ← execAll changes with
    | .error cause =>
      rollback
      return .error cause
    | .ok () => commit

def carrySql : {β : Type} → SqlCall β → Program TxCall β
  | _, .renameAll files directories =>
    run (files.map .renameFile ++ directories.map .renameDirectory)
  | _, .removeFiles ids now => run (ids.map fun id => .removeFile id now)
  | _, .removeDirectories ids now => run (ids.map fun id => .removeDirectory id now)
  | _, statement => .perform (.call (.sql statement))

def carry (β : Type) (call : Call β) : Program TxCall β :=
  match call with
  | .sql statement => carrySql statement
  | other => .perform (.call other)

def inStatements {α : Type} (service : Service α) : Program TxCall α := service.expand carry

end Transaction

end FsServer
