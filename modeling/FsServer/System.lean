import FsServer.LocalStorage
import FsServer.SessionCalls
import FsServer.Lib.Program

/-!
# The system

The state the services share and the calls they make on it. Every service function is a program over
these calls. A lock is held under the token of the call that took it; taking one that is held waits,
or gives up with an error when the environment says so.
-/

namespace FsServer

open Lib

abbrev Token := Nat

/-- `fileMutex` is an instance's own mutex for a path, the others are keys of the distributed
lock. -/
inductive LockKey where
  | fileMutex (inst : Nat) (path : Path)
  | file (path : Path)
  | directory (path : Path)
  | upload (sessionID : String)
  deriving DecidableEq

structure World where
  storage : LocalStorage
  db : Database
  locks : LockKey → Option Token
  sessions : Sessions

inductive LockCall : Type → Type where
  | acquireMutex (key : LockKey) (token : Token) : LockCall Unit
  | acquire (key : LockKey) (token : Token) : LockCall Bool
  | unlock (key : LockKey) (token : Token) : LockCall Unit

/-- `StorageAdapter.WriteFromTempFile`, which is on the storage and on the temporary directory. -/
inductive MoveCall : Type → Type where
  | writeFromTempFile (path : Path) (temp : TempName) : MoveCall (Except StorageError Unit)

inductive Call (β : Type) where
  | storage (call : StorageCall β)
  | sql (call : SqlCall β)
  | session (call : SessionCall β)
  | lock (call : LockCall β)
  | move (call : MoveCall β)

abbrev Service := Program Call

namespace World

def setLock (world : World) (key : LockKey) (holder : Option Token) : World :=
  { world with locks := Function.update world.locks key holder }

/-- The parent directory is made before the temporary file is looked for. The temporary directory is
on another file system than the root, so `os.Rename` fails and the bytes are copied. On the same one
the file itself would be moved, and an instance that still has it open could write into the object. -/
def writeFromTempFile (world : World) (path : Path) (temp : TempName) :
    Except StorageError Unit × World :=
  if ¬ world.storage.validatePath path then (.error (.pathTraversal path), world)
  else if ¬ world.sessions.tempDirAllowed then (.error (.tempFilePath path), world)
  else
    match world.sessions.fileOf temp with
    | some content =>
      match world.storage.writeFromTempFile path content with
      | .ok storage =>
        (.ok (), { world with
          storage := storage
          sessions := { world.sessions with temps := world.sessions.temps.erase temp } })
      | .error cause => (.error cause, world)
    | none =>
      match LocalStorage.ensureDirectoryExists world.storage.tree
        (world.storage.getFullPath path).dropLast with
      | .ok tree =>
        (.error (.openTempFile .notExist),
          { world with storage := { world.storage with tree := tree } })
      | .error cause => (.error (.createDirectory cause), world)

def lockExec (env : Env) (world : World) : {β : Type} → LockCall β → Option (β × World)
  | _, .acquireMutex key token =>
    if world.locks key = none then some ((), world.setLock key (some token)) else none
  | _, .acquire key token =>
    if env.fault.isSome then some (false, world)
    else if world.locks key = none then some (true, world.setLock key (some token))
    else none
  | _, .unlock key token =>
    some ((), if world.locks key = some token then world.setLock key none else world)

def moveExec (world : World) : {β : Type} → MoveCall β → β × World
  | _, .writeFromTempFile path temp => world.writeFromTempFile path temp

def handle : Handler Env Call World := fun _ env call world =>
  match call with
  | .storage call =>
    let outcome := world.storage.exec call
    some (outcome.1, { world with storage := outcome.2 })
  | .sql call =>
    let outcome := world.db.exec env call
    some (outcome.1, { world with db := outcome.2 })
  | .session call =>
    let outcome := world.sessions.exec env call
    some (outcome.1, { world with sessions := outcome.2 })
  | .lock call => world.lockExec env call
  | .move call => some (world.moveExec call)

/-- Empty tables, no session, and a tree with nothing in it but the storage root. -/
def initial (dialect : Dialect) (rootDir : List Segment) : World where
  storage := ⟨rootDir, (FileTree.empty).putDirectories rootDir⟩
  db := ⟨dialect, .empty, .empty⟩
  locks := fun _ => none
  sessions := .empty

end World

namespace Service

def storage {β : Type} (call : StorageCall β) : Service β := .perform (.storage call)

def sql {β : Type} (call : SqlCall β) : Service β := .perform (.sql call)

def session {β : Type} (call : SessionCall β) : Service β := .perform (.session call)

def acquireMutex (key : LockKey) (token : Token) : Service Unit :=
  .perform (.lock (.acquireMutex key token))

def acquire (key : LockKey) (token : Token) : Service Bool :=
  .perform (.lock (.acquire key token))

def unlock (key : LockKey) (token : Token) : Service Unit :=
  .perform (.lock (.unlock key token))

def writeFromTempFile (path : Path) (temp : TempName) : Service (Except StorageError Unit) :=
  .perform (.move (.writeFromTempFile path temp))

end Service

end FsServer
