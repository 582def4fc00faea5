import FsServer.GoPath
import FsServer.Lib.Interleaving

/-!
# The mutexes of the file manager

`service/filemanager/manager.go`, `lockFile`, `unlockFile` and `CleanFileLocks`. A mutex for each path
is kept in a concurrent map. It is looked up once to lock it and once more to unlock it, and the
cleaner takes entries out of the map. Every access to the map and every operation on a mutex is one
step of its own.
-/

namespace FsServer

open Lib Program

abbrev Mutex := Nat

structure FileLocks where
  entries : Path → Option Mutex
  stored : Path → List Mutex
  locked : Mutex → Bool
  allocated : Nat

/-- The steps. What is done with the lock held is one of them, and so is the lookup of a file in the
database. -/
inductive FileLockCall : Type → Type where
  | loadOrStore (path : Path) : FileLockCall Mutex
  | load (path : Path) : FileLockCall (Option Mutex)
  | delete (path : Path) : FileLockCall Unit
  | keys : FileLockCall (List Path)
  | visit (path : Path) : FileLockCall (Option Mutex)
  | lock (mu : Mutex) : FileLockCall Unit
  | tryLock (mu : Mutex) : FileLockCall Bool
  | unlock (mu : Mutex) : FileLockCall Unit
  | exists (path : Path) : FileLockCall Bool
  | work (path : Path) : FileLockCall Unit

structure FileLockEnv where
  paths : List Path
  mapping : Option Mutex
  live : Bool

namespace FileLocks

def newFileLocks : FileLocks := ⟨fun _ => none, fun _ => [], fun _ => false, 0⟩

def store (locks : FileLocks) (path : Path) : FileLocks where
  entries := Function.update locks.entries path (some locks.allocated)
  stored := Function.update locks.stored path (locks.allocated :: locks.stored path)
  locked := locks.locked
  allocated := locks.allocated + 1

def loadOrStore (locks : FileLocks) (path : Path) : Mutex × FileLocks :=
  match locks.entries path with
  | some mu => (mu, locks)
  | none => (locks.allocated, locks.store path)

def delete (locks : FileLocks) (path : Path) : FileLocks :=
  { locks with entries := Function.update locks.entries path none }

def setLocked (locks : FileLocks) (mu : Mutex) (value : Bool) : FileLocks :=
  { locks with locked := Function.update locks.locked mu value }

/-- `Lock` waits while the mutex is locked, and `Unlock` of one that is not ends the process.
`Range` shows no key twice, and of a key any value that it has had. -/
def handle : Handler FileLockEnv FileLockCall FileLocks := fun _ env call locks =>
  match call with
  | .loadOrStore path => some (locks.loadOrStore path)
  | .load path => some (locks.entries path, locks)
  | .delete path => some ((), locks.delete path)
  | .keys => if env.paths.Nodup then some (env.paths, locks) else none
  | .visit path =>
    match env.mapping with
    | none => some (none, locks)
    | some mu => if mu ∈ locks.stored path then some (some mu, locks) else none
  | .lock mu => if locks.locked mu then none else some ((), locks.setLocked mu true)
  | .tryLock mu =>
    if locks.locked mu then some (false, locks) else some (true, locks.setLocked mu true)
  | .unlock mu => if locks.locked mu then some ((), locks.setLocked mu false) else none
  | .exists _ => some (env.live, locks)
  | .work _ => some ((), locks)

end FileLocks

/-- The mutex that has been locked is the reply, for the statements about it. -/
def lockFile (path : Path) : Program FileLockCall Mutex := do
  let mu ← perform (.loadOrStore path)
  perform (.lock mu)
  return mu

/-- The mutex that has been unlocked is the reply, for the statements about it. -/
def unlockFile (path : Path) : Program FileLockCall (Option Mutex) := do
  match ← perform (.load path) with
  | none => return none
  | some mu =>
    perform (.unlock mu)
    return some mu

def cleanFileLock (path : Path) (mu : Mutex) : Program FileLockCall Unit := do
  if ← perform (.tryLock mu) then
    perform (.unlock mu)
    if !(← perform (.exists path)) then
      perform (.delete path)

def cleanEach : List Path → Program FileLockCall Unit
  | [] => return ()
  | path :: rest => do
    match ← perform (.visit path) with
    | none => cleanEach rest
    | some mu =>
      cleanFileLock path mu
      cleanEach rest

def cleanFileLocks : Program FileLockCall Unit := do
  cleanEach (← perform .keys)

/-- `lockFile(path)` with the deferred `unlockFile(path)`, as `UploadFile`, `UploadFileFromReader`,
`DeleteFile` and `RenameFile` have them, and a run of the cleaner. -/
inductive FileLockRequest where
  | hold (path : Path)
  | clean

inductive FileLockReply where
  | held (locked : Mutex) (unlocked : Option Mutex)
  | cleaned

def FileLockRequest.program : FileLockRequest → Program FileLockCall FileLockReply
  | hold path => do
    let locked ← lockFile path
    perform (.work path)
    let unlocked ← unlockFile path
    return .held locked unlocked
  | clean => do
    cleanFileLocks
    return .cleaned

end FsServer
