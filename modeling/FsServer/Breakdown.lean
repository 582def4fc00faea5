import FsServer.Client
import FsServer.Lib.Fault

/-!
# A failing call of a delete or a rename

`DeleteFile` and `RenameFile` with one of their SQL statements or storage calls failing. A call that
fails has no effect, but for a move, which may have made the directory above its target. The locks
work.
-/

namespace FsServer

open Lib Program

inductive Breakdown where
  | lookup
  | existence
  | update
  | softDelete
  | removeObject
  | moveObject (source target : Path)
  deriving DecidableEq

def SqlCall.Breaks (fault : Breakdown) : {β : Type} → SqlCall β → β → Prop
  | _, .fileByPath _, reply => fault = .lookup ∧ reply = .error .fault
  | _, .fileExists _, reply => fault = .existence ∧ reply = .error .fault
  | _, .updateFile _, reply => fault = .update ∧ reply = .error .fault
  | _, .removeFile _ _, reply => fault = .softDelete ∧ reply = .error .fault
  | _, _, _ => False

def StorageCall.Breaks (fault : Breakdown) (storage after : LocalStorage) :
    {β : Type} → StorageCall β → β → Prop
  | _, .remove _, reply => fault = .removeObject ∧ reply = .error .fault ∧ after = storage
  | _, .rename source target, reply =>
    fault = .moveObject source target ∧ reply = .error .fault ∧
      ∃ cause, after = storage.afterFailedRename target cause
  | _, _, _ => False

def World.Breaks : Failure Breakdown Call World := fun _ fault call world reply after =>
  match call with
  | .sql call => call.Breaks fault reply ∧ after = world
  | .storage call =>
    ∃ storage, call.Breaks fault world.storage storage reply ∧
      after = { world with storage := storage }
  | _ => False

end FsServer
