import FsServer.FileManager

/-!
# The retention sweep

`database/cleanup.go`. The sweep selects the rows that have been soft-deleted for longer than the
retention period, and then goes through that list without any lock.
-/

namespace FsServer

open Lib Service

namespace CleanupService

/-- The objects and then the rows of the selected files. A row whose object could not be removed,
other than because it was missing, is kept. -/
def sweepFiles : List Entry → Service Unit
  | [] => return ()
  | file :: rest => do
    match ← storage (.remove file.path) with
    | .ok () =>
      let _ ← sql (.permanentlyDeleteFile file.id)
      sweepFiles rest
    | .error cause =>
      if cause.isNotExist then
        let _ ← sql (.permanentlyDeleteFile file.id)
        sweepFiles rest
      else sweepFiles rest

def sweepDirectories : List Entry → Service Unit
  | [] => return ()
  | directory :: rest => do
    let _ ← sql (.permanentlyDeleteDirectory directory.id)
    sweepDirectories rest

def cleanup (cutoff : String) : Service Unit := do
  match ← sql (.deletedFiles cutoff) with
  | .error _ => return ()
  | .ok files =>
    sweepFiles files
    match ← sql (.deletedDirectories cutoff) with
    | .error _ => return ()
    | .ok directories => sweepDirectories directories

end CleanupService

end FsServer
