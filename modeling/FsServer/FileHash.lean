import FsServer.SessionCalls

/-!
# The hash of a file

`utils.go`, `SHA256File`: what `file.Read` returns is put into the hash until it reports an error,
whichever one.
-/

namespace FsServer

inductive ReadError where
  | eof
  | other
  deriving DecidableEq

/-- What the calls of `file.Read` return: bytes without an error, and at last bytes with one. None is
longer than the buffer. -/
structure Reading where
  continued : List Bytes
  last : Bytes
  err : ReadError
  fits : ∀ data ∈ continued ++ [last], data.length ≤ 256 * 1024

namespace Reading

def results (reading : Reading) : List (Bytes × Option ReadError) :=
  reading.continued.map (fun data => (data, none)) ++ [(reading.last, some reading.err)]

def content (reading : Reading) : Bytes := reading.continued.flatten ++ reading.last

end Reading

def hashResults (written : Bytes) : List (Bytes × Option ReadError) → Bytes
  | [] => written
  | (data, err) :: rest =>
    let written := if 0 < data.length then written ++ data else written
    if err.isSome then written else hashResults written rest

inductive FileHashError where
  | openFile
  deriving DecidableEq

/-- There is no reading if the file cannot be opened. -/
def sha256File (sha256 : Bytes → String) (file : Option Reading) : Except FileHashError String :=
  match file with
  | none => .error .openFile
  | some reading => .ok (sha256 (hashResults [] reading.results))

end FsServer
