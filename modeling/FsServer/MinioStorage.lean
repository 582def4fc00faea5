import FsServer.GoPath

/-!
# Object keys

The checks `MinIOStorage` makes of a key before it is used, and the form it is sent in.
-/

namespace FsServer.MinioStorage

open GoPath

inductive KeyError where
  | empty
  | leadingSlash (objectKey : Path)
  | traversal (objectKey : Path)
  deriving DecidableEq

/-- `strings.TrimSuffix(objectKey, "/")`. -/
def trimSlash (objectKey : Path) : Path :=
  if objectKey.getLast? = some '/' then objectKey.dropLast else objectKey

def validatePath (objectKey : Path) : Except KeyError Unit :=
  if objectKey = [] then .error .empty
  else if isRooted objectKey then .error (.leadingSlash objectKey)
  else if (segments (trimSlash objectKey)).any fun part => part = ['.', '.'] then
    .error (.traversal objectKey)
  else .ok ()

def normalizeKey (objectKey : Path) : Path := clean objectKey

end FsServer.MinioStorage
