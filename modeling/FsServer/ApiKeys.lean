import FsServer.Access
import FsServer.Lib.Table
import FsServer.Lib.Timestamp

/-!
# Stored API keys

`handleCreateApiKey` and the `ApiKeyService` of `database/metadata.go`. The expiry of a key is stored
as the text that the client gave, and a key is found while that text, as the column hands it back, is
not before the text of the current time.
-/

namespace FsServer

open Lib

abbrev Text := List Char

structure ApiKeyRecord where
  id : Text
  keyHash : Text
  name : Text
  description : Text
  permissions : Text
  createdAt : Text
  expiresAt : Text
  lastUsedAt : Text
  isActive : Bool

structure ApiKeyRow where
  id : Text
  keyHash : Text
  name : Text
  description : Text
  permissions : Text
  createdAt : Text
  expiresAt : Option Text
  lastUsedAt : Option Text
  isActive : Bool

abbrev ApiKeyTable := Table ApiKeyRow.id ApiKeyRow.keyHash

def toNullString (text : Text) : Option Text := if text ≠ [] then some text else none

namespace ApiKeyService

def create (table : ApiKeyTable) (key : ApiKeyRecord) : Except Violation ApiKeyTable :=
  table.insert
    { id := key.id
      keyHash := key.keyHash
      name := key.name
      description := key.description
      permissions := key.permissions
      createdAt := key.createdAt
      expiresAt := toNullString key.expiresAt
      lastUsedAt := none
      isActive := key.isActive }

/-- `now` is the text of the current time. -/
def isExpired (now : Text) (key : ApiKeyRecord) : Bool :=
  if key.expiresAt = [] then false else decide (key.expiresAt < now)

/-- `column` is what a column of type `TIMESTAMP` hands back of a text. -/
def scanApiKey (column : Text → Text) (row : ApiKeyRow) : ApiKeyRecord where
  id := row.id
  keyHash := row.keyHash
  name := row.name
  description := row.description
  permissions := row.permissions
  createdAt := column row.createdAt
  expiresAt := (row.expiresAt.map column).getD []
  lastUsedAt := (row.lastUsedAt.map column).getD []
  isActive := row.isActive

def getByKeyHash (column : Text → Text) (now : Text) (table : ApiKeyTable) (keyHash : Text) :
    Option ApiKeyRecord :=
  match table.selectOne fun row => decide (row.keyHash = keyHash) && row.isActive with
  | none => none
  | some row =>
    let key := scanApiKey column row
    if isExpired now key then none else some key

end ApiKeyService

structure CreateApiKeyRequest where
  name : Text
  description : Text
  permissions : Text
  expiresAt : Text

inductive CreateApiKeyError where
  | nameRequired
  | invalidPermissions
  | createFailed

/-- The key is the first part of the reply; `uuid` and `secret` are the two generated ids. -/
def handleCreateApiKey (sha256 : Text → Text) (uuid secret now : Text) (table : ApiKeyTable)
    (req : CreateApiKeyRequest) : Except CreateApiKeyError (Text × ApiKeyTable) :=
  if req.name = [] then .error .nameRequired
  else if req.permissions ≠ [] ∧ ¬ isValidPermissions req.permissions then
    .error .invalidPermissions
  else
    let plainKey := sha256 (uuid ++ secret)
    let apiKey : ApiKeyRecord :=
      { id := uuid
        keyHash := sha256 plainKey
        name := req.name
        description := req.description
        permissions := req.permissions
        createdAt := now
        expiresAt := req.expiresAt
        lastUsedAt := []
        isActive := true }
    match ApiKeyService.create table apiKey with
    | .error _ => .error .createFailed
    | .ok created => .ok (plainKey, created)

end FsServer
