import FsServer.Jwt
import FsServer.Lib.Int64
import Mathlib.Data.List.AList
import Mathlib.Data.List.DropRight

/-!
# Users and keys

`auth/auth.go`. The hash of keys is a parameter. A call looks at the user table, which is a Go map, in
an order that may be another one each time, so the order is an argument `scan` of the call. The clock
and the blacklist of refresh tokens are arguments too: a request is decided at one moment.
-/

namespace FsServer

open Lib

/-- `unicode.IsSpace`. -/
def isSpace (c : Char) : Bool :=
  let n := c.toNat
  (0x09 ≤ n && n ≤ 0x0D) || n = 0x20 || n = 0x85 || n = 0xA0 || n = 0x1680 ||
    (0x2000 ≤ n && n ≤ 0x200A) || n = 0x2028 || n = 0x2029 || n = 0x202F || n = 0x205F || n = 0x3000

/-- `strings.TrimSpace`. -/
def trimSpace (text : List Char) : List Char := (text.dropWhile isSpace).rdropWhile isSpace

structure User where
  id : String
  apiKeyHash : String
  name : String
  role : String
  enabled : Bool
  deriving DecidableEq

/-- The columns of a stored key that are used once it is found. -/
structure ApiKey where
  id : String
  name : String
  permissions : List Char
  isActive : Bool
  deriving DecidableEq

structure AuthFailureRecord where
  failureCount : Int
  lastFailure : Time
  deriving DecidableEq

/-- A lookup that fails is one that finds no key. -/
structure AuthService where
  users : List User
  authEnabled : Bool
  defaultApiKeyHash : String
  authFailures : AList fun _ : List Char => AuthFailureRecord
  jwtService : Option JWTService
  apiKeyLookupFn : Option (String → Option ApiKey)

namespace AuthService

def maxAuthFailures : Nat := 10

def rateLimit : Duration := 300 * second

def AuthFailureRecord.over (record : AuthFailureRecord) (now : Time) : Bool :=
  (now : Int) - record.lastFailure > rateLimit

section Failures

variable (service : AuthService)

def isRateLimited (now : Time) (clientIP : List Char) : Bool :=
  match service.authFailures.lookup clientIP with
  | none => false
  | some record => if AuthFailureRecord.over record now then false
      else record.failureCount ≥ maxAuthFailures

def sweepFailures (now : Time) : AList fun _ : List Char => AuthFailureRecord :=
  if service.authFailures.entries.length > 10000 then
    (service.authFailures.entries.filter fun entry =>
      AuthFailureRecord.over entry.2 now).foldl (fun left entry => left.erase entry.1)
        service.authFailures
  else service.authFailures

def recordAuthFailure (now : Time) (clientIP : List Char) : AuthService :=
  let clientIP := trimSpace clientIP
  let failures := service.sweepFailures now
  let record : AuthFailureRecord :=
    match failures.lookup clientIP with
    | none => ⟨1, now⟩
    | some record =>
      ⟨if AuthFailureRecord.over record now then 1 else int64 (record.failureCount + 1), now⟩
  { service with authFailures := failures.insert clientIP record }

def clearAuthFailure (clientIP : List Char) : AuthService :=
  { service with authFailures := service.authFailures.erase clientIP }

end Failures

def tokenUser (claims : Claims) : User where
  id := claims.userID
  apiKeyHash := ""
  name := claims.userID
  role := claims.role
  enabled := true

def defaultUser : User where
  id := "default"
  apiKeyHash := ""
  name := "Default Admin"
  role := "admin"
  enabled := true

def permissionList (permissions : List Char) : List (List Char) :=
  (permissions.splitOn ',').map trimSpace

def permissionsRole (permissions : List Char) : String :=
  if permissions = "admin".toList then "admin"
  else if permissions ≠ [] then
    if (permissionList permissions).any (· = "admin".toList) then "admin" else "user"
  else "user"

def keyUser (key : ApiKey) : User where
  id := key.id
  apiKeyHash := ""
  name := key.name
  role := permissionsRole key.permissions
  enabled := true

section Keys

variable (hashApiKey : Credential → String) (service : AuthService)

def userOf (scan : List User) (hashedKey : String) : Option User :=
  scan.find? fun user => user.enabled && user.apiKeyHash = hashedKey

def storedKey (hashedKey : String) : Option ApiKey :=
  match service.apiKeyLookupFn with
  | none => none
  | some lookup => (lookup hashedKey).filter ApiKey.isActive

def validateApiKey (scan : List User) (apiKey : Credential) : Bool :=
  if ¬ service.authEnabled then true
  else if apiKey = [] then false
  else
    let hashedKey := hashApiKey apiKey
    if service.defaultApiKeyHash ≠ "" ∧ hashedKey = service.defaultApiKeyHash then true
    else (userOf scan hashedKey).isSome || (service.storedKey hashedKey).isSome

/-- The claims of an access token, as both servers and `GetUserByApiKey` ask for them. A token
without a type is taken for one. -/
def accessToken (blacklist : Blacklist) (now : Time) (token : Credential) : Option Claims :=
  match service.jwtService with
  | none => none
  | some jwt =>
    (jwt.validAt blacklist now token).filter fun claims =>
      claims.tokenType = "" ∨ claims.tokenType = "access"

def keyOwner (scan : List User) (hashedKey : String) : Option User :=
  if service.defaultApiKeyHash ≠ "" ∧ hashedKey = service.defaultApiKeyHash then some defaultUser
  else
    match userOf scan hashedKey with
    | some user => some user
    | none => (service.storedKey hashedKey).map keyUser

def getUserByApiKey (scan : List User) (blacklist : Blacklist) (now : Time) (apiKey : Credential) :
    Option User :=
  if ¬ service.authEnabled then none
  else if apiKey = [] then none
  else
    match service.accessToken blacklist now apiKey with
    | some claims => some (tokenUser claims)
    | none => service.keyOwner scan (hashApiKey apiKey)

end Keys

end AuthService

end FsServer
