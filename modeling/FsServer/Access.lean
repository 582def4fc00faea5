import FsServer.Auth

/-!
# Who may call what

The middleware of `api/http/server.go` and the interceptors of `api/grpc/server.go`: the credential of
a request, the user it stands for and the check of that user's role.
-/

namespace FsServer

open AuthService

/-- What an HTTP request is judged by. A header that is absent is empty. -/
structure HttpCredentials where
  clientIP : List Char
  authorization : Credential
  xApiKey : Credential
  deriving DecidableEq

inductive AuthOutcome where
  | rateLimited
  | required
  | invalidKey
  | passed (user : Option User)
  deriving DecidableEq

def bearerScheme : Credential := "Bearer ".toList

def apiKeyScheme : Credential := "Api-Key ".toList

/-- `strings.TrimPrefix`. -/
def trimScheme (scheme header : Credential) : Credential := header.drop scheme.length

def presentedKey (authorization xApiKey : Credential) : Credential :=
  if xApiKey ≠ [] then xApiKey
  else if bearerScheme.isPrefixOf authorization then trimScheme bearerScheme authorization
  else if apiKeyScheme.isPrefixOf authorization then trimScheme apiKeyScheme authorization
  else []

section Http

variable (hashApiKey : Credential → String) (service : AuthService)

def authMiddleware (scan : List User) (blacklist : Blacklist) (now : Time)
    (request : HttpCredentials) : AuthOutcome × AuthService :=
  if service.isRateLimited now request.clientIP then (.rateLimited, service)
  else if service.validateApiKey hashApiKey scan [] then (.passed none, service)
  else
    let apiKey := presentedKey request.authorization request.xApiKey
    if apiKey = [] then (.required, service.recordAuthFailure now request.clientIP)
    else if service.validateApiKey hashApiKey scan apiKey then
      (.passed (service.getUserByApiKey hashApiKey scan blacklist now apiKey),
        service.clearAuthFailure request.clientIP)
    else
      match service.accessToken blacklist now apiKey with
      | some claims =>
        (.passed (some (tokenUser claims)), service.clearAuthFailure request.clientIP)
      | none => (.invalidKey, service.recordAuthFailure now request.clientIP)

def roleGrants (role resource action : String) : Bool :=
  role = "admin" || (role = "user" && resource = "files" && (action = "read" || action = "write"))

def requirePermission (scan : List User) (user : Option User) (resource action : String) : Bool :=
  if service.validateApiKey hashApiKey scan [] then true
  else
    match user with
    | none => false
    | some user => roleGrants user.role resource action

def requireAdmin (scan : List User) (user : Option User) : Bool :=
  if service.validateApiKey hashApiKey scan [] then true
  else
    match user with
    | none => false
    | some user => user.role = "admin"

end Http

def allowedPermissions : List (List Char) :=
  ["admin".toList, "user".toList, "user:read".toList, "user:write".toList]

def isValidPermissions (permissions : List Char) : Bool :=
  if permissions = [] then true
  else (permissionList permissions).all fun p => p ≠ [] ∧ p ∈ allowedPermissions

/-! ### gRPC -/

structure Metadata where
  apiKeys : List Credential
  authHeaders : List Credential
  deriving DecidableEq

inductive GrpcAuthError where
  | required
  | invalidKey
  | invalidToken
  deriving DecidableEq

section Grpc

variable (hashApiKey : Credential → String) (service : AuthService) (scan : List User)
  (blacklist : Blacklist) (now : Time)

def withUser (apiKey : Credential) : Option User :=
  service.getUserByApiKey hashApiKey scan blacklist now apiKey

/-- One value of the authorization header; one of another scheme is passed over. -/
def authenticateHeader (header : Credential) : Option (Except GrpcAuthError (Option User)) :=
  if bearerScheme.isPrefixOf header then
    let token := trimScheme bearerScheme header
    if service.validateApiKey hashApiKey scan token then
      some (.ok (withUser hashApiKey service scan blacklist now token))
    else if (service.accessToken blacklist now token).isSome then
      some (.ok (withUser hashApiKey service scan blacklist now token))
    else some (.error .invalidToken)
  else if apiKeyScheme.isPrefixOf header then
    let key := trimScheme apiKeyScheme header
    if service.validateApiKey hashApiKey scan key then
      some (.ok (withUser hashApiKey service scan blacklist now key))
    else some (.error .invalidKey)
  else none

def withoutCredential : Except GrpcAuthError (Option User) :=
  if service.validateApiKey hashApiKey scan [] then .ok none else .error .required

def authenticate (metadata : Option Metadata) : Except GrpcAuthError (Option User) :=
  match metadata with
  | none => withoutCredential hashApiKey service scan
  | some md =>
    let apiKey := md.apiKeys.headD []
    if apiKey ≠ [] then
      if service.validateApiKey hashApiKey scan apiKey then
        .ok (withUser hashApiKey service scan blacklist now apiKey)
      else .error .invalidKey
    else
      match md.authHeaders.findSome?
        (authenticateHeader hashApiKey service scan blacklist now) with
      | some result => result
      | none => withoutCredential hashApiKey service scan

end Grpc

end FsServer
