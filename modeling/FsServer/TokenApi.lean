import FsServer.Access

/-!
# The token endpoints

`handleGenerateToken` and `handleRefreshToken` of `api/http/server.go`, behind the middleware. A body
that does not bind to its structure is `none`; a field that is missing in it is empty.
-/

namespace FsServer

open Lib Program

structure TokenBody where
  userID : String
  role : String
  deriving DecidableEq

inductive TokenReply where
  | refused (outcome : AuthOutcome)
  | notConfigured
  | invalidBody
  | userIDRequired
  | notIssued
  | unauthorized
  | issued (pair : TokenPair)
  deriving DecidableEq

def callerID (user : Option User) (requested : String) : String :=
  match user with
  | none => requested
  | some user =>
    if user.role = "admin" then if requested = "" then user.id else requested else user.id

def grantRole (user : Option User) (requested : String) : String :=
  let callerRole := (user.map User.role).getD "user"
  if callerRole = "admin" ∧ (requested = "admin" ∨ requested = "user") then requested else "user"

def handleGenerateToken (service : AuthService) (user : Option User) (body : Option TokenBody) :
    Program JwtCall TokenReply := do
  match service.jwtService with
  | none => return .notConfigured
  | some jwt =>
    match body with
    | none => return .invalidBody
    | some req =>
      if callerID user req.userID = "" then return .userIDRequired
      else
        match ← jwt.generateTokenPair (callerID user req.userID) (grantRole user req.role) with
        | .error _ => return .notIssued
        | .ok pair => return .issued pair

/-- An empty token counts as a missing one. -/
def handleRefreshToken (service : AuthService) (body : Option Credential) :
    Program JwtCall TokenReply := do
  match service.jwtService with
  | none => return .notConfigured
  | some jwt =>
    match body with
    | none => return .invalidBody
    | some token =>
      if token = [] then return .invalidBody
      else
        match ← jwt.refreshToken token with
        | .error _ => return .unauthorized
        | .ok pair => return .issued pair

inductive TokenRequest where
  | generate (body : Option TokenBody)
  | refresh (body : Option Credential)
  deriving DecidableEq

def TokenRequest.handle (service : AuthService) (user : Option User) :
    TokenRequest → Program JwtCall TokenReply
  | .generate body => handleGenerateToken service user body
  | .refresh body => handleRefreshToken service body

structure TokenServer where
  auth : AuthService
  jwt : JwtState

/-- One request: the middleware decides at one moment, and a request that passes is handled. -/
inductive TokenServer.Serves (hashApiKey : Credential → String) (server : TokenServer)
    (credentials : HttpCredentials) (request : TokenRequest) : TokenReply → TokenServer → Prop
  | refused {scan : List User} {now : Time} {outcome : AuthOutcome} {auth : AuthService}
      (hscan : scan.Perm server.auth.users) (htime : server.jwt.clock ≤ now)
      (hrefused : ∀ user, outcome ≠ .passed user)
      (houtcome : authMiddleware hashApiKey server.auth scan server.jwt.blacklist now credentials =
        (outcome, auth)) :
      Serves hashApiKey server credentials request (.refused outcome)
        ⟨auth, { server.jwt with clock := now }⟩
  | handled {scan : List User} {now : Time} {user : Option User} {auth : AuthService}
      {reply : TokenReply} {jwt : JwtState} (hscan : scan.Perm server.auth.users)
      (htime : server.jwt.clock ≤ now)
      (houtcome : authMiddleware hashApiKey server.auth scan server.jwt.blacklist now credentials =
        (.passed user, auth))
      (hruns : Runs JwtState.handle (request.handle server.auth user)
        { server.jwt with clock := now } reply jwt) :
      Serves hashApiKey server credentials request reply ⟨auth, jwt⟩

end FsServer
