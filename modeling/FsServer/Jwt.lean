import FsServer.LockService
import FsServer.Lib.Program

/-!
# Tokens

`auth/jwt.go`. The JWT library is left open: it signs claims with the service's secret and reads them
back, and it rejects a token before its `nbf` and from its `exp` on, both of which are kept in whole
seconds. The blacklist is a map that several calls use at once, so the calls are programs over its
single accesses and the readings of the clock. Which keys a `Range` visits is left to the
environment; the value is read when the key is visited.
-/

namespace FsServer

open Lib Program

abbrev Credential := List Char

/-- The claims that are looked at when a token comes back. The dates are in seconds. -/
structure Claims where
  userID : String
  role : String
  tokenType : String
  id : String
  expiresAt : Option Int
  notBefore : Option Int
  deriving DecidableEq

/-- `jwt.NewNumericDate`. -/
def numericDate (time : Int) : Int := time / second

structure JWTLibrary where
  signedString : Claims → Credential
  parse : Credential → Option Claims
  parse_signedString : ∀ claims, parse (signedString claims) = some claims
  parse_nil : parse [] = none

inductive TokenError where
  | parse
  | revoked
  | notRefresh
  | generateID
  deriving DecidableEq

structure TokenPair where
  accessToken : Credential
  refreshToken : Credential
  expiresIn : Int
  deriving DecidableEq

structure JWTService where
  library : JWTLibrary
  tokenExpiry : Duration
  refreshExpiry : Duration

/-- The expiry of each entry, in nanoseconds. -/
abbrev Blacklist := String → Option Int

inductive JwtCall : Type → Type where
  | now : JwtCall Time
  | generateJTI : JwtCall (Option String)
  | load (id : String) : JwtCall (Option Int)
  | store (id : String) (expiry : Int) : JwtCall Unit
  | range : JwtCall (List String)
  | visit (id : String) : JwtCall (Option Int)
  | delete (id : String) : JwtCall Unit

/-- What the clock shows, the identifier that is drawn and the keys that a `Range` visits. -/
structure JwtEnv where
  time : Time
  jti : Option String
  keys : List String

/-- `issued` holds the identifiers drawn so far. -/
structure JwtState where
  clock : Time
  blacklist : Blacklist
  issued : List String

namespace JwtState

def empty : JwtState := ⟨0, fun _ => none, []⟩

/-- The clock does not go back, and an identifier is not drawn twice. -/
def handle : Handler JwtEnv JwtCall JwtState := fun _ env call state =>
  match call with
  | .now => if state.clock ≤ env.time then some (env.time, { state with clock := env.time }) else none
  | .generateJTI =>
    match env.jti with
    | none => some (none, state)
    | some id =>
      if id ≠ "" ∧ id ∉ state.issued then
        some (some id, { state with issued := id :: state.issued })
      else none
  | .load id => some (state.blacklist id, state)
  | .store id expiry =>
    some ((), { state with blacklist := Function.update state.blacklist id (some expiry) })
  | .range => some (env.keys, state)
  | .visit id => some (state.blacklist id, state)
  | .delete id =>
    some ((), { state with blacklist := Function.update state.blacklist id none })

end JwtState

/-- The checks of the library on the dates. -/
def Claims.current (claims : Claims) (now : Time) : Bool :=
  claims.expiresAt.all (fun date => now < date * second) &&
    claims.notBefore.all fun date => date * second ≤ now

namespace JWTService

variable (service : JWTService)

/-- `jwt.ParseWithClaims` with the service's secret. -/
def parseWithClaims (now : Time) (token : Credential) : Option Claims :=
  (service.library.parse token).filter fun claims => claims.current now

def accessClaims (now : Time) (userID role id : String) : Claims where
  userID := userID
  role := role
  tokenType := "access"
  id := id
  expiresAt := some (numericDate (now + service.tokenExpiry))
  notBefore := some (numericDate now)

def refreshClaims (now : Time) (userID role id : String) : Claims where
  userID := userID
  role := role
  tokenType := "refresh"
  id := id
  expiresAt := some (numericDate (now + service.refreshExpiry))
  notBefore := some (numericDate now)

def tokenPair (now : Time) (userID role accessJTI refreshJTI : String) : TokenPair where
  accessToken := service.library.signedString (service.accessClaims now userID role accessJTI)
  refreshToken := service.library.signedString (service.refreshClaims now userID role refreshJTI)
  expiresIn := service.tokenExpiry.tdiv second

def generateTokenPair (userID role : String) : Program JwtCall (Except TokenError TokenPair) := do
  let now ← perform .now
  match ← perform .generateJTI with
  | none => return .error .generateID
  | some accessJTI =>
    match ← perform .generateJTI with
    | none => return .error .generateID
    | some refreshJTI => return .ok (service.tokenPair now userID role accessJTI refreshJTI)

/-- Only a refresh token is looked up in the blacklist. -/
def checkRevoked (claims : Claims) : Program JwtCall (Except TokenError Claims) := do
  if claims.tokenType = "refresh" ∧ claims.id ≠ "" then
    match ← perform (.load claims.id) with
    | some _ => return .error .revoked
    | none => return .ok claims
  else return .ok claims

def validateToken (token : Credential) : Program JwtCall (Except TokenError Claims) := do
  let now ← perform .now
  match service.parseWithClaims now token with
  | none => return .error .parse
  | some claims => checkRevoked claims

/-- The visit of one key. An entry that is gone by then is not seen. -/
def visit (now : Time) (id : String) : Program JwtCall Unit := do
  match ← perform (.visit id) with
  | some expiry => if expiry < now then perform (.delete id) else return ()
  | none => return ()

def visitAll (now : Time) : List String → Program JwtCall Unit
  | [] => return ()
  | id :: rest => do
    visit now id
    visitAll now rest

def cleanupBlacklist : Program JwtCall Unit := do
  let now ← perform .now
  let keys ← perform .range
  visitAll now keys

/-- The old token is put on the blacklist for as long as a new one would last. -/
def invalidate (claims : Claims) : Program JwtCall Unit := do
  if claims.id ≠ "" then
    let now ← perform .now
    perform (.store claims.id (now + service.refreshExpiry))
    cleanupBlacklist
  else return ()

/-- What `RefreshToken` does with a token that is not on the blacklist. -/
def exchange (claims : Claims) : Program JwtCall (Except TokenError TokenPair) := do
  if claims.tokenType ≠ "" ∧ claims.tokenType ≠ "refresh" then return .error .notRefresh
  else
    service.invalidate claims
    service.generateTokenPair claims.userID claims.role

def refreshToken (token : Credential) : Program JwtCall (Except TokenError TokenPair) := do
  match ← service.validateToken token with
  | .error cause => return .error cause
  | .ok claims => service.exchange claims

def validAt (blacklist : Blacklist) (now : Time) (token : Credential) : Option Claims :=
  (service.parseWithClaims now token).filter fun claims =>
    ¬ (claims.tokenType = "refresh" ∧ claims.id ≠ "" ∧ (blacklist claims.id).isSome)

end JWTService

inductive JwtRequest where
  | generate (userID role : String)
  | validate (token : Credential)
  | refresh (token : Credential)

inductive JwtReply where
  | claims (result : Except TokenError Claims)
  | pair (result : Except TokenError TokenPair)

def JwtReply.Failed : JwtReply → Prop
  | .claims result => ∃ cause, result = .error cause
  | .pair result => ∃ cause, result = .error cause

namespace JwtRequest

def program (service : JWTService) : JwtRequest → Program JwtCall JwtReply
  | generate userID role => do return .pair (← service.generateTokenPair userID role)
  | validate token => do return .claims (← service.validateToken token)
  | refresh token => do return .pair (← service.refreshToken token)

def token : JwtRequest → Option Credential
  | generate _ _ => none
  | validate token => some token
  | refresh token => some token

def Names (service : JWTService) (id : String) (request : JwtRequest) : Prop :=
  ∃ token claims, request.token = some token ∧ service.library.parse token = some claims ∧
    claims.id = id

end JwtRequest

end FsServer
