import FsServer.TokenApi
import FsServer.Proof.Access
import FsServer.Lib.Simulation
import Mathlib.Data.Fintype.EquivFin

/-!
# What a caller can get by asking for tokens

A caller that is not an admin asks for tokens, with its own credential or with tokens it was given
before, any number of times. The claims of everything it is given are bounded by an invariant: they
name the caller, with the caller's role or with the role `user`. That role is what a caller with some
other role should not have been given.
-/

namespace FsServer

open Lib Program AuthService

/-! ### The claims in the tokens that are issued -/

namespace JWTService

variable {service : JWTService} {token : Credential}

def Issues (service : JWTService) (userID role : String) (pair : TokenPair) : Prop :=
  ∀ token ∈ [pair.accessToken, pair.refreshToken], ∃ claims,
    service.library.parse token = some claims ∧ claims.userID = userID ∧ claims.role = role

theorem issues_tokenPair (service : JWTService) (now : Time)
    (userID role accessJTI refreshJTI : String) :
    service.Issues userID role (service.tokenPair now userID role accessJTI refreshJTI) := by
  intro token hmem
  simp only [List.mem_cons, List.not_mem_nil, or_false] at hmem
  rcases hmem with rfl | rfl
  · exact ⟨_, service.library.parse_signedString _, rfl, rfl⟩
  · exact ⟨_, service.library.parse_signedString _, rfl, rfl⟩

theorem ensures_generateTokenPair (service : JWTService) (userID role : String) (state : JwtState) :
    (service.generateTokenPair userID role).Ensures JwtState.handle
      (fun result _ => ∀ pair, result = .ok pair → service.Issues userID role pair) state := by
  unfold generateTokenPair
  simp only [perform_bind, ensures_call]
  intro _ now _ _ _ first _ _
  cases first with
  | none => exact fun _ hresult => nomatch hresult
  | some accessJTI =>
    simp only [ensures_call]
    intro _ second _ _
    cases second with
    | none => exact fun _ hresult => nomatch hresult
    | some refreshJTI =>
      rintro pair ⟨⟩
      exact service.issues_tokenPair now userID role accessJTI refreshJTI

theorem exists_fresh_jti (issued : List String) : ∃ id, id ≠ "" ∧ id ∉ issued := by
  obtain ⟨id, hid⟩ := Infinite.exists_notMem_finset ("" :: issued).toFinset
  rw [List.mem_toFinset, List.mem_cons, not_or] at hid
  exact ⟨id, hid⟩

theorem exists_runs_generateTokenPair (service : JWTService) (userID role : String)
    (state : JwtState) :
    ∃ pair after, Runs JwtState.handle (service.generateTokenPair userID role) state (.ok pair)
      after := by
  obtain ⟨accessJTI, haccess⟩ := exists_fresh_jti state.issued
  obtain ⟨refreshJTI, hrefresh⟩ := exists_fresh_jti (accessJTI :: state.issued)
  exact ⟨_, _, service.runs_generateTokenPair userID role le_rfl ⟨haccess, hrefresh⟩⟩

theorem ensures_checkRevoked (claims : Claims) (state : JwtState) :
    (checkRevoked claims).Ensures JwtState.handle
      (fun result _ => ∀ found, result = .ok found → found = claims) state := by
  unfold checkRevoked
  split_ifs
  · simp only [perform_bind, ensures_call]
    intro _ entry _ _
    cases entry with
    | none =>
      rintro found ⟨⟩
      rfl
    | some expiry => exact fun _ hresult => nomatch hresult
  · rintro found ⟨⟩
    rfl

theorem ensures_validateToken (service : JWTService) (token : Credential) (state : JwtState) :
    (service.validateToken token).Ensures JwtState.handle
      (fun result _ => ∀ claims, result = .ok claims →
        ∃ now, service.parseWithClaims now token = some claims) state := by
  unfold validateToken
  simp only [perform_bind, ensures_call]
  intro _ now after _
  cases hparse : service.parseWithClaims now token with
  | none => exact fun _ hresult => nomatch hresult
  | some claims =>
    refine (ensures_checkRevoked claims after).mono _ fun result _ hresult found hfound => ?_
    rw [hresult found hfound]
    exact ⟨now, hparse⟩

theorem ensures_refreshToken (service : JWTService) (token : Credential) (state : JwtState) :
    (service.refreshToken token).Ensures JwtState.handle
      (fun result _ => ∀ pair, result = .ok pair → ∃ claims now,
        service.parseWithClaims now token = some claims ∧
        (claims.tokenType = "" ∨ claims.tokenType = "refresh") ∧
        service.Issues claims.userID claims.role pair) state := by
  unfold refreshToken
  rw [ensures_bind]
  refine (service.ensures_validateToken token state).mono _ fun result middle hvalid => ?_
  cases result with
  | error cause => exact fun _ hresult => nomatch hresult
  | ok claims =>
    obtain ⟨now, hparse⟩ := hvalid claims rfl
    simp only [exchange]
    split_ifs with htype
    · exact fun _ hresult => nomatch hresult
    · rw [ensures_bind]
      refine Ensures.of_forall _ (fun _ after => ?_) _ _
      refine (service.ensures_generateTokenPair _ _ after).mono _ fun result _ hissues pair hpair =>
        ⟨claims, now, hparse, ?_, hissues pair hpair⟩
      by_contra hother
      rw [not_or] at hother
      exact htype hother

end JWTService

/-! ### Who a held credential stands for -/

variable {hashApiKey : Credential → String} {auth : AuthService} {scan : List User}
  {blacklist : Blacklist} {now : Time} {apiKey credential : Credential} {user : User}

variable {claims : Claims}

theorem accessToken_eq_some :
    auth.accessToken blacklist now apiKey = some claims ↔
      ∃ jwt, auth.jwtService = some jwt ∧ jwt.validAt blacklist now apiKey = some claims ∧
        (claims.tokenType = "" ∨ claims.tokenType = "access") := by
  unfold accessToken
  cases auth.jwtService with
  | none => simp
  | some jwt => simp [Option.filter_eq_some_iff]

variable {jwt : JWTService}

theorem parse_of_parseWithClaims (h : jwt.parseWithClaims now apiKey = some claims) :
    jwt.library.parse apiKey = some claims ∧ claims.current now = true :=
  Option.filter_eq_some_iff.mp h

theorem parse_of_accessToken (h : auth.accessToken blacklist now apiKey = some claims) :
    ∃ jwt, auth.jwtService = some jwt ∧ jwt.library.parse apiKey = some claims ∧
      (claims.tokenType = "" ∨ claims.tokenType = "access") := by
  obtain ⟨jwt, hjwt, hvalid, htype⟩ := accessToken_eq_some.mp h
  exact ⟨jwt, hjwt, (parse_of_parseWithClaims (Option.filter_eq_some_iff.mp hvalid).1).1, htype⟩

theorem keyOwner_isSome (hscan : scan.Perm auth.users) (hkey : IsApiKey hashApiKey auth apiKey) :
    (auth.keyOwner scan (hashApiKey apiKey)).isSome = true := by
  unfold keyOwner
  split_ifs with hdefault
  · rfl
  · cases hfound : userOf scan (hashApiKey apiKey) with
    | some user => rfl
    | none =>
      rcases hkey with hdefault' | howner | ⟨lookup, key, hlookup, hkey, hactive⟩
      · exact absurd hdefault' hdefault
      · rw [← userOf_isSome hscan, hfound] at howner
        cases howner
      · rw [storedKey_eq_some.mpr ⟨lookup, hlookup, hkey, hactive⟩]
        rfl

theorem getUserByApiKey_isSome (henabled : auth.authEnabled = true) (hscan : scan.Perm auth.users)
    (hnil : apiKey ≠ []) (haccepted : IsApiKey hashApiKey auth apiKey ∨
      (auth.accessToken blacklist now apiKey).isSome) :
    (auth.getUserByApiKey hashApiKey scan blacklist now apiKey).isSome = true := by
  cases htoken : auth.accessToken blacklist now apiKey with
  | some claims =>
    rw [getUserByApiKey_of_token henabled hnil htoken]
    rfl
  | none =>
    rw [getUserByApiKey_of_key henabled hnil htoken]
    rw [htoken] at haccepted
    exact keyOwner_isSome hscan (haccepted.resolve_right Bool.false_ne_true)

variable {credentials : HttpCredentials}

theorem authMiddleware_of_passed {found : Option User} (henabled : auth.authEnabled = true)
    (hscan : scan.Perm auth.users)
    (h : (authMiddleware hashApiKey auth scan blacklist now credentials).1 = .passed found) :
    presentedKey credentials.authorization credentials.xApiKey ≠ [] ∧
      (IsApiKey hashApiKey auth (presentedKey credentials.authorization credentials.xApiKey) ∨
        (auth.accessToken blacklist now
          (presentedKey credentials.authorization credentials.xApiKey)).isSome) ∧
      found = auth.getUserByApiKey hashApiKey scan blacklist now
        (presentedKey credentials.authorization credentials.xApiKey) := by
  refine (authMiddleware_passed_iff henabled hscan ?_).mp h
  by_contra hlimit
  rw [authMiddleware, if_pos (Bool.not_eq_false _ ▸ hlimit)] at h
  cases h

theorem authMiddleware_snd (hashApiKey : Credential → String) (auth : AuthService)
    (scan : List User) (blacklist : Blacklist) (now : Time) (credentials : HttpCredentials) :
    ∃ failures, (authMiddleware hashApiKey auth scan blacklist now credentials).2 =
      { auth with authFailures := failures } := by
  unfold authMiddleware
  dsimp only
  split_ifs
  · exact ⟨auth.authFailures, rfl⟩
  · exact ⟨auth.authFailures, rfl⟩
  · exact ⟨_, rfl⟩
  · exact ⟨_, rfl⟩
  · cases auth.accessToken blacklist now
      (presentedKey credentials.authorization credentials.xApiKey) with
    | none => exact ⟨_, rfl⟩
    | some claims => exact ⟨_, rfl⟩

/-! ### The runs of a caller -/

structure CallerState where
  server : TokenServer
  obtained : List Credential

structure TokenCall where
  credentials : HttpCredentials
  request : TokenRequest

def TokenReply.tokens : TokenReply → List Credential
  | .issued pair => [pair.accessToken, pair.refreshToken]
  | _ => []

/-- The caller authenticates with what it holds, and a token that it hands in is one that it holds.
-/
def Presents (auth : AuthService) (held : List Credential) (call : TokenCall) : Prop :=
  (presentedKey call.credentials.authorization call.credentials.xApiKey ∈ held ∨
    presentedKey call.credentials.authorization call.credentials.xApiKey = []) ∧
  ∀ token, call.request = .refresh (some token) → token ∈ held ∨
    ∀ jwt, auth.jwtService = some jwt → jwt.library.parse token = none

structure CallerStep (hashApiKey : Credential → String) (credential : Credential)
    (state : CallerState) (call : TokenCall) (reply : TokenReply) (after : CallerState) : Prop where
  presents : Presents state.server.auth (credential :: state.obtained) call
  serves : state.server.Serves hashApiKey call.credentials call.request reply after.server
  obtained : after.obtained = state.obtained ++ reply.tokens

/-- The credential passes now, and whenever it stands for a user it is this one. -/
structure Caller (hashApiKey : Credential → String) (server : TokenServer) (credential : Credential)
    (user : User) : Prop where
  authenticated : ∃ scan now credentials found, scan.Perm server.auth.users ∧
    server.jwt.clock ≤ now ∧
    presentedKey credentials.authorization credentials.xApiKey = credential ∧
    (authMiddleware hashApiKey server.auth scan server.jwt.blacklist now credentials).1 =
      .passed found
  resolves : ∀ scan blacklist now found, scan.Perm server.auth.users →
    server.auth.getUserByApiKey hashApiKey scan blacklist now credential = some found →
    found.identity = user.identity

/-- A token of the library is not the key of anybody. -/
def KeysAreNotTokens (hashApiKey : Credential → String) (auth : AuthService) : Prop :=
  ∀ jwt token claims, auth.jwtService = some jwt → jwt.library.parse token = some claims →
    ¬ IsApiKey hashApiKey auth token

/-- The user is the caller or the caller with the role `user`. -/
def User.Within (found user : User) : Prop :=
  found.id = user.id ∧ (found.role = user.role ∨ found.role = "user" ∧ user.id ≠ "")

/-- The claims of the token name nobody else. -/
def Bounded (auth : AuthService) (user : User) (token : Credential) : Prop :=
  ∃ jwt claims, auth.jwtService = some jwt ∧ jwt.library.parse token = some claims ∧
    (tokenUser claims).Within user

variable {found : User}

theorem User.within_of_identity (h : found.identity = user.identity) : found.Within user := by
  obtain ⟨hid, hrole⟩ := Prod.mk.inj h
  exact ⟨hid, .inl hrole⟩

theorem User.Within.not_admin (h : found.Within user) (hrole : user.role ≠ "admin") :
    found.role ≠ "admin" := by
  rcases h.2 with hsame | ⟨huser, -⟩
  · rwa [hsame]
  · rw [huser]
    decide

section Caller

variable {server : TokenServer}

variable {obtained : List Credential}

section

variable (h : Caller hashApiKey server credential user) (henabled : server.auth.authEnabled = true)
  (hkeys : KeysAreNotTokens hashApiKey server.auth)
include h henabled hkeys

theorem Caller.within_of_parse (hjwt : server.auth.jwtService = some jwt)
    (hparse : jwt.parseWithClaims now credential = some claims)
    (htype : claims.tokenType = "" ∨ claims.tokenType = "refresh") :
    (tokenUser claims).Within user := by
  obtain ⟨scan, time, credentials, found, hscan, -, hpresented, hpassed⟩ := h.authenticated
  obtain ⟨hnil, haccepted, -⟩ := authMiddleware_of_passed henabled hscan hpassed
  rw [hpresented] at hnil haccepted
  have hparsed := (parse_of_parseWithClaims hparse).1
  have htoken : claims.tokenType = "" := by
    rcases haccepted with hkey | htoken
    · exact absurd hkey (hkeys jwt credential claims hjwt hparsed)
    · obtain ⟨claims', hclaims'⟩ := Option.isSome_iff_exists.mp htoken
      obtain ⟨jwt', hjwt', hparsed', htype'⟩ := parse_of_accessToken hclaims'
      rw [hjwt, Option.some.injEq] at hjwt'
      subst hjwt'
      rw [hparsed, Option.some.injEq] at hparsed'
      subst hparsed'
      rcases htype' with hempty | haccess
      · exact hempty
      · rw [haccess] at htype
        exact absurd htype (by decide)
  have haccess : server.auth.accessToken (fun _ => none) now credential = some claims := by
    refine accessToken_eq_some.mpr ⟨jwt, hjwt, ?_, .inl htoken⟩
    unfold JWTService.validAt
    rw [hparse]
    simp
  exact User.within_of_identity (h.resolves scan _ now _ hscan
    (getUserByApiKey_of_token henabled hnil haccess))

theorem Caller.within_of_passed (hobtained : ∀ token ∈ obtained, Bounded server.auth user token)
    {failures : AList fun _ : List Char => AuthFailureRecord} {found : Option User}
    (hscan : scan.Perm server.auth.users)
    (hheld : presentedKey credentials.authorization credentials.xApiKey ∈ credential :: obtained ∨
      presentedKey credentials.authorization credentials.xApiKey = [])
    (hpassed : (authMiddleware hashApiKey { server.auth with authFailures := failures } scan
      blacklist now credentials).1 = .passed found) :
    ∃ within, found = some within ∧ within.Within user := by
  obtain ⟨hnil, haccepted, hfound⟩ :=
    @authMiddleware_of_passed hashApiKey { server.auth with authFailures := failures } scan blacklist
      now credentials found henabled hscan hpassed
  change IsApiKey hashApiKey server.auth _ ∨ (server.auth.accessToken blacklist now _).isSome = true
    at haccepted
  change found = server.auth.getUserByApiKey hashApiKey scan blacklist now _ at hfound
  obtain ⟨within, hwithin⟩ := Option.isSome_iff_exists.mp
    (getUserByApiKey_isSome henabled hscan hnil haccepted)
  rw [hwithin] at hfound
  refine ⟨within, hfound, ?_⟩
  rcases List.mem_cons.mp (hheld.resolve_right hnil) with hown | hgiven
  · rw [hown] at hwithin
    exact User.within_of_identity (h.resolves scan blacklist now within hscan hwithin)
  · obtain ⟨jwt, claims, hjwt, hparse, hbound⟩ := hobtained _ hgiven
    obtain ⟨claims', hclaims'⟩ := Option.isSome_iff_exists.mp
      (haccepted.resolve_left (hkeys jwt _ claims hjwt hparse))
    obtain ⟨jwt', hjwt', hparse', -⟩ := parse_of_accessToken hclaims'
    rw [hjwt, Option.some.injEq] at hjwt'
    subst hjwt'
    rw [hparse, Option.some.injEq] at hparse'
    subst hparse'
    rw [getUserByApiKey_of_token henabled hnil hclaims', Option.some.injEq] at hwithin
    rw [← hwithin]
    exact hbound

end

theorem bounded_of_issues {userID role : String} {pair : TokenPair}
    (hjwt : auth.jwtService = some jwt) (hissues : jwt.Issues userID role pair)
    (hid : userID = user.id) (hrole : role = user.role ∨ role = "user" ∧ user.id ≠ "") :
    ∀ token ∈ (TokenReply.issued pair).tokens, Bounded auth user token := by
  intro token hmem
  obtain ⟨claims, hparse, huser, hclaims⟩ := hissues token hmem
  refine ⟨jwt, claims, hjwt, hparse, huser.trans hid, ?_⟩
  change claims.role = _ ∨ claims.role = _ ∧ _
  rwa [hclaims]

theorem ensures_handleGenerateToken (hwithin : found.Within user) (hrole : user.role ≠ "admin")
    (body : Option TokenBody) (state : JwtState) :
    (handleGenerateToken auth (some found) body).Ensures JwtState.handle
      (fun reply _ => ∀ token ∈ reply.tokens, Bounded auth user token) state := by
  unfold handleGenerateToken
  cases hjwt : auth.jwtService with
  | none => exact fun _ hmem => nomatch hmem
  | some jwt =>
    cases body with
    | none => exact fun _ hmem => nomatch hmem
    | some req =>
      have hadmin := hwithin.not_admin hrole
      have hid : callerID (some found) req.userID = user.id := by
        simp only [callerID, if_neg hadmin]
        exact hwithin.1
      have hgrant : grantRole (some found) req.role = "user" := by
        simp [grantRole, hadmin]
      simp only [hid, hgrant]
      split_ifs with hempty
      · exact fun _ hmem => nomatch hmem
      · rw [ensures_bind]
        refine (jwt.ensures_generateTokenPair user.id "user" state).mono _
          fun result after hissues => ?_
        cases result with
        | error cause => exact fun _ hmem => nomatch hmem
        | ok pair =>
          exact bounded_of_issues hjwt (hissues pair rfl) rfl (.inr ⟨rfl, hempty⟩)

theorem Caller.ensures_handleRefreshToken (h : Caller hashApiKey server credential user)
    (henabled : server.auth.authEnabled = true) (hkeys : KeysAreNotTokens hashApiKey server.auth)
    (hobtained : ∀ token ∈ obtained, Bounded server.auth user token) {body : Option Credential}
    (hheld : ∀ token, body = some token →
      token ∈ credential :: obtained ∨
        ∀ jwt, server.auth.jwtService = some jwt → jwt.library.parse token = none)
    (state : JwtState) :
    (handleRefreshToken server.auth body).Ensures JwtState.handle
      (fun reply _ => ∀ token ∈ reply.tokens, Bounded server.auth user token) state := by
  unfold handleRefreshToken
  cases hjwt : server.auth.jwtService with
  | none => exact fun _ hmem => nomatch hmem
  | some jwt =>
    cases body with
    | none => exact fun _ hmem => nomatch hmem
    | some token =>
      dsimp only
      split_ifs
      · exact fun _ hmem => nomatch hmem
      · rw [ensures_bind]
        refine (jwt.ensures_refreshToken token state).mono _ fun result after hrefreshed => ?_
        cases result with
        | error cause => exact fun _ hmem => nomatch hmem
        | ok pair =>
          obtain ⟨claims, now, hparse, htype, hissues⟩ := hrefreshed pair rfl
          have hparsed := (parse_of_parseWithClaims hparse).1
          have hwithin : (tokenUser claims).Within user := by
            rcases hheld token rfl with hmem | hnone
            · rcases List.mem_cons.mp hmem with rfl | hgiven
              · exact h.within_of_parse henabled hkeys hjwt hparse htype
              · obtain ⟨jwt', claims', hjwt', hparse', hbound⟩ := hobtained token hgiven
                rw [hjwt, Option.some.injEq] at hjwt'
                subst hjwt'
                rw [hparsed, Option.some.injEq] at hparse'
                subst hparse'
                exact hbound
            · rw [hnone jwt hjwt] at hparsed
              cases hparsed
          exact bounded_of_issues hjwt hissues hwithin.1 hwithin.2

/-- Everything obtained so far is bounded, and of the service only the failures have changed. -/
structure CallerState.Bounded (server : TokenServer) (user : User) (state : CallerState) :
    Prop where
  auth : ∃ failures, state.server.auth = { server.auth with authFailures := failures }
  obtained : ∀ token ∈ state.obtained, FsServer.Bounded server.auth user token

theorem Caller.bounded_step (h : Caller hashApiKey server credential user)
    (henabled : server.auth.authEnabled = true) (hkeys : KeysAreNotTokens hashApiKey server.auth)
    (hrole : user.role ≠ "admin") {state after : CallerState} {call : TokenCall}
    {reply : TokenReply} (hstate : state.Bounded server user)
    (hstep : CallerStep hashApiKey credential state call reply after) :
    after.Bounded server user := by
  obtain ⟨⟨hheld, hhanded⟩, hserves, hobtained⟩ := hstep
  obtain ⟨failures, hauth⟩ := hstate.auth
  generalize hserver' : after.server = server' at hserves
  have hrest : (∃ failures, server'.auth = { server.auth with authFailures := failures }) ∧
      ∀ token ∈ reply.tokens, FsServer.Bounded server.auth user token := by
    cases hserves with
    | @refused scan now outcome auth' hscan htime hrefused houtcome =>
      refine ⟨?_, fun _ hmem => nomatch hmem⟩
      obtain ⟨failures', hfailures'⟩ := authMiddleware_snd hashApiKey state.server.auth scan
        state.server.jwt.blacklist now call.credentials
      rw [houtcome, hauth] at hfailures'
      exact ⟨failures', hfailures'⟩
    | @handled scan now found auth' _ jwt hscan htime houtcome hruns =>
      obtain ⟨failures', hfailures'⟩ := authMiddleware_snd hashApiKey state.server.auth scan
        state.server.jwt.blacklist now call.credentials
      rw [houtcome, hauth] at hfailures'
      refine ⟨⟨failures', hfailures'⟩, ?_⟩
      rw [hauth] at hscan houtcome hruns hhanded
      obtain ⟨within, rfl, hwithin⟩ := h.within_of_passed henabled hkeys hstate.obtained hscan
        hheld (congrArg Prod.fst houtcome)
      cases hrequest : call.request with
      | generate body =>
        rw [hrequest] at hruns
        exact (ensures_handleGenerateToken hwithin hrole body _).of_runs _ hruns
      | refresh body =>
        rw [hrequest] at hruns hhanded
        refine (h.ensures_handleRefreshToken henabled hkeys hstate.obtained ?_ _).of_runs _ hruns
        intro token hbody
        exact hhanded token (congrArg TokenRequest.refresh hbody)
  refine ⟨hserver' ▸ hrest.1, fun token hmem => ?_⟩
  rw [hobtained] at hmem
  rcases List.mem_append.mp hmem with hold | hnew
  · exact hstate.obtained token hold
  · exact hrest.2 token hnew

/-- Whatever the caller does, its tokens name it and give it nothing that its own role does not. -/
def Contained (hashApiKey : Credential → String) (server : TokenServer) (credential : Credential)
    (user : User) : Prop :=
  ∀ past state, History (CallerStep hashApiKey credential) ⟨server, []⟩ past state →
    ∀ token ∈ state.obtained, ∃ jwt claims, server.auth.jwtService = some jwt ∧
      jwt.library.parse token = some claims ∧ claims.userID = user.id ∧
      (∀ scan resource action,
        requirePermission hashApiKey server.auth scan (some (tokenUser claims)) resource action =
          true →
        requirePermission hashApiKey server.auth scan (some user) resource action = true) ∧
      ∀ scan, requireAdmin hashApiKey server.auth scan (some (tokenUser claims)) = true →
        requireAdmin hashApiKey server.auth scan (some user) = true

/-- A caller can get a token with the role `user`. -/
theorem Caller.exists_token (h : Caller hashApiKey server credential user)
    (henabled : server.auth.authEnabled = true) (hjwt : server.auth.jwtService = some jwt)
    (hid : user.id ≠ "") (hrole : user.role ≠ "admin") :
    ∃ past state token claims, History (CallerStep hashApiKey credential) ⟨server, []⟩ past state ∧
      token ∈ state.obtained ∧ jwt.library.parse token = some claims ∧ claims.role = "user" := by
  obtain ⟨scan, now, credentials, found, hscan, htime, hpresented, hpassed⟩ := h.authenticated
  obtain ⟨hnil, haccepted, rfl⟩ := authMiddleware_of_passed henabled hscan hpassed
  obtain ⟨own, hown⟩ := Option.isSome_iff_exists.mp
    (getUserByApiKey_isSome henabled hscan hnil haccepted)
  rw [hpresented] at hown
  obtain ⟨hownID, hownRole⟩ := Prod.mk.inj (h.resolves _ _ _ _ hscan hown)
  obtain ⟨pair, final, hpair⟩ := jwt.exists_runs_generateTokenPair user.id "user"
    { server.jwt with clock := now }
  have hruns : Runs JwtState.handle (handleGenerateToken server.auth (some own) (some ⟨"", ""⟩))
      { server.jwt with clock := now } (.issued pair) final := by
    have hadmin : own.role ≠ "admin" := by rwa [hownRole]
    unfold handleGenerateToken
    simp only [hjwt, callerID, hownID, if_neg hid, grantRole, Option.map_some, Option.getD_some,
      hadmin, false_and, if_false]
    exact hpair.bind (.done _ _)
  rw [hpresented, hown] at hpassed
  have hserves : server.Serves hashApiKey credentials (.generate (some ⟨"", ""⟩)) (.issued pair)
      ⟨_, final⟩ := .handled hscan htime (Prod.ext hpassed rfl) hruns
  have hstep : CallerStep hashApiKey credential ⟨server, []⟩
      ⟨credentials, .generate (some ⟨"", ""⟩)⟩ (.issued pair)
      ⟨⟨_, final⟩, [pair.accessToken, pair.refreshToken]⟩ :=
    ⟨⟨.inl (by rw [hpresented]; exact List.mem_cons_self), fun _ hrequest => nomatch hrequest⟩,
      hserves, rfl⟩
  have hissues := (jwt.ensures_generateTokenPair user.id "user" _).of_runs _ hpair pair rfl
  obtain ⟨claims, hparse, -, hclaims⟩ := hissues pair.accessToken List.mem_cons_self
  exact ⟨_, _, pair.accessToken, claims, History.nil.snoc hstep, List.mem_cons_self, hparse, hclaims⟩

/-- Nobody but callers whose role is `user` anyway is kept within its role. -/
theorem contained_iff (henabled : server.auth.authEnabled = true)
    (hkeys : KeysAreNotTokens hashApiKey server.auth) (hrole : user.role ≠ "admin")
    (hcaller : Caller hashApiKey server credential user) :
    Contained hashApiKey server credential user ↔
      (server.auth.jwtService = none ∨ user.id = "" ∨ user.role = "user") := by
  constructor
  · intro hcontained
    by_contra hother
    simp only [not_or] at hother
    obtain ⟨hsome, hid, huser⟩ := hother
    obtain ⟨jwt, hjwt⟩ := Option.ne_none_iff_exists'.mp hsome
    obtain ⟨past, state, token, claims, hhistory, hmem, hparse, hclaims⟩ :=
      hcaller.exists_token henabled hjwt hid hrole
    obtain ⟨jwt', claims', hjwt', hparse', -, hgrants, -⟩ := hcontained past state hhistory token hmem
    rw [hjwt, Option.some.injEq] at hjwt'
    subst hjwt'
    rw [hparse, Option.some.injEq] at hparse'
    subst hparse'
    have hread := hgrants [] "files" "read"
    simp only [requirePermission, validateApiKey_nil henabled, Bool.false_eq_true, if_false,
      roleGrants, tokenUser, hclaims] at hread
    simp [hrole, huser] at hread
  · intro hcondition past state hhistory token hmem
    have hstart : (⟨server, []⟩ : CallerState).Bounded server user :=
      ⟨⟨server.auth.authFailures, rfl⟩, fun _ hnone => absurd hnone List.not_mem_nil⟩
    have hbounded : state.Bounded server user :=
      hhistory.invariant (fun _ => True) _ hstart
        (fun _ hbefore hstep => hcaller.bounded_step henabled hkeys hrole hbefore hstep)
        fun _ _ => trivial
    obtain ⟨jwt, claims, hjwt, hparse, hid, hclaims⟩ := hbounded.obtained token hmem
    have hsame : claims.role = user.role := by
      rcases hclaims with hsame | ⟨huser, hnonempty⟩
      · exact hsame
      · rcases hcondition with hnone | hempty | hown
        · rw [hjwt] at hnone
          cases hnone
        · exact absurd hempty hnonempty
        · exact huser.trans hown.symm
    refine ⟨jwt, claims, hjwt, hparse, hid, fun scan resource action hgranted => ?_,
      fun scan hgranted => ?_⟩
    · simp only [requirePermission, tokenUser, hsame] at hgranted ⊢
      exact hgranted
    · simp only [requireAdmin, tokenUser, hsame] at hgranted ⊢
      exact hgranted

def TokenServer.withUser (user : User) : TokenServer where
  auth :=
    { users := [user]
      authEnabled := true
      defaultApiKeyHash := ""
      authFailures := ∅
      jwtService := some .standard
      apiKeyLookupFn := none }
  jwt := .empty

def User.keyHolder (role : String) : User := ⟨"u", "key", "U", role, true⟩

theorem withUser_keysAreNotTokens (role : String) :
    KeysAreNotTokens String.ofList (TokenServer.withUser (.keyHolder role)).auth := by
  rintro jwt token claims ⟨⟩ hparse (⟨hne, -⟩ | ⟨user, huser, -, hhash⟩ | ⟨lookup, key, hlookup, -⟩)
  · exact hne rfl
  · obtain rfl := List.mem_singleton.mp huser
    have htoken : token = "key".toList := by
      rw [← String.toList_ofList (l := token), ← hhash]
      rfl
    rw [htoken] at hparse
    cases hparse
  · cases hlookup

theorem withUser_caller (role : String) :
    Caller String.ofList (.withUser (.keyHolder role)) "key".toList (.keyHolder role) where
  authenticated := ⟨[.keyHolder role], 0, ⟨[], [], "key".toList⟩, some (.keyHolder role), .refl _,
    le_rfl, rfl, rfl⟩
  resolves := by
    intro scan blacklist now found hscan hfound
    obtain rfl : scan = [.keyHolder role] := List.perm_singleton.mp hscan
    obtain rfl : User.keyHolder role = found := Option.some.inj hfound
    rfl

theorem contained_user :
    Contained String.ofList (.withUser (.keyHolder "user")) "key".toList (.keyHolder "user") :=
  (contained_iff rfl (withUser_keysAreNotTokens "user") (by decide) (withUser_caller "user")).mpr
    (.inr (.inr rfl))

/-- A guest, who may call nothing, asks for a token and may then read and write. -/
theorem guest_escalates :
    ¬ Contained String.ofList (.withUser (.keyHolder "guest")) "key".toList
      (.keyHolder "guest") := by
  intro hcontained
  obtain ⟨past, state, token, claims, hhistory, hmem, hparse, hclaims⟩ :=
    (withUser_caller "guest").exists_token rfl rfl (by decide) (by decide)
  obtain ⟨jwt, claims', hjwt, hparse', -, hgrants, -⟩ := hcontained past state hhistory token hmem
  cases hjwt
  rw [hparse, Option.some.injEq] at hparse'
  subst hparse'
  have hwrite := hgrants [] "files" "write" (by
    simp [requirePermission, roleGrants, tokenUser, hclaims])
  revert hwrite
  decide

end Caller

end FsServer
