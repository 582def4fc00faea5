import FsServer.Access
import FsServer.Proof.Jwt

/-!
# Keys, permissions and the two servers

What it takes for a credential to be accepted, stated on the tables rather than on the order in which
the code goes through them; what the permissions of a stored key come to; and where the HTTP
middleware and the gRPC interceptor part ways.
-/

namespace FsServer

open AuthService

variable {hashApiKey : Credential → String} {service : AuthService} {scan : List User}
  {blacklist : Blacklist} {now : Time} {apiKey : Credential}

/-! ### Keys -/

namespace AuthService

def IsDefaultKey (hashApiKey : Credential → String) (service : AuthService) (apiKey : Credential) :
    Prop :=
  service.defaultApiKeyHash ≠ "" ∧ hashApiKey apiKey = service.defaultApiKeyHash

def Owns (hashApiKey : Credential → String) (apiKey : Credential) (user : User) : Prop :=
  user.enabled = true ∧ user.apiKeyHash = hashApiKey apiKey

/-- The key is the configured one, one of a user, or an active one of the database. -/
def IsApiKey (hashApiKey : Credential → String) (service : AuthService) (apiKey : Credential) :
    Prop :=
  IsDefaultKey hashApiKey service apiKey ∨ (∃ user ∈ service.users, Owns hashApiKey apiKey user) ∨
    ∃ lookup key, service.apiKeyLookupFn = some lookup ∧ lookup (hashApiKey apiKey) = some key ∧
      key.isActive = true

theorem userOf_isSome (hscan : scan.Perm service.users) :
    (userOf scan (hashApiKey apiKey)).isSome = true ↔
      ∃ user ∈ service.users, Owns hashApiKey apiKey user := by
  unfold userOf
  rw [List.find?_isSome]
  simp only [Owns, Bool.and_eq_true, decide_eq_true_eq, hscan.mem_iff]

theorem storedKey_eq_some {key : ApiKey} {hashedKey : String} :
    service.storedKey hashedKey = some key ↔
      ∃ lookup, service.apiKeyLookupFn = some lookup ∧ lookup hashedKey = some key ∧
        key.isActive = true := by
  unfold storedKey
  cases service.apiKeyLookupFn with
  | none => simp
  | some lookup => simp [Option.filter_eq_some_iff]

section

variable (henabled : service.authEnabled = true)
include henabled

theorem validateApiKey_nil : service.validateApiKey hashApiKey scan [] = false := by
  simp [validateApiKey, henabled]

theorem validateApiKey_iff (hkey : apiKey ≠ []) (hscan : scan.Perm service.users) :
    service.validateApiKey hashApiKey scan apiKey = true ↔ IsApiKey hashApiKey service apiKey := by
  have hstored : (service.storedKey (hashApiKey apiKey)).isSome = true ↔
      ∃ lookup key, service.apiKeyLookupFn = some lookup ∧ lookup (hashApiKey apiKey) = some key ∧
        key.isActive = true := by
    rw [Option.isSome_iff_exists]
    simp only [storedKey_eq_some]
    exact exists_comm
  unfold validateApiKey IsApiKey
  rw [← userOf_isSome hscan, ← hstored]
  by_cases hdefault : IsDefaultKey hashApiKey service apiKey
  · have hdefault' := hdefault
    unfold IsDefaultKey at hdefault'
    simp [henabled, hkey, hdefault, hdefault']
  · have hdefault' := hdefault
    unfold IsDefaultKey at hdefault'
    simp [henabled, hkey, hdefault, hdefault']

theorem getUserByApiKey_of_token {claims : Claims} (hkey : apiKey ≠ [])
    (htoken : service.accessToken blacklist now apiKey = some claims) :
    service.getUserByApiKey hashApiKey scan blacklist now apiKey = some (tokenUser claims) := by
  simp [getUserByApiKey, henabled, hkey, htoken]

theorem getUserByApiKey_of_key (hkey : apiKey ≠ [])
    (htoken : service.accessToken blacklist now apiKey = none) :
    service.getUserByApiKey hashApiKey scan blacklist now apiKey =
      service.keyOwner scan (hashApiKey apiKey) := by
  simp [getUserByApiKey, henabled, hkey, htoken]

end

end AuthService

/-! ### The permissions of a stored key -/

theorem permissionsRole_eq_admin_iff (permissions : List Char) :
    permissionsRole permissions = "admin" ↔ "admin".toList ∈ permissionList permissions := by
  unfold permissionsRole
  by_cases hadmin : permissions = "admin".toList
  · rw [if_pos hadmin, hadmin]
    decide
  · rw [if_neg hadmin]
    by_cases hnil : permissions = []
    · rw [if_neg (not_not_intro hnil), hnil]
      decide
    · rw [if_pos hnil]
      simp only [List.any_eq_true, decide_eq_true_eq]
      split_ifs with hmem
      · obtain ⟨p, hp, rfl⟩ := hmem
        exact iff_of_true rfl hp
      · refine iff_of_false (by decide) fun hp => hmem ⟨_, hp, rfl⟩

theorem permissionsRole_cases (permissions : List Char) :
    permissionsRole permissions = "admin" ∨ permissionsRole permissions = "user" := by
  unfold permissionsRole
  split_ifs <;> simp

/-- The key is found in the database, and it is not also a token, the configured key or one of a
user. -/
structure AuthService.IsStoredKey (hashApiKey : Credential → String) (service : AuthService)
    (blacklist : Blacklist) (now : Time) (apiKey : Credential) (key : ApiKey) : Prop where
  stored : ∃ lookup, service.apiKeyLookupFn = some lookup ∧
    lookup (hashApiKey apiKey) = some key ∧ key.isActive = true
  nonempty : apiKey ≠ []
  notToken : service.accessToken blacklist now apiKey = none
  notDefault : ¬ IsDefaultKey hashApiKey service apiKey
  notUser : ∀ user ∈ service.users, ¬ Owns hashApiKey apiKey user

/-- The request comes through the middleware and then through the check of its route. -/
def Granted (hashApiKey : Credential → String) (service : AuthService) (scan : List User)
    (blacklist : Blacklist) (now : Time) (request : HttpCredentials) (resource action : String) :
    Prop :=
  ∃ user, (authMiddleware hashApiKey service scan blacklist now request).1 = .passed user ∧
    requirePermission hashApiKey service scan user resource action = true

section

variable {key : ApiKey} (h : IsStoredKey hashApiKey service blacklist now apiKey key)
include h

theorem AuthService.IsStoredKey.isApiKey : IsApiKey hashApiKey service apiKey := by
  obtain ⟨lookup, hlookup, hfound, hactive⟩ := h.stored
  exact .inr (.inr ⟨lookup, key, hlookup, hfound, hactive⟩)

theorem AuthService.IsStoredKey.getUserByApiKey (henabled : service.authEnabled = true)
    (hscan : scan.Perm service.users) :
    service.getUserByApiKey hashApiKey scan blacklist now apiKey = some (keyUser key) := by
  rw [getUserByApiKey_of_key henabled h.nonempty h.notToken]
  have hnone : userOf scan (hashApiKey apiKey) = none := by
    rw [← Option.not_isSome_iff_eq_none, userOf_isSome hscan]
    rintro ⟨user, huser, howns⟩
    exact h.notUser user huser howns
  have hdefault := h.notDefault
  unfold IsDefaultKey at hdefault
  unfold keyOwner
  rw [if_neg hdefault, hnone, storedKey_eq_some.mpr h.stored]
  rfl

theorem AuthService.IsStoredKey.granted {request : HttpCredentials} {resource action : String}
    (henabled : service.authEnabled = true) (hscan : scan.Perm service.users)
    (hrequest : presentedKey request.authorization request.xApiKey = apiKey)
    (hlimit : service.isRateLimited now request.clientIP = false) :
    Granted hashApiKey service scan blacklist now request resource action ↔
      roleGrants (permissionsRole key.permissions) resource action = true := by
  have hmiddleware : (authMiddleware hashApiKey service scan blacklist now request).1 =
      .passed (some (keyUser key)) := by
    have hvalid := (validateApiKey_iff henabled h.nonempty hscan).mpr h.isApiKey
    unfold authMiddleware
    simp only [hlimit, hrequest, validateApiKey_nil henabled, h.nonempty, hvalid,
      h.getUserByApiKey henabled hscan, Bool.false_eq_true, if_false, if_true]
  unfold Granted
  rw [hmiddleware]
  simp only [AuthOutcome.passed.injEq, exists_eq_left', requirePermission,
    validateApiKey_nil henabled, Bool.false_eq_true, if_false]
  rfl

end

/-- A key's role is `admin` exactly if its permissions say so, and it may write only if they say
nothing or name a role or a right to write. -/
def PermissionsEnforced (hashApiKey : Credential → String) (service : AuthService)
    (scan : List User) (blacklist : Blacklist) (now : Time) (apiKey : Credential)
    (request : HttpCredentials) (permissions : List Char) : Prop :=
  (∃ user, service.getUserByApiKey hashApiKey scan blacklist now apiKey = some user ∧
    (user.role = "admin" ↔ "admin".toList ∈ permissionList permissions)) ∧
  (Granted hashApiKey service scan blacklist now request "files" "write" →
    permissions = [] ∨ "admin".toList ∈ permissionList permissions ∨
      "user".toList ∈ permissionList permissions ∨
      "user:write".toList ∈ permissionList permissions)

theorem permissions_named {permissions : List Char} (hvalid : isValidPermissions permissions = true)
    (hnonempty : permissions ≠ []) {p : List Char} (hp : p ∈ permissionList permissions) :
    p = "admin".toList ∨ p = "user".toList ∨ p = "user:read".toList ∨ p = "user:write".toList := by
  unfold isValidPermissions at hvalid
  rw [if_neg hnonempty, List.all_eq_true] at hvalid
  have hallowed := hvalid p hp
  simp only [decide_eq_true_eq] at hallowed
  simpa [allowedPermissions] using hallowed.2

/-- A key that was given nothing but `user:read` may write as well. -/
theorem permissions_enforced_iff {key : ApiKey} {request : HttpCredentials}
    (henabled : service.authEnabled = true) (hscan : scan.Perm service.users)
    (hkey : IsStoredKey hashApiKey service blacklist now apiKey key)
    (hvalid : isValidPermissions key.permissions = true)
    (hrequest : presentedKey request.authorization request.xApiKey = apiKey)
    (hlimit : service.isRateLimited now request.clientIP = false) :
    PermissionsEnforced hashApiKey service scan blacklist now apiKey request key.permissions ↔
      (key.permissions = [] ∨
        ∃ p ∈ permissionList key.permissions, p ≠ "user:read".toList) := by
  have hwrites : Granted hashApiKey service scan blacklist now request "files" "write" := by
    rw [hkey.granted henabled hscan hrequest hlimit]
    rcases permissionsRole_cases key.permissions with hrole | hrole <;> rw [hrole] <;> decide
  have huser := hkey.getUserByApiKey henabled hscan
  unfold PermissionsEnforced
  constructor
  · rintro ⟨-, honly⟩
    rcases honly hwrites with hnil | hadmin | huser | hwrite
    · exact .inl hnil
    · exact .inr ⟨_, hadmin, by decide⟩
    · exact .inr ⟨_, huser, by decide⟩
    · exact .inr ⟨_, hwrite, by decide⟩
  · intro hnamed
    refine ⟨⟨keyUser key, huser, permissionsRole_eq_admin_iff key.permissions⟩, fun _ => ?_⟩
    by_cases hnil : key.permissions = []
    · exact .inl hnil
    · rcases hnamed with hnil' | ⟨p, hp, hread⟩
      · exact .inl hnil'
      · rcases permissions_named hvalid hnil hp with rfl | rfl | rfl | rfl
        · exact .inr (.inl hp)
        · exact .inr (.inr (.inl hp))
        · exact absurd rfl hread
        · exact .inr (.inr (.inr hp))

def AuthService.withStoredKey (permissions : List Char) : AuthService where
  users := []
  authEnabled := true
  defaultApiKeyHash := ""
  authFailures := ∅
  jwtService := none
  apiKeyLookupFn := some fun hash =>
    if hash = "key" then some ⟨"id", "name", permissions, true⟩ else none

theorem withStoredKey_isStoredKey (permissions : List Char) :
    IsStoredKey String.ofList (.withStoredKey permissions) (fun _ => none) 0 "key".toList
      ⟨"id", "name", permissions, true⟩ where
  stored := ⟨_, rfl, rfl, rfl⟩
  nonempty := by decide
  notToken := rfl
  notDefault := fun h => h.1 rfl
  notUser := fun _ huser => nomatch huser

theorem permissions_enforced_user :
    PermissionsEnforced String.ofList (.withStoredKey "user:read, user".toList) [] (fun _ => none) 0
      "key".toList ⟨[], [], "key".toList⟩ "user:read, user".toList :=
  (permissions_enforced_iff rfl .nil (withStoredKey_isStoredKey _) (by decide) (by decide) rfl).mpr
    (.inr ⟨"user".toList, by decide, by decide⟩)

theorem readOnlyKey_writes :
    isValidPermissions "user:read".toList = true ∧
      ¬ PermissionsEnforced String.ofList (.withStoredKey "user:read".toList) [] (fun _ => none) 0
        "key".toList ⟨[], [], "key".toList⟩ "user:read".toList := by
  refine ⟨by decide, fun ⟨_, honly⟩ => ?_⟩
  have hgranted : Granted String.ofList (.withStoredKey "user:read".toList) [] (fun _ => none) 0
      ⟨[], [], "key".toList⟩ "files" "write" := ⟨_, rfl, by decide⟩
  revert honly
  simp only [hgranted, forall_const]
  decide

/-! ### The two servers -/

section Servers

variable {request : HttpCredentials} {authorization xApiKey : Option Credential}

def httpRequest (clientIP : List Char) (authorization xApiKey : Option Credential) :
    HttpCredentials where
  clientIP := clientIP
  authorization := authorization.getD []
  xApiKey := xApiKey.getD []

def grpcRequest (authorization xApiKey : Option Credential) : Metadata where
  apiKeys := xApiKey.toList
  authHeaders := authorization.toList

theorem authMiddleware_passed_iff (henabled : service.authEnabled = true)
    (hscan : scan.Perm service.users)
    (hlimit : service.isRateLimited now request.clientIP = false) {user : Option User} :
    (authMiddleware hashApiKey service scan blacklist now request).1 = .passed user ↔
      presentedKey request.authorization request.xApiKey ≠ [] ∧
      (IsApiKey hashApiKey service (presentedKey request.authorization request.xApiKey) ∨
        (service.accessToken blacklist now
          (presentedKey request.authorization request.xApiKey)).isSome) ∧
      user = service.getUserByApiKey hashApiKey scan blacklist now
        (presentedKey request.authorization request.xApiKey) := by
  unfold authMiddleware
  simp only [hlimit, validateApiKey_nil henabled, Bool.false_eq_true, if_false]
  generalize presentedKey request.authorization request.xApiKey = apiKey
  by_cases hnil : apiKey = []
  · simp [hnil]
  · rw [if_neg hnil]
    by_cases hkey : IsApiKey hashApiKey service apiKey
    · rw [if_pos ((validateApiKey_iff henabled hnil hscan).mpr hkey)]
      simp only [AuthOutcome.passed.injEq, ne_eq, hnil, not_false_eq_true, hkey, true_or, true_and]
      exact eq_comm
    · rw [if_neg (hkey ∘ (validateApiKey_iff henabled hnil hscan).mp)]
      cases htoken : service.accessToken blacklist now apiKey with
      | none => simp [hkey]
      | some claims =>
        simp only [AuthOutcome.passed.injEq, ne_eq, hnil, not_false_eq_true, Option.isSome_some,
          or_true, true_and, getUserByApiKey_of_token henabled hnil htoken]
        exact eq_comm

/-- gRPC takes a token from a bearer header only. -/
def TakesToken (authorization xApiKey : Credential) : Prop :=
  xApiKey = [] ∧ bearerScheme.isPrefixOf authorization = true

theorem accessToken_nil : service.accessToken blacklist now [] = none := by
  unfold accessToken
  cases service.jwtService with
  | none => rfl
  | some jwt => simp [JWTService.validAt, JWTService.parseWithClaims, jwt.library.parse_nil]

theorem authenticateHeader_ok_iff (henabled : service.authEnabled = true)
    (hscan : scan.Perm service.users) {header : Credential} {user : Option User} :
    authenticateHeader hashApiKey service scan blacklist now header = some (.ok user) ↔
      presentedKey header [] ≠ [] ∧
      (IsApiKey hashApiKey service (presentedKey header []) ∨
        TakesToken header [] ∧
          (service.accessToken blacklist now (presentedKey header [])).isSome) ∧
      user = service.getUserByApiKey hashApiKey scan blacklist now (presentedKey header []) := by
  unfold authenticateHeader presentedKey TakesToken withUser
  by_cases hbearer : bearerScheme.isPrefixOf header = true
  · simp only [hbearer, if_true, ne_eq, not_true_eq_false, if_false, true_and, and_self]
    generalize trimScheme bearerScheme header = token
    by_cases hnil : token = []
    · simp [hnil, validateApiKey_nil henabled, accessToken_nil]
    · rw [← validateApiKey_iff henabled hnil hscan]
      by_cases hkey : service.validateApiKey hashApiKey scan token = true
      · simp only [hnil, hkey, if_true, Option.some.injEq, Except.ok.injEq, not_false_eq_true,
          true_or, true_and]
        exact eq_comm
      · by_cases htoken : (service.accessToken blacklist now token).isSome = true
        · simp only [hnil, hkey, htoken, if_true, if_false, Bool.false_eq_true, Option.some.injEq,
            Except.ok.injEq, not_false_eq_true, or_true, true_and]
          exact eq_comm
        · simp [hkey, htoken]
  · simp only [hbearer, Bool.false_eq_true, if_false, ne_eq, not_true_eq_false, and_false, false_and,
      or_false]
    by_cases hscheme : apiKeyScheme.isPrefixOf header = true
    · simp only [hscheme, if_true]
      generalize trimScheme apiKeyScheme header = key
      by_cases hnil : key = []
      · simp [hnil, validateApiKey_nil henabled]
      · rw [← validateApiKey_iff henabled hnil hscan]
        by_cases hkey : service.validateApiKey hashApiKey scan key = true
        · simp only [hnil, hkey, if_true, Option.some.injEq, Except.ok.injEq, not_false_eq_true,
            true_and]
          exact eq_comm
        · simp [hkey]
    · simp [hscheme]

theorem presentedKey_of_nonempty {header key : Credential} (h : key ≠ []) :
    presentedKey header key = key := if_pos h

theorem authenticate_ok_iff (henabled : service.authEnabled = true)
    (hscan : scan.Perm service.users) {user : Option User} :
    authenticate hashApiKey service scan blacklist now (some (grpcRequest authorization xApiKey)) =
        .ok user ↔
      presentedKey (authorization.getD []) (xApiKey.getD []) ≠ [] ∧
      (IsApiKey hashApiKey service (presentedKey (authorization.getD []) (xApiKey.getD [])) ∨
        TakesToken (authorization.getD []) (xApiKey.getD []) ∧
          (service.accessToken blacklist now
            (presentedKey (authorization.getD []) (xApiKey.getD []))).isSome) ∧
      user = service.getUserByApiKey hashApiKey scan blacklist now
        (presentedKey (authorization.getD []) (xApiKey.getD [])) := by
  have hhead : (grpcRequest authorization xApiKey).apiKeys.headD [] = xApiKey.getD [] := by
    cases xApiKey <;> rfl
  have hwithout : withoutCredential hashApiKey service scan = .error .required := by
    simp [withoutCredential, validateApiKey_nil henabled]
  simp only [authenticate, hhead]
  by_cases hnil : xApiKey.getD [] = []
  · rw [if_neg (not_not_intro hnil), hnil]
    cases authorization with
    | none =>
      rw [show (grpcRequest none xApiKey).authHeaders = [] from rfl, List.findSome?_nil, hwithout]
      exact iff_of_false (fun h => nomatch h) fun h => h.1 rfl
    | some header =>
      rw [show (grpcRequest (some header) xApiKey).authHeaders = [header] from rfl,
        Option.getD_some, ← authenticateHeader_ok_iff henabled hscan, List.findSome?_singleton]
      cases hresult : authenticateHeader hashApiKey service scan blacklist now header with
      | none => simp [hwithout]
      | some result => simp
  · have htakes : ¬ TakesToken (authorization.getD []) (xApiKey.getD []) := fun h => hnil h.1
    rw [if_pos hnil, presentedKey_of_nonempty hnil]
    by_cases hkey : IsApiKey hashApiKey service (xApiKey.getD [])
    · rw [if_pos ((validateApiKey_iff henabled hnil hscan).mpr hkey)]
      simp only [withUser, Except.ok.injEq, ne_eq, hnil, not_false_eq_true, hkey, true_or, true_and]
      exact eq_comm
    · rw [if_neg (hkey ∘ (validateApiKey_iff henabled hnil hscan).mp)]
      simp [hkey, htakes]

def User.identity (user : User) : String × String := (user.id, user.role)

/-- Both let the request through or neither does, and then for the same user. -/
def SameDecision (outcome : AuthOutcome) (result : Except GrpcAuthError (Option User)) : Prop :=
  ((∃ user, outcome = .passed user) ↔ ∃ user, result = .ok user) ∧
    ∀ user user', outcome = .passed user → result = .ok user' →
      user.map User.identity = user'.map User.identity

/-- Several users own the key, and it is left to the order of the table which one is found. -/
def AuthService.Ambiguous (hashApiKey : Credential → String) (service : AuthService)
    (apiKey : Credential) : Prop :=
  ¬ IsDefaultKey hashApiKey service apiKey ∧
    ∃ user ∈ service.users, ∃ other ∈ service.users, Owns hashApiKey apiKey user ∧
      Owns hashApiKey apiKey other ∧ user.identity ≠ other.identity

theorem userOf_eq_some {user : User} (hscan : scan.Perm service.users)
    (h : userOf scan (hashApiKey apiKey) = some user) :
    user ∈ service.users ∧ Owns hashApiKey apiKey user := by
  unfold userOf at h
  have howns := List.find?_some h
  rw [Bool.and_eq_true, decide_eq_true_eq] at howns
  exact ⟨hscan.mem_iff.mp (List.mem_of_find?_eq_some h), howns⟩

theorem exists_scan_first {user : User} (huser : user ∈ service.users)
    (howns : Owns hashApiKey apiKey user) :
    ∃ scan, scan.Perm service.users ∧ userOf scan (hashApiKey apiKey) = some user := by
  obtain ⟨rest, hrest⟩ : ∃ rest, (user :: rest).Perm service.users :=
    ⟨_, (List.perm_cons_erase huser).symm⟩
  refine ⟨user :: rest, hrest, ?_⟩
  unfold userOf
  rw [List.find?_cons_of_pos]
  simp [howns.1, howns.2]

theorem identity_keyOwner {scan' : List User} (hscan : scan.Perm service.users)
    (hscan' : scan'.Perm service.users) (hclear : ¬ Ambiguous hashApiKey service apiKey) :
    (service.keyOwner scan (hashApiKey apiKey)).map User.identity =
      (service.keyOwner scan' (hashApiKey apiKey)).map User.identity := by
  unfold keyOwner
  split_ifs with hdefault
  · rfl
  · cases hfound : userOf scan (hashApiKey apiKey) with
    | none =>
      have hnone : userOf scan' (hashApiKey apiKey) = none := by
        rw [← Option.not_isSome_iff_eq_none, userOf_isSome hscan', ← userOf_isSome hscan, hfound]
        exact Bool.false_ne_true
      rw [hnone]
    | some user =>
      obtain ⟨huser, howns⟩ := userOf_eq_some hscan hfound
      obtain ⟨other, hother⟩ := Option.isSome_iff_exists.mp
        ((userOf_isSome hscan').mpr ⟨user, huser, howns⟩)
      obtain ⟨hmem, howns'⟩ := userOf_eq_some hscan' hother
      rw [hother]
      by_contra hne
      exact hclear ⟨hdefault, user, huser, other, hmem, howns, howns',
        fun heq => hne (congrArg some heq)⟩

/-- The servers decide alike unless a token is sent where gRPC expects a key, or the key has several
owners. -/
theorem servers_agree_iff (hashApiKey : Credential → String) (service : AuthService)
    (blacklist : Blacklist) (now : Time) (clientIP : List Char)
    (authorization xApiKey : Option Credential) (henabled : service.authEnabled = true)
    (hlimit : service.isRateLimited now clientIP = false) :
    (∀ scan scan', scan.Perm service.users → scan'.Perm service.users →
      SameDecision
        (authMiddleware hashApiKey service scan blacklist now
          (httpRequest clientIP authorization xApiKey)).1
        (authenticate hashApiKey service scan' blacklist now
          (some (grpcRequest authorization xApiKey)))) ↔
    ((service.accessToken blacklist now
        (presentedKey (authorization.getD []) (xApiKey.getD []))).isSome →
      TakesToken (authorization.getD []) (xApiKey.getD []) ∨
        IsApiKey hashApiKey service (presentedKey (authorization.getD []) (xApiKey.getD []))) ∧
    (presentedKey (authorization.getD []) (xApiKey.getD []) ≠ [] →
      service.accessToken blacklist now
        (presentedKey (authorization.getD []) (xApiKey.getD [])) = none →
      ¬ Ambiguous hashApiKey service (presentedKey (authorization.getD []) (xApiKey.getD []))) := by
  have hhttp := fun (scan : List User) (hscan : scan.Perm service.users) (user : Option User) =>
    @authMiddleware_passed_iff hashApiKey service scan blacklist now
      (httpRequest clientIP authorization xApiKey) henabled hscan hlimit user
  have hgrpc := fun (scan : List User) (hscan : scan.Perm service.users) (user : Option User) =>
    @authenticate_ok_iff hashApiKey service scan blacklist now authorization xApiKey henabled hscan
      user
  simp only [httpRequest] at hhttp ⊢
  generalize presentedKey (authorization.getD []) (xApiKey.getD []) = apiKey at *
  constructor
  · intro hagree
    constructor
    · intro htoken
      have hnil : apiKey ≠ [] := by
        rintro rfl
        rw [accessToken_nil] at htoken
        cases htoken
      obtain ⟨user, hpassed⟩ := (hagree service.users service.users (.refl _) (.refl _)).1.mp
        ⟨_, (hhttp _ (.refl _) _).mpr ⟨hnil, .inr htoken, rfl⟩⟩
      rcases ((hgrpc _ (.refl _) _).mp hpassed).2.1 with hkey | ⟨htakes, -⟩
      · exact .inr hkey
      · exact .inl htakes
    · rintro hnil htoken ⟨hdefault, user, huser, other, hother, howns, howns', hne⟩
      have hkey : IsApiKey hashApiKey service apiKey := .inr (.inl ⟨user, huser, howns⟩)
      obtain ⟨scan, hscan, hfirst⟩ := exists_scan_first huser howns
      obtain ⟨scan', hscan', hfirst'⟩ := exists_scan_first hother howns'
      have hsame := (hagree scan scan' hscan hscan').2 _ _
        ((hhttp _ hscan _).mpr ⟨hnil, .inl hkey, rfl⟩) ((hgrpc _ hscan' _).mpr ⟨hnil, .inl hkey, rfl⟩)
      unfold IsDefaultKey at hdefault
      rw [getUserByApiKey_of_key henabled hnil htoken, getUserByApiKey_of_key henabled hnil htoken,
        keyOwner, keyOwner, if_neg hdefault, if_neg hdefault, hfirst, hfirst'] at hsame
      exact hne (Option.some.inj hsame)
  · rintro ⟨htoken, hclear⟩ scan scan' hscan hscan'
    constructor
    · constructor
      · rintro ⟨user, hpassed⟩
        obtain ⟨hnil, haccepted, -⟩ := (hhttp _ hscan _).mp hpassed
        refine ⟨_, (hgrpc _ hscan' _).mpr ⟨hnil, ?_, rfl⟩⟩
        rcases haccepted with hkey | hsome
        · exact .inl hkey
        · exact (htoken hsome).symm.imp_right fun htakes => ⟨htakes, hsome⟩
      · rintro ⟨user, hpassed⟩
        obtain ⟨hnil, haccepted, -⟩ := (hgrpc _ hscan' _).mp hpassed
        exact ⟨_, (hhttp _ hscan _).mpr ⟨hnil, haccepted.imp_right And.right, rfl⟩⟩
    · intro user user' hpassed hpassed'
      obtain ⟨hnil, -, rfl⟩ := (hhttp _ hscan _).mp hpassed
      obtain ⟨-, -, rfl⟩ := (hgrpc _ hscan' _).mp hpassed'
      cases hclaims : service.accessToken blacklist now apiKey with
      | some claims =>
        rw [getUserByApiKey_of_token henabled hnil hclaims,
          getUserByApiKey_of_token henabled hnil hclaims]
      | none =>
        rw [getUserByApiKey_of_key henabled hnil hclaims,
          getUserByApiKey_of_key henabled hnil hclaims]
        exact identity_keyOwner hscan hscan' (hclear hnil hclaims)

def AuthService.withTokens (jwt : JWTService) : AuthService where
  users := []
  authEnabled := true
  defaultApiKeyHash := ""
  authFailures := ∅
  jwtService := some jwt
  apiKeyLookupFn := none

theorem withTokens_not_isApiKey (jwt : JWTService) (apiKey : Credential) :
    ¬ IsApiKey hashApiKey (.withTokens jwt) apiKey := by
  rintro (⟨hne, -⟩ | ⟨user, huser, -⟩ | ⟨lookup, key, hlookup, -⟩)
  · exact hne rfl
  · cases huser
  · cases hlookup

theorem withTokens_accessToken {jwt : JWTService} {claims : Claims}
    (hcurrent : claims.current now = true) (htype : claims.tokenType = "access") :
    (withTokens jwt).accessToken blacklist now (jwt.library.signedString claims) =
      some claims := by
  unfold accessToken JWTService.validAt withTokens
  simp only [jwt.parseWithClaims_signedString hcurrent]
  simp [htype, Option.filter_some]

theorem signedString_ne_nil (jwt : JWTService) (claims : Claims) :
    jwt.library.signedString claims ≠ [] := by
  intro hnil
  have hparse := jwt.library.parse_signedString claims
  rw [hnil, jwt.library.parse_nil] at hparse
  cases hparse

def firstAccessToken : Credential := (JWTService.standard.tokenPair 0 "u" "user" "a" "r").accessToken

theorem firstAccessToken_accepted :
    (withTokens .standard).accessToken (fun _ => none) 0 firstAccessToken =
      some (JWTService.standard.accessClaims 0 "u" "user" "a") :=
  withTokens_accessToken (by decide) rfl

theorem servers_agree_bearer :
    SameDecision
      (authMiddleware String.ofList (.withTokens .standard) [] (fun _ => none) 0
        (httpRequest [] (some (bearerScheme ++ firstAccessToken)) none)).1
      (authenticate String.ofList (.withTokens .standard) [] (fun _ => none) 0
        (some (grpcRequest (some (bearerScheme ++ firstAccessToken)) none))) := by
  refine (servers_agree_iff String.ofList (.withTokens .standard) (fun _ => none) 0 []
    (some (bearerScheme ++ firstAccessToken)) none rfl rfl).mpr ⟨fun _ => .inl ⟨rfl, rfl⟩, ?_⟩
    [] [] .nil .nil
  rintro - - ⟨-, user, huser, -⟩
  cases huser

/-- The same token as an API key: HTTP lets it through, gRPC does not. -/
theorem servers_disagree_apiKey :
    ¬ SameDecision
      (authMiddleware String.ofList (.withTokens .standard) [] (fun _ => none) 0
        (httpRequest [] none (some firstAccessToken))).1
      (authenticate String.ofList (.withTokens .standard) [] (fun _ => none) 0
        (some (grpcRequest none (some firstAccessToken)))) := by
  rintro ⟨hsame, -⟩
  have hnil : firstAccessToken ≠ [] := signedString_ne_nil .standard _
  have hpresented : presentedKey [] firstAccessToken = firstAccessToken :=
    presentedKey_of_nonempty hnil
  obtain ⟨user, hgrpc⟩ := hsame.mp ⟨_, (authMiddleware_passed_iff rfl .nil rfl).mpr
    ⟨by rwa [httpRequest, Option.getD_none, Option.getD_some, hpresented],
      .inr (by
        rw [httpRequest, Option.getD_none, Option.getD_some, hpresented, firstAccessToken_accepted]
        rfl), rfl⟩⟩
  rcases ((authenticate_ok_iff rfl .nil).mp hgrpc).2.1 with hkey | ⟨htakes, -⟩
  · exact withTokens_not_isApiKey _ _ hkey
  · exact hnil htakes.1

end Servers

end FsServer
