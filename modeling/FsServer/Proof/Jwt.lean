import FsServer.Jwt
import FsServer.Lib.Refinement
import Mathlib.Logic.Encodable.Basic

/-!
# A library of plain tokens

A JWT library that writes the claims out as they are. It shows that the assumptions on the library
can be met, and it signs the tokens of the examples. The calls of the service are run alone here, at
one reading of the clock.
-/

namespace FsServer

open Lib Program JwtState

namespace JWTLibrary

/-- A text with every character marked, and a mark at its end. -/
def field (text : List Char) : Credential := text.flatMap (fun c => ['+', c]) ++ ['.']

def readField : Credential → Option (List Char × Credential)
  | '.' :: rest => some ([], rest)
  | '+' :: c :: rest => (readField rest).map fun read => (c :: read.1, read.2)
  | _ => none

theorem readField_field (text : List Char) (rest : Credential) :
    readField (field text ++ rest) = some (text, rest) := by
  induction text with
  | nil => rfl
  | cons c text ih =>
    have hcons : field (c :: text) ++ rest = '+' :: c :: (field text ++ rest) := rfl
    rw [hcons, readField, ih]
    rfl

def dateField (date : Option Int) : Credential := field (List.replicate (Encodable.encode date) '1')

def readDate (text : List Char) : Option (Option Int) := Encodable.decode text.length

theorem readDate_replicate (date : Option Int) :
    readDate (List.replicate (Encodable.encode date) '1') = some date := by
  unfold readDate
  rw [List.length_replicate, Encodable.encodek]

def plainString (claims : Claims) : Credential :=
  field claims.userID.toList ++ (field claims.role.toList ++ (field claims.tokenType.toList ++
    (field claims.id.toList ++ (dateField claims.expiresAt ++ (dateField claims.notBefore ++ [])))))

def plainParse (token : Credential) : Option Claims := do
  let (userID, token) ← readField token
  let (role, token) ← readField token
  let (tokenType, token) ← readField token
  let (id, token) ← readField token
  let (expiresAt, token) ← readField token
  let (notBefore, _) ← readField token
  let expiresAt ← readDate expiresAt
  let notBefore ← readDate notBefore
  return ⟨String.ofList userID, String.ofList role, String.ofList tokenType, String.ofList id,
    expiresAt, notBefore⟩

def plain : JWTLibrary where
  signedString := plainString
  parse := plainParse
  parse_signedString := by
    intro claims
    simp only [plainParse, plainString, dateField, readField_field, readDate_replicate,
      Option.bind_eq_bind, Option.bind_some, String.ofList_toList]
    rfl
  parse_nil := rfl

end JWTLibrary

theorem Claims.current_of_dates {claims : Claims} {expiry start : Int} {now : Time}
    (hexpiresAt : claims.expiresAt = some expiry) (hnotBefore : claims.notBefore = some start)
    (hbefore : now < expiry * second) (hafter : start * second ≤ now) :
    claims.current now = true := by
  unfold Claims.current
  rw [hexpiresAt, hnotBefore, Bool.and_eq_true]
  exact ⟨decide_eq_true hbefore, decide_eq_true hafter⟩

namespace JWTService

def standard : JWTService where
  library := .plain
  tokenExpiry := 24 * 3600 * second
  refreshExpiry := 168 * 3600 * second

theorem parseWithClaims_signedString (service : JWTService) {claims : Claims} {now : Time}
    (h : claims.current now = true) :
    service.parseWithClaims now (service.library.signedString claims) = some claims := by
  unfold parseWithClaims
  rw [service.library.parse_signedString, Option.filter_some, if_pos h]

/-! ### Calls that run alone -/

variable {service : JWTService} {state : JwtState} {now : Time} {claims : Claims}
  {accessJTI refreshJTI : String}

/-- The identifiers have not been drawn before. -/
def FreshPair (issued : List String) (accessJTI refreshJTI : String) : Prop :=
  (accessJTI ≠ "" ∧ accessJTI ∉ issued) ∧ refreshJTI ≠ "" ∧ refreshJTI ∉ accessJTI :: issued

instance (issued : List String) (accessJTI refreshJTI : String) :
    Decidable (FreshPair issued accessJTI refreshJTI) := inferInstanceAs (Decidable (_ ∧ _))

theorem runs_generateTokenPair (service : JWTService) (userID role : String)
    (hnow : state.clock ≤ now) (hfresh : FreshPair state.issued accessJTI refreshJTI) :
    Runs handle (service.generateTokenPair userID role) state
      (.ok (service.tokenPair now userID role accessJTI refreshJTI))
      { state with clock := now, issued := refreshJTI :: accessJTI :: state.issued } :=
  .call ⟨now, none, []⟩ (if_pos hnow) (.call ⟨0, some accessJTI, []⟩ (if_pos hfresh.1)
    (.call ⟨0, some refreshJTI, []⟩ (if_pos hfresh.2) (.done _ _)))

def lookedUp (claims : Claims) : Option Int → Program JwtCall (Except TokenError Claims)
  | some _ => .done (.error .revoked)
  | none => .done (.ok claims)

theorem checkRevoked_refresh (htype : claims.tokenType = "refresh") (hid : claims.id ≠ "") :
    checkRevoked claims = .call (.load claims.id) (lookedUp claims) := by
  unfold checkRevoked
  rw [if_pos ⟨htype, hid⟩]
  rfl

def validatedAt (service : JWTService) (token : Credential) (time : Time) :
    Program JwtCall (Except TokenError Claims) :=
  match service.parseWithClaims time token with
  | none => .done (.error .parse)
  | some claims => checkRevoked claims

theorem validateToken_bind {α : Type} (service : JWTService) (hcurrent : claims.current now = true)
    (htype : claims.tokenType = "refresh") (hid : claims.id ≠ "")
    (rest : Except TokenError Claims → Program JwtCall α) :
    ∃ first next,
      service.validateToken (service.library.signedString claims) >>= rest = .call .now first ∧
      first now = .call (.load claims.id) next ∧ next none = rest (.ok claims) := by
  refine ⟨fun time => validatedAt service (service.library.signedString claims) time >>= rest,
    fun entry => lookedUp claims entry >>= rest, rfl, ?_, rfl⟩
  dsimp only
  rw [validatedAt, parseWithClaims_signedString service hcurrent]
  dsimp only
  rw [checkRevoked_refresh htype hid, call_bind]

section Validate

variable (hcurrent : claims.current now = true) (htype : claims.tokenType = "refresh")
  (hid : claims.id ≠ "") (hnow : state.clock ≤ now)

include hcurrent htype hid hnow

theorem runs_validateToken {result : Except TokenError Claims}
    (hresult : result = match state.blacklist claims.id with
      | some _ => .error .revoked
      | none => .ok claims) :
    Runs handle (service.validateToken (service.library.signedString claims)) state result
      { state with clock := now } := by
  unfold validateToken
  rw [perform_bind]
  refine .call ⟨now, none, []⟩ (if_pos hnow) ?_
  dsimp only
  rw [parseWithClaims_signedString service hcurrent]
  dsimp only
  rw [checkRevoked_refresh htype hid]
  refine .call ⟨0, none, []⟩ rfl ?_
  dsimp only
  cases hentry : state.blacklist claims.id with
  | none =>
    rw [hresult, hentry]
    exact .done _ _
  | some expiry =>
    rw [hresult, hentry]
    exact .done _ _

end Validate

section Exchange

variable {swept final : JwtState} {result : Except TokenError TokenPair}
  (htype : claims.tokenType = "refresh") (hid : claims.id ≠ "") (hnow : state.clock ≤ now)
  (hsweep : Runs handle cleanupBlacklist
    { state with
      clock := now
      blacklist :=
        Function.update state.blacklist claims.id (some (now + service.refreshExpiry)) } () swept)
  (hgenerate : Runs handle (service.generateTokenPair claims.userID claims.role) swept
    result final)

include htype hid hnow hsweep hgenerate

theorem runs_exchange : Runs handle (service.exchange claims) state result final := by
  have hother : ¬ (claims.tokenType ≠ "" ∧ claims.tokenType ≠ "refresh") := fun h => h.2 htype
  unfold exchange invalidate
  rw [if_neg hother, if_pos hid]
  exact Runs.bind (.call ⟨now, none, []⟩ (if_pos hnow) (.call ⟨0, none, []⟩ rfl hsweep)) hgenerate

theorem runs_refreshToken (hcurrent : claims.current now = true)
    (hentry : state.blacklist claims.id = none) :
    Runs handle (service.refreshToken (service.library.signedString claims)) state result
      final := by
  have hvalid : Runs handle
      (service.validateToken (service.library.signedString claims)) state (.ok claims)
      { state with clock := now } :=
    runs_validateToken hcurrent htype hid hnow (by rw [hentry])
  exact hvalid.bind (runs_exchange htype hid le_rfl hsweep hgenerate)

end Exchange

theorem runs_cleanupBlacklist_nil (hnow : state.clock ≤ now) :
    Runs handle cleanupBlacklist state () { state with clock := now } :=
  .call ⟨now, none, []⟩ (if_pos hnow) (.call ⟨0, none, []⟩ rfl (.done _ _))

theorem runs_cleanupBlacklist_single {key : String} {expiry : Int} (hnow : state.clock ≤ now)
    (hentry : state.blacklist key = some expiry) (hexpired : expiry < now) :
    Runs handle cleanupBlacklist state ()
      { state with clock := now, blacklist := Function.update state.blacklist key none } := by
  have hvisit : Runs handle (visit now key) { state with clock := now } ()
      { state with clock := now, blacklist := Function.update state.blacklist key none } := by
    unfold visit
    rw [perform_bind]
    refine .call ⟨0, none, []⟩ rfl ?_
    dsimp only
    rw [hentry]
    dsimp only
    rw [if_pos hexpired]
    exact .call ⟨0, none, []⟩ rfl (.done _ _)
  exact .call ⟨now, none, []⟩ (if_pos hnow) (.call ⟨0, none, [key]⟩ rfl (hvisit.bind (.done _ _)))

end JWTService

end FsServer
