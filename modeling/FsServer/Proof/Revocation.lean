import FsServer.Lib.Rely
import FsServer.Proof.Escalation

/-!
# A spent refresh token stays revoked

The entry that `RefreshToken` puts on the blacklist outlives the token: it expires a refresh expiry
after the refresh, and the token a refresh expiry after it was issued, cut down to a second. So a
sweep removes the entry only when the token has expired, and whoever reads the clock after that fails
on the token itself. What is left is a call that has read the clock before the token's end and looks
the identifier up after the sweep.
-/

namespace FsServer

open Lib Program JwtRequest Function

/-! ### What every call keeps to -/

namespace JwtState

variable (id : String) (deadline : Int)

/-- An entry for the identifier is good until the deadline. -/
def Lasting (state : JwtState) : Prop :=
  ∀ expiry, state.blacklist id = some expiry → deadline ≤ expiry

def Spent (state : JwtState) : Prop :=
  (state.blacklist id).isSome = true ∨ deadline ≤ state.clock

structure Keeps (state later : JwtState) : Prop where
  clock : state.clock ≤ later.clock
  lasting : state.Lasting id deadline → later.Lasting id deadline
  spent : state.Lasting id deadline → state.Spent id deadline → later.Spent id deadline

def Respects (state : JwtState) : {β : Type} → JwtCall β → Prop
  | _, .store key expiry => key = id → deadline ≤ expiry
  | _, .delete key => key = id → deadline ≤ state.clock
  | _, _ => True

variable {id} {deadline} {state later : JwtState}

theorem Keeps.refl (state : JwtState) : Keeps id deadline state state :=
  ⟨le_rfl, fun h => h, fun _ h => h⟩

theorem Keeps.trans {last : JwtState} (hfirst : Keeps id deadline state later)
    (hsecond : Keeps id deadline later last) : Keeps id deadline state last where
  clock := hfirst.clock.trans hsecond.clock
  lasting h := hsecond.lasting (hfirst.lasting h)
  spent h hspent := hsecond.spent (hfirst.lasting h) (hfirst.spent h hspent)

theorem Keeps.of_same (hclock : state.clock ≤ later.clock)
    (hsame : later.blacklist id = state.blacklist id) : Keeps id deadline state later where
  clock := hclock
  lasting h expiry hentry := h expiry (hsame ▸ hentry)
  spent _ hspent := by
    rcases hspent with hentry | hpassed
    · exact .inl (hsame ▸ hentry)
    · exact .inr (hpassed.trans (Int.ofNat_le.mpr hclock))

variable {key : String}

theorem keeps_store {expiry : Int} (h : key = id → deadline ≤ expiry) :
    Keeps id deadline state
      { state with blacklist := update state.blacklist key (some expiry) } := by
  by_cases heq : key = id
  · subst heq
    refine ⟨le_rfl, fun _ found hfound => ?_, fun _ _ => .inl ?_⟩
    · dsimp only at hfound
      rw [update_self, Option.some.injEq] at hfound
      exact hfound ▸ h rfl
    · dsimp only
      rw [update_self]
      rfl
  · exact Keeps.of_same le_rfl (update_of_ne (Ne.symm heq) ..)

theorem keeps_delete (h : key = id → deadline ≤ state.clock) :
    Keeps id deadline state
      { state with blacklist := update state.blacklist key none } := by
  by_cases heq : key = id
  · subst heq
    refine ⟨le_rfl, fun _ found hfound => ?_, fun _ _ => .inr (h rfl)⟩
    dsimp only at hfound
    rw [update_self] at hfound
    cases hfound
  · exact Keeps.of_same le_rfl (update_of_ne (Ne.symm heq) ..)

theorem clock_of_now {env : JwtEnv} {now : Time} (h : handle _ env .now state = some (now, later)) :
    later.clock = now ∧ state.clock ≤ now ∧ later.blacklist = state.blacklist := by
  unfold handle at h
  dsimp only at h
  split_ifs at h with hclock
  cases h
  exact ⟨rfl, hclock, rfl⟩

theorem of_generateJTI {env : JwtEnv} {drawn : Option String}
    (h : handle _ env .generateJTI state = some (drawn, later)) :
    later.clock = state.clock ∧ later.blacklist = state.blacklist ∧ drawn ≠ some "" := by
  unfold handle at h
  cases hjti : env.jti with
  | none =>
    simp only [hjti] at h
    cases h
    exact ⟨rfl, rfl, nofun⟩
  | some jti =>
    simp only [hjti] at h
    split_ifs at h with hfresh
    cases h
    exact ⟨rfl, rfl, fun heq => hfresh.1 (Option.some.inj heq)⟩

theorem keeps_handle {β : Type} {operation : JwtCall β} {env : JwtEnv} {reply : β}
    (h : handle _ env operation state = some (reply, later))
    (hrespects : Respects id deadline state operation) : Keeps id deadline state later := by
  cases operation with
  | now =>
    obtain ⟨hclock, hle, hsame⟩ := clock_of_now h
    exact Keeps.of_same (hclock ▸ hle) (congrFun hsame id)
  | generateJTI =>
    obtain ⟨hclock, hsame, -⟩ := of_generateJTI h
    exact Keeps.of_same hclock.ge (congrFun hsame id)
  | load key =>
    cases h
    exact Keeps.refl _
  | store key expiry =>
    cases h
    exact keeps_store hrespects
  | range =>
    cases h
    exact Keeps.refl _
  | visit key =>
    cases h
    exact Keeps.refl _
  | delete key =>
    cases h
    exact keeps_delete hrespects

theorem isSome_handle {α β : Type} {operation : JwtCall β} {next : β → Program JwtCall α}
    {env : JwtEnv} {reply : β} (h : handle _ env operation state = some (reply, later))
    (hdelete : ∀ {rest}, call operation next ≠ .call (.delete id) rest)
    (hentry : (state.blacklist id).isSome = true) : (later.blacklist id).isSome = true := by
  cases operation with
  | now =>
    rw [(clock_of_now h).2.2]
    exact hentry
  | generateJTI =>
    rw [(of_generateJTI h).2.1]
    exact hentry
  | load key =>
    cases h
    exact hentry
  | store key expiry =>
    cases h
    by_cases heq : id = key
    · dsimp only
      rw [heq, update_self]
      rfl
    · dsimp only
      rw [update_of_ne heq]
      exact hentry
  | range =>
    cases h
    exact hentry
  | visit key =>
    cases h
    exact hentry
  | delete key =>
    cases h
    have hne : id ≠ key := by
      rintro rfl
      exact hdelete rfl
    dsimp only
    rw [update_of_ne hne]
    exact hentry

end JwtState

open JwtState

variable {claims : Claims}

namespace JWTService

variable {service : JWTService} {id : String} {deadline : Int} {state : JwtState}

def Issued (service : JWTService) (pair : TokenPair) (state : JwtState) : Prop :=
  ∃ now userID role accessJTI refreshJTI, now ≤ state.clock ∧ refreshJTI ≠ "" ∧
    pair = service.tokenPair now userID role accessJTI refreshJTI

theorem among_generateTokenPair (service : JWTService) (userID role : String) (state : JwtState) :
    (service.generateTokenPair userID role).Among handle (Keeps id deadline)
      (fun result final => ∀ pair, result = .ok pair → service.Issued pair final) state := by
  unfold generateTokenPair
  simp only [perform_bind]
  refine among_call fun _ _ _ now afterNow hnow => ⟨keeps_handle hnow trivial, ?_⟩
  refine among_call fun atFirst hfirst _ first afterFirst hdraw => ⟨keeps_handle hdraw trivial, ?_⟩
  have hclock : now ≤ afterFirst.clock := by
    calc now = afterNow.clock := (clock_of_now hnow).1.symm
      _ ≤ atFirst.clock := hfirst.clock
      _ = afterFirst.clock := (of_generateJTI hdraw).1.symm
  cases first with
  | none => exact among_done fun _ _ _ hresult => nomatch hresult
  | some accessJTI =>
    refine among_call fun atSecond hsecond _ second afterSecond hdraw' =>
      ⟨keeps_handle hdraw' trivial, ?_⟩
    obtain ⟨hclock', -, hjti⟩ := of_generateJTI hdraw'
    cases second with
    | none => exact among_done fun _ _ _ hresult => nomatch hresult
    | some refreshJTI =>
      refine among_done fun last hlast pair hresult => ?_
      cases hresult
      refine ⟨now, userID, role, accessJTI, refreshJTI, ?_, fun heq => hjti (heq ▸ rfl), rfl⟩
      calc now ≤ afterFirst.clock := hclock
        _ ≤ atSecond.clock := hsecond.clock
        _ = afterSecond.clock := hclock'.symm
        _ ≤ last.clock := hlast.clock

/-- The visit deletes an entry only after the deadline, as the entry is good until then. -/
theorem among_visit (key : String) {now : Time} (hnow : now ≤ state.clock)
    (hlasting : state.Lasting id deadline) :
    (visit now key).Among handle (Keeps id deadline) (fun _ _ => True) state := by
  unfold visit
  simp only [perform_bind]
  refine among_call fun later hlater _ entry after hvisit => ?_
  cases hvisit
  refine ⟨Keeps.refl _, ?_⟩
  cases hentry : later.blacklist key with
  | none => exact among_done fun _ _ => trivial
  | some expiry =>
    dsimp only
    split_ifs with hexpired
    · refine among_call fun last hlast _ _ _ hdelete => ⟨keeps_handle hdelete ?_, ?_⟩
      · rintro rfl
        have hpassed : now ≤ last.clock := hnow.trans (hlater.clock.trans hlast.clock)
        calc deadline ≤ expiry := hlater.lasting hlasting expiry hentry
          _ ≤ now := hexpired.le
          _ ≤ last.clock := Int.ofNat_le.mpr hpassed
      · exact among_done fun _ _ => trivial
    · exact among_done fun _ _ => trivial

theorem among_visitAll (keys : List String) {now : Time} (hnow : now ≤ state.clock)
    (hlasting : state.Lasting id deadline) :
    (visitAll now keys).Among handle (Keeps id deadline) (fun _ _ => True) state := by
  induction keys generalizing state with
  | nil => exact among_done fun _ _ => trivial
  | cons key rest ih =>
    refine among_bind Keeps.refl (((among_visit key hnow hlasting).tracks Keeps.trans).mono
      fun _ middle hmiddle => ?_)
    exact ih (hnow.trans hmiddle.1.clock) (hmiddle.1.lasting hlasting)

theorem among_cleanupBlacklist (hlasting : state.Lasting id deadline) :
    cleanupBlacklist.Among handle (Keeps id deadline) (fun _ _ => True) state := by
  unfold cleanupBlacklist
  simp only [perform_bind]
  refine among_call fun later hlater _ now afterNow hnow => ⟨keeps_handle hnow trivial, ?_⟩
  have hkeeps : Keeps id deadline state afterNow := hlater.trans (keeps_handle hnow trivial)
  refine among_call fun atRange hrange _ keys _ hkeys => ?_
  cases hkeys
  refine ⟨Keeps.refl _, among_visitAll _ ?_ ((hkeeps.trans hrange).lasting hlasting)⟩
  exact (clock_of_now hnow).1 ▸ hrange.clock

variable {issued : Time}

theorem among_invalidate (hlasting : state.Lasting id deadline)
    (hdeadline : id ≠ "" → deadline ≤ issued + service.refreshExpiry)
    (hissued : claims.id = id → issued ≤ state.clock) :
    (service.invalidate claims).Among handle (Keeps id deadline)
      (fun _ final => claims.id = id → id ≠ "" → final.Spent id deadline) state := by
  unfold invalidate
  split_ifs with hid
  · simp only [perform_bind]
    refine among_call fun later hlater _ now afterNow hnow => ⟨keeps_handle hnow trivial, ?_⟩
    have hkeepsNow : Keeps id deadline state afterNow := hlater.trans (keeps_handle hnow trivial)
    refine among_call fun atStore hstore _ _ afterStore hcall => ?_
    have hkeeps : Keeps id deadline atStore afterStore := by
      refine keeps_handle hcall fun heq => ?_
      have hpassed : issued ≤ now :=
        (hissued heq).trans (hlater.clock.trans (clock_of_now hnow).2.1)
      calc deadline ≤ issued + service.refreshExpiry := hdeadline (heq ▸ hid)
        _ ≤ now + service.refreshExpiry := Int.add_le_add_right (Int.ofNat_le.mpr hpassed) _
    have hlastingAfter : afterStore.Lasting id deadline :=
      ((hkeepsNow.trans hstore).trans hkeeps).lasting hlasting
    refine ⟨hkeeps, ((among_cleanupBlacklist hlastingAfter).tracks Keeps.trans).mono
      fun _ final hfinal heq _ => hfinal.1.spent hlastingAfter (.inl ?_)⟩
    cases hcall
    dsimp only
    rw [heq, update_self]
    rfl
  · exact among_done fun _ _ heq hne => absurd (heq ▸ hne) hid

theorem among_validateToken (service : JWTService) (token : Credential) (state : JwtState) :
    (service.validateToken token).Among handle (Keeps id deadline)
      (fun result _ => ∀ claims, result = .ok claims → service.library.parse token = some claims)
      state := by
  unfold validateToken
  simp only [perform_bind]
  refine among_call fun _ _ _ now _ hnow => ⟨keeps_handle hnow trivial, ?_⟩
  cases hparse : service.parseWithClaims now token with
  | none => exact among_done fun _ _ _ hresult => nomatch hresult
  | some claims =>
    have hread := (parse_of_parseWithClaims hparse).1
    simp only [checkRevoked]
    split_ifs
    · simp only [perform_bind]
      refine among_call fun _ _ _ entry _ hload => ⟨keeps_handle hload trivial, ?_⟩
      cases entry with
      | some expiry => exact among_done fun _ _ _ hresult => nomatch hresult
      | none =>
        refine among_done fun _ _ found hfound => ?_
        cases hfound
        exact hread
    · refine among_done fun _ _ found hfound => ?_
      cases hfound
      exact hread

theorem among_exchange (hlasting : state.Lasting id deadline)
    (hdeadline : id ≠ "" → deadline ≤ issued + service.refreshExpiry)
    (hissued : claims.id = id → issued ≤ state.clock) :
    (service.exchange claims).Among handle (Keeps id deadline)
      (fun result final => ∀ pair, result = .ok pair → service.Issued pair final ∧
        (claims.id = id → id ≠ "" → final.Spent id deadline)) state := by
  unfold exchange
  split_ifs
  · exact among_done fun _ _ _ hresult => nomatch hresult
  · refine among_bind Keeps.refl (((among_invalidate hlasting hdeadline hissued).tracks Keeps.trans).mono
      fun _ middle hmiddle => ?_)
    refine ((service.among_generateTokenPair claims.userID claims.role middle).tracks Keeps.trans).mono
      fun result final hfinal pair hpair => ⟨hfinal.2 pair hpair, ?_⟩
    intro heq hne
    exact hfinal.1.spent (hmiddle.1.lasting hlasting) (hmiddle.2 heq hne)

theorem among_refreshToken (token : Credential) (hlasting : state.Lasting id deadline)
    (hdeadline : id ≠ "" → deadline ≤ issued + service.refreshExpiry)
    (hissued : ∀ claims, service.library.parse token = some claims → claims.id = id →
      issued ≤ state.clock) :
    (service.refreshToken token).Among handle (Keeps id deadline)
      (fun result final => ∀ pair, result = .ok pair → service.Issued pair final ∧
        ∀ claims, service.library.parse token = some claims → claims.id = id → id ≠ "" →
          final.Spent id deadline) state := by
  unfold refreshToken
  refine among_bind Keeps.refl (((service.among_validateToken token state).tracks Keeps.trans).mono
    fun result middle hmiddle => ?_)
  cases result with
  | error cause => exact among_done fun _ _ _ hresult => nomatch hresult
  | ok claims =>
    have hparse := hmiddle.2 claims rfl
    refine (among_exchange (hmiddle.1.lasting hlasting) hdeadline
      fun heq => (hissued claims hparse heq).trans hmiddle.1.clock).mono
      fun result final hfinal pair hpair => ⟨(hfinal pair hpair).1, fun found hfound => ?_⟩
    rw [hparse, Option.some.injEq] at hfound
    exact hfound ▸ (hfinal pair hpair).2

/-- The moment from which the library rejects a refresh token issued at `issued`. -/
def refreshDeadline (service : JWTService) (issued : Time) : Int :=
  numericDate (issued + service.refreshExpiry) * second

theorem refreshDeadline_le (service : JWTService) (issued : Time) :
    service.refreshDeadline issued ≤ issued + service.refreshExpiry := by
  unfold refreshDeadline numericDate
  exact Int.ediv_mul_le _ (by decide)

theorem lt_refreshDeadline_of_current {now issued : Time} {userID role : String}
    (h : (service.refreshClaims issued userID role id).current now = true) :
    now < service.refreshDeadline issued := by
  unfold Claims.current at h
  rw [Bool.and_eq_true] at h
  exact of_decide_eq_true h.1

end JWTService

open JWTService

namespace JwtRequest

variable {service : JWTService} {id : String} {deadline : Int} {issued : Time} {state : JwtState}

def Answered (service : JWTService) (id : String) (deadline : Int) (request : JwtRequest)
    (reply : JwtReply) (final : JwtState) : Prop :=
  ∀ pair, reply = .pair (.ok pair) → service.Issued pair final ∧
    (request.Names service id → id ≠ "" → final.Spent id deadline)

theorem among_program (request : JwtRequest) (hlasting : state.Lasting id deadline)
    (hdeadline : id ≠ "" → deadline ≤ issued + service.refreshExpiry)
    (hissued : request.Names service id → issued ≤ state.clock) :
    (request.program service).Among handle (Keeps id deadline)
      (request.Answered service id deadline) state := by
  cases request with
  | generate userID role =>
    refine among_bind Keeps.refl ((service.among_generateTokenPair userID role state).mono
      fun result middle hmiddle => ?_)
    refine among_done fun final hfinal pair hpair => ?_
    cases hpair
    obtain ⟨now, name, role, first, second, hnow, hissued⟩ := hmiddle pair rfl
    refine ⟨⟨now, name, role, first, second, hnow.trans hfinal.clock, hissued⟩, ?_⟩
    rintro ⟨token, claims, hnone, -⟩
    cases hnone
  | validate token =>
    refine among_bind Keeps.refl ((service.among_validateToken token state).mono
      fun result middle _ => ?_)
    exact among_done fun _ _ _ hpair => nomatch hpair
  | refresh token =>
    have hrefresh := among_refreshToken token hlasting hdeadline
      fun claims hparse heq => hissued ⟨token, claims, rfl, hparse, heq⟩
    refine among_bind Keeps.refl (((hrefresh.tracks Keeps.trans).mono
      fun result middle hmiddle => ?_))
    refine among_done fun final hfinal pair hpair => ?_
    cases hpair
    obtain ⟨hkept, hafter⟩ := hmiddle
    obtain ⟨⟨now, name, role, first, second, hnow, hissued⟩, hspent⟩ := hafter pair rfl
    refine ⟨⟨now, name, role, first, second, hnow.trans hfinal.clock, hissued⟩, ?_⟩
    rintro ⟨_, claims, ⟨⟩, hparse, heq⟩ hne
    exact hfinal.spent (hkept.lasting hlasting) (hspent claims hparse heq hne)

theorem program_of_token (service : JWTService) {request : JwtRequest} {token : Credential}
    (h : request.token = some token) :
    ∃ rest, request.program service = service.validateToken token >>= rest ∧
      ∀ cause, ∃ reply, rest (.error cause) = .done reply ∧ reply.Failed := by
  cases request with
  | generate userID role => cases h
  | validate presented =>
    cases h
    exact ⟨fun result => .done (.claims result), rfl, fun cause => ⟨_, rfl, cause, rfl⟩⟩
  | refresh presented =>
    cases h
    refine ⟨_, bind_bind _ _ _, fun cause => ⟨.pair (.error cause), rfl, cause, rfl⟩⟩

end JwtRequest

/-! ### Runs -/

variable {T : Type} [DecidableEq T]

abbrev JwtConfig (T : Type) := Config JwtCall JwtState T JwtRequest JwtReply

abbrev JwtLabel (T : Type) := Label T JwtRequest JwtReply

def newJWTService (T : Type) : JwtConfig T := ⟨.empty, fun _ => .idle⟩

/-- Every call keeps to the relation, and the token has been issued. -/
structure Guarded (service : JWTService) (id : String) (issued : Time) (config : JwtConfig T) :
    Prop where
  among : config.Among handle (Keeps id (service.refreshDeadline issued))
    (Answered service id (service.refreshDeadline issued))
  lasting : config.shared.Lasting id (service.refreshDeadline issued)
  issued : issued ≤ config.shared.clock

variable {service : JWTService} {id : String} {issued : Time} {config after : JwtConfig T}
  {label : JwtLabel T}

theorem Guarded.move (h : Guarded service id issued config)
    (hmove : Move handle (program service) config label after) :
    Keeps id (service.refreshDeadline issued) config.shared after.shared ∧
      Guarded service id issued after := by
  obtain ⟨hkeeps, hamong⟩ := h.among.move Keeps.refl Keeps.trans hmove fun _ call _ =>
    call.among_program h.lasting (fun _ => service.refreshDeadline_le issued) fun _ => h.issued
  exact ⟨hkeeps, hamong, hkeeps.lasting h.lasting, h.issued.trans hkeeps.clock⟩

/-- The pair comes from `GenerateTokenPair`, and from then on the run is guarded if no token with the
identifier of its refresh token was presented before. -/
theorem exists_guarded {allowed : JwtConfig T → JwtLabel T → Prop} {before : List (JwtLabel T)}
    {issuer : T} {request : JwtRequest} {pair : TokenPair}
    (hclaims : service.library.parse pair.refreshToken = some claims)
    (htrace : Trace (fun config label after => allowed config label ∧
        Move handle (program service) config label after) (newJWTService T)
      (before ++ [.finish issuer request (.pair (.ok pair))]) config)
    (hunguessed : ∀ task call, .start task call ∈ before → ¬ call.Names service claims.id) :
    ∃ issued userID role id, claims = service.refreshClaims issued userID role id ∧ id ≠ "" ∧
      Guarded service id issued config := by
  obtain ⟨middle, hpast, -, hfinish⟩ := htrace.of_snoc
  have hstart : ∀ id deadline, (newJWTService T).Among handle (Keeps id deadline)
      (Answered service id deadline) :=
    fun _ _ => Config.Each.of_idle fun _ => rfl
  have hempty : ∀ id deadline, (newJWTService T).shared.Lasting id deadline :=
    fun _ _ _ hentry => nomatch hentry
  -- No entry has the empty identifier, so nothing is asked of the requests here.
  obtain ⟨issued, userID, role, accessJTI, id, hissued, hid, rfl⟩ : service.Issued pair
      middle.shared := by
    have hanswered := (hpast.among Keeps.refl Keeps.trans (hstart "" 0) fun {_ _ call} hkeeps _ =>
      call.among_program (hkeeps.lasting (hempty "" 0)) (fun hne => absurd rfl hne)
        fun _ => Nat.zero_le _).2.finish Keeps.refl hfinish
    exact (hanswered pair rfl).1
  rw [tokenPair, service.library.parse_signedString, Option.some.injEq] at hclaims
  subst hclaims
  have hlabels : ∀ label ∈ before, ∀ task call, label = .start task call →
      ¬ call.Names service id := by
    rintro label hmem task call rfl
    exact hunguessed task call hmem
  obtain ⟨hkeeps, hamong⟩ := (hpast.of_forall_mem hlabels |>.mono fun h => ⟨h.1, h.2.2⟩).among
    Keeps.refl Keeps.trans (hstart id (service.refreshDeadline issued))
    fun {_ _ call} hkeeps hnames => call.among_program (hkeeps.lasting (hempty _ _))
      (fun _ => service.refreshDeadline_le issued) fun hnamed => absurd hnamed (hnames _ _ rfl)
  refine ⟨issued, userID, role, id, rfl, hid, ?_⟩
  have hguarded : Guarded service id issued middle :=
    ⟨hamong, hkeeps.lasting (hempty _ _), hissued⟩
  exact (hguarded.move hfinish).2

/-! ### A call with a spent token -/

/-- The call has yet to read the clock, or is about to look up an entry that is there, or has
failed. -/
def Doomed (service : JWTService) (id : String) (request : JwtRequest)
    (rest : Program JwtCall JwtReply) (state : JwtState) : Prop :=
  rest = request.program service ∨
  (∃ next, rest = .call (.load id) next ∧ (state.blacklist id).isSome = true ∧
    ∀ expiry, ∃ reply, next (some expiry) = .done reply ∧ reply.Failed) ∨
  ∃ reply, rest = .done reply ∧ reply.Failed

section Doomed

variable {token : Credential} {userID role : String} {request : JwtRequest} {β : Type}
  {operation : JwtCall β} {next : β → Program JwtCall JwtReply} {env : JwtEnv} {reply : β}
  {state later : JwtState}

theorem Doomed.step (h : Doomed service id request (.call operation next) state)
    (htoken : service.library.parse token = some (service.refreshClaims issued userID role id))
    (hrequest : request.token = some token) (hid : id ≠ "")
    (hspent : state.Spent id (service.refreshDeadline issued))
    (hcall : handle _ env operation state = some (reply, later)) :
    Doomed service id request (next reply) later := by
  rcases h with hstart | ⟨after, hload, hentry, hfails⟩ | ⟨result, hdone, -⟩
  · obtain ⟨rest, hprogram, hrest⟩ := program_of_token service hrequest
    rw [hprogram, validateToken, perform_bind, call_bind] at hstart
    cases hstart
    obtain ⟨hclock, hle, hsame⟩ := clock_of_now hcall
    cases hparse : service.parseWithClaims reply token with
    | none =>
      obtain ⟨failure, hfailure, hfailed⟩ := hrest .parse
      simp only [hparse]
      exact .inr (.inr ⟨failure, hfailure, hfailed⟩)
    | some claims =>
      obtain ⟨hread, hcurrent⟩ := parse_of_parseWithClaims hparse
      rw [htoken, Option.some.injEq] at hread
      subst hread
      have hentry : (later.blacklist id).isSome = true := by
        rw [hsame]
        refine hspent.resolve_right fun hpassed => ?_
        have hlater := hpassed.trans (Int.ofNat_le.mpr hle)
        exact absurd (lt_refreshDeadline_of_current hcurrent) hlater.not_gt
      simp only [hparse]
      rw [checkRevoked_refresh rfl hid, call_bind]
      exact .inr (.inl ⟨_, rfl, hentry, fun expiry => hrest .revoked⟩)
  · cases hload
    cases hcall
    obtain ⟨expiry, hexpiry⟩ := Option.isSome_iff_exists.mp hentry
    obtain ⟨failure, hfailure, hfailed⟩ := hfails expiry
    rw [hexpiry]
    exact .inr (.inr ⟨failure, hfailure, hfailed⟩)
  · cases hdone

theorem Doomed.other {rest : Program JwtCall JwtReply} (h : Doomed service id request rest state)
    (hdelete : ∀ {next' after}, rest = .call (.load id) next' →
      call operation next ≠ .call (.delete id) after)
    (hcall : handle _ env operation state = some (reply, later)) :
    Doomed service id request rest later := by
  rcases h with hstart | ⟨after, hload, hentry, hfails⟩ | hdone
  · exact .inl hstart
  · refine .inr (.inl ⟨after, hload, ?_, hfails⟩)
    exact isSome_handle hcall (hdelete hload) hentry
  · exact .inr (.inr hdone)

theorem Doomed.failed {result : JwtReply} (h : Doomed service id request (.done result) state)
    (hrequest : request.token = some token) : result.Failed := by
  rcases h with hstart | ⟨next, hload, -⟩ | ⟨failure, hdone, hfailed⟩
  · obtain ⟨rest, hprogram, -⟩ := program_of_token service hrequest
    rw [hprogram, validateToken, perform_bind, call_bind] at hstart
    cases hstart
  · cases hload
  · cases hdone
    exact hfailed

/-- A sweep deletes the entry only while no call is about to look it up. -/
def Unswept (id : String) (config : JwtConfig T) : JwtLabel T → Prop
  | .step task =>
    (∃ call next, config.task task = .working call (.call (.delete id) next)) →
      ∀ other call next, config.task other ≠ .working call (.call (.load id) next)
  | _ => True

def UnsweptMove (service : JWTService) (id : String) (config : JwtConfig T) (label : JwtLabel T)
    (after : JwtConfig T) : Prop :=
  Unswept id config label ∧ Move handle (program service) config label after

/-- The token is spent, and this task is in a call that is going to fail. -/
structure Following (service : JWTService) (id : String) (issued : Time) (task : T)
    (request : JwtRequest) (config : JwtConfig T) : Prop where
  guarded : Guarded service id issued config
  spent : config.shared.Spent id (service.refreshDeadline issued)
  doomed : ∃ rest, config.task task = .working request rest ∧
    Doomed service id request rest config.shared

theorem Following.move {task : T} (h : Following service id issued task request config)
    (htoken : service.library.parse token = some (service.refreshClaims issued userID role id))
    (hrequest : request.token = some token) (hid : id ≠ "")
    (hstep : UnsweptMove service id config label after)
    (hlabel : ∀ result, label ≠ .finish task request result) :
    Following service id issued task request after := by
  obtain ⟨hunswept, hmove⟩ := hstep
  obtain ⟨hkeeps, hguarded⟩ := h.guarded.move hmove
  refine ⟨hguarded, hkeeps.spent h.guarded.lasting h.spent, ?_⟩
  obtain ⟨rest, hworking, hdoomed⟩ := h.doomed
  rcases hmove.onward hworking with ⟨-, hstill⟩ | ⟨-, left, hsteps, hleft⟩ | ⟨result, rfl, -⟩
  · refine ⟨rest, hstill, ?_⟩
    rcases hmove.shared with hshared | ⟨stepper, current, left, rfl, hsteps⟩
    · rwa [hshared]
    · obtain ⟨β, operation, next, env, reply, hcurrent, hcall, -⟩ := hsteps
      refine hdoomed.other (fun {next' after'} hload
        (hdelete : call operation next = _) => ?_) hcall
      rw [hdelete] at hcurrent
      rw [hload] at hworking
      exact hunswept ⟨current, after', hcurrent⟩ task request next' hworking
  · obtain ⟨β, operation, next, env, reply, hcurrent, hcall, rfl⟩ := hsteps
    rw [hworking] at hcurrent
    cases hcurrent
    exact ⟨next reply, hleft, hdoomed.step htoken hrequest hid h.spent hcall⟩
  · exact absurd rfl (hlabel result)

end Doomed

/-! ### A sweep between the clock and the lookup -/

section Sweep

variable {service : JWTService} {state swept : JwtState} {now issued : Time}
  {userID role accessJTI refreshJTI id : String}

theorem current_refreshClaims (hafter : numericDate issued * second ≤ now)
    (hbefore : now < service.refreshDeadline issued) :
    (service.refreshClaims issued userID role id).current now = true := by
  exact Claims.current_of_dates rfl rfl hbefore hafter

theorem runs_generate (hnow : state.clock ≤ now)
    (hfresh : FreshPair state.issued accessJTI refreshJTI) :
    Runs handle ((generate userID role).program service) state
      (.pair (.ok (service.tokenPair now userID role accessJTI refreshJTI)))
      { state with clock := now, issued := refreshJTI :: accessJTI :: state.issued } :=
  (service.runs_generateTokenPair userID role hnow hfresh).bind (.done _ _)

theorem runs_refresh
    (hcurrent : (service.refreshClaims issued userID role id).current now = true) (hid : id ≠ "")
    (hnow : state.clock ≤ now) (hentry : state.blacklist id = none)
    (hsweep : Runs handle cleanupBlacklist
      { state with
        clock := now
        blacklist := update state.blacklist id (some (now + service.refreshExpiry)) } ()
      swept)
    (hswept : swept.clock ≤ now) (hfresh : FreshPair swept.issued accessJTI refreshJTI) :
    Runs handle
      ((refresh
        (service.library.signedString (service.refreshClaims issued userID role id))).program
        service) state
      (.pair (.ok (service.tokenPair now userID role accessJTI refreshJTI)))
      { swept with clock := now, issued := refreshJTI :: accessJTI :: swept.issued } := by
  have hgenerate := service.runs_generateTokenPair userID role hswept hfresh
  exact (runs_refreshToken rfl hid hnow hsweep hgenerate hcurrent hentry).bind (.done _ _)

theorem unnamed_of_generate {T : Type} {issuer : T} (steps : Nat) (task : T) (call : JwtRequest)
    (h : .start task call ∈ (.start issuer (.generate userID role) ::
      List.replicate steps (.step issuer) : List (JwtLabel T))) : ¬ call.Names service id := by
  rcases List.mem_cons.mp h with heq | hmem
  · cases heq
    rintro ⟨_, _, hnone, -⟩
    cases hnone
  · cases List.eq_of_mem_replicate hmem

def spentList (service : JWTService) : Blacklist :=
  update (fun _ => none) "b" (some (((0 : Time) : Int) + service.refreshExpiry))

def issuedState : JwtState := ⟨0, fun _ => none, ["b", "a"]⟩

def spentState (service : JWTService) : JwtState := ⟨0, spentList service, ["d", "c", "b", "a"]⟩

def firstPair (service : JWTService) : TokenPair := service.tokenPair 0 "alice" "user" "a" "b"

theorem runs_first_issue (service : JWTService) :
    Runs handle ((generate "alice" "user").program service) .empty
      (.pair (.ok (firstPair service))) issuedState :=
  runs_generate le_rfl (by decide)

theorem runs_first_refresh (hzero : ((0 : Time) : Int) < service.refreshDeadline 0) :
    Runs handle ((refresh (firstPair service).refreshToken).program service)
      issuedState (.pair (.ok (service.tokenPair 0 "alice" "user" "c" "d"))) (spentState service) := by
  have hfresh : FreshPair ["b", "a"] "c" "d" := by decide
  exact runs_refresh (current_refreshClaims (by decide) hzero) (by decide) le_rfl rfl
    (runs_cleanupBlacklist_nil le_rfl) le_rfl hfresh

def looksUp : Program JwtCall JwtReply → Bool
  | .call (.load _) _ => true
  | _ => false

theorem unswept_unit (id : String) (config : JwtConfig Unit) (label : JwtLabel Unit) :
    Unswept id config label := by
  cases label with
  | start task call => trivial
  | finish task call result => trivial
  | step task =>
    rintro ⟨call, next, hdelete⟩ other call' next' hload
    rw [hdelete] at hload
    injection hload with _ hprogram
    exact Bool.false_ne_true (congrArg looksUp hprogram)

theorem runs_first_validate (hzero : ((0 : Time) : Int) < service.refreshDeadline 0) :
    Runs handle ((validate (firstPair service).refreshToken).program service)
      (spentState service) (.claims (.error .revoked)) (spentState service) := by
  have hid : (service.refreshClaims 0 "alice" "user" "b").id ≠ "" := (by decide : "b" ≠ "")
  exact (runs_validateToken (current_refreshClaims (by decide) hzero) rfl hid le_rfl rfl).bind
    (.done _ _)

/-- A call that validates the token goes on up to the lookup of its entry. -/
theorem exists_looking {config : JwtConfig Bool} {request : JwtRequest}
    {rest : Except TokenError Claims → Program JwtCall JwtReply}
    (hrequest : request.program service
      = service.validateToken (service.library.signedString claims) >>= rest)
    (hcurrent : claims.current now = true) (htype : claims.tokenType = "refresh")
    (hid : claims.id ≠ "") (hclock : config.shared.clock ≤ now) (hidle : config.task true = .idle) :
    ∃ started next, next none = rest (.ok claims) ∧
      Move handle (program service) config (.start true request) started ∧
      Move handle (program service) started (.step true)
        (config.next true (.working request (.call (.load claims.id) next))
          { config.shared with clock := now }) := by
  obtain ⟨first, next, hprogram, hfirst, hnext⟩ :=
    service.validateToken_bind hcurrent htype hid rest
  let started := config.next true (.working request (.call .now first)) config.shared
  refine ⟨started, next, hnext, ?_, ?_⟩
  · have hmove : Move handle (program service) config (.start true request) _ := .start hidle
    rwa [hrequest.trans hprogram] at hmove
  · have hmove : Move handle (program service) started (.step true) _ :=
      .step ⟨now, none, []⟩ (Config.next_task_self ..) (if_pos hclock)
    rwa [Config.next_next, show first (JwtEnv.mk now none []).time = _ from hfirst] at hmove

theorem handle_load_none {state : JwtState} {id : String} (h : state.blacklist id = none) :
    handle _ ⟨0, none, []⟩ (.load id) state = some (none, state) := by
  rw [← h]
  rfl

/-- A call reads the clock, another call is made, and only then the first looks the entry up. -/
theorem exists_overtaken {config : JwtConfig Bool} {request : JwtRequest} {reply : JwtReply}
    {final : JwtState} (hcurrent : claims.current now = true) (htype : claims.tokenType = "refresh")
    (hid : claims.id ≠ "") (hclock : config.shared.clock ≤ now)
    (hidle : ∀ task, config.task task = .idle)
    (hruns : Runs handle (request.program service) { config.shared with clock := now }
      reply final) (hgone : final.blacklist claims.id = none) :
    ∃ atStart during last,
      Move handle (program service) config
        (.start true (.validate (service.library.signedString claims))) atStart ∧
      Trace (Move handle (program service)) atStart
        (during ++ [.finish true (.validate (service.library.signedString claims))
          (.claims (.ok claims))]) last ∧
      ∀ result, .finish true (.validate (service.library.signedString claims)) result ∉ during := by
  let validate : JwtRequest := .validate (service.library.signedString claims)
  obtain ⟨started, next, hnext, hstart, hnow⟩ :=
    exists_looking (rfl : validate.program service = _) hcurrent htype hid hclock (hidle true)
  let looking := config.next true (.working validate (.call (.load claims.id) next))
    { config.shared with clock := now }
  have hother : looking.task false = .idle :=
    (Config.next_task_of_ne _ _ _ _ Bool.false_ne_true).trans (hidle false)
  obtain ⟨steps, hcalled⟩ := Trace.of_call_move hother hruns
  have htask : (looking.next false .idle final).task true =
      .working validate (.call (.load claims.id) next) :=
    (Config.next_task_of_ne _ _ _ _ Bool.false_ne_true.symm).trans (Config.next_task_self ..)
  have hload : Move handle (program service) (looking.next false .idle final) (.step true) _ :=
    .step ⟨0, none, []⟩ htask (handle_load_none hgone)
  rw [hnext] at hload
  refine ⟨started, (.step true :: (.start false request :: (List.replicate steps (.step false) ++
    [.finish false request reply]))) ++ [.step true], _, hstart,
    (((Trace.nil.snoc hnow).append hcalled).snoc hload).snoc (.finish (Config.next_task_self ..)),
    fun result hmem => ?_⟩
  simp at hmem

/-- The first pair is issued and exchanged by one task. -/
theorem exists_exchanged {T : Type} [DecidableEq T] (task : T)
    (hzero : ((0 : Time) : Int) < service.refreshDeadline 0) : ∃ steps steps',
    Trace (Move handle (program service)) (newJWTService T)
      ((.start task (.generate "alice" "user") :: List.replicate steps (.step task)) ++
        [.finish task (.generate "alice" "user") (.pair (.ok (firstPair service)))])
      ((newJWTService T).next task .idle issuedState) ∧
    Trace (Move handle (program service)) ((newJWTService T).next task .idle issuedState)
      ((.start task (.refresh (firstPair service).refreshToken) ::
          List.replicate steps' (.step task)) ++
        [.finish task (.refresh (firstPair service).refreshToken)
          (.pair (.ok (service.tokenPair 0 "alice" "user" "c" "d")))])
      (((newJWTService T).next task .idle issuedState).next task .idle (spentState service)) := by
  obtain ⟨steps, hissue⟩ := Trace.of_call_move (rfl : (newJWTService T).task task = .idle)
    (runs_first_issue service)
  obtain ⟨steps', hrefresh⟩ := Trace.of_call_move
    (Config.next_task_self (newJWTService T) task .idle issuedState) (runs_first_refresh hzero)
  exact ⟨steps, steps', hissue, hrefresh⟩

end Sweep

/-- A refresh token that has been exchanged is rejected by every call that starts afterwards, as
long as no sweep deletes its entry while a call is about to look it up. -/
theorem spent_refreshToken_fails {service : JWTService} {pair renewed : TokenPair} {claims : Claims}
    {before middle between during : List (JwtLabel T)} {issuer spender task : T}
    {issuing request : JwtRequest} {reply : JwtReply}
    {atIssue atRefresh atStart last : JwtConfig T}
    (hclaims : service.library.parse pair.refreshToken = some claims)
    (hissue : Trace (UnsweptMove service claims.id) (newJWTService T)
      (before ++ [.finish issuer issuing (.pair (.ok pair))]) atIssue)
    (hunguessed : ∀ task call, .start task call ∈ before → ¬ call.Names service claims.id)
    (hrefresh : Trace (UnsweptMove service claims.id) atIssue
      (middle ++ [.finish spender (.refresh pair.refreshToken) (.pair (.ok renewed))]) atRefresh)
    (hbegin : Trace (UnsweptMove service claims.id) atRefresh (between ++ [.start task request])
      atStart)
    (hrequest : request.token = some pair.refreshToken)
    (hend : Trace (UnsweptMove service claims.id) atStart
      (during ++ [.finish task request reply]) last)
    (hduring : ∀ result, .finish task request result ∉ during) : reply.Failed := by
  obtain ⟨issued, userID, role, id, rfl, hid, hguarded⟩ := exists_guarded hclaims hissue hunguessed
  -- The refresh leaves the token spent.
  obtain ⟨config, hpast, -, hfinish⟩ := hrefresh.of_snoc
  have hconfig : Guarded service id issued config :=
    hpast.invariant _ hguarded fun h hstep => (h.move hstep.2).2
  have hspent : config.shared.Spent id (service.refreshDeadline issued) := by
    have hanswered := hconfig.among.finish Keeps.refl hfinish
    exact (hanswered renewed rfl).2 ⟨_, _, rfl, hclaims, rfl⟩ hid
  obtain ⟨hkeeps, hrefreshed⟩ := hconfig.move hfinish
  -- It stays spent up to the call.
  have hstarted : Guarded service id issued atStart ∧
      atStart.shared.Spent id (service.refreshDeadline issued) := by
    refine hbegin.invariant (fun config => Guarded service id issued config ∧
      config.shared.Spent id (service.refreshDeadline issued))
      ⟨hrefreshed, hkeeps.spent hconfig.lasting hspent⟩ fun h hstep => ?_
    obtain ⟨hkeeps, hguarded⟩ := h.1.move hstep.2
    exact ⟨hguarded, hkeeps.spent h.1.lasting h.2⟩
  have hworking : atStart.task task = .working request (request.program service) := by
    obtain ⟨_, -, -, hstart⟩ := hbegin.of_snoc
    cases hstart with
    | start hidle => exact Config.next_task_self ..
  -- The call goes on among the others until it finishes.
  obtain ⟨beforeLast, hsteps, -, hlast⟩ := hend.of_snoc
  have hfollowing : Following service id issued task request beforeLast := by
    have hlabels : ∀ label ∈ during, ∀ result, label ≠ .finish task request result := by
      rintro label hmem result rfl
      exact hduring result hmem
    exact (hsteps.of_forall_mem hlabels).invariant _ ⟨hstarted.1, hstarted.2, _, hworking, .inl rfl⟩
      fun h hstep => h.move hclaims hrequest hid hstep.2 hstep.1
  obtain ⟨rest, hrest, hdoomed⟩ := hfollowing.doomed
  cases hlast with
  | finish hdone =>
    rw [hrest] at hdone
    cases hdone
    exact hdoomed.failed hrequest

theorem spent_refreshToken_fails_standard :
    ∃ (labels : List (JwtLabel Unit)) (last : JwtConfig Unit) (reply : JwtReply),
      Trace (UnsweptMove .standard "b") (newJWTService Unit)
        (labels ++ [.finish () (.validate (firstPair .standard).refreshToken) reply]) last ∧
      reply.Failed := by
  have hzero : ((0 : Time) : Int) < standard.refreshDeadline 0 := by decide
  have hunswept := unswept_unit "b"
  obtain ⟨n₁, n₂, hissue, hrefresh⟩ := exists_exchanged () hzero
  have hmoves : ∀ {config : JwtConfig Unit} {label : JwtLabel Unit} {after : JwtConfig Unit},
      Move handle (program .standard) config label after →
      UnsweptMove .standard "b" config label after := fun hmove => ⟨hunswept _ _, hmove⟩
  have hissue := hissue.mono hmoves
  have hrefresh := hrefresh.mono hmoves
  obtain ⟨n₃, htrace₃⟩ := Trace.of_rest (Unswept "b") (program .standard)
    (((newJWTService Unit).next () .idle issuedState).next () .idle (spentState .standard)) ()
    (.validate (firstPair .standard).refreshToken) (fun _ _ => hunswept _ _)
    (fun _ _ => hunswept _ _) (runs_first_validate hzero)
  have hstart : Trace (UnsweptMove .standard "b")
      (((newJWTService Unit).next () .idle issuedState).next () .idle (spentState .standard))
      ([] ++ [.start () (.validate (firstPair .standard).refreshToken)]) _ :=
    Trace.nil.snoc ⟨hunswept _ _, .start (Config.next_task_self ..)⟩
  have hparse : standard.library.parse (firstPair .standard).refreshToken =
      some (standard.refreshClaims 0 "alice" "user" "b") :=
    standard.library.parse_signedString _
  have hall := ((hissue.append hrefresh).append hstart).append htrace₃
  rw [← List.append_assoc] at hall
  refine ⟨_, _, _, hall, spent_refreshToken_fails hparse hissue ?_ hrefresh hstart rfl htrace₃ ?_⟩
  · exact unnamed_of_generate n₁
  · intro result hmem
    cases List.eq_of_mem_replicate hmem

theorem spent_refreshToken_accepted :
    ∃ (pair renewed : TokenPair) (claims : Claims)
      (before middle between during : List (JwtLabel Bool))
      (atIssue atRefresh atStart last : JwtConfig Bool),
      standard.library.parse pair.refreshToken = some claims ∧
      Trace (Move handle (program .standard)) (newJWTService Bool)
        (before ++ [.finish false (.generate "alice" "user") (.pair (.ok pair))]) atIssue ∧
      (∀ task call, .start task call ∈ before → ¬ call.Names .standard claims.id) ∧
      Trace (Move handle (program .standard)) atIssue
        (middle ++ [.finish false (.refresh pair.refreshToken) (.pair (.ok renewed))]) atRefresh ∧
      Trace (Move handle (program .standard)) atRefresh
        (between ++ [.start true (.validate pair.refreshToken)]) atStart ∧
      Trace (Move handle (program .standard)) atStart
        (during ++ [.finish true (.validate pair.refreshToken) (.claims (.ok claims))]) last ∧
      ∀ result, .finish true (.validate pair.refreshToken) result ∉ during := by
  obtain ⟨early, late, hearly, hsecond, horder, hover, hlate⟩ : ∃ early late : Time,
      (early : Int) < standard.refreshDeadline 0 ∧ 1000000000 ≤ early ∧ early ≤ late ∧
      standard.refreshExpiry < late ∧
      late < standard.refreshDeadline 1000000000 :=
    ⟨604799999999999, 604800000000001, by decide, by decide, by decide, by decide, by decide⟩
  generalize standard = service at hearly hover hlate ⊢
  have hzero : ((0 : Time) : Int) < service.refreshDeadline 0 :=
    lt_of_le_of_lt (Int.ofNat_le.mpr (Nat.zero_le early)) hearly
  have hother : Runs handle ((generate "alice" "user").program service)
      (spentState service) (.pair (.ok (service.tokenPair 1000000000 "alice" "user" "e" "f")))
      ⟨1000000000, spentList service, ["f", "e", "d", "c", "b", "a"]⟩ := by
    have hfresh : FreshPair ["d", "c", "b", "a"] "e" "f" := by decide
    exact runs_generate (Nat.zero_le _) hfresh
  -- The refresh of `f` visits the entry of `b`.
  have hsweep : ∃ issued reply, Runs handle
      ((refresh
        (service.tokenPair 1000000000 "alice" "user" "e" "f").refreshToken).program service)
      ⟨early, spentList service, ["f", "e", "d", "c", "b", "a"]⟩ reply
      ⟨late, update (update (spentList service) "f"
        (some (late + service.refreshExpiry))) "b" none, issued⟩ := by
    have hfresh : FreshPair ["f", "e", "d", "c", "b", "a"] "g" "h" := by decide
    have hafter : numericDate ((1000000000 : Time) : Int) * second ≤ late := by
      have hone : numericDate ((1000000000 : Time) : Int) * second = ((1000000000 : Nat) : Int) := by
        decide
      rw [hone]
      exact Int.ofNat_le.mpr (hsecond.trans horder)
    refine ⟨_, _, runs_refresh (current_refreshClaims hafter hlate) (by decide) horder rfl
      (runs_cleanupBlacklist_single le_rfl rfl ?_) le_rfl hfresh⟩
    exact (Int.zero_add _).trans_lt hover
  obtain ⟨issued, reply, hsweep⟩ := hsweep
  obtain ⟨n₁, n₂, htrace₁, htrace₂⟩ := exists_exchanged false hzero
  obtain ⟨n₃, htrace₃⟩ := Trace.of_call_move
    (Config.next_task_self ((newJWTService Bool).next false .idle issuedState) false .idle
      (spentState service)) hother
  have hcurrent : (service.refreshClaims 0 "alice" "user" "b").current early = true :=
    current_refreshClaims (Int.ofNat_le.mpr (Nat.zero_le early)) hearly
  have hid : (service.refreshClaims 0 "alice" "user" "b").id ≠ "" := (by decide : "b" ≠ "")
  have hidle : ∀ task, ((((newJWTService Bool).next false .idle issuedState).next false .idle
      (spentState service)).next false .idle
      ⟨1000000000, spentList service, ["f", "e", "d", "c", "b", "a"]⟩).task task = .idle := by
    intro task
    cases task with
    | false => rfl
    | true => rfl
  have hgone : update (update (spentList service) "f"
      (some (late + service.refreshExpiry))) "b" none "b" = none := update_self ..
  obtain ⟨atStart, during, last, hstart, hduring, hfinish⟩ := exists_overtaken hcurrent rfl hid
    hsecond hidle hsweep hgone
  refine ⟨firstPair service, _, _, .start false _ :: List.replicate n₁ (.step false),
    .start false _ :: List.replicate n₂ (.step false),
    .start false _ :: (List.replicate n₃ (.step false) ++ [_]), during, _, _, atStart, last,
    service.library.parse_signedString _, htrace₁, ?_, htrace₂, htrace₃.snoc hstart, hduring,
    hfinish⟩
  exact unnamed_of_generate n₁

end FsServer
