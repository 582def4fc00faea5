import FsServer.Proof.Revocation

/-!
# A refresh token is spent at most once

`RefreshToken` looks the identifier up and puts it on the blacklist in two steps. Between the two the
call owes the entry, and another call that looks the identifier up then goes through as well. If no
refresh looks it up while another owes the entry, one call at most goes through: the first to look it
up claims the token, and all the others are doomed from the moment it has made the entry.
-/

namespace FsServer

open Lib Program JwtState JWTService JwtRequest Config

variable {T : Type} [DecidableEq T]

def renewal (service : JWTService) (claims : Claims) : Program JwtCall JwtReply := do
  return .pair (← service.exchange claims)

/-- The call has found the token valid and has yet to put it on the blacklist. -/
def Owes (service : JWTService) (claims : Claims) (rest : Program JwtCall JwtReply) : Prop :=
  rest = renewal service claims ∨ ∃ expiry next, rest = .call (.store claims.id expiry) next

/-- A refresh looks the identifier up only while no other refresh of the token owes the entry. -/
def Ordered (service : JWTService) (token : Credential) (claims : Claims) (config : JwtConfig T) :
    JwtLabel T → Prop
  | .step task =>
    (∃ next, config.task task = .working (.refresh token) (.call (.load claims.id) next)) →
      ∀ other rest, config.task other = .working (.refresh token) rest → ¬ Owes service claims rest
  | _ => True

def renews (token : Credential) : JwtLabel T → Bool
  | .finish _ (.refresh presented) (.pair (.ok _)) => presented = token
  | _ => false

/-! ### The stages of one refresh -/

/-- The refresh has not found the token valid yet, or has failed. -/
def Waiting (service : JWTService) (token : Credential) (claims : Claims)
    (rest : Program JwtCall JwtReply) : Prop :=
  rest = (refresh token).program service ∨
  (∃ next, rest = .call (.load claims.id) next ∧ next none = renewal service claims ∧
    ∀ expiry, ∃ reply, next (some expiry) = .done reply ∧ reply.Failed) ∨
  ∃ reply, rest = .done reply ∧ reply.Failed

section Stages

variable {service : JWTService} {token : Credential} {claims : Claims} {β : Type}
  {operation : JwtCall β} {next : β → Program JwtCall JwtReply} {env : JwtEnv} {reply : β}
  {state later : JwtState} {rest : Program JwtCall JwtReply}

theorem Waiting.doomed (h : Waiting service token claims rest)
    (hentry : (state.blacklist claims.id).isSome = true) :
    Doomed service claims.id (.refresh token) rest state := by
  rcases h with hstart | ⟨next, hload, -, hfails⟩ | hdone
  · exact .inl hstart
  · exact .inr (.inl ⟨next, hload, hentry, hfails⟩)
  · exact .inr (.inr hdone)

theorem program_refresh (service : JWTService) (token : Credential) :
    ∃ rest, (refresh token).program service = service.validateToken token >>= rest ∧
      (∀ claims, rest (.ok claims) = renewal service claims) ∧
      ∀ cause, rest (.error cause) = .done (.pair (.error cause)) :=
  ⟨_, bind_bind _ _ _, fun _ => rfl, fun _ => rfl⟩

theorem Waiting.step (h : Waiting service token claims (.call operation next))
    (htoken : service.library.parse token = some claims) (htype : claims.tokenType = "refresh")
    (hid : claims.id ≠ "")
    (hcall : handle _ env operation state = some (reply, later)) :
    Waiting service token claims (next reply) ∨
      (∃ next', call operation next = .call (.load claims.id) next') ∧
        next reply = renewal service claims := by
  rcases h with hstart | ⟨after, hload, hnone, hfails⟩ | ⟨result, hdone, -⟩
  · obtain ⟨rest, hprogram, hok, herror⟩ := program_refresh service token
    rw [hprogram, validateToken, perform_bind, call_bind] at hstart
    cases hstart
    cases hparse : service.parseWithClaims reply token with
    | none =>
      simp only [hparse]
      exact .inl (.inr (.inr ⟨_, herror .parse, .parse, rfl⟩))
    | some found =>
      have hread := (parse_of_parseWithClaims hparse).1
      rw [htoken, Option.some.injEq] at hread
      subst hread
      simp only [hparse]
      rw [checkRevoked_refresh htype hid, call_bind]
      exact .inl (.inr (.inl ⟨_, rfl, hok claims, fun _ => ⟨_, herror .revoked, .revoked, rfl⟩⟩))
  · cases hload
    cases hcall
    cases hentry : state.blacklist claims.id with
    | none => exact .inr ⟨⟨_, rfl⟩, hnone⟩
    | some expiry => exact .inl (.inr (.inr (hfails expiry)))
  · cases hdone

theorem Owes.step (h : Owes service claims (.call operation next))
    (htype : claims.tokenType = "refresh") (hid : claims.id ≠ "")
    (hcall : handle _ env operation state = some (reply, later)) :
    Owes service claims (next reply) ∨ (later.blacklist claims.id).isSome = true := by
  rcases h with hrenewal | ⟨expiry, after, hstore⟩
  · have hother : ¬ (claims.tokenType ≠ "" ∧ claims.tokenType ≠ "refresh") := fun h => h.2 htype
    rw [renewal, exchange, if_neg hother, invalidate, if_pos hid] at hrenewal
    cases hrenewal
    exact .inl (.inr ⟨_, _, rfl⟩)
  · cases hstore
    cases hcall
    refine .inr ?_
    dsimp only
    rw [Function.update_self]
    rfl

theorem Owes.ne_done {result : JwtReply} (htype : claims.tokenType = "refresh")
    (hid : claims.id ≠ "") : ¬ Owes service claims (.done result) := by
  rintro (hrenewal | ⟨expiry, next, hstore⟩)
  · have hother : ¬ (claims.tokenType ≠ "" ∧ claims.tokenType ≠ "refresh") := fun h => h.2 htype
    rw [renewal, exchange, if_neg hother, invalidate, if_pos hid] at hrenewal
    cases hrenewal
  · cases hstore

end Stages

/-! ### All refreshes of the token -/

/-- Every refresh of the token by a task that is not exempt is in a state that meets `holds`. -/
def Others (token : Credential) (exempt : T → Prop) (holds : Program JwtCall JwtReply → Prop)
    (config : JwtConfig T) : Prop :=
  ∀ task rest, ¬ exempt task → config.task task = .working (.refresh token) rest → holds rest

variable {task : T}

section Others

variable {token : Credential} {exempt : T → Prop}
  {holds after : Program JwtCall JwtReply → Prop} {config : JwtConfig T}

theorem Others.next (h : Others token exempt holds config)
    {state : Task JwtCall JwtRequest JwtReply} {shared : JwtState}
    (hkeep : ∀ other rest, other ≠ task → config.task other = .working (.refresh token) rest →
      holds rest → after rest)
    (hown : ¬ exempt task → ∀ rest, state = .working (.refresh token) rest → after rest) :
    Others token exempt after (config.next task state shared) := by
  intro other rest hexempt hworking
  rcases of_next_working hworking with ⟨rfl, hstate⟩ | ⟨hne, hbefore⟩
  · exact hown hexempt rest hstate
  · exact hkeep other rest hne hbefore (h other rest hexempt hbefore)

omit [DecidableEq T] in
theorem Others.exempting (h : Others token (fun _ => False) holds config) (holder : T) :
    Others token (fun task => task = holder) holds config :=
  fun task rest _ hworking => h task rest not_false hworking

end Others

/-- How far the use of the token has come, and how many refreshes of it have returned a pair. -/
inductive Use (service : JWTService) (token : Credential) (claims : Claims) (issued : Time) :
    Nat → JwtConfig T → Prop
  | unused {config : JwtConfig T}
      (hothers : Others token (fun _ => False) (Waiting service token claims) config) :
      Use service token claims issued 0 config
  | claimed {config : JwtConfig T} {holder : T} {rest : Program JwtCall JwtReply}
      (hholder : config.task holder = .working (.refresh token) rest)
      (howes : Owes service claims rest)
      (hothers : Others token (fun task => task = holder) (Waiting service token claims) config) :
      Use service token claims issued 0 config
  | held {config : JwtConfig T} {holder : T} {rest : Program JwtCall JwtReply}
      (hholder : config.task holder = .working (.refresh token) rest)
      (hspent : config.shared.Spent claims.id (service.refreshDeadline issued))
      (hothers : Others token (fun task => task = holder)
        (fun rest => Doomed service claims.id (.refresh token) rest config.shared) config) :
      Use service token claims issued 0 config
  | used {config : JwtConfig T} {count : Nat} (hcount : count ≤ 1)
      (hspent : config.shared.Spent claims.id (service.refreshDeadline issued))
      (hothers : Others token (fun _ => False)
        (fun rest => Doomed service claims.id (.refresh token) rest config.shared) config) :
      Use service token claims issued count config

variable {holder : T}

section Use

variable {service : JWTService} {token : Credential} {claims : Claims} {issued : Time}
  {userID role id : String} {config after : JwtConfig T} {label : JwtLabel T}

omit [DecidableEq T] in
theorem renews_finish_eq_false {call : JwtRequest} {reply : JwtReply}
    (h : call = .refresh token → reply.Failed) :
    renews token (.finish task call reply) = false := by
  unfold renews
  split
  · next heq =>
    cases heq
    refine decide_eq_false fun hsame => ?_
    subst hsame
    obtain ⟨cause, hcause⟩ := h rfl
    cases hcause
  · rfl

theorem Waiting.failed {reply : JwtReply} (h : Waiting service token claims (.done reply)) :
    reply.Failed := by
  rcases h with hstart | ⟨next, hload, -⟩ | ⟨result, hdone, hfailed⟩
  · obtain ⟨rest, hprogram, -⟩ := program_refresh service token
    rw [hprogram, validateToken, perform_bind, call_bind] at hstart
    cases hstart
  · cases hload
  · cases hdone
    exact hfailed

variable (htoken : service.library.parse token = some claims)
  (htype : claims.tokenType = "refresh") (hid : claims.id ≠ "")

include htoken htype hid

/-- No refresh has found the token valid: it stays so, or one of them claims it. -/
theorem Use.move_unused (h : Others token (fun _ => False) (Waiting service token claims) config)
    (hmove : Move handle (program service) config label after) :
    Use service token claims issued (0 + (renews token label).toNat) after := by
  cases hmove with
  | @start starter started hidle =>
    refine .unused (h.next (fun _ _ _ _ => fun h => h) fun _ rest hrest => ?_)
    cases hrest
    exact .inl rfl
  | @step stepper current β operation next reply final env hcurrent hcall =>
    by_cases hown : current = .refresh token
    · subst hown
      rcases (h stepper _ not_false hcurrent).step htoken htype hid hcall with
        hwaiting | ⟨-, hrenewal⟩
      · refine .unused (h.next (fun _ _ _ _ => fun h => h) fun _ rest hrest => ?_)
        cases hrest
        exact hwaiting
      · exact .claimed (next_task_self ..) (.inl hrenewal)
          ((h.exempting stepper).next (fun _ _ _ _ => fun h => h) fun hne => absurd rfl hne)
    · refine .unused (h.next (fun _ _ _ _ => fun h => h) fun _ rest hrest => ?_)
      cases hrest
      exact absurd rfl hown
  | @finish finisher finished result hcurrent =>
    have hfailed : finished = .refresh token → result.Failed := by
      rintro rfl
      exact (h finisher _ not_false hcurrent).failed
    rw [renews_finish_eq_false hfailed]
    exact .unused (h.next (fun _ _ _ _ => fun h => h) fun _ rest hrest => nomatch hrest)

/-- One refresh has claimed the token. It goes on to make the entry, and nobody else looks the
identifier up before it has. -/
theorem Use.move_claimed {rest : Program JwtCall JwtReply}
    (hholder : config.task holder = .working (.refresh token) rest)
    (howes : Owes service claims rest)
    (h : Others token (fun task => task = holder) (Waiting service token claims) config)
    (hordered : Ordered service token claims config label)
    (hmove : Move handle (program service) config label after) :
    Use service token claims issued (0 + (renews token label).toNat) after := by
  cases hmove with
  | @start starter started hidle =>
    have hne : holder ≠ starter := by
      rintro rfl
      rw [hholder] at hidle
      cases hidle
    refine .claimed ((next_task_of_ne _ _ _ _ hne).trans hholder) howes
      (h.next (fun _ _ _ _ => fun h => h) fun _ rest hrest => ?_)
    cases hrest
    exact .inl rfl
  | @step stepper current β operation next reply final env hcurrent hcall =>
    by_cases heq : holder = stepper
    · subst heq
      rw [hholder] at hcurrent
      cases hcurrent
      rcases howes.step htype hid hcall with hstill | hentry
      · exact .claimed (next_task_self ..) hstill
          (h.next (fun _ _ _ _ => fun h => h) fun hne => absurd rfl hne)
      · exact .held (next_task_self ..) (.inl hentry)
          (h.next (fun _ _ _ _ hwaiting => hwaiting.doomed hentry) fun hne => absurd rfl hne)
    · refine .claimed ((next_task_of_ne _ _ _ _ heq).trans hholder) howes
        (h.next (fun _ _ _ _ => fun h => h) fun _ rest' hrest => ?_)
      cases hrest
      rcases (h stepper _ (Ne.symm heq) hcurrent).step htoken htype hid hcall with
        hwaiting | ⟨⟨next', hload⟩, -⟩
      · exact hwaiting
      · rw [hload] at hcurrent
        exact absurd howes (hordered ⟨next', hcurrent⟩ holder rest hholder)
  | @finish finisher finished result hcurrent =>
    have hne : holder ≠ finisher := by
      rintro rfl
      rw [hholder] at hcurrent
      cases hcurrent
      exact Owes.ne_done htype hid howes
    have hfailed : finished = .refresh token → result.Failed := by
      rintro rfl
      exact (h finisher _ (Ne.symm hne) hcurrent).failed
    rw [renews_finish_eq_false hfailed]
    exact .claimed ((next_task_of_ne _ _ _ _ hne).trans hholder) howes
      (h.next (fun _ _ _ _ => fun h => h) fun _ rest hrest => nomatch hrest)

end Use

variable {count : Nat}

section Spent

variable {service : JWTService} {token : Credential} {issued : Time} {userID role id : String}
  {config after : JwtConfig T} {label : JwtLabel T}
  (htoken : service.library.parse token = some (service.refreshClaims issued userID role id))
  (hid : id ≠ "")

include htoken hid

theorem Others.doomed_move {exempt : T → Prop}
    (h : Others token exempt
      (fun rest => Doomed service id (.refresh token) rest config.shared) config)
    (hspent : config.shared.Spent id (service.refreshDeadline issued))
    (hunswept : Unswept id config label)
    (hmove : Move handle (program service) config label after) :
    Others token exempt (fun rest => Doomed service id (.refresh token) rest after.shared) after := by
  cases hmove with
  | @start starter started hidle =>
    refine h.next (fun _ _ _ _ => fun h => h) fun _ rest hrest => ?_
    cases hrest
    exact .inl rfl
  | @step stepper current β operation next reply final env hcurrent hcall =>
    refine h.next (fun other rest hne hworking hdoomed => ?_) fun hexempt rest hrest => ?_
    · refine hdoomed.other (fun {next' after'} hload
        (hdelete : call operation next = _) => ?_) hcall
      rw [hdelete] at hcurrent
      rw [hload] at hworking
      exact hunswept ⟨current, after', hcurrent⟩ other _ next' hworking
    · cases hrest
      exact (h stepper _ hexempt hcurrent).step htoken rfl hid hspent hcall
  | @finish finisher finished result hcurrent =>
    exact h.next (fun _ _ _ _ => fun h => h) fun _ rest hrest => nomatch hrest

/-- The entry has been made. The refresh that made it returns, and all the others fail. -/
theorem Use.move_held {rest : Program JwtCall JwtReply}
    (hholder : config.task holder = .working (.refresh token) rest)
    (h : Others token (fun task => task = holder)
      (fun rest => Doomed service id (.refresh token) rest config.shared) config)
    (hspent : config.shared.Spent id (service.refreshDeadline issued))
    (hspent' : after.shared.Spent id (service.refreshDeadline issued))
    (hunswept : Unswept id config label)
    (hmove : Move handle (program service) config label after) :
    Use service token (service.refreshClaims issued userID role id) issued
      (0 + (renews token label).toNat) after := by
  have hothers := h.doomed_move htoken hid hspent hunswept hmove
  cases hmove with
  | @start starter started hidle =>
    have hne : holder ≠ starter := by
      rintro rfl
      rw [hholder] at hidle
      cases hidle
    exact .held ((next_task_of_ne _ _ _ _ hne).trans hholder) hspent' hothers
  | @step stepper current β operation next reply final env hcurrent hcall =>
    by_cases heq : holder = stepper
    · subst heq
      rw [hholder] at hcurrent
      cases hcurrent
      exact .held (next_task_self ..) hspent' hothers
    · exact .held ((next_task_of_ne _ _ _ _ heq).trans hholder) hspent' hothers
  | @finish finisher finished result hcurrent =>
    by_cases heq : holder = finisher
    · subst heq
      refine .used ?_ hspent' fun task rest _ hworking => ?_
      · rw [Nat.zero_add]
        exact Bool.toNat_le _
      · refine hothers task rest (fun hsame => ?_) hworking
        subst hsame
        rw [next_task_self] at hworking
        cases hworking
    · have hfailed : finished = .refresh token → result.Failed := by
        rintro rfl
        exact (h finisher _ (Ne.symm heq) hcurrent).failed rfl
      rw [renews_finish_eq_false hfailed]
      exact .held ((next_task_of_ne _ _ _ _ heq).trans hholder) hspent' hothers

theorem Use.move_used (hcount : count ≤ 1) (h : Others token (fun _ => False)
      (fun rest => Doomed service id (.refresh token) rest config.shared) config)
    (hspent : config.shared.Spent id (service.refreshDeadline issued))
    (hspent' : after.shared.Spent id (service.refreshDeadline issued))
    (hunswept : Unswept id config label)
    (hmove : Move handle (program service) config label after) :
    Use service token (service.refreshClaims issued userID role id) issued
      (count + (renews token label).toNat) after := by
  have hothers := h.doomed_move htoken hid hspent hunswept hmove
  cases hmove with
  | start hidle => exact .used hcount hspent' hothers
  | step env hcurrent hcall => exact .used hcount hspent' hothers
  | @finish finisher finished result hcurrent =>
    have hfailed : finished = .refresh token → result.Failed := by
      rintro rfl
      exact (h finisher _ not_false hcurrent).failed rfl
    rw [renews_finish_eq_false hfailed]
    exact .used hcount hspent' hothers

theorem Use.move
    (h : Use service token (service.refreshClaims issued userID role id) issued count config)
    (hguarded : Guarded service id issued config) (hunswept : Unswept id config label)
    (hordered : Ordered service token (service.refreshClaims issued userID role id) config label)
    (hmove : Move handle (program service) config label after) :
    Use service token (service.refreshClaims issued userID role id) issued
      (count + (renews token label).toNat) after := by
  obtain ⟨hkeeps, -⟩ := hguarded.move hmove
  cases h with
  | unused hothers => exact Use.move_unused htoken rfl hid hothers hmove
  | claimed hholder howes hothers =>
    exact Use.move_claimed htoken rfl hid hholder howes hothers hordered hmove
  | held hholder hspent hothers =>
    exact Use.move_held htoken hid hholder hothers hspent
      (hkeeps.spent hguarded.lasting hspent) hunswept hmove
  | used hcount hspent hothers =>
    exact Use.move_used htoken hid hcount hothers hspent
      (hkeeps.spent hguarded.lasting hspent) hunswept hmove

end Spent

omit [DecidableEq T] in
theorem Use.le_one {service : JWTService} {token : Credential} {claims : Claims} {issued : Time}
    {config : JwtConfig T} (h : Use service token claims issued count config) :
    count ≤ 1 := by
  cases h with
  | unused hothers => exact Nat.zero_le 1
  | claimed hholder howes hothers => exact Nat.zero_le 1
  | held hholder hspent hothers => exact Nat.zero_le 1
  | used hcount hspent hothers => exact hcount

/-- The sweeps are held back and the lookups are in order. -/
def InOrder (service : JWTService) (token : Credential) (claims : Claims) (config : JwtConfig T)
    (label : JwtLabel T) : Prop :=
  Unswept claims.id config label ∧ Ordered service token claims config label

def OrderedMove (service : JWTService) (token : Credential) (claims : Claims) (config : JwtConfig T)
    (label : JwtLabel T) (after : JwtConfig T) : Prop :=
  InOrder service token claims config label ∧
    Move handle (program service) config label after

/-! ### Two refreshes at the same time -/

section Twice

variable {service : JWTService} {claims : Claims} {now : Time}

theorem Owes.looksUp {rest : Program JwtCall JwtReply} (h : Owes service claims rest)
    (htype : claims.tokenType = "refresh") (hid : claims.id ≠ "") :
    looksUp rest = false := by
  rcases h with hrenewal | ⟨expiry, next, hstore⟩
  · have hother : ¬ (claims.tokenType ≠ "" ∧ claims.tokenType ≠ "refresh") := fun h => h.2 htype
    rw [hrenewal, renewal, exchange, if_neg hother, invalidate, if_pos hid]
    rfl
  · rw [hstore]
    rfl

theorem ordered_unit {token : Credential} (htype : claims.tokenType = "refresh")
    (hid : claims.id ≠ "") (config : JwtConfig Unit) (label : JwtLabel Unit) :
    Ordered service token claims config label := by
  cases label with
  | start task call => trivial
  | finish task call result => trivial
  | step task =>
    rintro ⟨next, hload⟩ other rest hrest howes
    rw [hload] at hrest
    cases hrest
    exact Bool.false_ne_true (howes.looksUp htype hid).symm

/-- A refresh looks the identifier up, another refresh is made, and only then the first goes on. -/
theorem exists_overtaken_refresh {config : JwtConfig Bool} {reply reply' : JwtReply}
    {middle final : JwtState} (hcurrent : claims.current now = true)
    (htype : claims.tokenType = "refresh") (hid : claims.id ≠ "")
    (hclock : config.shared.clock ≤ now) (hidle : ∀ task, config.task task = .idle)
    (hentry : config.shared.blacklist claims.id = none)
    (hruns : Runs handle
      ((refresh (service.library.signedString claims)).program service)
      { config.shared with clock := now } reply middle)
    (hrest : Runs handle (renewal service claims) middle reply' final) :
    ∃ labels last,
      Trace (Move handle (program service)) config
        (labels ++ [.finish true (.refresh (service.library.signedString claims)) reply']) last ∧
      .finish false (.refresh (service.library.signedString claims)) reply ∈ labels := by
  obtain ⟨rest, hrefresh, hok, -⟩ :=
    program_refresh service (service.library.signedString claims)
  let refresh : JwtRequest := .refresh (service.library.signedString claims)
  let owing := config.next true (.working refresh (renewal service claims))
    { config.shared with clock := now }
  obtain ⟨started, next, hnext, hstart, hnow⟩ :=
    exists_looking (show refresh.program service = _ from hrefresh) hcurrent htype hid hclock
      (hidle true)
  let looking := config.next true (.working refresh (.call (.load claims.id) next))
    { config.shared with clock := now }
  have hload : Move handle (program service) looking (.step true) _ :=
    .step ⟨0, none, []⟩ (next_task_self ..) (handle_load_none hentry)
  rw [next_next, hnext, hok] at hload
  have hother : owing.task false = .idle :=
    (next_task_of_ne _ _ _ _ Bool.false_ne_true).trans (hidle false)
  obtain ⟨steps, hcalled⟩ := Trace.of_call_move hother hruns
  have hwaiting : (owing.next false .idle middle).task true =
      .working refresh (renewal service claims) :=
    (next_task_of_ne _ _ _ _ Bool.false_ne_true.symm).trans (next_task_self ..)
  obtain ⟨steps', hlast⟩ := Trace.of_rest (fun _ _ => True) (program service)
    (owing.next false .idle middle) true refresh (fun _ _ => trivial) (fun _ _ => trivial) hrest
  have hsame : (owing.next false .idle middle).next true
      (.working refresh (renewal service claims)) middle = owing.next false .idle middle :=
    next_self hwaiting
  rw [hsame] at hlast
  have htrace := ((((Trace.nil.snoc hstart).snoc hnow).snoc hload).append hcalled).append
    (hlast.mono And.right)
  rw [← List.append_assoc] at htrace
  refine ⟨_, _, htrace, List.mem_append_left _ (List.mem_append_right _ (List.mem_cons_of_mem _ ?_))⟩
  exact List.mem_append_right _ (List.mem_singleton_self _)

theorem one_lt_countP_append {L : Type} {counts : L → Bool} {labels : List L} {label last : L}
    (hmem : label ∈ labels) (hlabel : counts label = true) (hlast : counts last = true) :
    1 < (labels ++ [last]).countP counts := by
  have hone : 0 < labels.countP counts := List.countP_pos_iff.mpr ⟨label, hmem, hlabel⟩
  rw [List.countP_append, List.countP_singleton, if_pos hlast]
  exact Nat.succ_lt_succ hone

end Twice

/-- A refresh token is exchanged for a new pair at most once, as long as no refresh looks its
identifier up while another is between its own lookup and its insert, and no sweep deletes its entry
while a call is about to look it up. -/
theorem refreshToken_once {service : JWTService} {pair : TokenPair} {claims : Claims}
    {before labels : List (JwtLabel T)} {issuer : T} {issuing : JwtRequest}
    {atIssue last : JwtConfig T}
    (hclaims : service.library.parse pair.refreshToken = some claims)
    (hissue : Trace (OrderedMove service pair.refreshToken claims) (newJWTService T)
      (before ++ [.finish issuer issuing (.pair (.ok pair))]) atIssue)
    (hunguessed : ∀ task call, .start task call ∈ before → ¬ call.Names service claims.id)
    (htrace : Trace (OrderedMove service pair.refreshToken claims) atIssue labels last) :
    labels.countP (renews pair.refreshToken) ≤ 1 := by
  have hunused : Others pair.refreshToken (fun _ => False)
      (Waiting service pair.refreshToken claims) atIssue := by
    intro task rest _ hworking
    have hmem := hissue.start_mem (fun _ => rfl) hworking
    rw [List.mem_append, List.mem_singleton] at hmem
    exact absurd ⟨_, claims, rfl, hclaims, rfl⟩ (hunguessed task _ (hmem.resolve_right nofun))
  obtain ⟨issued, userID, role, id, rfl, hid, hguarded⟩ := exists_guarded hclaims hissue hunguessed
  have huse : Guarded service id issued last ∧
      Use service pair.refreshToken (service.refreshClaims issued userID role id) issued
        (labels.countP (renews pair.refreshToken)) last := by
    induction htrace with
    | nil => exact ⟨hguarded, .unused hunused⟩
    | @snoc labels config after label _ hlast ih =>
      obtain ⟨⟨hunswept, hordered⟩, hmove⟩ := hlast
      refine ⟨(ih.1.move hmove).2, ?_⟩
      have hnext := ih.2.move hclaims hid ih.1 hunswept hordered hmove
      have hcount : [label].countP (renews pair.refreshToken) =
          (renews pair.refreshToken label).toNat := by
        rw [List.countP_singleton]
        cases renews pair.refreshToken label with
        | false => rfl
        | true => rfl
      rw [List.countP_append, hcount]
      exact hnext
  exact huse.2.le_one

theorem refreshToken_once_standard :
    ∃ (labels : List (JwtLabel Unit)) (last : JwtConfig Unit),
      Trace (OrderedMove .standard (firstPair .standard).refreshToken
          (standard.refreshClaims 0 "alice" "user" "b"))
        ((newJWTService Unit).next () .idle issuedState) labels last ∧
      labels ≠ [] ∧ labels.countP (renews (firstPair .standard).refreshToken) ≤ 1 := by
  have hzero : ((0 : Time) : Int) < standard.refreshDeadline 0 := by decide
  have hid : (standard.refreshClaims 0 "alice" "user" "b").id ≠ "" :=
    (by decide : "b" ≠ "")
  have hordered : ∀ {config : JwtConfig Unit} {label : JwtLabel Unit} {after : JwtConfig Unit},
      Move handle (program .standard) config label after →
      OrderedMove .standard (firstPair .standard).refreshToken
        (standard.refreshClaims 0 "alice" "user" "b") config label after :=
    fun hmove => ⟨⟨unswept_unit "b" _ _, ordered_unit rfl hid _ _⟩, hmove⟩
  obtain ⟨n₁, n₂, hissue, hrefresh⟩ := exists_exchanged () hzero
  have hrefresh := hrefresh.mono hordered
  have hparse : standard.library.parse (firstPair .standard).refreshToken =
      some (standard.refreshClaims 0 "alice" "user" "b") :=
    standard.library.parse_signedString _
  exact ⟨_, _, hrefresh, List.cons_ne_nil _ _,
    refreshToken_once hparse (hissue.mono hordered) (unnamed_of_generate n₁) hrefresh⟩

theorem refreshToken_twice :
    ∃ (claims : Claims) (before labels : List (JwtLabel Bool)) (atIssue last : JwtConfig Bool),
      standard.library.parse (firstPair .standard).refreshToken = some claims ∧
      Trace (Move handle (program .standard)) (newJWTService Bool)
        (before ++ [.finish false (.generate "alice" "user") (.pair (.ok (firstPair .standard)))])
        atIssue ∧
      (∀ task call, .start task call ∈ before → ¬ call.Names .standard claims.id) ∧
      Trace (Move handle (program .standard)) atIssue labels last ∧
      1 < labels.countP (renews (firstPair .standard).refreshToken) := by
  have hzero : ((0 : Time) : Int) < standard.refreshDeadline 0 := by decide
  generalize standard = service at hzero ⊢
  have hid : (service.refreshClaims 0 "alice" "user" "b").id ≠ "" := (by decide : "b" ≠ "")
  have hfresh : FreshPair ["d", "c", "b", "a"] "e" "f" := by decide
  have hrest : Runs handle (renewal service (service.refreshClaims 0 "alice" "user" "b"))
      (spentState service) (.pair (.ok (service.tokenPair 0 "alice" "user" "e" "f"))) _ :=
    (runs_exchange rfl hid le_rfl (runs_cleanupBlacklist_nil le_rfl)
      (service.runs_generateTokenPair "alice" "user" le_rfl hfresh)).bind (.done _ _)
  obtain ⟨n, hissue⟩ := Trace.of_call_move (rfl : (newJWTService Bool).task false = .idle)
    (runs_first_issue service)
  have hidle : ∀ task, ((newJWTService Bool).next false .idle issuedState).task task = .idle := by
    intro task
    cases task with
    | false => rfl
    | true => rfl
  obtain ⟨labels, last, htrace, hmem⟩ := exists_overtaken_refresh
    (current_refreshClaims (by decide) hzero) rfl hid le_rfl hidle rfl (runs_first_refresh hzero) hrest
  refine ⟨_, .start false _ :: List.replicate n (.step false), _, _, last,
    service.library.parse_signedString _, hissue, unnamed_of_generate n, htrace, ?_⟩
  exact one_lt_countP_append hmem (decide_eq_true rfl) (decide_eq_true rfl)

end FsServer
