import FsServer.LockRenewal
import FsServer.Proof.LockService

/-!
# How long the lock of a directory lasts

When `lockDirectory` returns, its deferred cancel ends the context the renewal is derived from, so the
lock is not renewed any more. It lasts for its time to live after the last `Lock` or `Extend` before
the return, and the critical section has to end within that time.
-/

namespace FsServer

open Lib LocalDistributedLock

def LockStage.token : LockStage → Option String
  | .acquired _ _ token | .critical _ token => some token
  | _ => none

namespace LockDirectory

variable {path : Path} {token : String} {renewCtx : CancelContext} {caller after : LockCaller}
  {event : Event} {reply : LockReply}

/-- The entry of the directory is there, unexpired and under this token. -/
def HeldBy (path : Path) (token : String) (caller : LockCaller) : Prop :=
  ∃ entry, caller.service.locks (key path) = some entry ∧ entry.token = token ∧
    entry.expired caller.now = false

/-- What the other clients know of the token: nothing. -/
def Unknown (token : String) (events : List (Event × LockReply)) : Prop :=
  ∀ request reply, (Event.other request, reply) ∈ events → request.token ≠ token

/-- The lock is held at every point of the run that these events are. -/
def HeldThroughout (path : Path) (token : String) (start : LockCaller)
    (events : List (Event × LockReply)) (final : LockCaller) : Prop :=
  ∀ first rest point, events = first ++ rest → History (Step path) start first point →
    History (Step path) point rest final → HeldBy path token point

/-- The clock, and when the caller's last `Lock` or `Extend` that succeeded was. -/
structure LockTimes where
  now : Time
  refreshed : Time

def LockTimes.next (times : LockTimes) : Event × LockReply → LockTimes
  | (.pass duration, _) => { times with now := times.now + duration }
  | (.attempt _, .granted _) | (.renew, .done) => { times with refreshed := times.now }
  | _ => times

def lockTimes (now : Time) (events : List (Event × LockReply)) : LockTimes :=
  events.foldl LockTimes.next ⟨now, now⟩

def Unrenewed (caller : LockCaller) : Prop :=
  ∀ renewal, caller.renewal = some renewal →
    ∃ cell ∈ renewal.context, caller.contexts.cancelled cell = true

theorem not_running (h : Unrenewed caller) {renewal : Renewal}
    (hrenewal : caller.renewal = some renewal) (now : Time) :
    renewal.running caller.contexts now = false := by
  obtain ⟨cell, hcell, hcancelled⟩ := h renewal hrenewal
  have hdone : caller.contexts.done renewal.context now = true :=
    List.any_eq_true.mpr ⟨cell, hcell, by rw [hcancelled, Bool.true_or]⟩
  rw [Renewal.running, hdone]
  rfl

/-- What is known of the caller up to the return of `lockDirectory` and after it. -/
def Sound (path : Path) (caller : LockCaller) : Prop :=
  match caller.stage with
  | .acquiring ctx _ => ctx ≠ [] ∧ caller.renewal = none
  | .acquired ctx renewCtx token => ctx ≠ [] ∧ ctx <:+ renewCtx ∧
      ∀ renewal, caller.renewal = some renewal → renewal.context = renewCtx ∧
        renewal.key = key path ∧ renewal.token = token ∧ renewal.ttl = ttl
  | .critical _ _ => Unrenewed caller
  | _ => True

theorem sound_start (now : Time) (service : LocalDistributedLock) :
    Sound path (start now service) := ⟨nofun, rfl⟩

theorem Sound.step (h : Sound path caller) (hstep : Step path caller event reply after) :
    Sound path after := by
  cases hstep with
  | pass duration hticks => exact h
  | granted hstage hlock =>
    unfold Sound at h
    rw [hstage] at h
    refine ⟨h.1, List.suffix_cons _ _, fun renewal hrenewal => ?_⟩
    cases hrenewal
    exact ⟨rfl, rfl, rfl, rfl⟩
  | conflict hstage hlock =>
    unfold Sound at h ⊢
    rw [hstage] at h
    dsimp only
    split_ifs
    · exact h
    · trivial
  | @returns ctx renewCtx token hstage =>
    unfold Sound at h
    rw [hstage] at h
    obtain ⟨hne, hsuffix, hcontext⟩ := h
    intro renewal hrenewal
    cases ctx with
    | nil => exact absurd rfl hne
    | cons cell parents =>
      refine ⟨cell, ?_, Function.update_self ..⟩
      rw [(hcontext renewal hrenewal).1]
      exact hsuffix.subset (List.mem_cons_self ..)
  | @renewed renewal service hrenewal hrunning htick hextend =>
    unfold Sound at h ⊢
    cases hstage : caller.stage with
    | acquiring ctx attempt =>
      rw [hstage] at h
      rw [h.2] at hrenewal
      cases hrenewal
    | acquired ctx renewCtx token =>
      rw [hstage] at h
      refine ⟨h.1, h.2.1, fun other hother => ?_⟩
      cases hother
      exact h.2.2 renewal hrenewal
    | critical renewCtx token =>
      rw [hstage] at h
      rw [not_running h hrenewal] at hrunning
      cases hrunning
    | released => trivial
    | failed => trivial
  | stopped hrenewal hrunning htick hextend =>
    unfold Sound at h ⊢
    cases hstage : caller.stage with
    | acquiring ctx attempt =>
      rw [hstage] at h
      exact ⟨h.1, rfl⟩
    | acquired ctx renewCtx token =>
      rw [hstage] at h
      exact ⟨h.1, h.2.1, nofun⟩
    | critical renewCtx token => exact nofun
    | released => trivial
    | failed => trivial
  | release hstage hunlock => trivial
  | other hexec => exact h

theorem sound_of_history {now : Time} {service : LocalDistributedLock}
    {past : List (Event × LockReply)}
    (hpast : History (Step path) (start now service) past caller) : Sound path caller :=
  hpast.invariant (fun _ => True) (Sound path) (sound_start now service)
    (fun _ hsound hstep => hsound.step hstep) fun _ _ => trivial

theorem Sound.renewal (h : Sound path caller) {renewal : Renewal}
    (hrenewal : caller.renewal = some renewal)
    (hrunning : renewal.running caller.contexts caller.now = true)
    (htoken : caller.stage.token = some token) :
    renewal.key = key path ∧ renewal.token = token ∧ renewal.ttl = ttl := by
  unfold Sound at h
  cases hstage : caller.stage with
  | acquired ctx renewCtx found =>
    rw [hstage] at h htoken
    cases htoken
    exact (h.2.2 renewal hrenewal).2
  | critical renewCtx found =>
    rw [hstage] at h
    rw [not_running h hrenewal] at hrunning
    cases hrunning
  | acquiring ctx attempt | released | failed =>
    rw [hstage] at htoken
    cases htoken

/-! ### How long the entry lasts -/

/-- Up to the deadline the entry is there, and after it at most a stale one. -/
structure Lasts (path : Path) (token : String) (deadline : Time) (caller : LockCaller) : Prop where
  held : caller.now ≤ deadline → caller.service.locks (key path) = some ⟨token, some deadline⟩
  lost : deadline < caller.now → caller.service.Lost caller.now (key path) token

namespace Lasts

variable {deadline : Time}

theorem expired_iff {now : Time} :
    (⟨token, some deadline⟩ : LocalLockEntry).expired now = false ↔ now ≤ deadline := by
  rw [LocalLockEntry.expired, decide_eq_false_iff_not, not_lt]

theorem of_refresh {now : Time} (hnow : caller.now = now)
    (h : caller.service.locks (key path) = some ⟨token, expiryAfter now ttl⟩) :
    Lasts path token (now + ttl.toNat) caller where
  held _ := h
  lost hpassed := absurd hpassed (Nat.not_lt.mpr (hnow.trans_le (Nat.le_add_right _ _)))

section

variable (h : Lasts path token deadline caller)
include h

theorem heldBy_iff : HeldBy path token caller ↔ caller.now ≤ deadline := by
  constructor
  · rintro ⟨entry, hentry, hown, hlive⟩
    by_contra hpassed
    rw [h.lost (Nat.lt_of_not_le hpassed) entry hentry hown] at hlive
    cases hlive
  · intro htime
    exact ⟨_, h.held htime, rfl, expired_iff.mpr htime⟩

theorem wait (hservice : after.service = caller.service) (htime : caller.now ≤ after.now) :
    Lasts path token deadline after := by
  constructor
  · intro hlater
    rw [hservice]
    exact h.held (htime.trans hlater)
  · intro hpassed entry hentry hown
    rw [hservice] at hentry
    by_cases hbefore : caller.now ≤ deadline
    · rw [h.held hbefore, Option.some.injEq] at hentry
      exact LocalLockEntry.expired_iff.mpr ⟨deadline, by rw [← hentry], hpassed⟩
    · exact LocalLockEntry.expired_mono (h.lost (Nat.lt_of_not_le hbefore) entry hentry hown) htime

theorem other {request : LockRequest} (hrequest : request.token ≠ token)
    (hnow : after.now = caller.now)
    (hservice : after.service = (caller.service.exec caller.now caller.now request).2) :
    Lasts path token deadline after := by
  constructor
  · intro htime
    rw [hnow] at htime
    rw [hservice, exec_held_other (h.held htime) (expired_iff.mpr htime) hrequest.symm]
    exact h.held htime
  · intro hpassed
    rw [hnow] at hpassed ⊢
    rw [hservice]
    refine (h.lost hpassed).exec (fun hissued => hrequest ?_) (Nat.le_refl _)
    cases request with
    | lock k ttl t => exact (List.mem_singleton.mp hissued).symm
    | unlock k t | extend k t ttl => cases hissued

variable {service : LocalDistributedLock}

theorem renewed
    (hextend : caller.service.extend (key path) token ttl caller.now caller.now = (.done, service)) :
    service.locks (key path) = some ⟨token, expiryAfter caller.now ttl⟩ := by
  by_cases htime : caller.now ≤ deadline
  · rw [extend_held (h.held htime) (expired_iff.mpr htime) rfl, Prod.mk.injEq] at hextend
    rw [← hextend.2]
    exact put_self _ _
  · rw [(h.lost (Nat.lt_of_not_le htime)).extend] at hextend
    have hreply := congrArg Prod.fst hextend
    rw [refuse_reply] at hreply
    cases hreply

theorem stopped
    (hextend : caller.service.extend (key path) token ttl caller.now caller.now
      = (.notHeld, service)) (hnow : after.now = caller.now) (hservice : after.service = service) :
    Lasts path token deadline after := by
  have hpassed : deadline < caller.now := by
    by_contra htime
    have hlive := Nat.le_of_not_lt htime
    rw [extend_held (h.held hlive) (expired_iff.mpr hlive) rfl, Prod.mk.injEq] at hextend
    cases hextend.1
  constructor
  · intro htime
    rw [hnow] at htime
    exact absurd hpassed (Nat.not_lt.mpr htime)
  · intro _
    have hexec : (caller.service.exec caller.now caller.now (.extend (key path) token ttl)).2
        = service := congrArg Prod.snd hextend
    rw [hservice, ← hexec, hnow]
    exact (h.lost hpassed).exec (List.not_mem_nil) (Nat.le_refl _)

end

end Lasts

theorem Unknown.past {events : List (Event × LockReply)}
    (h : Unknown token (events ++ [(event, reply)])) : Unknown token events :=
  fun request reply hmem => h request reply (List.mem_append_left _ hmem)

theorem Unknown.last {events : List (Event × LockReply)} {request : LockRequest}
    (h : Unknown token (events ++ [(.other request, reply)])) : request.token ≠ token :=
  h request reply (List.mem_append_right _ (List.mem_singleton_self _))

/-- From the grant on, the lock lasts for its time to live after the last `Lock` or `Extend`. -/
theorem lasts_of_history {now : Time} {service : LocalDistributedLock}
    {past : List (Event × LockReply)}
    (hpast : History (Step path) (start now service) past caller) :
    caller.now = (lockTimes now past).now ∧ ∀ token, caller.stage.token = some token →
      Unknown token past → Lasts path token ((lockTimes now past).refreshed + ttl.toNat) caller := by
  induction hpast with
  | nil => exact ⟨rfl, fun token htoken => nomatch htoken⟩
  | @snoc past caller after event reply hpast hstep ih =>
    obtain ⟨hnow, ih⟩ := ih
    have hsound := sound_of_history hpast
    rw [lockTimes, List.foldl_append, ← lockTimes]
    cases hstep with
    | pass duration hticks =>
      refine ⟨congrArg (· + duration) hnow, fun token htoken hunknown => ?_⟩
      exact (ih token htoken hunknown.past).wait rfl (Nat.le_add_right _ _)
    | granted hstage hlock =>
      refine ⟨hnow, fun token htoken hunknown => ?_⟩
      cases htoken
      rw [List.foldl_cons, List.foldl_nil, LockTimes.next, ← hnow]
      exact .of_refresh rfl (lock_granted hlock)
    | conflict hstage hlock =>
      refine ⟨hnow, fun token htoken => ?_⟩
      dsimp only at htoken
      split_ifs at htoken
      · cases htoken
      · cases htoken
    | returns hstage =>
      refine ⟨hnow, fun token htoken hunknown => ?_⟩
      exact (ih token (by rw [hstage]; exact htoken) hunknown.past).wait rfl (Nat.le_refl _)
    | renewed hrenewal hrunning htick hextend =>
      refine ⟨hnow, fun token htoken hunknown => ?_⟩
      obtain ⟨hkey, hown, httl⟩ := hsound.renewal hrenewal hrunning htoken
      rw [hkey, hown, httl] at hextend
      rw [List.foldl_cons, List.foldl_nil, LockTimes.next, ← hnow]
      exact .of_refresh rfl ((ih token htoken hunknown.past).renewed hextend)
    | stopped hrenewal hrunning htick hextend =>
      refine ⟨hnow, fun token htoken hunknown => ?_⟩
      obtain ⟨hkey, hown, httl⟩ := hsound.renewal hrenewal hrunning htoken
      rw [hkey, hown, httl] at hextend
      exact (ih token htoken hunknown.past).stopped hextend rfl rfl
    | release hstage hunlock => exact ⟨hnow, fun token htoken => nomatch htoken⟩
    | other hexec =>
      refine ⟨hnow, fun token htoken hunknown => ?_⟩
      exact (ih token htoken hunknown.past).other hunknown.last rfl (by rw [hexec])

/-! ### The critical section -/

theorem now_le (hstep : Step path caller event reply after) : caller.now ≤ after.now := by
  cases hstep <;> first | exact Nat.le_add_right _ _ | exact Nat.le_refl _

/-- In the critical section time passes and other clients make calls, and nothing else happens. -/
theorem critical_step (h : Sound path caller) (hstage : caller.stage = .critical renewCtx token)
    (hstep : Step path caller event reply after) (hevent : event ≠ .release) :
    after.stage = .critical renewCtx token ∧
      (after.service = caller.service ∨ after.now = caller.now ∧ ∃ request, event = .other request ∧
        after.service = (caller.service.exec caller.now caller.now request).2) := by
  cases hstep with
  | pass duration hticks => exact ⟨hstage, .inl rfl⟩
  | granted hother hlock | conflict hother hlock | returns hother =>
    rw [hstage] at hother
    cases hother
  | renewed hrenewal hrunning htick hextend | stopped hrenewal hrunning htick hextend =>
    unfold Sound at h
    rw [hstage] at h
    rw [not_running h hrenewal] at hrunning
    cases hrunning
  | release hother hunlock => exact absurd rfl hevent
  | @other request reply service hexec =>
    exact ⟨hstage, .inr ⟨rfl, request, rfl, by rw [hexec]⟩⟩

variable {deadline : Time}

/-- A point of the critical section of a lock that lasts until the deadline. -/
structure InSection (path : Path) (token : String) (deadline : Time) (caller : LockCaller) :
    Prop where
  sound : Sound path caller
  stage : ∃ renewCtx, caller.stage = .critical renewCtx token
  lasts : Lasts path token deadline caller

theorem InSection.of_history {returned final : LockCaller} {during : List (Event × LockReply)}
    (h : InSection path token deadline returned)
    (hduring : History (Step path) returned during final)
    (hsection : ∀ entry ∈ during, entry.1 ≠ .release) (hunknown : Unknown token during) :
    InSection path token deadline final ∧ returned.now ≤ final.now := by
  induction hduring with
  | nil => exact ⟨h, Nat.le_refl _⟩
  | snoc hpast hstep ih =>
    obtain ⟨⟨hsound, ⟨renewCtx, hstage⟩, hlasts⟩, htime⟩ := ih
      (fun entry hentry => hsection entry (List.mem_append_left _ hentry)) hunknown.past
    have hevent := hsection _ (List.mem_append_right _ (List.mem_singleton_self _))
    have hlater := now_le hstep
    obtain ⟨hcritical, hsame | ⟨hnow, request, rfl, hservice⟩⟩ :=
      critical_step hsound hstage hstep hevent
    · exact ⟨⟨hsound.step hstep, ⟨renewCtx, hcritical⟩, hlasts.wait hsame hlater⟩,
        htime.trans hlater⟩
    · exact ⟨⟨hsound.step hstep, ⟨renewCtx, hcritical⟩, hlasts.other hunknown.last hnow hservice⟩,
        htime.trans hlater⟩

/-- The lock of a directory is held from the return of `lockDirectory` to the release exactly if the
release is within ten seconds of the last `Lock` or `Extend` before the return. -/
theorem lockDirectory_held_iff {path : Path} {now : Time} {service : LocalDistributedLock}
    {past during : List (Event × LockReply)} {acquired returned final : LockCaller}
    {renewCtx : CancelContext} {token : String}
    (hpast : History (Step path) (start now service) past acquired)
    (hreturns : Step path acquired .returns .done returned)
    (hstage : returned.stage = .critical renewCtx token)
    (hduring : History (Step path) returned during final)
    (hsection : ∀ entry ∈ during, entry.1 ≠ .release) (hunknown : Unknown token (past ++ during)) :
    HeldThroughout path token returned during final ↔
      (final.now : Int) - (lockTimes now past).refreshed ≤ 10 * second := by
  have hpastUnknown : Unknown token (past ++ [(.returns, .done)]) := by
    intro request reply hmem
    rcases List.mem_append.mp hmem with hmem | hmem
    · exact hunknown request reply (List.mem_append_left _ hmem)
    · cases List.mem_singleton.mp hmem
  have hall := hpast.snoc hreturns
  have hlasts := (lasts_of_history hall).2 token (by rw [hstage]; rfl) hpastUnknown
  rw [lockTimes, List.foldl_append, ← lockTimes] at hlasts
  have hreturned : InSection path token ((lockTimes now past).refreshed + ttl.toNat) returned :=
    ⟨sound_of_history hall, ⟨renewCtx, hstage⟩, hlasts⟩
  have hbound : (final.now : Int) - (lockTimes now past).refreshed ≤ 10 * second ↔
      final.now ≤ (lockTimes now past).refreshed + ttl.toNat := by
    have httl : 10 * second = (ttl.toNat : Int) := rfl
    rw [httl, sub_le_iff_le_add']
    exact Int.ofNat_le
  have hduringUnknown : Unknown token during := fun request reply hmem =>
    hunknown request reply (List.mem_append_right _ hmem)
  rw [hbound]
  constructor
  · intro hheld
    have hfinal := (hreturned.of_history hduring hsection hduringUnknown).1
    exact hfinal.lasts.heldBy_iff.mp (hheld during [] final (List.append_nil _).symm hduring .nil)
  · rintro htime first rest point rfl hfirst hrest
    obtain ⟨hpoint, -⟩ := hreturned.of_history hfirst
      (fun entry hmem => hsection entry (List.mem_append_left _ hmem))
      fun request reply hmem => hduringUnknown request reply (List.mem_append_left _ hmem)
    obtain ⟨-, hlater⟩ := hpoint.of_history hrest
      (fun entry hmem => hsection entry (List.mem_append_right _ hmem))
      fun request reply hmem => hduringUnknown request reply (List.mem_append_right _ hmem)
    exact hpoint.lasts.heldBy_iff.mpr (hlater.trans htime)

def holder : LockCaller :=
  withRenewal { start 0 .empty with
    service := (empty.lock (key ['d']) ttl "t" 0 0).2 } [0] ['d'] "t"

def inSection : LockCaller :=
  { holder with contexts := holder.contexts.cancel [0], stage := .critical [1, 0] "t" }

theorem history_holder : History (Step ['d']) (start 0 .empty) ([] ++ [(.attempt "t", .granted "t")])
    holder := .snoc .nil (.granted rfl rfl)

theorem returns_holder : Step ['d'] holder .returns .done inSection := .returns rfl

theorem unrenewed_inSection : Unrenewed inSection := by
  intro renewal hrenewal
  cases hrenewal
  exact ⟨0, by simp, rfl⟩

theorem history_inSection (duration : Nat) : History (Step ['d']) inSection
    ([] ++ [(.pass duration, .done)]) { inSection with now := duration } := by
  have hpass : Step ['d'] inSection (.pass duration) .done
      { inSection with now := inSection.now + duration } := by
    refine .pass duration fun renewal hrenewal hrunning => ?_
    rw [not_running unrenewed_inSection hrenewal] at hrunning
    cases hrunning
  have hnow : inSection.now + duration = duration := Nat.zero_add duration
  rw [hnow] at hpass
  exact .snoc .nil hpass

theorem locks_inSection : inSection.service.locks (key ['d']) = some ⟨"t", some 10000000000⟩ := by
  have hgranted : empty.exec 0 0 (.lock (key ['d']) ttl "t")
      = (.granted "t", inSection.service) := rfl
  rw [lock_granted hgranted]
  rfl

theorem unknown_pass (duration : Nat) : Unknown "t"
    (([] ++ [(.attempt "t", .granted "t")]) ++ ([] ++ [(.pass duration, .done)])) := by
  intro request reply hmem
  simp at hmem

theorem section_pass (duration : Nat) :
    ∀ entry ∈ ([] ++ [(.pass duration, .done)] : List (Event × LockReply)), entry.1 ≠ .release := by
  simp

/-- A critical section of ten seconds is within the time to live. -/
theorem lockDirectory_held_tenSeconds :
    HeldThroughout ['d'] "t" inSection ([] ++ [(.pass 10000000000, .done)])
      { inSection with now := 10000000000 } :=
  (lockDirectory_held_iff history_holder returns_holder rfl (history_inSection _) (section_pass _)
    (unknown_pass _)).mpr (by decide)

/-- In a critical section of eleven seconds the entry expires, and another client gets the lock. No
renewal is left that could fail. -/
theorem lockDirectory_expires :
    ∃ acquired returned final after past during renewCtx,
      History (Step ['d']) (start 0 .empty) past acquired ∧
      Step ['d'] acquired .returns .done returned ∧ returned.stage = .critical renewCtx "t" ∧
      History (Step ['d']) returned during final ∧ (∀ entry ∈ during, entry.1 ≠ .release) ∧
      (∀ entry ∈ past ++ during, entry.1 = .renew → entry.2 = .done) ∧
      ¬ HeldThroughout ['d'] "t" returned during final ∧
      Step ['d'] final (.other (.lock (key ['d']) ttl "u")) (.granted "u") after := by
  have hexpired : ∀ entry, inSection.service.locks (key ['d']) = some entry →
      entry.expired 11000000000 = true := by
    intro entry hentry
    rw [locks_inSection, Option.some.injEq] at hentry
    subst hentry
    rfl
  have hgranted : inSection.service.exec 11000000000 11000000000 (.lock (key ['d']) ttl "u")
      = (.granted "u", inSection.service.put (key ['d']) (some ⟨"u", expiryAfter 11000000000 ttl⟩)) :=
    lock_free hexpired ttl
  refine ⟨holder, inSection, { inSection with now := 11000000000 }, _, _, _, [1, 0], history_holder,
    returns_holder, rfl, history_inSection _, section_pass _, by simp, fun hheld => ?_,
    .other hgranted⟩
  obtain ⟨entry, hentry, -, hlive⟩ := hheld _ [] _ (List.append_nil _).symm (history_inSection _) .nil
  have hpassed := hexpired entry hentry
  rw [hlive] at hpassed
  cases hpassed

end LockDirectory

end FsServer
