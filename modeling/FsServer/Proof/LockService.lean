import FsServer.LockService
import FsServer.Lib.Simulation

/-!
# Who holds a lock

A run of the lock service is a history of calls, each with its readings of a clock that does not go
back and with a token that was not generated before. The tenure of a token is read off such a
history: it begins when the token is granted and is over once it is given back or the clock has
passed the expiry set last. While it lasts nobody else gets the lock or changes its entry, and
afterwards the token is good for nothing.
-/

namespace FsServer

open Lib LocalDistributedLock

structure LockEvent where
  request : LockRequest
  now : Time
  later : Time

/-- The service, the last reading of the clock and the tokens generated so far. -/
structure LockHistory where
  service : LocalDistributedLock
  clock : Time
  issued : List String

namespace LockHistory

def start : LockHistory := ⟨.empty, 0, []⟩

def issues : LockRequest → List String
  | .lock _ _ token => [token]
  | _ => []

/-- One call at a time that has not gone back, its token a fresh one. -/
structure Step (state : LockHistory) (event : LockEvent) (reply : LockReply)
    (after : LockHistory) : Prop where
  forward : state.clock ≤ event.now ∧ event.now ≤ event.later
  fresh : ∀ token ∈ issues event.request, token ∉ state.issued
  outcome : state.service.exec event.now event.later event.request = (reply, after.service)
  clock : after.clock = event.later
  issued : after.issued = issues event.request ++ state.issued

end LockHistory

inductive Tenure where
  | held (deadline : Option Time)
  | ended
  deriving DecidableEq

namespace Tenure

def seen (now : Time) : Tenure → Tenure
  | .held (some deadline) => if deadline < now then .ended else .held (some deadline)
  | tenure => tenure

def next (key token : String) (tenure : Tenure) (entry : LockEvent × LockReply) : Tenure :=
  match tenure.seen entry.1.now with
  | .ended => .ended
  | .held deadline =>
    match entry with
    | (⟨.unlock k t, _, _⟩, .done) => if k = key ∧ t = token then .ended else .held deadline
    | (⟨.extend k t ttl, _, later⟩, .done) =>
      if k = key ∧ t = token ∧ ttl > 0 then .held (expiryAfter later ttl) else .held deadline
    | _ => .held deadline

def replay (key token : String) (granted : Option Time) (later : List (LockEvent × LockReply)) :
    Tenure :=
  later.foldl (next key token) (.held granted)

end Tenure

def LockRequest.key : LockRequest → String
  | .lock key _ _ | .unlock key _ | .extend key _ _ => key

def LockRequest.token : LockRequest → String
  | .lock _ _ token | .unlock _ token | .extend _ token _ => token

theorem LocalLockEntry.expired_iff {entry : LocalLockEntry} {now : Time} :
    entry.expired now = true ↔ ∃ expiry, entry.expiry = some expiry ∧ expiry < now := by
  unfold expired
  cases entry.expiry with
  | none => simp
  | some expiry => simp

theorem LocalLockEntry.expired_mono {entry : LocalLockEntry} {now time : Time}
    (h : entry.expired now = true) (htime : now ≤ time) : entry.expired time = true := by
  obtain ⟨expiry, hexpiry, hpassed⟩ := expired_iff.mp h
  exact expired_iff.mpr ⟨expiry, hexpiry, Nat.lt_of_lt_of_le hpassed htime⟩

variable {request : LockRequest}

namespace LocalDistributedLock

variable {service : LocalDistributedLock} {key token : String} {now later : Time}

@[simp]
theorem put_self (key : String) (entry : Option LocalLockEntry) :
    (service.put key entry).locks key = entry := Function.update_self ..

theorem put_other {other : String} (h : other ≠ key) (entry : Option LocalLockEntry) :
    (service.put key entry).locks other = service.locks other := Function.update_of_ne h ..

theorem exec_other (h : request.key ≠ key) :
    (service.exec now later request).2.locks key = service.locks key := by
  cases request with
  | lock k ttl t =>
    simp only [exec, lock]
    split
    · split_ifs
      · exact put_other (Ne.symm h) _
      · rfl
    · exact put_other (Ne.symm h) _
  | unlock k t =>
    simp only [exec, unlock]
    split
    · rfl
    · split_ifs
      · exact put_other (Ne.symm h) _
      · rfl
      · exact put_other (Ne.symm h) _
  | extend k t ttl =>
    simp only [exec, extend]
    split
    · rfl
    · split_ifs
      · exact put_other (Ne.symm h) _
      · rfl
      · exact put_other (Ne.symm h) _
      · rfl

theorem lock_granted {ttl : Duration} {after : LocalDistributedLock}
    (h : service.exec now later (.lock key ttl token) = (.granted token, after)) :
    after.locks key = some ⟨token, expiryAfter later ttl⟩ := by
  simp only [exec, lock] at h
  split at h
  · split_ifs at h
    · rw [Prod.mk.injEq] at h
      rw [← h.2, put_self]
    · cases h
  · rw [Prod.mk.injEq] at h
    rw [← h.2, put_self]

theorem lock_free (h : ∀ entry, service.locks key = some entry → entry.expired now = true)
    (ttl : Duration) : service.lock key ttl token now later
      = (.granted token, service.put key (some ⟨token, expiryAfter later ttl⟩)) := by
  unfold lock
  cases hentry : service.locks key with
  | none => rfl
  | some entry => exact if_pos (h entry hentry)

section Held

variable {entry : LocalLockEntry} (hentry : service.locks key = some entry)
  (hlive : entry.expired now = false)

include hentry hlive

theorem lock_held (ttl : Duration) (token : String) :
    service.lock key ttl token now later = (.conflict, service) := by
  simp [lock, hentry, hlive]

theorem unlock_held_other (hother : entry.token ≠ token) :
    service.unlock key token now = (.notHeld, service) := by
  simp [unlock, hentry, hlive, hother]

theorem unlock_held (hown : entry.token = token) :
    service.unlock key token now = (.done, service.put key none) := by
  simp [unlock, hentry, hlive, hown]

theorem extend_held_other (hother : entry.token ≠ token) (ttl : Duration) :
    service.extend key token ttl now later = (.notHeld, service) := by
  simp [extend, hentry, hlive, hother]

theorem extend_held (hown : entry.token = token) (ttl : Duration) :
    service.extend key token ttl now later = (.done, if ttl > 0 then
      service.put key (some { entry with expiry := expiryAfter later ttl }) else service) := by
  simp only [extend, hentry, hlive, hown, ne_eq, not_true_eq_false, Bool.false_eq_true, if_false]
  split_ifs <;> rfl

theorem exec_held_other (hother : entry.token ≠ request.token) :
    (service.exec now later request).2.locks key = service.locks key := by
  by_cases hkey : request.key = key
  · cases request with
    | lock k ttl t =>
      obtain rfl : k = key := hkey
      rw [exec, lock_held hentry hlive]
    | unlock k t =>
      obtain rfl : k = key := hkey
      have hrefused : service.unlock k t now = (.notHeld, service) :=
        unlock_held_other hentry hlive hother
      rw [exec, hrefused]
    | extend k t ttl =>
      obtain rfl : k = key := hkey
      have hrefused : service.extend k t ttl now later = (.notHeld, service) :=
        extend_held_other hentry hlive hother ttl
      rw [exec, hrefused]
  · exact exec_other hkey

end Held

/-- The key is not held under this token: a stale entry at most is left of it. -/
def Lost (service : LocalDistributedLock) (now : Time) (key token : String) : Prop :=
  ∀ entry, service.locks key = some entry → entry.token = token → entry.expired now = true

/-- What a call does that is refused for its token: an expired entry is dropped. -/
def refuse (service : LocalDistributedLock) (key : String) (now : Time) :
    LockReply × LocalDistributedLock :=
  match service.locks key with
  | some entry => (.notHeld, if entry.expired now then service.put key none else service)
  | none => (.notHeld, service)

theorem Lost.unlock (h : service.Lost now key token) :
    service.unlock key token now = service.refuse key now := by
  unfold LocalDistributedLock.unlock refuse
  cases hentry : service.locks key with
  | none => rfl
  | some entry =>
    dsimp only
    split_ifs with hexpired hother
    · rfl
    · rfl
    · exact absurd (h entry hentry (not_not.mp hother)) hexpired

theorem Lost.extend (h : service.Lost now key token) (ttl : Duration) :
    service.extend key token ttl now later = service.refuse key now := by
  unfold LocalDistributedLock.extend refuse
  cases hentry : service.locks key with
  | none => rfl
  | some entry =>
    dsimp only
    split_ifs with hexpired hother
    · rfl
    · rfl
    all_goals exact absurd (h entry hentry (not_not.mp hother)) hexpired

theorem refuse_reply : (service.refuse key now).1 = .notHeld := by
  unfold refuse
  split <;> rfl

theorem refuse_keeps {entry : LocalLockEntry} (hentry : service.locks key = some entry)
    (hlive : entry.expired now = false) : (service.refuse key now).2.locks key = some entry := by
  simp [refuse, hentry, hlive]

/-- Where the entry of a key comes from: it was there, it is a grant, or its holder prolonged it. -/
theorem exec_entry {entry : LocalLockEntry}
    (h : (service.exec now later request).2.locks key = some entry) :
    service.locks key = some entry ∨ entry.token ∈ LockHistory.issues request ∨
      ∃ old, service.locks key = some old ∧ old.expired now = false ∧ old.token = entry.token := by
  by_cases hkey : request.key = key
  · subst hkey
    cases request with
    | lock k ttl t =>
      simp only [exec, lock, LockRequest.key] at h
      split at h
      · split_ifs at h
        · rw [put_self] at h
          cases h
          exact .inr (.inl (List.mem_singleton_self _))
        · exact .inl h
      · rw [put_self] at h
        cases h
        exact .inr (.inl (List.mem_singleton_self _))
    | unlock k t =>
      simp only [exec, LocalDistributedLock.unlock, LockRequest.key] at h
      split at h
      · exact .inl h
      · split_ifs at h
        · simp at h
        · exact .inl h
        · simp at h
    | extend k t ttl =>
      simp only [exec, LocalDistributedLock.extend, LockRequest.key] at h
      split at h
      · exact .inl h
      · rename_i old hold
        split_ifs at h with hexpired
        · simp at h
        · exact .inl h
        · rw [put_self] at h
          cases h
          exact .inr (.inr ⟨old, hold, by simpa using hexpired, rfl⟩)
        · exact .inl h
  · rw [exec_other hkey] at h
    exact .inl h

/-- No call but a grant of the token brings an entry of the token back. -/
theorem Lost.exec (h : service.Lost now key token) (hfresh : token ∉ LockHistory.issues request)
    {time : Time} (htime : now ≤ time) :
    (service.exec now later request).2.Lost time key token := by
  intro entry hentry hown
  rcases exec_entry hentry with hbefore | hissued | ⟨old, hold, hlive, hsame⟩
  · exact LocalLockEntry.expired_mono (h entry hbefore hown) htime
  · exact absurd (hown ▸ hissued) hfresh
  · rw [h old hold (hsame.trans hown)] at hlive
    cases hlive

end LocalDistributedLock

namespace Tenure

variable {key token : String} {state after : LockHistory} {tenure : Tenure}

/-- What the service has for the key when the token's tenure is this. -/
def Fits (service : LocalDistributedLock) (now : Time) (key token : String) : Tenure → Prop
  | .held deadline => service.locks key = some ⟨token, deadline⟩
  | .ended => service.Lost now key token

theorem fits_seen {service : LocalDistributedLock} {clock now : Time}
    (h : tenure.Fits service clock key token) (hclock : clock ≤ now) :
    (tenure.seen now).Fits service now key token ∧
      ∀ deadline, tenure.seen now = .held deadline →
        (⟨token, deadline⟩ : LocalLockEntry).expired now = false := by
  cases tenure with
  | ended =>
    exact ⟨fun entry hentry hown => LocalLockEntry.expired_mono (h entry hentry hown) hclock, nofun⟩
  | held deadline =>
    cases deadline with
    | none => exact ⟨h, fun deadline hsame => by cases hsame; rfl⟩
    | some deadline =>
      simp only [seen]
      split_ifs with hpassed
      · refine ⟨fun entry hentry _ => ?_, nofun⟩
        rw [h, Option.some.injEq] at hentry
        exact LocalLockEntry.expired_iff.mpr ⟨deadline, by rw [← hentry], hpassed⟩
      · refine ⟨h, fun other hsame => ?_⟩
        cases hsame
        simp only [LocalLockEntry.expired, decide_eq_false_iff_not]
        exact hpassed

section Next

variable {deadline : Option Time} {now later : Time} {reply : LockReply}
  (hheld : tenure.seen now = .held deadline)

include hheld

theorem next_other (hkey : request.key ≠ key) :
    tenure.next key token (⟨request, now, later⟩, reply) = .held deadline := by
  simp only [next, hheld]
  cases request with
  | lock k ttl t => rfl
  | unlock k t => cases reply <;> simp [show k ≠ key from hkey]
  | extend k t ttl => cases reply <;> simp [show k ≠ key from hkey]

theorem next_conflict (request : LockRequest) :
    tenure.next key token (⟨request, now, later⟩, .conflict) = .held deadline := by
  simp only [next, hheld]

theorem next_notHeld (request : LockRequest) :
    tenure.next key token (⟨request, now, later⟩, .notHeld) = .held deadline := by
  simp only [next, hheld]

theorem next_unlock : tenure.next key token (⟨.unlock key token, now, later⟩, .done) = .ended := by
  simp [next, hheld]

theorem next_extend (ttl : Duration) :
    tenure.next key token (⟨.extend key token ttl, now, later⟩, .done)
      = .held (if ttl > 0 then expiryAfter later ttl else deadline) := by
  simp only [next, hheld, true_and]
  split_ifs <;> rfl

end Next

/-- One call keeps the entry of the key in step with the tenure of the token. -/
theorem Fits.next (h : tenure.Fits state.service state.clock key token)
    (hissued : token ∈ state.issued) {event : LockEvent} {reply : LockReply}
    (hstep : LockHistory.Step state event reply after) :
    (tenure.next key token (event, reply)).Fits after.service after.clock key token := by
  obtain ⟨request, now, later⟩ := event
  obtain ⟨hseen, hlive⟩ := fits_seen h hstep.forward.1
  have houtcome := hstep.outcome
  have hafter : after.service = (state.service.exec now later request).2 := by
    rw [houtcome]
  dsimp only at hseen hlive houtcome
  cases hcurrent : tenure.seen now with
  | ended =>
    rw [hcurrent] at hseen
    have hfresh : token ∉ LockHistory.issues request := fun hmem =>
      hstep.fresh token hmem hissued
    simp only [Tenure.next, hcurrent, Fits]
    rw [hafter, hstep.clock]
    exact Lost.exec hseen hfresh hstep.forward.2
  | held deadline =>
    rw [hcurrent] at hseen
    have hexpired := hlive deadline hcurrent
    by_cases hkey : request.key = key
    · cases request with
      | lock k ttl t =>
        obtain rfl : k = key := hkey
        rw [exec, lock_held hseen hexpired,
          Prod.mk.injEq] at houtcome
        rw [← houtcome.1, next_conflict hcurrent, Fits, ← houtcome.2]
        exact hseen
      | unlock k t =>
        obtain rfl : k = key := hkey
        by_cases hown : token = t
        · subst hown
          rw [exec, unlock_held hseen hexpired rfl,
            Prod.mk.injEq] at houtcome
          rw [← houtcome.1, next_unlock hcurrent, Fits, ← houtcome.2]
          intro entry hentry
          rw [put_self] at hentry
          cases hentry
        · rw [exec, unlock_held_other hseen hexpired hown, Prod.mk.injEq] at houtcome
          rw [← houtcome.1, next_notHeld hcurrent, Fits, ← houtcome.2]
          exact hseen
      | extend k t ttl =>
        obtain rfl : k = key := hkey
        by_cases hown : token = t
        · subst hown
          rw [exec, extend_held hseen hexpired rfl,
            Prod.mk.injEq] at houtcome
          rw [← houtcome.1, next_extend hcurrent, Fits, ← houtcome.2]
          split_ifs
          · exact put_self ..
          · exact hseen
        · rw [exec, extend_held_other hseen hexpired hown, Prod.mk.injEq] at houtcome
          rw [← houtcome.1, next_notHeld hcurrent, Fits, ← houtcome.2]
          exact hseen
    · rw [next_other hcurrent hkey, Fits, hafter, exec_other hkey]
      exact hseen

theorem Fits.replay {past : List (LockEvent × LockReply)} {granted : Option Time}
    (h : (Tenure.held granted).Fits state.service state.clock key token)
    (hissued : token ∈ state.issued) (hpast : History LockHistory.Step state past after) :
    (Tenure.replay key token granted past).Fits after.service after.clock key token ∧
      token ∈ after.issued := by
  induction hpast with
  | nil => exact ⟨h, hissued⟩
  | snoc hpast hstep ih =>
    obtain ⟨hfits, hmem⟩ := ih
    refine ⟨?_, ?_⟩
    · rw [Tenure.replay, List.foldl_append, List.foldl_cons, List.foldl_nil]
      exact hfits.next hmem hstep
    · rw [hstep.issued]
      exact List.mem_append_right _ hmem

end Tenure

/-- While the tenure of a token lasts, every other call for the key is turned away; once it is over,
the token is, and the entry of a later holder stays. -/
theorem localLock_ownership_safe {granted state after before : LockHistory} {key token : String}
    {ttl : Duration} {now now' : Time} {later : List (LockEvent × LockReply)} {event : LockEvent}
    {reply : LockReply}
    (hgrant : LockHistory.Step before ⟨.lock key ttl token, now, now'⟩ (.granted token) granted)
    (hlater : History LockHistory.Step granted later state)
    (hnext : LockHistory.Step state event reply after) :
    match (Tenure.replay key token (expiryAfter now' ttl) later).seen event.now with
    | .held _ =>
      (∀ ttl fresh, event.request = .lock key ttl fresh → reply = .conflict) ∧
      (∀ other, other ≠ token → event.request = .unlock key other →
        reply = .notHeld ∧ after.service.locks key = state.service.locks key) ∧
      ∀ other ttl, other ≠ token → event.request = .extend key other ttl →
        reply = .notHeld ∧ after.service.locks key = state.service.locks key
    | .ended =>
      (event.request = .unlock key token → reply = .notHeld ∧
        ∀ entry, state.service.locks key = some entry → entry.expired event.now = false →
          after.service.locks key = some entry) ∧
      ∀ ttl, event.request = .extend key token ttl → reply = .notHeld ∧
        ∀ entry, state.service.locks key = some entry → entry.expired event.now = false →
          after.service.locks key = some entry := by
  have hstart : (Tenure.held (expiryAfter now' ttl)).Fits granted.service granted.clock key token :=
    lock_granted hgrant.outcome
  have hissued : token ∈ granted.issued := by
    rw [hgrant.issued]
    exact List.mem_append_left _ (List.mem_singleton_self token)
  obtain ⟨hfits, -⟩ := hstart.replay hissued hlater
  obtain ⟨hseen, hlive⟩ := Tenure.fits_seen hfits hnext.forward.1
  have houtcome := hnext.outcome
  cases hcurrent : (Tenure.replay key token (expiryAfter now' ttl) later).seen event.now with
  | held deadline =>
    rw [hcurrent] at hseen
    have hexpired := hlive deadline hcurrent
    refine ⟨fun ttl fresh hrequest => ?_, fun other hother hrequest => ?_,
      fun other ttl hother hrequest => ?_⟩
    · rw [hrequest, exec, lock_held hseen hexpired, Prod.mk.injEq] at houtcome
      exact houtcome.1.symm
    · rw [hrequest, exec, unlock_held_other hseen hexpired hother.symm, Prod.mk.injEq] at houtcome
      exact ⟨houtcome.1.symm, by rw [houtcome.2]⟩
    · rw [hrequest, exec, extend_held_other hseen hexpired hother.symm, Prod.mk.injEq] at houtcome
      exact ⟨houtcome.1.symm, by rw [houtcome.2]⟩
  | ended =>
    rw [hcurrent] at hseen
    have hrefused : (reply, after.service) = state.service.refuse key event.now →
        reply = .notHeld ∧ ∀ entry, state.service.locks key = some entry →
          entry.expired event.now = false → after.service.locks key = some entry := by
      intro hrefuse
      have hreply := congrArg Prod.fst hrefuse
      have hservice := congrArg Prod.snd hrefuse
      dsimp only at hreply hservice
      rw [refuse_reply] at hreply
      refine ⟨hreply, fun entry hentry hkept => ?_⟩
      rw [hservice]
      exact refuse_keeps hentry hkept
    refine ⟨fun hrequest => hrefused ?_, fun ttl hrequest => hrefused ?_⟩
    · rw [← houtcome, hrequest]
      exact Lost.unlock hseen
    · rw [← houtcome, hrequest]
      exact Lost.extend hseen ttl

/-- A lock of ten units taken at time 1 is refused to a second client at time 3. -/
theorem localLock_ownership_safe_conflict :
    ∃ granted after, LockHistory.Step .start ⟨.lock "k" 10 "a", 1, 1⟩ (.granted "a") granted ∧
      LockHistory.Step granted ⟨.lock "k" 10 "b", 3, 3⟩ .conflict after ∧
      after.service.locks "k" = some ⟨"a", some 11⟩ := by
  obtain ⟨service, hservice⟩ : ∃ service, empty.exec 1 1 (.lock "k" 10 "a")
      = (.granted "a", service) := ⟨_, rfl⟩
  have hgrant : LockHistory.Step .start ⟨.lock "k" 10 "a", 1, 1⟩ (.granted "a")
      ⟨service, 1, ["a"]⟩ := ⟨by decide, by simp [LockHistory.start], hservice, rfl, rfl⟩
  have hentry : service.locks "k" = some ⟨"a", some 11⟩ :=
    lock_granted hservice
  obtain ⟨reply, next, hnext⟩ : ∃ reply next, service.exec 3 3 (.lock "k" 10 "b") = (reply, next) :=
    ⟨_, _, rfl⟩
  have hsecond : LockHistory.Step ⟨service, 1, ["a"]⟩ ⟨.lock "k" 10 "b", 3, 3⟩ reply
      ⟨next, 3, ["b", "a"]⟩ :=
    ⟨(by decide : 1 ≤ 3 ∧ 3 ≤ 3), by simp [LockHistory.issues], hnext, rfl, rfl⟩
  have hsafe := localLock_ownership_safe hgrant .nil hsecond
  obtain rfl : reply = .conflict := hsafe.1 10 "b" rfl
  rw [exec, lock_held hentry rfl, Prod.mk.injEq] at hnext
  exact ⟨_, _, hgrant, hsecond, hnext.2 ▸ hentry⟩

end FsServer
