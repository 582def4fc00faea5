import FsServer.Proof.LockService

/-!
# The two lock services are interchangeable

The same timed calls are made on the lock of the process and on the one on Redis. The tokens of the
two are different texts for the same names: a client hands back the token it was given, under the name
of the call that generated it. A key is related to a key when both have the same holder until the
same time, or when both are free from now on, whatever stale entry the process still keeps.
-/

namespace FsServer

open RedisDistributedLock

variable {N : Type}

inductive NamedRequest (N : Type) where
  | lock (key : String) (ttl : Duration) (fresh : N)
  | unlock (key : String) (name : N)
  | extend (key : String) (name : N) (ttl : Duration)

structure TimedRequest (N : Type) where
  time : Time
  request : NamedRequest N

def NamedRequest.texts (tokens : N → String) : NamedRequest N → LockRequest
  | .lock key ttl fresh => .lock key ttl (tokens fresh)
  | .unlock key name => .unlock key (tokens name)
  | .extend key name ttl => .extend key (tokens name) ttl

/-- The times to live are positive whole numbers of milliseconds. -/
def NamedRequest.Whole : NamedRequest N → Prop
  | .lock _ ttl _ | .extend _ _ ttl => 0 < ttl ∧ millisecond ∣ ttl
  | .unlock .. => True

def LockReply.kind : LockReply → LockReply
  | .granted _ => .granted ""
  | reply => reply

def nanoseconds (time : Time) : Time := time * millisecond.toNat

def LocalDistributedLock.kinds (tokens : N → String) :
    LocalDistributedLock → List (TimedRequest N) → List LockReply
  | _, [] => []
  | service, ⟨time, request⟩ :: rest =>
    let outcome := service.exec (nanoseconds time) (nanoseconds time) (request.texts tokens)
    outcome.1.kind :: outcome.2.kinds tokens rest

def RedisDistributedLock.kinds (tokens : N → String) :
    RedisDistributedLock → List (TimedRequest N) → List LockReply
  | _, [] => []
  | server, ⟨time, request⟩ :: rest =>
    let outcome := server.exec time (request.texts tokens)
    outcome.1.kind :: outcome.2.kinds tokens rest

/-- The same holder until the same time, or nobody from this time on. -/
inductive SameHolder (first second : N → String) (now : Time) :
    Option LocalLockEntry → Option RedisValue → Prop
  | held (name : N) {deadline : Time} (hdeadline : now ≤ deadline) :
      SameHolder first second now (some ⟨first name, some (nanoseconds deadline)⟩)
        (some ⟨second name, some deadline⟩)
  | free {entry : Option LocalLockEntry} {value : Option RedisValue}
      (hentry : ∀ found, entry = some found → found.expired (nanoseconds now) = true)
      (hvalue : ∀ found, value = some found → ∃ deadline, found.deadline = some deadline ∧
        deadline < now) :
      SameHolder first second now entry value

theorem nanoseconds_lt {first second : Time} : nanoseconds first < nanoseconds second ↔ first < second :=
  Nat.mul_lt_mul_right (by decide)

theorem nanoseconds_le {first second : Time} : nanoseconds first ≤ nanoseconds second ↔ first ≤ second :=
  Nat.mul_le_mul_right_iff (by decide)

variable {entry : Option LocalLockEntry} {value : Option RedisValue}

section Holders

variable {first second : N → String} {now time : Time}

theorem SameHolder.later (h : SameHolder first second now entry value) (htime : now ≤ time) :
    SameHolder first second time entry value := by
  cases h with
  | @held name deadline hdeadline =>
    by_cases hpassed : time ≤ deadline
    · exact .held name hpassed
    · refine .free (fun found hfound => ?_) fun found hfound => ?_
      · cases hfound
        refine LocalLockEntry.expired_iff.mpr ⟨_, rfl, ?_⟩
        exact nanoseconds_lt.mpr (Nat.lt_of_not_le hpassed)
      · cases hfound
        exact ⟨deadline, rfl, Nat.lt_of_not_le hpassed⟩
  | free hentry hvalue =>
    refine .free (fun found hfound => ?_) fun found hfound => ?_
    · exact LocalLockEntry.expired_mono (hentry found hfound) (nanoseconds_le.mpr htime)
    · obtain ⟨deadline, hdeadline, hpassed⟩ := hvalue found hfound
      exact ⟨deadline, hdeadline, Nat.lt_of_lt_of_le hpassed htime⟩

end Holders

def Related (first second : N → String) (now : Time) (service : LocalDistributedLock)
    (server : RedisDistributedLock) : Prop :=
  ∀ key, SameHolder first second now (service.locks key)
    (server.keys (lockKey key))

theorem lockKey_injective : Function.Injective lockKey := by
  intro first second h
  unfold lockKey at h
  exact (String.append_right_inj _).mp h

variable {deadline : Time}

namespace RedisDistributedLock

variable {server : RedisDistributedLock} {now : Time} {key : String}

theorem entry_of_held {value : String} (h : server.keys key = some ⟨value, some deadline⟩)
    (hdeadline : now ≤ deadline) :
    server.entry now key = some ⟨value, some deadline⟩ := by
  rw [entry, h, Option.filter_some]
  simp [hdeadline]

theorem entry_of_free (h : ∀ found, server.keys key = some found →
    ∃ deadline, found.deadline = some deadline ∧ deadline < now) : server.entry now key = none := by
  rw [entry]
  cases hkey : server.keys key with
  | none => rfl
  | some found =>
    obtain ⟨deadline, hdeadline, hpassed⟩ := h found hkey
    rw [Option.filter_some, hdeadline]
    simp [Nat.not_le_of_lt hpassed]

theorem put_self (value : Option RedisValue) : (server.put key value).keys key = value :=
  Function.update_self ..

theorem put_other {other : String} (h : other ≠ key) (value : Option RedisValue) :
    (server.put key value).keys other = server.keys other := Function.update_of_ne h ..

end RedisDistributedLock

section Calls

variable {first second : N → String} {now : Time} {service : LocalDistributedLock}
  {server : RedisDistributedLock} {key : String}

theorem Related.put (h : Related first second now service server)
    (hsame : SameHolder first second now entry value) :
    Related first second now (service.put key entry)
      (server.put (lockKey key) value) := by
  intro other
  by_cases hkey : other = key
  · rw [hkey, LocalDistributedLock.put_self, put_self]
    exact hsame
  · rw [LocalDistributedLock.put_other hkey, put_other (fun heq => hkey (lockKey_injective heq))]
    exact h other

variable {ttl : Duration}

theorem expiryAfter_nanoseconds (hpos : 0 < ttl) (hwhole : millisecond ∣ ttl) :
    expiryAfter (nanoseconds now) ttl = some (nanoseconds (now + (ttl.tdiv millisecond).toNat)) := by
  obtain ⟨count, rfl⟩ := hwhole
  have hdiv : (millisecond * count).tdiv millisecond = count :=
    Int.mul_tdiv_cancel_left _ (by decide)
  have hunits : ∀ time, nanoseconds time = time * 1000000 := fun _ => rfl
  have hlength : (millisecond * count).toNat = count.toNat * 1000000 := by
    change (1000000 * count : Int).toNat = _
    change 0 < (1000000 * count : Int) at hpos
    omega
  rw [expiryAfter, if_pos hpos, hdiv, hunits, hunits, hlength, Nat.add_mul]

/-- The same kind of reply, and the keys still have the same holders. -/
def Agree (first second : N → String) (now : Time) (outcome : LockReply × LocalDistributedLock)
    (answer : LockReply × RedisDistributedLock) : Prop :=
  outcome.1.kind = answer.1.kind ∧ Related first second now outcome.2 answer.2

theorem not_expired {token : String} (hdeadline : now ≤ deadline) :
    (⟨token, some (nanoseconds deadline)⟩ : LocalLockEntry).expired (nanoseconds now) = false := by
  simp only [LocalLockEntry.expired, decide_eq_false_iff_not, Nat.not_lt]
  exact nanoseconds_le.mpr hdeadline

theorem Related.refuse (h : Related first second now service server) :
    Related first second now (service.refuse key (nanoseconds now)).2 server := by
  unfold LocalDistributedLock.refuse
  split
  · rename_i entry hentry
    dsimp only
    split_ifs with hexpired
    · intro other
      by_cases hkey : other = key
      · have hsame := h key
        rw [hentry] at hsame
        rw [hkey, LocalDistributedLock.put_self]
        generalize server.keys (lockKey key) = value at hsame ⊢
        cases hsame with
        | held name hdeadline =>
          rw [not_expired hdeadline] at hexpired
          cases hexpired
        | free _ hvalue => exact .free nofun hvalue
      · rw [LocalDistributedLock.put_other hkey]
        exact h other
    · exact h
  · exact h

theorem Related.lock (h : Related first second now service server) (hpos : 0 < ttl)
    (hwhole : millisecond ∣ ttl) (fresh : N) :
    Agree first second now (service.lock key ttl (first fresh) (nanoseconds now) (nanoseconds now))
      (server.lock key ttl (second fresh) now) := by
  have hvalid : ¬ ttl < -1 := fun hlow => absurd (Int.lt_trans hpos hlow) (by decide)
  have hkey := h key
  generalize hentry : service.locks key = entry at hkey
  generalize hvalue : server.keys (lockKey key) = value at hkey
  cases hkey with
  | held name hdeadline =>
    have hfound := entry_of_held hvalue hdeadline
    have hanswer : server.lock key ttl (second fresh) now = (.conflict, server) := by
      simp [RedisDistributedLock.lock, setNX, hvalid, hfound]
    rw [LocalDistributedLock.lock_held hentry (not_expired hdeadline), hanswer]
    exact ⟨rfl, h⟩
  | free hexpired hpassed =>
    have hfound : server.entry now (lockKey key) = none :=
      entry_of_free (hvalue ▸ hpassed)
    have hlong : ¬ ttl < millisecond := Int.not_lt.mpr (Int.le_of_dvd hpos hwhole)
    have hanswer : server.lock key ttl (second fresh) now = (.granted (second fresh),
        server.put (lockKey key)
          (some ⟨second fresh, some (now + (ttl.tdiv millisecond).toNat)⟩)) := by
      simp [RedisDistributedLock.lock, setNX, hvalid, hfound,
        Int.not_le.mpr hpos, hlong]
    rw [LocalDistributedLock.lock_free (hentry ▸ hexpired), hanswer,
      expiryAfter_nanoseconds hpos hwhole]
    exact ⟨rfl, h.put (.held fresh (Nat.le_add_right _ _))⟩

section Tokens

variable (hnames : ∀ name other, first name = first other ↔ second name = second other)

include hnames

section

variable (h : Related first second now service server)
include h

theorem Related.lost_or_held (key : String) (name : N) :
    service.Lost (nanoseconds now) key (first name) ∧
        server.get now (lockKey key) ≠ some (second name) ∨
      ∃ deadline, now ≤ deadline ∧
        service.locks key = some ⟨first name, some (nanoseconds deadline)⟩ ∧
        server.entry now (lockKey key) =
          some ⟨second name, some deadline⟩ := by
  have hkey := h key
  generalize hentry : service.locks key = entry at hkey
  generalize hvalue : server.keys (lockKey key) = value at hkey
  cases hkey with
  | held holder hdeadline =>
    have hfound := entry_of_held hvalue hdeadline
    by_cases hown : first holder = first name
    · rw [(hnames holder name).mp hown] at hfound
      exact .inr ⟨_, hdeadline, hown ▸ rfl, hfound⟩
    · refine .inl ⟨fun found hlocks htoken => ?_, ?_⟩
      · rw [hentry] at hlocks
        cases hlocks
        exact absurd htoken hown
      · rw [RedisDistributedLock.get, hfound]
        exact fun heq => hown ((hnames holder name).mpr (Option.some.inj heq))
  | free hexpired hpassed =>
    refine .inl ⟨fun found hfound _ => hexpired found (hentry ▸ hfound), ?_⟩
    rw [RedisDistributedLock.get, entry_of_free (hvalue ▸ hpassed)]
    exact nofun

theorem Related.unlock (name : N) :
    Agree first second now (service.unlock key (first name) (nanoseconds now))
      (server.unlock key (second name) now) := by
  rcases h.lost_or_held hnames key name with ⟨hlost, hget⟩ | ⟨deadline, hdeadline, hentry, hfound⟩
  · have hanswer : server.unlock key (second name) now = (.notHeld, server) := by
      simp [RedisDistributedLock.unlock, unlockScript,
        replyOf, hget]
    rw [hlost.unlock, hanswer]
    exact ⟨congrArg LockReply.kind LocalDistributedLock.refuse_reply, h.refuse⟩
  · have hanswer : server.unlock key (second name) now
        = (.done, server.put (lockKey key) none) := by
      simp [RedisDistributedLock.unlock, unlockScript,
        RedisDistributedLock.get, del, replyOf, hfound]
    rw [LocalDistributedLock.unlock_held hentry (not_expired hdeadline) rfl, hanswer]
    exact ⟨rfl, h.put (.free nofun nofun)⟩

theorem Related.extend (name : N) (hpos : 0 < ttl) (hwhole : millisecond ∣ ttl) :
    Agree first second now (service.extend key (first name) ttl (nanoseconds now) (nanoseconds now))
      (server.extend key (second name) ttl now) := by
  rcases h.lost_or_held hnames key name with ⟨hlost, hget⟩ | ⟨deadline, hdeadline, hentry, hfound⟩
  · have hanswer : server.extend key (second name) ttl now = (.notHeld, server) := by
      simp [RedisDistributedLock.extend, extendScript,
        replyOf, hget]
    rw [hlost.extend, hanswer]
    exact ⟨congrArg LockReply.kind LocalDistributedLock.refuse_reply, h.refuse⟩
  · have hmilliseconds : ¬ ttl.tdiv millisecond ≤ 0 := by
      obtain ⟨count, rfl⟩ := hwhole
      rw [Int.mul_tdiv_cancel_left _ (by decide)]
      change 0 < (1000000 * count : Int) at hpos
      omega
    have hanswer : server.extend key (second name) ttl now
        = (.done, server.put (lockKey key)
          (some ⟨second name, some (now + (ttl.tdiv millisecond).toNat)⟩)) := by
      simp [RedisDistributedLock.extend, extendScript,
        RedisDistributedLock.get, pexpire, replyOf,
        hfound, hmilliseconds]
    rw [LocalDistributedLock.extend_held hentry (not_expired hdeadline) rfl, if_pos hpos,
      hanswer, expiryAfter_nanoseconds hpos hwhole]
    exact ⟨rfl, h.put (.held name (Nat.le_add_right _ _))⟩

theorem Related.exec {request : NamedRequest N} (hwhole : request.Whole) :
    Agree first second now (service.exec (nanoseconds now) (nanoseconds now) (request.texts first))
      (server.exec now (request.texts second)) := by
  cases request with
  | lock key ttl fresh => exact h.lock hwhole.1 hwhole.2 fresh
  | unlock key name => exact h.unlock hnames name
  | extend key name ttl => exact h.extend hnames name hwhole.1 hwhole.2

end

end Tokens

end Calls

/-- Calls at times that do not go back, each with a whole number of milliseconds to live, get the
same kinds of replies from both services. -/
theorem local_redis_interchangeable {first second : N → String}
    (hnames : ∀ name other, first name = first other ↔ second name = second other)
    {calls : List (TimedRequest N)} (hclock : calls.Pairwise fun call next => call.time ≤ next.time)
    (hwhole : ∀ call ∈ calls, call.request.Whole) :
    LocalDistributedLock.empty.kinds first calls = empty.kinds second calls := by
  have hrun : ∀ {now : Time} {service : LocalDistributedLock} {server : RedisDistributedLock},
      Related first second now service server → (∀ call ∈ calls, now ≤ call.time) →
      service.kinds first calls = server.kinds second calls := by
    induction calls with
    | nil => intros; rfl
    | cons call rest ih =>
      intro now service server hrelated hnow
      rw [List.pairwise_cons] at hclock
      have hlater : Related first second call.time service server := fun key =>
        (hrelated key).later (hnow call (List.mem_cons_self ..))
      obtain ⟨hkind, hafter⟩ := hlater.exec hnames (hwhole call (List.mem_cons_self ..))
      have hrest := ih hclock.2 (fun other hother => hwhole other (List.mem_cons_of_mem _ hother))
        hafter hclock.1
      simp only [LocalDistributedLock.kinds, kinds, hkind, hrest]
  exact hrun (fun key => .free nofun nofun) fun call _ => Nat.zero_le call.time

/-- A lock of two milliseconds that a second client finds taken, then free. -/
theorem local_redis_interchangeable_takeover :
    LocalDistributedLock.empty.kinds (N := Nat) toString
        [⟨1, .lock "k" 2000000 0⟩, ⟨3, .lock "k" 2000000 1⟩, ⟨4, .lock "k" 2000000 2⟩,
          ⟨4, .unlock "k" 0⟩] =
      empty.kinds toString
        [⟨1, .lock "k" 2000000 0⟩, ⟨3, .lock "k" 2000000 1⟩, ⟨4, .lock "k" 2000000 2⟩,
          ⟨4, .unlock "k" 0⟩] := by
  refine local_redis_interchangeable (fun _ _ => Iff.rfl) ?_ ?_
  · simp
  · simp only [List.mem_cons, List.not_mem_nil, or_false]
    rintro call (rfl | rfl | rfl | rfl) <;> simp [NamedRequest.Whole, millisecond]

end FsServer
