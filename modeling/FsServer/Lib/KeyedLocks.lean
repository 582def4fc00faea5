import FsServer.Lib.Interleaving
import Mathlib.Data.Set.Finite.Lemmas
import Mathlib.Order.Defs.LinearOrder

/-!
# Mutexes kept in a map

Mutexes are kept in a concurrent map under keys of a linear order; an entry is made when its key is
first asked for and stays. Any number of tasks lock and unlock the mutexes between other operations,
of which nothing is known but that they return. If each of them locks only mutexes whose keys are
above the keys of those it has locked, and unlocks each before it ends, then no two are within the
locked section of one key, and as long as one has not ended one can go on.
-/

namespace FsServer.Lib

open Program Function

abbrev MutexAddress := Nat

inductive MutexCall (K : Type) : Type → Type where
  | loadOrStore (key : K) : MutexCall K MutexAddress
  | lock (key : K) (mu : MutexAddress) : MutexCall K Unit
  | unlock (key : K) (mu : MutexAddress) : MutexCall K Unit

/-- The keys of `lock` and `unlock` say which section they are the ends of; they do nothing. -/
inductive LockCall (K : Type) (O : Type → Type) (β : Type) where
  | mutex (call : MutexCall K β)
  | other (call : O β)

structure KeyedLocks (K D : Type) where
  entries : K → Option MutexAddress
  locked : MutexAddress → Bool
  allocated : Nat
  rest : D

namespace KeyedLocks

variable {K D N : Type} {O : Type → Type} [LinearOrder K]

def empty (rest : D) : KeyedLocks K D := ⟨fun _ => none, fun _ => false, 0, rest⟩

def store (locks : KeyedLocks K D) (key : K) : KeyedLocks K D :=
  { locks with
    entries := update locks.entries key (some locks.allocated)
    allocated := locks.allocated + 1 }

def setLocked (locks : KeyedLocks K D) (mu : MutexAddress) (value : Bool) : KeyedLocks K D :=
  { locks with locked := update locks.locked mu value }

/-- `lock` waits while the mutex is locked, and `unlock` of one that is not ends the process: neither
has a step then. -/
def exec (locks : KeyedLocks K D) : {β : Type} → MutexCall K β → Option (β × KeyedLocks K D)
  | _, .loadOrStore key =>
    match locks.entries key with
    | some mu => some (mu, locks)
    | none => some (locks.allocated, locks.store key)
  | _, .lock _ mu => if locks.locked mu then none else some ((), locks.setLocked mu true)
  | _, .unlock _ mu => if locks.locked mu then some ((), locks.setLocked mu false) else none

def handle (other : ∀ β : Type, N → O β → D → β × D) :
    Handler N (LockCall K O) (KeyedLocks K D) := fun β env call locks =>
  match call with
  | .mutex call => locks.exec call
  | .other call =>
    let outcome := other β env call locks.rest
    some (outcome.1, { locks with rest := outcome.2 })

end KeyedLocks

namespace Program

variable {K R : Type} {O : Type → Type}

/-- The program is within the locked section of the key: it may yet unlock, with no lock before. -/
def Within (key : K) : Program (LockCall K O) R → Prop
  | .done _ => False
  | .call (.mutex (.loadOrStore _)) next => ∃ mu, (next mu).Within key
  | .call (.mutex (.lock other _)) next => other ≠ key ∧ (next ()).Within key
  | .call (.mutex (.unlock other _)) next => other = key ∨ (next ()).Within key
  | .call (.other _) next => ∃ reply, (next reply).Within key

variable [LinearOrder K]

/-- The program has locked the mutexes of `held` and looked up those of `known`. -/
def Disciplined (known : List (K × MutexAddress)) (held : List K) : Program (LockCall K O) R → Prop
  | .done _ => held = []
  | .call (.mutex (.loadOrStore key)) next =>
    ∀ mu, (next mu).Disciplined ((key, mu) :: known) held
  | .call (.mutex (.lock key mu)) next =>
    (key, mu) ∈ known ∧ (∀ other ∈ held, other < key) ∧ (next ()).Disciplined known (key :: held)
  | .call (.mutex (.unlock key mu)) next =>
    (key, mu) ∈ known ∧ key ∈ held ∧ (next ()).Disciplined known (held.erase key)
  | .call (.other _) next => ∀ reply, (next reply).Disciplined known held

theorem Disciplined.held_of_within {program : Program (LockCall K O) R}
    {known : List (K × MutexAddress)} {held : List K} {key : K}
    (h : program.Disciplined known held) (hwithin : program.Within key) : key ∈ held := by
  induction program generalizing known held with
  | done value => exact hwithin.elim
  | call operation next ih =>
    rcases operation with call | call
    · cases call with
      | loadOrStore other =>
        obtain ⟨mu, hlater⟩ := hwithin
        exact ih mu (h mu) hlater
      | lock other mu =>
        rcases List.mem_cons.mp (ih () h.2.2 hwithin.2) with hself | hheld
        · exact absurd hself.symm hwithin.1
        · exact hheld
      | unlock other mu =>
        rcases hwithin with rfl | hlater
        · exact h.2.1
        · exact List.mem_of_mem_erase (ih () h.2.2 hlater)
    · obtain ⟨reply, hlater⟩ := hwithin
      exact ih reply (h reply) hlater

theorem disciplined_lock {key : K} {mu : MutexAddress} {next : Unit → Program (LockCall K O) R}
    {known : List (K × MutexAddress)} {held : List K} (hmu : (key, mu) ∈ known)
    (habove : ∀ other ∈ held, other < key) (hnext : (next ()).Disciplined known (key :: held)) :
    (perform (.mutex (.lock key mu)) >>= next).Disciplined known held :=
  ⟨hmu, habove, hnext⟩

theorem disciplined_unlock {key : K} {mu : MutexAddress} {next : Unit → Program (LockCall K O) R}
    {known : List (K × MutexAddress)} {above below : List K} (hmu : (key, mu) ∈ known)
    (hother : key ∉ above) (hnext : (next ()).Disciplined known (above ++ below)) :
    (perform (.mutex (.unlock key mu)) >>= next).Disciplined known (above ++ key :: below) := by
  refine ⟨hmu, List.mem_append_right _ (List.mem_cons_self ..), ?_⟩
  rw [List.erase_append_right _ hother, List.erase_cons_head]
  exact hnext

def aside : Program O R → Program (LockCall K O) R
  | .done value => .done value
  | .call operation next => .call (.other operation) fun reply => (next reply).aside

theorem disciplined_aside {α : Type} {body : Program O α} {next : α → Program (LockCall K O) R}
    {known : List (K × MutexAddress)} {held : List K}
    (hnext : ∀ value, (next value).Disciplined known held) :
    (body.aside >>= next).Disciplined known held := by
  induction body with
  | done value => exact hnext value
  | call operation rest ih => exact fun reply => ih reply

end Program

/-! ### The mutexes and the keys that are taken -/

namespace KeyedLocks

variable {K D : Type} [LinearOrder K] {locks : KeyedLocks K D} {taken : K → Prop}

/-- The mutexes that are locked are those of the keys that are taken. -/
structure Sound (locks : KeyedLocks K D) (taken : K → Prop) : Prop where
  locked : ∀ key mu, locks.entries key = some mu → (locks.locked mu = true ↔ taken key)
  entered : ∀ key, taken key → ∃ mu, locks.entries key = some mu
  injective : ∀ key other mu, locks.entries key = some mu → locks.entries other = some mu → key = other
  allocated : ∀ key mu, locks.entries key = some mu → mu < locks.allocated
  fresh : ∀ mu, locks.allocated ≤ mu → locks.locked mu = false

omit [LinearOrder K] in
theorem Sound.congr (h : locks.Sound taken) {now : K → Prop} (hsame : ∀ key, taken key ↔ now key) :
    locks.Sound now := by
  have heq : taken = now := by
    funext key
    exact propext (hsame key)
  rw [← heq]
  exact h

omit [LinearOrder K] in
theorem sound_empty (rest : D) : (empty rest : KeyedLocks K D).Sound fun _ => False where
  locked := fun _ _ hentry => by cases hentry
  entered := fun _ htaken => htaken.elim
  injective := fun _ _ _ hentry => by cases hentry
  allocated := fun _ _ hentry => by cases hentry
  fresh := fun _ _ => rfl

theorem store_entries (locks : KeyedLocks K D) (key : K) :
    (locks.store key).entries = update locks.entries key (some locks.allocated) := rfl

omit [LinearOrder K] in
theorem setLocked_locked (locks : KeyedLocks K D) (mu : MutexAddress) (value : Bool) :
    (locks.setLocked mu value).locked = update locks.locked mu value := rfl

theorem entries_store {key other : K} {mu : MutexAddress} (hnone : locks.entries key = none)
    (h : locks.entries other = some mu) : (locks.store key).entries other = some mu := by
  have hne : other ≠ key := by
    rintro rfl
    rw [hnone] at h
    cases h
  rw [store_entries, update_of_ne hne]
  exact h

theorem Sound.store (h : locks.Sound taken) {key : K} (hnone : locks.entries key = none) :
    (locks.store key).Sound taken := by
  have hentries : ∀ other mu, (locks.store key).entries other = some mu →
      other = key ∧ mu = locks.allocated ∨ locks.entries other = some mu := by
    intro other mu hentry
    by_cases heq : other = key
    · rw [heq, store_entries, update_self, Option.some.injEq] at hentry
      exact .inl ⟨heq, hentry.symm⟩
    · rw [store_entries, update_of_ne heq] at hentry
      exact .inr hentry
  refine ⟨fun other mu hentry => ?_, fun other htaken => ?_, fun first second mu hfirst hsecond => ?_,
    fun other mu hentry => ?_, fun mu hmu => h.fresh mu (Nat.le_of_succ_le hmu)⟩
  · rcases hentries other mu hentry with ⟨rfl, rfl⟩ | hentry
    · have hfresh : (locks.store other).locked locks.allocated = false := h.fresh _ le_rfl
      rw [hfresh]
      refine ⟨fun hfalse => absurd hfalse Bool.false_ne_true, fun htaken => ?_⟩
      obtain ⟨mu, hmu⟩ := h.entered other htaken
      rw [hnone] at hmu
      cases hmu
    · exact h.locked other mu hentry
  · obtain ⟨mu, hmu⟩ := h.entered other htaken
    exact ⟨mu, entries_store hnone hmu⟩
  · rcases hentries first mu hfirst with ⟨hfirst, hmu⟩ | hold
    · rcases hentries second mu hsecond with ⟨hsecond, -⟩ | hold
      · rw [hfirst, hsecond]
      · exact absurd (h.allocated second mu hold) (not_lt.mpr hmu.ge)
    · rcases hentries second mu hsecond with ⟨-, hmu⟩ | hold'
      · exact absurd (h.allocated first mu hold) (not_lt.mpr hmu.ge)
      · exact h.injective first second mu hold hold'
  · rcases hentries other mu hentry with ⟨rfl, rfl⟩ | hentry
    · exact Nat.lt_succ_self _
    · exact (h.allocated other mu hentry).trans (Nat.lt_succ_self _)

theorem Sound.setLocked (h : locks.Sound taken) {key : K} {mu : MutexAddress} {value : Bool}
    (hentry : locks.entries key = some mu) :
    (locks.setLocked mu value).Sound fun other => if other = key then value = true else taken other := by
  refine ⟨fun other address haddress => ?_, fun other htaken => ?_, h.injective, h.allocated,
    fun address haddress => ?_⟩
  · by_cases heq : other = key
    · have hsame : some address = some mu := by
        rw [← hentry, ← heq]
        exact haddress.symm
      rw [Option.some.injEq] at hsame
      rw [hsame, setLocked_locked, update_self, if_pos heq]
    · have hne : address ≠ mu := by
        rintro rfl
        exact heq (h.injective other key address haddress hentry)
      rw [setLocked_locked, update_of_ne hne, if_neg heq]
      exact h.locked other address haddress
  · by_cases heq : other = key
    · rw [heq]
      exact ⟨mu, hentry⟩
    · rw [if_neg heq] at htaken
      exact h.entered other htaken
  · have hne : address ≠ mu := by
      rintro rfl
      exact absurd (h.allocated key address hentry) (not_lt.mpr haddress)
    rw [setLocked_locked, update_of_ne hne]
    exact h.fresh address haddress

end KeyedLocks

section Tasks

variable {K D N T C R : Type} {O : Type → Type} [LinearOrder K] [DecidableEq T]
  {other : ∀ β : Type, N → O β → D → β × D} {program : C → Program (LockCall K O) R}
  {config after : Config (LockCall K O) (KeyedLocks K D) T C R} {held : T → List K}

/-- Every task holds what its program has locked, and no two hold the same. -/
structure Config.Holding (config : Config (LockCall K O) (KeyedLocks K D) T C R) (held : T → List K) :
    Prop where
  working : ∀ task call rest, config.task task = .working call rest → ∃ known,
    (∀ key mu, (key, mu) ∈ known → config.shared.entries key = some mu) ∧
      rest.Disciplined known (held task)
  idle : ∀ task, config.task task = .idle → held task = []
  nodup : ∀ task, (held task).Nodup
  exclusive : ∀ task other key, key ∈ held task → key ∈ held other → task = other
  sound : config.shared.Sound fun key => ∃ task, key ∈ held task

theorem Config.Holding.next (h : config.Holding held) {task : T} {call : C}
    {rest : Program (LockCall K O) R} {shared : KeyedLocks K D} {known : List (K × MutexAddress)}
    {keys : List K}
    (hgrow : ∀ key mu, config.shared.entries key = some mu → shared.entries key = some mu)
    (hknown : ∀ key mu, (key, mu) ∈ known → shared.entries key = some mu)
    (hrest : rest.Disciplined known keys) (hnodup : keys.Nodup)
    (hfree : ∀ key ∈ keys, ∀ holder, key ∈ held holder → holder = task)
    (hsound : shared.Sound fun key => ∃ holder, key ∈ update held task keys holder) :
    (config.next task (.working call rest) shared).Holding (update held task keys) := by
  refine ⟨fun other current left hworking => ?_, fun other hidle => ?_, fun other => ?_,
    fun first second key hfirst hsecond => ?_, hsound⟩
  · rcases Config.of_next_working hworking with ⟨rfl, hstate⟩ | ⟨hne, hbefore⟩
    · cases hstate
      rw [update_self]
      exact ⟨known, hknown, hrest⟩
    · rw [update_of_ne hne]
      obtain ⟨seen, hseen, hleft⟩ := h.working other current left hbefore
      exact ⟨seen, fun key mu hmem => hgrow key mu (hseen key mu hmem), hleft⟩
  · by_cases heq : other = task
    · subst heq
      rw [Config.next_task_self] at hidle
      cases hidle
    · rw [Config.next_task_of_ne _ _ _ _ heq] at hidle
      rw [update_of_ne heq]
      exact h.idle other hidle
  · by_cases heq : other = task
    · rw [heq, update_self]
      exact hnodup
    · rw [update_of_ne heq]
      exact h.nodup other
  · by_cases heq : first = task
    · by_cases heq' : second = task
      · rw [heq, heq']
      · rw [heq, update_self] at hfirst
        rw [update_of_ne heq'] at hsecond
        exact absurd (hfree key hfirst second hsecond) heq'
    · rw [update_of_ne heq] at hfirst
      by_cases heq' : second = task
      · rw [heq', update_self] at hsecond
        exact absurd (hfree key hsecond first hfirst) heq
      · rw [update_of_ne heq'] at hsecond
        exact h.exclusive first second key hfirst hsecond

omit [LinearOrder K] in
theorem taken_update (task : T) (keys : List K) (key : K) :
    (∃ holder, key ∈ update held task keys holder) ↔
      key ∈ keys ∨ ∃ holder, holder ≠ task ∧ key ∈ held holder := by
  constructor
  · rintro ⟨holder, hmem⟩
    by_cases heq : holder = task
    · rw [heq, update_self] at hmem
      exact .inl hmem
    · rw [update_of_ne heq] at hmem
      exact .inr ⟨holder, heq, hmem⟩
  · rintro (hmem | ⟨holder, hne, hmem⟩)
    · exact ⟨task, by rw [update_self]; exact hmem⟩
    · exact ⟨holder, by rw [update_of_ne hne]; exact hmem⟩

omit [LinearOrder K] in
theorem taken_iff (task : T) (key : K) :
    (∃ holder, key ∈ held holder) ↔ key ∈ held task ∨ ∃ holder, holder ≠ task ∧ key ∈ held holder := by
  rw [← taken_update task (held task), update_eq_self]

theorem Config.Holding.step (h : config.Holding held) {task : T} {call : C} {β : Type} {env : N}
    {operation : LockCall K O β} {next : β → Program (LockCall K O) R} {reply : β}
    {shared : KeyedLocks K D} (hworking : config.task task = .working call (.call operation next))
    (hcall : KeyedLocks.handle other _ env operation config.shared = some (reply, shared)) :
    ∃ held, (config.next task (.working call (next reply)) shared).Holding held := by
  obtain ⟨known, hknown, hrest⟩ := h.working task call _ hworking
  rcases operation with operation | operation
  · cases operation with
    | loadOrStore key =>
      have hmine : ∀ key ∈ held task, ∀ holder, key ∈ held holder → holder = task :=
        fun key hkey holder hmem => h.exclusive holder task key hmem hkey
      cases hentry : config.shared.entries key with
      | some mu =>
        have hloaded : KeyedLocks.handle other _ env (.mutex (.loadOrStore key)) config.shared
            = some (mu, config.shared) := by
          simp only [KeyedLocks.handle, KeyedLocks.exec, hentry]
        rw [hloaded] at hcall
        cases hcall
        refine ⟨_, h.next (fun _ _ hold => hold) ?_ (hrest _) (h.nodup task) hmine ?_⟩
        · intro other address hmem
          rcases List.mem_cons.mp hmem with heq | hold
          · cases heq
            exact hentry
          · exact hknown other address hold
        · rw [update_eq_self]
          exact h.sound
      | none =>
        have hstored : KeyedLocks.handle other _ env (.mutex (.loadOrStore key)) config.shared
            = some (config.shared.allocated, config.shared.store key) := by
          simp only [KeyedLocks.handle, KeyedLocks.exec, hentry]
        rw [hstored] at hcall
        cases hcall
        refine ⟨_, h.next (fun _ _ hold => KeyedLocks.entries_store hentry hold) ?_ (hrest _)
          (h.nodup task) hmine ?_⟩
        · intro other address hmem
          rcases List.mem_cons.mp hmem with heq | hold
          · cases heq
            rw [KeyedLocks.store_entries, update_self]
          · exact KeyedLocks.entries_store hentry (hknown other address hold)
        · rw [update_eq_self]
          exact h.sound.store hentry
    | lock key mu =>
      obtain ⟨hmem, habove, hnext⟩ := hrest
      have hentry := hknown key mu hmem
      cases hlocked : config.shared.locked mu with
      | true =>
        simp only [KeyedLocks.handle, KeyedLocks.exec, hlocked, if_true] at hcall
        cases hcall
      | false =>
        simp only [KeyedLocks.handle, KeyedLocks.exec, hlocked, Bool.false_eq_true, if_false]
          at hcall
        cases hcall
        have hnone : ∀ holder, key ∉ held holder := by
          intro holder hheld
          have htrue := (h.sound.locked key mu hentry).mpr ⟨holder, hheld⟩
          rw [hlocked] at htrue
          cases htrue
        refine ⟨_, h.next (fun _ _ hold => hold) hknown hnext
          (List.nodup_cons.mpr ⟨hnone task, h.nodup task⟩) (fun other hother holder hheld => ?_) ?_⟩
        · rcases List.mem_cons.mp hother with rfl | hold
          · exact absurd hheld (hnone holder)
          · exact h.exclusive holder task other hheld hold
        · refine (h.sound.setLocked hentry).congr fun other => ?_
          rw [taken_update]
          by_cases heq : other = key
          · rw [if_pos heq, heq]
            exact ⟨fun _ => .inl (List.mem_cons_self ..), fun _ => rfl⟩
          · rw [if_neg heq, taken_iff task, List.mem_cons, or_iff_right heq]
    | unlock key mu =>
      obtain ⟨hmem, hheld, hnext⟩ := hrest
      have hentry := hknown key mu hmem
      have hlocked := (h.sound.locked key mu hentry).mpr ⟨task, hheld⟩
      simp only [KeyedLocks.handle, KeyedLocks.exec, hlocked, if_true] at hcall
      cases hcall
      refine ⟨_, h.next (fun _ _ hold => hold) hknown hnext ((h.nodup task).erase key)
        (fun other hother holder hmem =>
          h.exclusive holder task other hmem (List.mem_of_mem_erase hother)) ?_⟩
      refine (h.sound.setLocked hentry).congr fun other => ?_
      rw [taken_update]
      by_cases heq : other = key
      · rw [if_pos heq, heq]
        refine ⟨fun hfalse => absurd hfalse Bool.false_ne_true, ?_⟩
        rintro (herased | ⟨holder, hne, hmem⟩)
        · exact absurd herased (h.nodup task).not_mem_erase
        · exact absurd (h.exclusive holder task key hmem hheld) hne
      · rw [if_neg heq, taken_iff task, List.mem_erase_of_ne heq]
  · cases hcall
    refine ⟨update held task (held task), h.next (fun _ _ hentry => hentry) hknown
      (hrest _) (h.nodup task) (fun key hkey holder hmem => h.exclusive holder task key hmem hkey) ?_⟩
    rw [update_eq_self]
    exact ⟨h.sound.locked, h.sound.entered, h.sound.injective, h.sound.allocated, h.sound.fresh⟩

theorem Config.Holding.move (h : config.Holding held) {label : Label T C R}
    (hprogram : ∀ call, (program call).Disciplined [] [])
    (hmove : Move (KeyedLocks.handle other) program config label after) :
    ∃ held, after.Holding held := by
  cases hmove with
  | @start task call hidle =>
    have hnone := h.idle task hidle
    refine ⟨_, h.next (fun _ _ hold => hold) (fun _ _ hmem => by cases hmem) (hprogram call)
      List.nodup_nil (fun _ hmem => by cases hmem) ?_⟩
    rw [← hnone, update_eq_self]
    exact h.sound
  | step env hworking hcall => exact h.step hworking hcall
  | @finish task call result hworking =>
    obtain ⟨known, -, hdone⟩ := h.working task call _ hworking
    refine ⟨held, fun other current left hother => ?_, fun other hidle => ?_, h.nodup, h.exclusive,
      h.sound⟩
    · rcases Config.of_next_working hother with ⟨-, hstate⟩ | ⟨-, hbefore⟩
      · cases hstate
      · exact h.working other current left hbefore
    · by_cases heq : other = task
      · rw [heq]
        exact hdone
      · rw [Config.next_task_of_ne _ _ _ _ heq] at hidle
        exact h.idle other hidle

/-! ### Exclusion and progress -/

omit [DecidableEq T] in
/-- No two tasks are within the locked section of one key. -/
theorem Config.Holding.eq_of_within (h : config.Holding held) {first second : T} {call call' : C}
    {rest rest' : Program (LockCall K O) R} {key : K}
    (hfirst : config.task first = .working call rest) (hwithin : rest.Within key)
    (hsecond : config.task second = .working call' rest') (hwithin' : rest'.Within key) :
    first = second := by
  obtain ⟨_, -, hrest⟩ := h.working first call rest hfirst
  obtain ⟨_, -, hrest'⟩ := h.working second call' rest' hsecond
  exact h.exclusive first second key (hrest.held_of_within hwithin) (hrest'.held_of_within hwithin')

variable (other) (program) (config) in
def Config.CanGoOn (task : T) : Prop :=
  (∃ after, Move (KeyedLocks.handle other) program config (.step task) after) ∨
    ∃ call result after, Move (KeyedLocks.handle other) program config (.finish task call result) after

/-- A task that cannot go on waits for a key above all it holds, which another holds. -/
theorem Config.Holding.waits [Inhabited N] (h : config.Holding held) {task : T}
    (hbusy : config.task task ≠ .idle) (hstuck : ¬ config.CanGoOn other program task) :
    ∃ key, (∀ mine ∈ held task, mine < key) ∧ ∃ holder, key ∈ held holder := by
  cases htask : config.task task with
  | idle => exact absurd htask hbusy
  | working call rest =>
    obtain ⟨known, hknown, hrest⟩ := h.working task call rest htask
    have hstep : ∀ {β : Type} {operation : LockCall K O β} {next : β → Program (LockCall K O) R},
        rest = .call operation next →
        KeyedLocks.handle other _ default operation config.shared = none := by
      rintro β operation next rfl
      by_contra hcan
      obtain ⟨⟨reply, final⟩, hcall⟩ := Option.ne_none_iff_exists'.mp hcan
      exact hstuck (.inl ⟨_, .step default htask hcall⟩)
    cases rest with
    | done result => exact absurd (.inr ⟨call, result, _, .finish htask⟩) hstuck
    | call operation next =>
      have hnone := hstep rfl
      rcases operation with operation | operation
      · cases operation with
        | loadOrStore key =>
          simp only [KeyedLocks.handle, KeyedLocks.exec] at hnone
          split at hnone <;> cases hnone
        | lock key mu =>
          obtain ⟨hmem, habove, -⟩ := hrest
          refine ⟨key, habove, (h.sound.locked key mu (hknown key mu hmem)).mp ?_⟩
          by_contra hfree
          simp only [KeyedLocks.handle, KeyedLocks.exec, hfree] at hnone
          cases hnone
        | unlock key mu =>
          obtain ⟨hmem, hheld, -⟩ := hrest
          have hlocked := (h.sound.locked key mu (hknown key mu hmem)).mpr ⟨task, hheld⟩
          simp only [KeyedLocks.handle, KeyedLocks.exec, hlocked] at hnone
          cases hnone
      · cases hnone

/-- **As long as a task has not ended, one can go on.** Otherwise the highest key that is waited for
is held by a task that waits for a higher one. -/
theorem Config.Holding.progress [Inhabited N] (h : config.Holding held)
    (hfinite : {task | config.task task ≠ .idle}.Finite)
    (hbusy : ∃ task, config.task task ≠ .idle) : ∃ task, config.CanGoOn other program task := by
  by_contra hstuck
  have hwaits : ∀ task, config.task task ≠ .idle →
      ∃ key, (∀ mine ∈ held task, mine < key) ∧ ∃ holder, key ∈ held holder :=
    fun task hworking => h.waits hworking (not_exists.mp hstuck task)
  obtain ⟨first, hfirst⟩ := hbusy
  obtain ⟨key, -⟩ := hwaits first hfirst
  have hnonempty : Nonempty K := ⟨key⟩
  choose! awaited hawaited using hwaits
  obtain ⟨last, hlast, hmax⟩ := Set.exists_max_image _ awaited hfinite ⟨first, hfirst⟩
  obtain ⟨holder, hholds⟩ := (hawaited last hlast).2
  have hholder : config.task holder ≠ .idle := by
    intro hidle
    rw [h.idle holder hidle] at hholds
    cases hholds
  exact absurd ((hawaited holder hholder).1 _ hholds) (not_lt.mpr (hmax holder hholder))

omit [DecidableEq T] in
theorem holding_idle {rest : D} (hshared : config.shared = .empty rest)
    (hidle : ∀ task, config.task task = .idle) : config.Holding fun _ => [] where
  working := by
    intro task call left hworking
    rw [hidle task] at hworking
    cases hworking
  idle := fun _ _ => rfl
  nodup := fun _ => List.nodup_nil
  exclusive := fun _ _ _ hmem => by cases hmem
  sound := by
    rw [hshared]
    refine (KeyedLocks.sound_empty rest).congr fun key => ?_
    exact ⟨False.elim, fun ⟨_, hmem⟩ => by cases hmem⟩

theorem Trace.holding {labels : List (Label T C R)}
    {start last : Config (LockCall K O) (KeyedLocks K D) T C R} {rest : D}
    (htrace : Trace (Move (KeyedLocks.handle other) program) start labels last)
    (hprogram : ∀ call, (program call).Disciplined [] []) (hshared : start.shared = .empty rest)
    (hidle : ∀ task, start.task task = .idle) : ∃ held, last.Holding held :=
  htrace.invariant (fun config => ∃ held, config.Holding held) ⟨_, holding_idle hshared hidle⟩
    fun ⟨_, hheld⟩ hmove => hheld.move hprogram hmove

end Tasks

end FsServer.Lib
