import FsServer.FileLocks
import FsServer.Lib.Schedule

/-!
# Mutual exclusion of the file mutexes

As long as the cleaner deletes only entries that no call is using, all calls on one path use the mutex
that stands in the map, so at most one of them holds it, and the one that `unlockFile` finds is the one
that was locked. A call uses the entry from its first lookup of it to its second.
-/

namespace FsServer

open Lib Program FileLocks Function

variable {T : Type} [DecidableEq T]

abbrev FileLockConfig (T : Type) :=
  Config FileLockCall FileLocks T FileLockRequest FileLockReply

abbrev FileLockLabel (T : Type) := Label T FileLockRequest FileLockReply

def newLocks (T : Type) : FileLockConfig T := ⟨newFileLocks, fun _ => .idle⟩

abbrev FileLockMove : FileLockConfig T → FileLockLabel T → FileLockConfig T → Prop :=
  Move handle FileLockRequest.program

/-- The task is between the return of `lockFile` and the call of `unlockFile`. -/
def Holds (config : FileLockConfig T) (task : T) (path : Path) : Prop :=
  ∃ next, config.task task = .working (.hold path) (.call (.work path) next)

/-- What is left lies between the first lookup of the entry and the second. -/
def usesEntry : Program FileLockCall FileLockReply → Bool
  | .call (.lock _) _ => true
  | .call (.work _) _ => true
  | .call (.load _) _ => true
  | _ => false

/-- The entry that is deleted is not in use. -/
def Unclaimed (config : FileLockConfig T) : FileLockLabel T → Prop
  | .step cleaner => ∀ call path next,
      config.task cleaner = .working call (.call (.delete path) next) →
        ∀ task rest, config.task task = .working (.hold path) rest → usesEntry rest = false
  | _ => True

/-! ### Where a call is -/

/-- The entry that a call relies on, and the mutex that it has locked. -/
inductive Point where
  | outside
  | waiting (path : Path) (mu : Mutex)
  | inside (path : Path) (mu : Mutex)
  | leaving (path : Path) (mu : Mutex)
  | unlocking (mu : Mutex)

namespace Point

def entry : Point → Option (Path × Mutex)
  | waiting path mu => some (path, mu)
  | inside path mu => some (path, mu)
  | leaving path mu => some (path, mu)
  | _ => none

def owned : Point → Option Mutex
  | inside _ mu => some mu
  | leaving _ mu => some mu
  | unlocking mu => some mu
  | _ => none

end Point

def leave (path : Path) (mu : Mutex) : Program FileLockCall FileLockReply := do
  let unlocked ← unlockFile path
  return .held mu unlocked

def sweep (paths : List Path) : Program FileLockCall FileLockReply := do
  cleanEach paths
  return .cleaned

/-- What is left of a call when it is at a point. -/
inductive At : FileLockRequest → Program FileLockCall FileLockReply → Point → Prop
  | start (call : FileLockRequest) : At call call.program .outside
  | waiting (path : Path) (mu : Mutex) :
      At (.hold path) (.call (.lock mu) fun _ => .call (.work path) fun _ => leave path mu)
        (.waiting path mu)
  | inside (path : Path) (mu : Mutex) :
      At (.hold path) (.call (.work path) fun _ => leave path mu) (.inside path mu)
  | leaving (path : Path) (mu : Mutex) : At (.hold path) (leave path mu) (.leaving path mu)
  | releasing (path : Path) (mu : Mutex) :
      At (.hold path) (.call (.unlock mu) fun _ => .done (.held mu (some mu))) (.unlocking mu)
  | sweeping (paths : List Path) : At .clean (sweep paths) .outside
  | trying (path : Path) (mu : Mutex) (paths : List Path) :
      At .clean (cleanFileLock path mu >>= fun _ => sweep paths) .outside
  | tried (path : Path) (mu : Mutex) (paths : List Path) :
      At .clean (.call (.unlock mu) fun _ => .call (.exists path) fun live =>
        (if !live then perform (.delete path) else return ()) >>= fun _ => sweep paths)
        (.unlocking mu)
  | looking (path : Path) (paths : List Path) :
      At .clean (.call (.exists path) fun live =>
        (if !live then perform (.delete path) else return ()) >>= fun _ => sweep paths) .outside
  | deleting (path : Path) (paths : List Path) :
      At .clean (.call (.delete path) fun _ => sweep paths) .outside
  | done (call : FileLockRequest) (reply : FileLockReply) : At call (.done reply) .outside

inductive TaskAt : Task FileLockCall FileLockRequest FileLockReply → Point → Prop
  | idle : TaskAt .idle .outside
  | working {call : FileLockRequest} {rest : Program FileLockCall FileLockReply} {point : Point}
      (h : At call rest point) : TaskAt (.working call rest) point

variable {call : FileLockRequest} {rest : Program FileLockCall FileLockReply} {point : Point}

theorem TaskAt.at_point (h : TaskAt (.working call rest) point) : At call rest point := by
  cases h with
  | working h => exact h

variable {mu : Mutex}

namespace FileLocks

variable (locks : FileLocks) (path : Path)

theorem loadOrStore_entry :
    (locks.loadOrStore path).2.entries path = some (locks.loadOrStore path).1 := by
  unfold loadOrStore
  split
  next mu hentry => exact hentry
  next => exact update_self ..

@[simp]
theorem loadOrStore_locked : (locks.loadOrStore path).2.locked = locks.locked := by
  unfold loadOrStore
  split
  · rfl
  · rfl

variable {locks path} in
theorem loadOrStore_keeps {other : Path} (h : locks.entries other = some mu) :
    (locks.loadOrStore path).2.entries other = some mu := by
  unfold loadOrStore
  split
  next => exact h
  next hnone =>
      have hne : other ≠ path := by
        rintro rfl
        rw [hnone] at h
        cases h
      exact (update_of_ne hne ..).trans h

variable {locks path} {after : FileLocks} {env : FileLockEnv}

theorem of_handle_keys {paths : List Path}
    (h : handle _ env .keys locks = some (paths, after)) : paths.Nodup ∧ after = locks := by
  unfold handle at h
  dsimp only at h
  split_ifs at h with hnodup
  cases h
  exact ⟨hnodup, rfl⟩

theorem of_handle_visit {found : Option Mutex}
    (h : handle _ env (.visit path) locks = some (found, after)) : after = locks := by
  unfold handle at h
  dsimp only at h
  split at h
  · cases h
    rfl
  · split_ifs at h
    cases h
    rfl

variable {reply : Unit}

theorem of_handle_lock (h : handle _ env (.lock mu) locks = some (reply, after)) :
    locks.locked mu = false ∧ after = locks.setLocked mu true := by
  unfold handle at h
  dsimp only at h
  split_ifs at h with hlocked
  cases h
  exact ⟨Bool.eq_false_iff.mpr hlocked, rfl⟩

theorem of_handle_unlock (h : handle _ env (.unlock mu) locks = some (reply, after)) :
    after = locks.setLocked mu false := by
  unfold handle at h
  dsimp only at h
  split_ifs at h
  cases h
  rfl

theorem of_handle_tryLock {ok : Bool} (h : handle _ env (.tryLock mu) locks = some (ok, after)) :
    ok = false ∧ after = locks ∨
      ok = true ∧ locks.locked mu = false ∧ after = locks.setLocked mu true := by
  unfold handle at h
  dsimp only at h
  split_ifs at h with hlocked
  · cases h
    exact .inl ⟨rfl, rfl⟩
  · cases h
    exact .inr ⟨rfl, Bool.eq_false_iff.mpr hlocked, rfl⟩

end FileLocks

/-! ### The invariant -/

/-- Every task is at its point, the map has the entry that the task relies on, and the mutex that it has
locked is locked and its own. -/
structure Located (points : T → Point) (config : FileLockConfig T) : Prop where
  placed : ∀ task, TaskAt (config.task task) (points task)
  entry : ∀ task path mu, (points task).entry = some (path, mu) →
    config.shared.entries path = some mu
  locked : ∀ task mu, (points task).owned = some mu → config.shared.locked mu = true
  alone : ∀ first second mu, (points first).owned = some mu → (points second).owned = some mu →
    first = second

section Located

variable {points : T → Point} {config after : FileLockConfig T} {label : FileLockLabel T}

omit [DecidableEq T] in
theorem located_newLocks : Located (fun _ => .outside) (newLocks T) where
  placed _ := .idle
  entry _ _ _ h := nomatch h
  locked _ _ h := nomatch h
  alone _ _ _ h := nomatch h

variable {task : T} {state : Task FileLockCall FileLockRequest FileLockReply}

section

variable (h : Located points config)
include h

theorem Located.next {locks : FileLocks} (hplaced : TaskAt state point)
    (hentries : ∀ other path mu, other ≠ task → (points other).entry = some (path, mu) →
      locks.entries path = some mu)
    (hlocked : ∀ other mu, other ≠ task → (points other).owned = some mu → locks.locked mu = true)
    (hentry : ∀ path mu, point.entry = some (path, mu) → locks.entries path = some mu)
    (howned : ∀ mu, point.owned = some mu →
      locks.locked mu = true ∧ ∀ other, other ≠ task → (points other).owned ≠ some mu) :
    Located (update points task point) (config.next task state locks) := by
  refine ⟨fun other => ?_, fun other path mu hother => ?_, fun other mu hother => ?_,
    fun first second mu hfirst hsecond => ?_⟩
  · by_cases heq : other = task
    · subst heq
      rw [Config.next_task_self, update_self]
      exact hplaced
    · rw [Config.next_task_of_ne _ _ _ _ heq, update_of_ne heq]
      exact h.placed other
  · by_cases heq : other = task
    · subst heq
      rw [update_self] at hother
      exact hentry path mu hother
    · rw [update_of_ne heq] at hother
      exact hentries other path mu heq hother
  · by_cases heq : other = task
    · subst heq
      rw [update_self] at hother
      exact (howned mu hother).1
    · rw [update_of_ne heq] at hother
      exact hlocked other mu heq hother
  · by_cases hfirst' : first = task
    · by_cases hsecond' : second = task
      · rw [hfirst', hsecond']
      · rw [hfirst', update_self] at hfirst
        rw [update_of_ne hsecond'] at hsecond
        exact absurd hsecond ((howned mu hfirst).2 second hsecond')
    · by_cases hsecond' : second = task
      · rw [hsecond', update_self] at hsecond
        rw [update_of_ne hfirst'] at hfirst
        exact absurd hfirst ((howned mu hsecond).2 first hfirst')
      · rw [update_of_ne hfirst'] at hfirst
        rw [update_of_ne hsecond'] at hsecond
        exact h.alone first second mu hfirst hsecond

theorem Located.stay (hplaced : TaskAt state point)
    (hentry : point.entry = none ∨ point.entry = (points task).entry)
    (howned : point.owned = none ∨ point.owned = (points task).owned) :
    Located (update points task point) (config.next task state config.shared) := by
  refine h.next hplaced (fun other path mu _ => h.entry other path mu)
    (fun other mu _ => h.locked other mu) (fun path mu hpoint => ?_) (fun mu hpoint => ?_)
  · rcases hentry with hnone | hsame
    · rw [hnone] at hpoint
      cases hpoint
    · rw [hsame] at hpoint
      exact h.entry task path mu hpoint
  · rcases howned with hnone | hsame
    · rw [hnone] at hpoint
      cases hpoint
    · rw [hsame] at hpoint
      exact ⟨h.locked task mu hpoint, fun other hne hother => hne (h.alone other task mu hother hpoint)⟩

theorem Located.lock (hfree : config.shared.locked mu = false) (hplaced : TaskAt state point)
    (hentry : point.entry = none ∨ point.entry = (points task).entry)
    (howned : point.owned = some mu) :
    Located (update points task point)
      (config.next task state (config.shared.setLocked mu true)) := by
  have hne : ∀ other own, (points other).owned = some own → own ≠ mu := by
    rintro other own hother rfl
    rw [h.locked other own hother] at hfree
    cases hfree
  refine h.next hplaced (fun other path own _ => h.entry other path own) (fun other own _ hother => ?_)
    (fun path own hpoint => ?_) (fun own hpoint => ?_)
  · exact (update_of_ne (hne other own hother) ..).trans (h.locked other own hother)
  · rcases hentry with hnone | hsame
    · rw [hnone] at hpoint
      cases hpoint
    · rw [hsame] at hpoint
      exact h.entry task path own hpoint
  · rw [howned] at hpoint
    cases hpoint
    exact ⟨update_self .., fun other _ hother => hne other mu hother rfl⟩

theorem Located.unlock (howned : (points task).owned = some mu) (hplaced : TaskAt state .outside) :
    Located (update points task .outside)
      (config.next task state (config.shared.setLocked mu false)) := by
  refine h.next hplaced (fun other path own _ => h.entry other path own) (fun other own hne hother => ?_)
    (fun _ _ hpoint => nomatch hpoint) (fun _ hpoint => nomatch hpoint)
  have hown : own ≠ mu := by
    rintro rfl
    exact hne (h.alone other task own hother howned)
  exact (update_of_ne hown ..).trans (h.locked other own hother)

theorem Located.loadOrStore {path : Path}
    (hplaced : TaskAt state (.waiting path (config.shared.loadOrStore path).1)) :
    Located (update points task (.waiting path (config.shared.loadOrStore path).1))
      (config.next task state (config.shared.loadOrStore path).2) := by
  refine h.next hplaced (fun other file mu _ hother => ?_) (fun other mu _ hother => ?_)
    (fun file mu hpoint => ?_) (fun _ hpoint => nomatch hpoint)
  · exact loadOrStore_keeps (h.entry other file mu hother)
  · rw [loadOrStore_locked]
    exact h.locked other mu hother
  · cases hpoint
    exact loadOrStore_entry ..

theorem Located.delete {path : Path} (hplaced : TaskAt state .outside)
    (hunused : ∀ other mu, (points other).entry ≠ some (path, mu)) :
    Located (update points task .outside)
      (config.next task state (config.shared.delete path)) := by
  refine h.next hplaced (fun other file mu _ hother => ?_) (fun other mu _ => h.locked other mu)
    (fun _ _ hpoint => nomatch hpoint) (fun _ hpoint => nomatch hpoint)
  have hne : file ≠ path := by
    rintro rfl
    exact hunused other mu hother
  exact (update_of_ne hne ..).trans (h.entry other file mu hother)

end

/-- A task that relies on an entry is in a call on its path, between the two lookups. -/
theorem TaskAt.usesEntry {task : Task FileLockCall FileLockRequest FileLockReply} {path : Path}
    (h : TaskAt task point) (hentry : point.entry = some (path, mu)) :
    ∃ rest, task = .working (.hold path) rest ∧ usesEntry rest = true := by
  cases h with
  | idle => cases hentry
  | working hat =>
    cases hat with
    | waiting =>
      cases hentry
      exact ⟨_, rfl, rfl⟩
    | inside =>
      cases hentry
      exact ⟨_, rfl, rfl⟩
    | leaving =>
      cases hentry
      exact ⟨_, rfl, rfl⟩
    | _ => cases hentry

theorem Located.step {β : Type} {operation : FileLockCall β}
    {next : β → Program FileLockCall FileLockReply} {reply : β} {locks : FileLocks}
    {env : FileLockEnv} (h : Located points config) (hunclaimed : Unclaimed config (.step task))
    (hworking : config.task task = .working call (.call operation next))
    (hcall : handle _ env operation config.shared = some (reply, locks)) :
    ∃ point, Located (update points task point)
      (config.next task (.working call (next reply)) locks) := by
  have hat : At call (.call operation next) (points task) := by
    have hplaced := h.placed task
    rw [hworking] at hplaced
    exact hplaced.at_point
  generalize hrest : Program.call operation next = rest at hat
  generalize hpoint : points task = point at hat
  cases hat with
  | start =>
    cases call with
    | hold path =>
      cases hrest
      obtain ⟨rfl, rfl⟩ := Prod.ext_iff.mp (Option.some.inj hcall)
      exact ⟨_, h.loadOrStore (.working (.waiting ..))⟩
    | clean =>
      cases hrest
      obtain ⟨-, rfl⟩ := of_handle_keys hcall
      exact ⟨.outside, h.stay (.working (.sweeping reply)) (.inl rfl) (.inl rfl)⟩
  | waiting path mu =>
    cases hrest
    obtain ⟨hfree, rfl⟩ := of_handle_lock hcall
    exact ⟨.inside path mu,
      h.lock hfree (.working (.inside ..)) (.inr (congrArg Point.entry hpoint).symm) rfl⟩
  | inside path mu =>
    cases hrest
    cases hcall
    exact ⟨.leaving path mu, h.stay (.working (.leaving ..))
      (.inr (congrArg Point.entry hpoint).symm) (.inr (congrArg Point.owned hpoint).symm)⟩
  | leaving path mu =>
    -- The map still has the mutex that this call has locked.
    have hentry := h.entry task path mu (congrArg Point.entry hpoint)
    cases hrest
    cases hcall
    refine ⟨.unlocking mu, h.stay ?_ (.inl rfl) (.inr (congrArg Point.owned hpoint).symm)⟩
    rw [hentry]
    exact .working (.releasing ..)
  | releasing path mu =>
    cases hrest
    obtain rfl := of_handle_unlock hcall
    exact ⟨.outside, h.unlock (congrArg Point.owned hpoint) (.working (.done ..))⟩
  | sweeping paths =>
    cases paths with
    | nil => cases hrest
    | cons path paths =>
      cases hrest
      obtain rfl := of_handle_visit hcall
      refine ⟨.outside, h.stay (.working ?_) (.inl rfl) (.inl rfl)⟩
      cases reply with
      | none => exact .sweeping paths
      | some mu =>
        have hrest : At .clean _ _ := .trying path mu paths
        rwa [sweep, ← bind_bind] at hrest
  | trying path mu paths =>
    cases hrest
    rcases of_handle_tryLock hcall with ⟨rfl, rfl⟩ | ⟨rfl, hfree, rfl⟩
    · exact ⟨.outside, h.stay (.working (.sweeping paths)) (.inl rfl) (.inl rfl)⟩
    · exact ⟨.unlocking mu, h.lock hfree (.working (.tried path mu paths)) (.inl rfl) rfl⟩
  | tried path mu paths =>
    cases hrest
    obtain rfl := of_handle_unlock hcall
    exact ⟨.outside, h.unlock (congrArg Point.owned hpoint) (.working (.looking ..))⟩
  | looking path paths =>
    cases hrest
    cases hcall
    refine ⟨.outside, h.stay (.working ?_) (.inl rfl) (.inl rfl)⟩
    cases env.live with
    | false => exact .deleting path paths
    | true => exact .sweeping paths
  | deleting path paths =>
    cases hrest
    cases hcall
    refine ⟨.outside, h.delete (.working (.sweeping paths)) fun other mu hother => ?_⟩
    obtain ⟨rest, hother, huses⟩ := (h.placed other).usesEntry hother
    rw [hunclaimed _ _ _ hworking other rest hother] at huses
    cases huses
  | done reply => cases hrest

def worksOn : Program FileLockCall FileLockReply → Option Path
  | .call (.work path) _ => some path
  | _ => none

/-- The mutex that a program is about to unlock, and what is left of it then. -/
def unlocks : Program FileLockCall FileLockReply →
    Option (Mutex × Program FileLockCall FileLockReply)
  | .call (.unlock mu) next => some (mu, next ())
  | _ => none

theorem At.inside_of_worksOn {path : Path} (h : At call rest point)
    (hwork : worksOn rest = some path) :
    ∃ mu, point = .inside path mu := by
  cases h with
  | inside file mu =>
    cases hwork
    exact ⟨mu, rfl⟩
  | start => cases call <;> cases hwork
  | sweeping paths => cases paths <;> cases hwork
  | _ => cases hwork

theorem At.held_of_unlocks {path : Path} {after : Program FileLockCall FileLockReply}
    (h : At (.hold path) rest point) (hunlock : unlocks rest = some (mu, after)) :
    after = .done (.held mu (some mu)) := by
  cases h with
  | releasing =>
    cases hunlock
    rfl
  | _ => cases hunlock

omit [DecidableEq T] in
theorem Located.inside_of_holds {path : Path} (h : Located points config)
    (hholds : Holds config task path) : ∃ mu, points task = .inside path mu := by
  obtain ⟨next, htask⟩ := hholds
  have hplaced := h.placed task
  rw [htask] at hplaced
  exact hplaced.at_point.inside_of_worksOn rfl

theorem Located.move (h : Located points config) (hunclaimed : Unclaimed config label)
    (hmove : FileLockMove config label after) : ∃ points, Located points after := by
  cases hmove with
  | start hidle =>
    exact ⟨_, h.stay (.working (.start _)) (.inl rfl) (.inl rfl)⟩
  | step env hworking hcall =>
    obtain ⟨point, hlocated⟩ := h.step hunclaimed hworking hcall
    exact ⟨_, hlocated⟩
  | finish hworking => exact ⟨_, h.stay .idle (.inl rfl) (.inl rfl)⟩

theorem located_of_trace {labels : List (FileLockLabel T)}
    (htrace : Trace (fun config label after => Unclaimed config label ∧
      FileLockMove config label after) (newLocks T) labels config) :
    ∃ points, Located points config := by
  refine htrace.invariant (fun config => ∃ points, Located points config)
    ⟨_, located_newLocks⟩ fun {config label after} h hstep => ?_
  obtain ⟨points, hlocated⟩ := h
  exact hlocated.move hstep.1 hstep.2

end Located

/-! ### Two callers and the cleaner -/

inductive Party where
  | first
  | second
  | cleaner
  deriving DecidableEq

def unclaimedNow (config : FileLockConfig Party) : FileLockLabel Party → Bool
  | .step task =>
    match config.task task with
    | .working _ (.call (.delete path) _) =>
      [Party.first, .second, .cleaner].all fun other =>
        match config.task other with
        | .working (.hold file) rest => file ≠ path || !usesEntry rest
        | _ => true
    | _ => true
  | _ => true

theorem unclaimed_of_unclaimedNow {config : FileLockConfig Party} {label : FileLockLabel Party}
    (h : unclaimedNow config label = true) : Unclaimed config label := by
  cases label with
  | start task call => trivial
  | finish task call result => trivial
  | step task =>
    intro call path next htask other rest hother
    have hmem : other ∈ [Party.first, .second, .cleaner] := by cases other <;> decide
    simp only [unclaimedNow, htask, List.all_eq_true] at h
    have hfree := h other hmem
    simp only [hother] at hfree
    simpa using hfree

abbrev FileLockTurn := Turn FileLockEnv Party FileLockRequest

def fileSteps (task : Party) (count : Nat) : List FileLockTurn :=
  List.replicate count (.step task ⟨[['f']], some 0, false⟩)

def timelyDelete : List FileLockTurn :=
  .start .first (.hold ['f']) :: fileSteps .first 5 ++ .finish .first :: .start .cleaner .clean ::
    fileSteps .cleaner 6 ++ .start .second (.hold ['f']) :: fileSteps .second 2 ++
    .start .first (.hold ['f']) :: fileSteps .first 1

/-- The cleaner has found the mutex free before a call locks it, and deletes the entry after that. -/
def lateDelete : List FileLockTurn :=
  .start .first (.hold ['f']) :: fileSteps .first 1 ++ .start .cleaner .clean :: fileSteps .cleaner 5 ++
    fileSteps .first 1 ++ fileSteps .cleaner 1 ++ .start .second (.hold ['f']) :: fileSteps .second 2

/-! ### Mutual exclusion -/

/-- At most one task holds the lock of a path, and `unlockFile` unlocks the mutex that its caller
has locked, if entries are deleted only while no call is between its two lookups of them. -/
theorem fileLocks_exclusive {labels : List (FileLockLabel T)} {config : FileLockConfig T}
    (htrace : Trace (fun config label after => Unclaimed config label ∧
      FileLockMove config label after) (newLocks T) labels config) :
    (∀ path first second, Holds config first path → Holds config second path → first = second) ∧
    ∀ task path mu next, config.task task = .working (.hold path) (.call (.unlock mu) next) →
      ∃ unlocked, next () = .done (.held mu unlocked) := by
  obtain ⟨points, h⟩ := located_of_trace htrace
  refine ⟨fun path first second hfirst hsecond => ?_, fun task path mu next htask => ?_⟩
  · obtain ⟨mu, hfirst⟩ := h.inside_of_holds hfirst
    obtain ⟨other, hsecond⟩ := h.inside_of_holds hsecond
    have hmu : config.shared.entries path = some mu := h.entry first path mu (by rw [hfirst]; rfl)
    have hother : config.shared.entries path = some other :=
      h.entry second path other (by rw [hsecond]; rfl)
    rw [hmu, Option.some.injEq] at hother
    subst hother
    exact h.alone first second mu (by rw [hfirst]; rfl) (by rw [hsecond]; rfl)
  · have hplaced := h.placed task
    rw [htask] at hplaced
    exact ⟨some mu, hplaced.at_point.held_of_unlocks rfl⟩

theorem fileLocks_exclusive_timely :
    ∃ labels config, Trace (fun config label after => Unclaimed config label ∧
        FileLockMove config label after) (newLocks Party) labels config ∧
      Holds config .second ['f'] ∧ ∀ task, Holds config task ['f'] → task = .second := by
  have hplay : ((newLocks Party).play handle FileLockRequest.program unclaimedNow
      timelyDelete).isSome = true := by decide
  have htrace := (Config.trace_of_isSome hplay).mono
    fun hstep => And.imp_left unclaimed_of_unclaimedNow hstep
  have hsecond : Holds ((newLocks Party).play handle FileLockRequest.program unclaimedNow
      timelyDelete |>.get hplay).2 .second ['f'] := ⟨_, rfl⟩
  exact ⟨_, _, htrace, hsecond, fun task htask => (fileLocks_exclusive htrace).1 _ _ _ htask hsecond⟩

/-- Two tasks hold the lock of one path, and the one of them then goes on to unlock the mutex of the
other. -/
theorem fileLocks_two_holders :
    (∃ labels config, Trace FileLockMove (newLocks Party) labels config ∧
      Holds config .first ['f'] ∧ Holds config .second ['f']) ∧
    ∃ labels config mu other unlocked next, Trace FileLockMove (newLocks Party) labels config ∧
      config.task .first = .working (.hold ['f']) (.call (.unlock mu) next) ∧
      next () = .done (.held other unlocked) ∧ mu ≠ other := by
  refine ⟨?_, ?_⟩
  · have hplay : ((newLocks Party).play handle FileLockRequest.program (fun _ _ => true)
        lateDelete).isSome = true := by decide
    have htrace := (Config.trace_of_isSome hplay).mono And.right
    exact ⟨_, _, htrace, ⟨_, rfl⟩, ⟨_, rfl⟩⟩
  · have hplay : ((newLocks Party).play handle FileLockRequest.program (fun _ _ => true)
        (lateDelete ++ fileSteps .first 2)).isSome = true := by decide
    have htrace := (Config.trace_of_isSome hplay).mono And.right
    exact ⟨_, _, 1, 0, some 1, _, htrace, rfl, rfl, by decide⟩

end FsServer
