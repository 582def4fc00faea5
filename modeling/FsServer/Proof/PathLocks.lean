import FsServer.PathLocks

/-!
# Path locks exclude each other and cannot deadlock

Every call of local storage looks up the mutexes it locks, locks them in the order of the path
strings and unlocks them before it ends. So in every interleaving of any number of calls the locked
sections of one path exclude each other, and some call can go on as long as one has not ended.
-/

namespace FsServer

open Lib Program PathLocks

namespace PathLocks

variable {known : List (Path × MutexAddress)}

theorem disciplined_withLock (path : Path) (check body : Program OsCall (Except LocalError Unit)) :
    (withLock path check body).Disciplined [] [] := by
  refine disciplined_aside fun checked => ?_
  cases checked with
  | error cause => exact rfl
  | ok done =>
    intro mu
    have hmu : (path, mu) ∈ [(path, mu)] := List.mem_singleton_self _
    refine disciplined_lock hmu (fun other hother => by cases hother) ?_
    refine disciplined_aside fun result => ?_
    exact disciplined_unlock hmu List.not_mem_nil rfl

/-- The two mutexes of a rename are locked in the order of their paths and unlocked, the target's
first. -/
theorem disciplined_rename (rootDir oldPath newPath : Path) :
    (rename rootDir oldPath newPath).Disciplined [] [] := by
  refine disciplined_aside fun checked => ?_
  cases checked with
  | error cause => exact rfl
  | ok done =>
    refine disciplined_aside fun checked => ?_
    cases checked with
    | error cause => exact rfl
    | ok done =>
      by_cases hsame : oldPath = newPath
      · simp only [if_pos hsame]
        exact rfl
      · simp only [if_neg hsame]
        intro oldMu newMu
        have hold : (oldPath, oldMu) ∈ [(newPath, newMu), (oldPath, oldMu)] :=
          List.mem_cons_of_mem _ (List.mem_singleton_self _)
        have hnew : (newPath, newMu) ∈ [(newPath, newMu), (oldPath, oldMu)] :=
          List.mem_cons_self ..
        by_cases hlt : oldPath < newPath
        · simp only [if_pos hlt]
          refine disciplined_lock hold (fun other hother => by cases hother) ?_
          refine disciplined_lock hnew (fun other hother => ?_) ?_
          · rw [List.mem_singleton.mp hother]
            exact hlt
          refine disciplined_aside fun result => ?_
          refine disciplined_unlock hnew List.not_mem_nil ?_
          exact disciplined_unlock hold List.not_mem_nil rfl
        · simp only [if_neg hlt]
          have hgt : newPath < oldPath := lt_of_le_of_ne (not_lt.mp hlt) (Ne.symm hsame)
          refine disciplined_lock hnew (fun other hother => by cases hother) ?_
          refine disciplined_lock hold (fun other hother => ?_) ?_
          · rw [List.mem_singleton.mp hother]
            exact hgt
          refine disciplined_aside fun result => ?_
          have hother : newPath ∉ [oldPath] := fun hmem => hsame (List.mem_singleton.mp hmem).symm
          refine disciplined_unlock hnew hother ?_
          exact disciplined_unlock hold List.not_mem_nil rfl

theorem disciplined_program (rootDir : Path) (request : StorageRequest) :
    (request.program rootDir).Disciplined [] [] := by
  cases request with
  | rename oldPath newPath => exact disciplined_rename rootDir oldPath newPath
  | write path data => exact disciplined_withLock ..
  | writeAt path data offset => exact disciplined_withLock ..
  | writeFromTempFile path tempFilePath => exact disciplined_withLock ..
  | writeFromReader path reader => exact disciplined_withLock ..
  | remove path => exact disciplined_withLock ..
  | createDirectory path => exact disciplined_withLock ..
  | removeDirectory path => exact disciplined_withLock ..

end PathLocks

section Concurrent

variable {T D N : Type} [DecidableEq T] {os : ∀ β : Type, N → OsCall β → D → β × D} {rootDir : Path}

abbrev StorageConfig (T D : Type) : Type 1 :=
  Config (LockCall Path OsCall) (KeyedLocks Path D) T StorageRequest (Except LocalError Unit)

def StorageConfig.initial (disk : D) : StorageConfig T D := ⟨.empty disk, fun _ => .idle⟩

/-- The task's call has locked the path's mutex and not unlocked it. -/
def StorageConfig.InSection (config : StorageConfig T D) (path : Path) (task : T) : Prop :=
  ∃ call rest, config.task task = .working call rest ∧ rest.Within path

/-- **The locked sections of a path exclude each other, and no set of calls is stuck.** -/
theorem pathLocks_exclude_and_progress [Inhabited N] {disk : D}
    {labels : List (Label T StorageRequest (Except LocalError Unit))} {config : StorageConfig T D}
    (htrace : Trace (Move (KeyedLocks.handle os) (StorageRequest.program rootDir))
      (StorageConfig.initial disk) labels config) :
    (∀ path first second, config.InSection path first → config.InSection path second →
        first = second) ∧
      ((∃ task, config.task task ≠ .idle) →
        ∃ task, config.CanGoOn os (StorageRequest.program rootDir) task) := by
  obtain ⟨held, hheld⟩ := htrace.holding (disciplined_program rootDir) rfl fun _ => rfl
  constructor
  · rintro path first second ⟨call, rest, hfirst, hwithin⟩ ⟨call', rest', hsecond, hwithin'⟩
    exact hheld.eq_of_within hfirst hwithin hsecond hwithin'
  · exact hheld.progress (htrace.finite_working fun _ => rfl)

end Concurrent

def OsCall.succeed : ∀ β : Type, Unit → OsCall β → Unit → β × Unit
  | _, _, .abs _, disk | _, _, .evalSymlinks _, disk => (.ok [], disk)
  | _, _, .tempDir, disk => ([], disk)
  | _, _, .openRead _, disk | _, _, .openWrite _ _, disk => (.ok 0, disk)
  | _, _, .close _, disk => ((), disk)
  | _, _, .stat _, disk | _, _, .mkdirAll _, disk | _, _, .writeFile _ _, disk
  | _, _, .writeAt _ _ _, disk | _, _, .copyFile _ _, disk | _, _, .copyReader _ _, disk
  | _, _, .rename _ _, disk | _, _, .remove _, disk | _, _, .removeAll _, disk => (.ok (), disk)

/-- Two calls of `Remove` for one path, of which one has come to its section. -/
theorem pathLocks_exclude_and_progress_removes : ∃ config : StorageConfig Bool Unit,
    config.InSection ['a'] false ∧ ¬ config.InSection ['a'] true ∧
      ∃ task, config.CanGoOn OsCall.succeed (StorageRequest.program ['r']) task := by
  obtain ⟨labels, config, htrace, hin, hbusy⟩ : ∃ labels, ∃ config : StorageConfig Bool Unit,
      Trace (Move (KeyedLocks.handle OsCall.succeed) (StorageRequest.program ['r']))
        (StorageConfig.initial ()) labels config ∧
      config.InSection ['a'] false ∧ config.task false ≠ .idle := by
    refine ⟨_, _, .snoc (.snoc (.snoc (.snoc (.snoc (.snoc (.snoc (.snoc .nil
      (@Move.start _ _ _ _ _ _ _ _ _ _ false (.remove ['a']) rfl))
      (@Move.start _ _ _ _ _ _ _ _ _ _ true (.remove ['a']) rfl))
      (@Move.step _ _ _ _ _ _ _ _ _ _ false _ _ _ _ _ _ () rfl rfl))
      (@Move.step _ _ _ _ _ _ _ _ _ _ false _ _ _ _ _ _ () rfl rfl))
      (@Move.step _ _ _ _ _ _ _ _ _ _ false _ _ _ _ _ _ () rfl rfl))
      (@Move.step _ _ _ _ _ _ _ _ _ _ false _ _ _ _ _ _ () rfl rfl))
      (@Move.step _ _ _ _ _ _ _ _ _ _ false _ _ _ _ _ _ () rfl rfl))
      (@Move.step _ _ _ _ _ _ _ _ _ _ false _ _ _ _ _ _ () rfl rfl), ?_, ?_⟩
    · exact ⟨_, _, rfl, ⟨.ok (), .inl rfl⟩⟩
    · exact fun hidle => by cases hidle
  obtain ⟨hexclude, hprogress⟩ := pathLocks_exclude_and_progress htrace
  refine ⟨config, hin, fun hother => ?_, hprogress ⟨false, hbusy⟩⟩
  cases hexclude ['a'] false true hin hother

end FsServer
