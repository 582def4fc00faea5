import FsServer.Auth
import Mathlib.Data.List.Chain
import Mathlib.Data.List.Induction

/-!
# The rate limiter counts the current streak of failures

Of every address the service keeps how many failures the current streak has and when the last one
was. A record is dropped by `ClearAuthFailure`, or in a sweep when its last failure is over, and then
the next failure would begin a new streak anyway. So the answer depends only on the failures since
the last clear. The count is an `int64` and wraps around, so a streak of `2 ^ 63` failures counts as
a negative number of them.
-/

namespace FsServer

open Lib

namespace AuthService

/-- A failure that is recorded at `later` goes on with the streak of one at `earlier`. -/
def Close (later earlier : Time) : Prop := (later : Int) - earlier ≤ rateLimit

instance (later earlier : Time) : Decidable (Close later earlier) :=
  inferInstanceAs (Decidable ((later : Int) - earlier ≤ rateLimit))

theorem over_eq_true {record : AuthFailureRecord} {now : Time} :
    AuthFailureRecord.over record now = true ↔ ¬ Close now record.lastFailure := by
  rw [AuthFailureRecord.over, decide_eq_true_eq, Close, not_le]

theorem Close.of_le {now later earlier : Time} (h : Close later earlier) (hle : now ≤ later) :
    Close now earlier := by
  have hcast : (now : Int) ≤ later := Int.ofNat_le.mpr hle
  unfold Close at h ⊢
  omega

/-! ### Streaks -/

/-- How many failures the streak of the last one has; the last one comes first. -/
def streak : List Time → Nat
  | [] => 0
  | [_] => 1
  | last :: previous :: rest =>
    if Close last previous then streak (previous :: rest) + 1 else 1

theorem streak_cons (now last : Time) (rest : List Time) :
    streak (now :: last :: rest) = if Close now last then streak (last :: rest) + 1 else 1 := rfl

theorem streak_spec (failures : List Time) :
    streak failures ≤ failures.length ∧ (failures.take (streak failures)).IsChain Close := by
  induction failures using streak.induct with
  | case1 => exact ⟨le_rfl, .nil⟩
  | case2 last => exact ⟨le_rfl, .singleton last⟩
  | case3 last previous rest hclose ih =>
    rw [streak_cons, if_pos hclose]
    refine ⟨Nat.succ_le_succ ih.1, ?_⟩
    rw [List.take_succ_cons]
    cases hcount : streak (previous :: rest) with
    | zero => exact .singleton last
    | succ count =>
      rw [hcount, List.take_succ_cons] at ih
      exact .cons_cons hclose ih.2
  | case4 last previous rest hfar =>
    rw [streak_cons, if_neg hfar]
    exact ⟨Nat.succ_le_succ (Nat.zero_le _), .singleton last⟩

theorem length_le_streak {failures run : List Time} (hrun : run <+: failures)
    (hclose : run.IsChain Close) : run.length ≤ streak failures := by
  induction failures using streak.induct generalizing run with
  | case1 => exact hrun.length_le
  | case2 last => exact hrun.length_le
  | case3 last previous rest hlast ih =>
    rw [streak_cons, if_pos hlast]
    cases run with
    | nil => exact Nat.zero_le _
    | cons head tail =>
      exact Nat.succ_le_succ (ih (List.cons_prefix_cons.mp hrun).2 hclose.tail)
  | case4 last previous rest hfar =>
    rw [streak_cons, if_neg hfar]
    rcases run with _ | ⟨first, _ | ⟨second, more⟩⟩
    · exact Nat.zero_le _
    · exact le_rfl
    · obtain ⟨rfl, hrest⟩ := List.cons_prefix_cons.mp hrun
      obtain ⟨rfl, -⟩ := List.cons_prefix_cons.mp hrest
      exact absurd (List.isChain_cons_cons.mp hclose).1 hfar

/-- The streak is the longest run of failures up to the last one that are close to each other. -/
theorem le_streak_iff {failures : List Time} {count : Nat} :
    count ≤ streak failures ↔ ∃ run, run <+: failures ∧ count ≤ run.length ∧ run.IsChain Close := by
  constructor
  · intro h
    obtain ⟨hlength, hchain⟩ := streak_spec failures
    refine ⟨_, List.take_prefix _ _, ?_, hchain⟩
    rw [List.length_take, min_eq_left hlength]
    exact h
  · rintro ⟨run, hrun, hcount, hchain⟩
    exact hcount.trans (length_le_streak hrun hchain)

/-! ### Records -/

abbrev Failures := AList fun _ : List Char => AuthFailureRecord

/-- What is kept of an address with these failures since the last clear, at a moment after them. -/
inductive Tracked (failures : Failures) (clientIP : List Char) (recent : List Time) (now : Time) : Prop
  | dropped (hlookup : failures.lookup clientIP = none) (hover : ∀ last ∈ recent.head?, ¬ Close now last)
  | kept {last : Time} {rest : List Time} (hrecent : recent = last :: rest)
      (hlookup : failures.lookup clientIP = some ⟨int64 (streak recent), last⟩)

variable {failures : Failures} {service : AuthService} {clientIP : List Char} {recent : List Time}
  {now later : Time}

theorem Tracked.of_le (h : Tracked failures clientIP recent now) (hle : now ≤ later) :
    Tracked failures clientIP recent later := by
  cases h with
  | dropped hlookup hover =>
    exact .dropped hlookup fun last hlast hclose => hover last hlast (hclose.of_le hle)
  | kept hrecent hlookup => exact .kept hrecent hlookup

theorem lookup_eraseAll (entries : List (Sigma fun _ : List Char => AuthFailureRecord))
    (failures : Failures) (clientIP : List Char) :
    (entries.foldl (fun left entry => left.erase entry.1) failures).lookup clientIP =
      if clientIP ∈ entries.map Sigma.fst then none else failures.lookup clientIP := by
  induction entries generalizing failures with
  | nil => rfl
  | cons entry entries ih =>
    rw [List.foldl_cons, ih, List.map_cons]
    by_cases hmem : clientIP ∈ entries.map Sigma.fst
    · rw [if_pos hmem, if_pos (List.mem_cons_of_mem _ hmem)]
    · rw [if_neg hmem]
      by_cases heq : clientIP = entry.1
      · rw [heq, AList.lookup_erase, if_pos (List.mem_cons_self ..)]
      · rw [AList.lookup_erase_ne heq, if_neg]
        exact fun hcons => (List.mem_cons.mp hcons).elim heq hmem

theorem lookup_sweepFailures (service : AuthService) (now : Time) (clientIP : List Char) :
    (service.sweepFailures now).lookup clientIP = service.authFailures.lookup clientIP ∨
      (service.sweepFailures now).lookup clientIP = none ∧
        ∃ record, service.authFailures.lookup clientIP = some record ∧
          ¬ Close now record.lastFailure := by
  unfold sweepFailures
  by_cases hmany : service.authFailures.entries.length > 10000
  · rw [if_pos hmany, lookup_eraseAll]
    by_cases hmem : clientIP ∈ (service.authFailures.entries.filter fun entry =>
        AuthFailureRecord.over entry.2 now).map Sigma.fst
    · rw [if_pos hmem]
      obtain ⟨⟨key, record⟩, hentry, rfl⟩ := List.mem_map.mp hmem
      obtain ⟨hentry, hover⟩ := List.mem_filter.mp hentry
      exact .inr ⟨rfl, record, AList.mem_lookup_iff.mpr hentry, over_eq_true.mp hover⟩
    · rw [if_neg hmem]
      exact .inl rfl
  · rw [if_neg hmany]
    exact .inl rfl

section

variable (h : Tracked service.authFailures clientIP recent now)
include h

theorem Tracked.sweep : Tracked (service.sweepFailures now) clientIP recent now := by
  rcases lookup_sweepFailures service now clientIP with hsame | ⟨hnone, record, hrecord, hover⟩
  · cases h with
    | dropped hlookup hover => exact .dropped (hsame.trans hlookup) hover
    | kept hrecent hlookup => exact .kept hrecent (hsame.trans hlookup)
  · refine .dropped hnone ?_
    cases h with
    | dropped hlookup _ =>
      rw [hrecord] at hlookup
      cases hlookup
    | kept hrecent hlookup =>
      rw [hrecord, Option.some.injEq] at hlookup
      subst hlookup hrecent
      intro last hlast
      rw [List.head?_cons, Option.mem_some] at hlast
      rw [← hlast]
      exact hover

theorem Tracked.record (htrim : trimSpace clientIP = clientIP) :
    Tracked (service.recordAuthFailure now clientIP).authFailures clientIP (now :: recent) now := by
  have hone : int64 (1 : Nat) = 1 := int64_of_range (by decide) (by decide)
  refine .kept rfl ?_
  unfold recordAuthFailure
  rw [htrim, AList.lookup_insert]
  cases h.sweep with
  | dropped hlookup hover =>
    rw [hlookup]
    cases recent with
    | nil => rw [streak, hone]
    | cons last rest => rw [streak_cons, if_neg (hover last rfl), hone]
  | @kept last rest hrecent hlookup =>
    rw [hlookup, hrecent, streak_cons]
    dsimp only
    by_cases hclose : Close now last
    · have hover : AuthFailureRecord.over ⟨int64 (streak (last :: rest)), last⟩ now ≠ true :=
        fun hover => over_eq_true.mp hover hclose
      rw [if_pos hclose, if_neg hover, int64_int64_add, Nat.cast_succ]
    · rw [if_neg hclose, if_pos (over_eq_true.mpr hclose), hone]

variable {other : List Char}

theorem Tracked.record_other (hne : clientIP ≠ trimSpace other) :
    Tracked (service.recordAuthFailure now other).authFailures clientIP recent now := by
  have hlookup : (service.recordAuthFailure now other).authFailures.lookup clientIP
      = (service.sweepFailures now).lookup clientIP := AList.lookup_insert_ne hne
  cases h.sweep with
  | dropped hnone hover => exact .dropped (hlookup.trans hnone) hover
  | kept hrecent hsome => exact .kept hrecent (hlookup.trans hsome)

theorem Tracked.clear_other (hne : clientIP ≠ other) :
    Tracked (service.clearAuthFailure other).authFailures clientIP recent now := by
  have hlookup : (service.clearAuthFailure other).authFailures.lookup clientIP
      = service.authFailures.lookup clientIP := AList.lookup_erase_ne hne
  cases h with
  | dropped hnone hover => exact .dropped (hlookup.trans hnone) hover
  | kept hrecent hsome => exact .kept hrecent (hlookup.trans hsome)

theorem Tracked.isRateLimited_iff :
    service.isRateLimited now clientIP = true ↔
      (maxAuthFailures : Int) ≤ int64 (streak recent) ∧ ∃ last ∈ recent.head?, Close now last := by
  unfold isRateLimited
  cases h with
  | dropped hlookup hover =>
    rw [hlookup]
    constructor
    · exact fun hfalse => absurd hfalse Bool.false_ne_true
    · rintro ⟨-, last, hlast, hclose⟩
      exact absurd hclose (hover last hlast)
  | @kept last rest hrecent hlookup =>
    rw [hlookup]
    dsimp only
    by_cases hclose : Close now last
    · have hover : AuthFailureRecord.over ⟨int64 (streak recent), last⟩ now ≠ true :=
        fun hover => over_eq_true.mp hover hclose
      rw [if_neg hover, decide_eq_true_eq]
      refine ⟨fun hmany => ⟨hmany, last, ?_, hclose⟩, And.left⟩
      rw [hrecent]
      rfl
    · rw [if_pos (over_eq_true.mpr hclose)]
      constructor
      · exact fun hfalse => absurd hfalse Bool.false_ne_true
      · rintro ⟨-, other, hother, hother'⟩
        rw [hrecent, List.head?_cons, Option.mem_some] at hother
        rw [hother] at hclose
        exact absurd hother' hclose

end

end AuthService

/-! ### Runs -/

inductive FailureCall where
  | recordAuthFailure (clientIP : List Char)
  | clearAuthFailure (clientIP : List Char)
  | isRateLimited (clientIP : List Char)

def FailureCall.clientIP : FailureCall → List Char
  | recordAuthFailure clientIP | clearAuthFailure clientIP | isRateLimited clientIP => clientIP

structure TimedFailureCall where
  now : Time
  call : FailureCall

namespace AuthService

def failureStep (service : AuthService) (timed : TimedFailureCall) : AuthService :=
  match timed.call with
  | .recordAuthFailure clientIP => service.recordAuthFailure timed.now clientIP
  | .clearAuthFailure clientIP => service.clearAuthFailure clientIP
  | .isRateLimited _ => service

/-- The times of the failures of the address since it was last cleared, the last one first. -/
def recentStep (clientIP : List Char) (recent : List Time) (timed : TimedFailureCall) : List Time :=
  match timed.call with
  | .recordAuthFailure other => if other = clientIP then timed.now :: recent else recent
  | .clearAuthFailure other => if other = clientIP then [] else recent
  | .isRateLimited _ => recent

def recentFailures (clientIP : List Char) (run : List TimedFailureCall) : List Time :=
  run.foldl (recentStep clientIP) []

theorem tracked_run {start : AuthService} (hstart : start.authFailures = ∅)
    {run : List TimedFailureCall} (htrim : ∀ timed ∈ run, trimSpace timed.call.clientIP
      = timed.call.clientIP) (hclock : (run.map TimedFailureCall.now).Pairwise (· ≤ ·))
    {clientIP : List Char} {now : Time} (hnow : ∀ timed ∈ run, timed.now ≤ now) :
    Tracked (run.foldl failureStep start).authFailures clientIP (recentFailures clientIP run) now := by
  induction run using List.reverseRecOn generalizing now with
  | nil =>
    refine .dropped ?_ fun last hlast => by cases hlast
    rw [List.foldl_nil, hstart]
    rfl
  | append_singleton run timed ih =>
    rw [List.map_append, List.pairwise_append] at hclock
    have hbefore : Tracked (run.foldl failureStep start).authFailures clientIP
        (recentFailures clientIP run) timed.now :=
      ih (fun earlier hmem => htrim earlier (List.mem_append_left _ hmem)) hclock.1
        fun earlier hmem => hclock.2.2 _ (List.mem_map_of_mem hmem) _ (List.mem_singleton_self _)
    have htrimmed := htrim timed (List.mem_append_right _ (List.mem_singleton_self _))
    have hlater := hnow timed (List.mem_append_right _ (List.mem_singleton_self _))
    rw [List.foldl_append, recentFailures, List.foldl_append, ← recentFailures]
    refine Tracked.of_le ?_ hlater
    rw [List.foldl_cons, List.foldl_nil, List.foldl_cons, List.foldl_nil]
    unfold failureStep recentStep
    cases hcall : timed.call with
    | recordAuthFailure other =>
      rw [hcall] at htrimmed
      by_cases heq : other = clientIP
      · subst heq
        dsimp only
        rw [if_pos rfl]
        exact hbefore.record htrimmed
      · dsimp only
        rw [if_neg heq]
        refine hbefore.record_other fun hsame => heq ?_
        rw [hsame]
        exact htrimmed.symm
    | clearAuthFailure other =>
      by_cases heq : other = clientIP
      · subst heq
        dsimp only
        rw [if_pos rfl]
        exact .dropped (AList.lookup_erase _ _) fun last hlast => by cases hlast
      · dsimp only
        rw [if_neg heq]
        exact hbefore.clear_other (Ne.symm heq)
    | isRateLimited other => exact hbefore

/-- **An address is limited just if its current streak of failures is long enough and not over**,
as long as the streak can be counted. -/
theorem isRateLimited_iff_streak {start : AuthService} (hstart : start.authFailures = ∅)
    {run : List TimedFailureCall} (htrim : ∀ timed ∈ run, trimSpace timed.call.clientIP
      = timed.call.clientIP) (hclock : (run.map TimedFailureCall.now).Pairwise (· ≤ ·))
    {clientIP : List Char} {now : Time} (hnow : ∀ timed ∈ run, timed.now ≤ now)
    (hcount : ∀ streak, streak <+: recentFailures clientIP run → streak.IsChain Close →
      streak.length < 2 ^ 63) :
    (run.foldl failureStep start).isRateLimited now clientIP = true ↔
      (∃ streak, streak <+: recentFailures clientIP run ∧ maxAuthFailures ≤ streak.length ∧
        streak.IsChain Close) ∧
      ∃ last ∈ (recentFailures clientIP run).head?, Close now last := by
  obtain ⟨hlength, hchain⟩ := streak_spec (recentFailures clientIP run)
  have hshort := hcount _ (List.take_prefix _ _) hchain
  rw [List.length_take, min_eq_left hlength] at hshort
  have hexact : int64 (streak (recentFailures clientIP run)) = streak (recentFailures clientIP run) :=
    int64_of_range (by omega) (by unfold maxInt64; omega)
  rw [(tracked_run hstart htrim hclock hnow).isRateLimited_iff, hexact, Int.ofNat_le, le_streak_iff]

/-! ### Failures at one moment -/

def failing (count : Nat) : List TimedFailureCall :=
  List.replicate count ⟨5, .recordAuthFailure ['a']⟩

def noFailures : AuthService := ⟨[], true, "", ∅, none, none⟩

theorem failing_trimmed {count : Nat} : ∀ timed ∈ failing count,
    trimSpace timed.call.clientIP = timed.call.clientIP := by
  intro timed hmem
  rw [List.eq_of_mem_replicate hmem]
  rfl

theorem failing_clock (count : Nat) :
    ((failing count).map TimedFailureCall.now).Pairwise (· ≤ ·) := by
  rw [failing, List.map_replicate]
  exact List.pairwise_replicate.mpr (.inr le_rfl)

theorem failing_now {count : Nat} : ∀ timed ∈ failing count, timed.now ≤ 5 := by
  intro timed hmem
  rw [List.eq_of_mem_replicate hmem]

theorem recentFailures_failing (count : Nat) :
    recentFailures ['a'] (failing count) = List.replicate count 5 := by
  induction count with
  | zero => rfl
  | succ count ih =>
    rw [failing, List.replicate_succ', recentFailures, List.foldl_append, ← recentFailures,
      ← failing, ih]
    rfl

theorem isChain_failing (count : Nat) : (List.replicate count 5).IsChain Close := by
  induction count with
  | zero => exact .nil
  | succ count ih =>
    cases count with
    | zero => exact .singleton 5
    | succ count => exact .cons_cons (by decide) ih

theorem isRateLimited_iff_streak_ten :
    ((failing 10).foldl failureStep noFailures).isRateLimited 5 ['a'] = true := by
  refine (isRateLimited_iff_streak rfl failing_trimmed (failing_clock 10) failing_now
    fun streak hstreak _ => ?_).mpr ⟨⟨_, List.prefix_refl _, le_rfl, isChain_failing 10⟩, 5, rfl, ?_⟩
  · refine hstreak.length_le.trans_lt ?_
    rw [recentFailures_failing, List.length_replicate]
    decide
  · decide

/-- The streak is long enough and not over, and its count is `-2 ^ 63`. -/
theorem isRateLimited_wraps :
    ((failing (2 ^ 63)).foldl failureStep noFailures).isRateLimited 5 ['a'] = false ∧
      (∃ streak, streak <+: recentFailures ['a'] (failing (2 ^ 63)) ∧
        maxAuthFailures ≤ streak.length ∧ streak.IsChain Close) ∧
      ∃ last ∈ (recentFailures ['a'] (failing (2 ^ 63))).head?, Close 5 last := by
  have hchain := isChain_failing (2 ^ 63)
  have hlength : streak (List.replicate (2 ^ 63) 5) = 2 ^ 63 := by
    refine le_antisymm ?_ ?_
    · exact (streak_spec _).1.trans_eq List.length_replicate
    · exact List.length_replicate.symm.trans_le (length_le_streak (List.prefix_refl _) hchain)
  have htracked : Tracked ((failing (2 ^ 63)).foldl failureStep noFailures).authFailures ['a']
      (recentFailures ['a'] (failing (2 ^ 63))) 5 :=
    tracked_run rfl failing_trimmed (failing_clock _) failing_now
  rw [recentFailures_failing] at htracked ⊢
  refine ⟨?_, ⟨_, List.prefix_refl _, ?_, hchain⟩, 5, ?_, by decide⟩
  · rw [← Bool.not_eq_true, htracked.isRateLimited_iff, hlength]
    rintro ⟨hmany, -⟩
    exact absurd hmany (by decide)
  · rw [List.length_replicate]
    decide
  · rw [List.head?_replicate]
    rfl

end AuthService

end FsServer
