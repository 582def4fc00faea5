import FsServer.SlotCounter
import FsServer.Proof.Slots
import Mathlib.Algebra.Order.BigOperators.Group.Finset
import Mathlib.Data.Fintype.BigOperators

/-!
# The slot counter never over-admits

The counter is the number of slots held and of additions still to be undone. So a caller that finds
it within the limit finds room, whatever the failing callers have added for a moment.
-/

namespace FsServer

open Lib Program

def SlotPhase.owed : SlotPhase → Int
  | .undoing => 1
  | _ => 0

namespace SlotState

variable {T : Type} [Fintype T] {state after : SlotState T} {maxSessions : Int}

/-- The slots that are granted and not released. -/
def granted (state : SlotState T) : Int := ∑ who, ((state.caller who).held : Int)

def owed (state : SlotState T) : Int := ∑ who, (state.caller who).phase.owed

structure Counted (maxSessions : Int) (state : SlotState T) : Prop where
  exact : state.sessionCount = state.granted + state.owed
  within : state.granted ≤ maxSessions

theorem granted_nonneg (state : SlotState T) : 0 ≤ state.granted :=
  Finset.sum_nonneg fun _ _ => Int.natCast_nonneg _

theorem owed_nonneg (state : SlotState T) : 0 ≤ state.owed := by
  refine Finset.sum_nonneg fun who _ => ?_
  cases (state.caller who).phase <;> decide

theorem owed_le (state : SlotState T) : state.owed ≤ Fintype.card T := by
  refine (Finset.sum_le_card_nsmul Finset.univ _ 1 fun who _ => ?_).trans (by simp)
  cases (state.caller who).phase <;> decide

variable [DecidableEq T]

theorem sum_update (measure : SlotCaller → Int) (callers : T → SlotCaller) (who : T)
    (caller : SlotCaller) :
    ∑ other, measure (Function.update callers who caller other) =
      ∑ other, measure (callers other) - measure (callers who) + measure caller := by
  have hupdate : ∀ other, measure (Function.update callers who caller other) =
      Function.update (fun other => measure (callers other)) who (measure caller) other :=
    Function.apply_update (fun _ => measure) callers who caller
  rw [Finset.sum_congr rfl fun other _ => hupdate other,
    Finset.sum_update_of_mem (Finset.mem_univ who),
    ← Finset.add_sum_erase Finset.univ (fun other => measure (callers other)) (Finset.mem_univ who),
    Finset.sdiff_singleton_eq_erase]
  omega

variable {who : T} {phase phase' : SlotPhase} {held held' : Nat} {count : Int}

theorem owed_update (h : state.caller who = ⟨phase, held⟩) :
    (mk count (Function.update state.caller who ⟨phase', held'⟩)).owed =
      state.owed - phase.owed + phase'.owed := by
  have hsum := sum_update (fun caller => caller.phase.owed) state.caller who ⟨phase', held'⟩
  rw [h] at hsum
  exact hsum

theorem owed_lt (h : state.caller who = ⟨phase, held⟩) (hphase : phase.owed = 0) :
    state.owed < Fintype.card T := by
  have hmore := owed_le ⟨0, Function.update state.caller who ⟨.undoing, 0⟩⟩
  rw [owed_update h, hphase] at hmore
  simp only [SlotPhase.owed] at hmore
  omega

theorem Counted.next (h : state.Counted maxSessions) (hcaller : state.caller who = ⟨phase, held⟩)
    (hcount : count = state.sessionCount + (held' + phase'.owed) - (held + phase.owed))
    (hheld : state.granted + held' ≤ maxSessions + held) :
    Counted maxSessions ⟨count, Function.update state.caller who ⟨phase', held'⟩⟩ := by
  have hgranted := sum_update (fun caller => (caller.held : Int)) state.caller who ⟨phase', held'⟩
  rw [hcaller] at hgranted
  have hexact := h.exact
  constructor
  · rw [granted, hgranted, owed_update hcaller]
    unfold granted at hexact
    dsimp only
    omega
  · unfold granted at hheld
    rw [granted, hgranted]
    dsimp only
    omega

theorem Counted.step (hroom : maxSessions + Fintype.card T ≤ maxInt64)
    (h : state.Counted maxSessions) (hstep : Step maxSessions state after) :
    after.Counted maxSessions := by
  have hgranted := state.granted_nonneg
  have howed := state.owed_nonneg
  have hmax := state.owed_le
  have hexact := h.exact
  have hwithin := h.within
  -- the additions do not overflow, since no caller has more than one of them to undo
  have hminus : int64 (state.sessionCount + -1) = state.sessionCount + -1 :=
    int64_of_range (by omega) (by omega)
  have hplus : ∀ {who held}, state.caller who = ⟨.acquiring, held⟩ →
      int64 (state.sessionCount + 1) = state.sessionCount + 1 := by
    intro who held hcaller
    have hothers := owed_lt hcaller rfl
    exact int64_of_range (by omega) (by omega)
  cases hstep with
  | acquire hcaller | release hcaller | finish hcaller =>
    exact h.next hcaller (by simp only [SlotPhase.owed]; omega) (by omega)
  | grant hcaller hcount =>
    rw [hplus hcaller] at hcount
    exact h.next hcaller (by simp only [hplus hcaller, SlotPhase.owed]; omega) (by omega)
  | exceed hcaller hcount =>
    exact h.next hcaller (by simp only [hplus hcaller, SlotPhase.owed]; omega) (by omega)
  | undo hcaller | subtract hcaller =>
    exact h.next hcaller (by simp only [hminus, SlotPhase.owed]; omega) (by omega)

/-- In every reachable state the slots held are within the limit, and while no call is in progress
they are what the counter counts. -/
theorem slots_within_limit (hmax : 0 ≤ maxSessions)
    (hroom : maxSessions + Fintype.card T ≤ maxInt64) (h : Reached maxSessions state) :
    state.granted ≤ maxSessions ∧
    ((∀ who, (state.caller who).phase = .idle) → state.sessionCount = state.granted) := by
  have hcounted : state.Counted maxSessions := by
    induction h with
    | refl => exact ⟨by simp [initial, granted, owed, SlotPhase.owed], by simpa [initial, granted]⟩
    | tail _ hstep ih => exact ih.step hroom hstep
  refine ⟨hcounted.within, fun hidle => ?_⟩
  have howed : state.owed = 0 := Finset.sum_eq_zero fun who _ => by rw [hidle who]; rfl
  rw [hcounted.exact, howed, Int.add_zero]

theorem slots_within_limit_two : ∃ state : SlotState (Fin 2), Reached 1 state ∧
    state.granted = 1 ∧ state.owed = 1 ∧ state.granted ≤ 1 ∧
    ((∀ who, (state.caller who).phase = .idle) → state.sessionCount = state.granted) := by
  have hfirst : Reached 1 (initial.goTo (0 : Fin 2) ⟨.acquiring, 0⟩) :=
    Relation.ReflTransGen.refl.tail (.acquire rfl)
  have hboth := hfirst.tail (@Step.acquire _ _ _ _ 1 0 rfl)
  have hgranted := hboth.tail (@Step.grant _ _ _ _ 0 0 rfl (by decide))
  have hexceeded := hgranted.tail (@Step.exceed _ _ _ _ 1 0 rfl (by decide))
  exact ⟨_, hexceeded, rfl, rfl, slots_within_limit (by decide) (by decide) hexceeded⟩

/-! ### A limit that no count exceeds -/

/-- One caller that has been granted `count` slots and has released none. -/
def holding (count : Nat) : SlotState Unit := ⟨int64 count, fun _ => ⟨.idle, count⟩⟩

theorem reached_holding (count : Nat) : Reached maxInt64 (holding count) := by
  induction count with
  | zero =>
    have hinitial : holding 0 = initial := by rw [holding, Nat.cast_zero, int64_zero, initial]
    rw [hinitial]
    exact .refl
  | succ count ih =>
    have hacquired := ih.tail (@Step.acquire _ _ _ _ () count rfl)
    have hgranted := hacquired.tail (@Step.grant _ _ _ _ () count rfl (not_lt.mpr (int64_le _)))
    have hfinished := hgranted.tail (@Step.finish _ _ _ _ () (count + 1) rfl)
    have hcount : holding (count + 1) = ⟨int64 (int64 count + 1), fun _ => ⟨.idle, count + 1⟩⟩ := by
      rw [int64_int64_add, holding, Nat.cast_succ]
    rw [hcount]
    exact hfinished

/-- After `2 ^ 63` grants the counter has wrapped around. -/
theorem slots_beyond_limit : ∃ state : SlotState Unit, Reached maxInt64 state ∧
    maxInt64 < state.granted ∧ (∀ who, (state.caller who).phase = .idle) ∧
    state.sessionCount ≠ state.granted := by
  refine ⟨holding (2 ^ 63), reached_holding _, ?_, fun _ => rfl, ?_⟩
  · rw [granted, Fintype.sum_unique]
    decide
  · rw [granted, Fintype.sum_unique]
    decide

end SlotState

end FsServer
