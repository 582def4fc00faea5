import FsServer.Transfer
import Mathlib.Logic.Relation

/-!
# Concurrent use of the slot counter

`acquireSessionSlot` and `releaseSessionSlot`, one atomic addition at a time, by any number of callers
on one counter. What a caller holds is not in the code: it counts the slots granted to the caller by
the addition that found room, until the addition that gives them back.
-/

namespace FsServer

open Lib

inductive SlotPhase where
  | idle
  /-- Before the addition of `acquireSessionSlot`. -/
  | acquiring
  /-- The counter was beyond the limit, and the addition is still to be undone. -/
  | undoing
  /-- Before the addition of `releaseSessionSlot`. -/
  | releasing
  | returning
  deriving DecidableEq

structure SlotCaller where
  phase : SlotPhase
  held : Nat

structure SlotState (T : Type) where
  sessionCount : Int
  caller : T → SlotCaller

namespace SlotState

variable {T : Type}

def initial : SlotState T := ⟨0, fun _ => ⟨.idle, 0⟩⟩

variable [DecidableEq T]

def add (state : SlotState T) (who : T) (delta : Int) (caller : SlotCaller) : SlotState T where
  sessionCount := int64 (state.sessionCount + delta)
  caller := Function.update state.caller who caller

def goTo (state : SlotState T) (who : T) (caller : SlotCaller) : SlotState T :=
  { state with caller := Function.update state.caller who caller }

variable (maxSessions : Int)

inductive Step : SlotState T → SlotState T → Prop
  | acquire {state : SlotState T} {who : T} {held : Nat} (h : state.caller who = ⟨.idle, held⟩) :
      Step state (state.goTo who ⟨.acquiring, held⟩)
  | grant {state : SlotState T} {who : T} {held : Nat} (h : state.caller who = ⟨.acquiring, held⟩)
      (hcount : ¬ int64 (state.sessionCount + 1) > maxSessions) :
      Step state (state.add who 1 ⟨.returning, held + 1⟩)
  | exceed {state : SlotState T} {who : T} {held : Nat} (h : state.caller who = ⟨.acquiring, held⟩)
      (hcount : int64 (state.sessionCount + 1) > maxSessions) :
      Step state (state.add who 1 ⟨.undoing, held⟩)
  | undo {state : SlotState T} {who : T} {held : Nat} (h : state.caller who = ⟨.undoing, held⟩) :
      Step state (state.add who (-1) ⟨.returning, held⟩)
  | release {state : SlotState T} {who : T} {held : Nat}
      (h : state.caller who = ⟨.idle, held + 1⟩) :
      Step state (state.goTo who ⟨.releasing, held + 1⟩)
  | subtract {state : SlotState T} {who : T} {held : Nat}
      (h : state.caller who = ⟨.releasing, held + 1⟩) :
      Step state (state.add who (-1) ⟨.returning, held⟩)
  | finish {state : SlotState T} {who : T} {held : Nat} (h : state.caller who = ⟨.returning, held⟩) :
      Step state (state.goTo who ⟨.idle, held⟩)

def Reached : SlotState T → Prop := Relation.ReflTransGen (Step maxSessions) initial

end SlotState

end FsServer
