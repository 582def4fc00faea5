import FsServer.Lib.Interleaving

/-!
# Schedules

A schedule says which task goes on next and what the environment decides at its step. It can be played,
so that a run with a given outcome is found by evaluation.
-/

namespace FsServer.Lib

open Program

inductive Turn (Env T C : Type) where
  | start (task : T) (call : C)
  | step (task : T) (env : Env)
  | finish (task : T)

namespace Config

variable {E : Type → Type} {Env S T C R : Type} [DecidableEq T] (handler : Handler Env E S)
  (program : C → Program E R)

/-- The move that a task makes at its turn, if it can. -/
def turn (config : Config E S T C R) : Turn Env T C → Option (Label T C R × Config E S T C R)
  | .start task request =>
    match config.task task with
    | .idle =>
      some (.start task request,
        config.next task (.working request (program request)) config.shared)
    | .working _ _ => none
  | .step task env =>
    match config.task task with
    | .working request (.call operation next) =>
      match handler _ env operation config.shared with
      | some (reply, after) =>
        some (.step task, config.next task (.working request (next reply)) after)
      | none => none
    | _ => none
  | .finish task =>
    match config.task task with
    | .working request (.done result) =>
      some (.finish task request result, config.next task .idle config.shared)
    | _ => none

/-- The schedule, as far as every move is allowed. -/
def play (allowed : Config E S T C R → Label T C R → Bool) :
    List (Turn Env T C) → Config E S T C R → Option (List (Label T C R) × Config E S T C R)
  | [], config => some ([], config)
  | current :: later, config =>
    match config.turn handler program current with
    | none => none
    | some (label, after) =>
      if allowed config label then
        match play allowed later after with
        | none => none
        | some (labels, last) => some (label :: labels, last)
      else none

variable {handler program} {config after : Config E S T C R} {label : Label T C R}

theorem move_of_turn {current : Turn Env T C}
    (h : config.turn handler program current = some (label, after)) :
    Move handler program config label after := by
  cases current with
  | start task call =>
    cases htask : config.task task with
    | idle =>
      simp only [turn, htask, Option.some.injEq, Prod.mk.injEq] at h
      obtain ⟨rfl, rfl⟩ := h
      exact .start htask
    | working busy rest => simp [turn, htask] at h
  | step task env =>
    cases htask : config.task task with
    | idle => simp [turn, htask] at h
    | working call rest =>
      cases rest with
      | done result => simp [turn, htask] at h
      | call operation next =>
        cases hcall : handler _ env operation config.shared with
        | none => simp [turn, htask, hcall] at h
        | some result =>
          simp only [turn, htask, hcall, Option.some.injEq, Prod.mk.injEq] at h
          obtain ⟨rfl, rfl⟩ := h
          exact .step env htask hcall
  | finish task =>
    cases htask : config.task task with
    | idle => simp [turn, htask] at h
    | working call rest =>
      cases rest with
      | done result =>
        simp only [turn, htask, Option.some.injEq, Prod.mk.injEq] at h
        obtain ⟨rfl, rfl⟩ := h
        exact .finish htask
      | call operation next => simp [turn, htask] at h

variable {allowed : Config E S T C R → Label T C R → Bool} {turns : List (Turn Env T C)}

theorem trace_of_play {labels : List (Label T C R)} {last : Config E S T C R}
    (h : config.play handler program allowed turns = some (labels, last)) :
    Trace (fun config label after => allowed config label = true ∧
      Move handler program config label after) config labels last := by
  induction turns generalizing config labels with
  | nil =>
    cases h
    exact .nil
  | cons current later ih =>
    unfold play at h
    split at h
    next => cases h
    next label after hturn =>
        split_ifs at h with hallowed
        split at h
        next => cases h
        next rest last' hplay =>
            cases h
            exact (Trace.nil.snoc ⟨hallowed, move_of_turn hturn⟩).append (ih hplay)

theorem trace_of_isSome (h : (config.play handler program allowed turns).isSome = true) :
    Trace (fun config label after => allowed config label = true ∧
      Move handler program config label after) config
      ((config.play handler program allowed turns).get h).1
      ((config.play handler program allowed turns).get h).2 :=
  trace_of_play (Option.some_get h).symm

end Config

end FsServer.Lib
