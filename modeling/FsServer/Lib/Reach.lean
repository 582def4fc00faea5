import FsServer.Lib.Program

/-!
# Calls a program comes to

Whether a run can come to a call of a certain kind, in a state of a certain kind. What the calls
before it answered is up to the handler.
-/

namespace FsServer.Lib

namespace Program

variable {E : Type → Type} {Env S α β : Type}

/-- A kind of call, together with the state it is made in. -/
abbrev Moment (E : Type → Type) (S : Type) := ∀ β : Type, E β → S → Prop

variable (handler : Handler Env E S) (moment : Moment E S)

inductive Reaches : Program E α → S → Prop
  | here {β : Type} {operation : E β} {next : β → Program E α} {state : S}
      (h : moment β operation state) : Reaches (.call operation next) state
  | later {β : Type} {operation : E β} {next : β → Program E α} {state after : S} {reply : β}
      (env : Env) (hcall : handler _ env operation state = some (reply, after))
      (hrest : Reaches (next reply) after) : Reaches (.call operation next) state

variable {handler moment}

theorem not_reaches_done (value : α) (state : S) :
    ¬ (done value : Program E α).Reaches handler moment state := by
  intro h
  cases h

variable {operation : E β} {state : S}

theorem not_reaches_call {next : β → Program E α} (hhere : ¬ moment β operation state)
    (hlater : ∀ env reply after, handler _ env operation state = some (reply, after) →
      ¬ (next reply).Reaches handler moment after) :
    ¬ (call operation next).Reaches handler moment state := by
  intro h
  cases h with
  | here h => exact hhere h
  | later env hcall hrest => exact hlater env _ _ hcall hrest

variable {rest : β → Program E α}

theorem not_reaches_perform (hhere : ¬ moment β operation state)
    (hlater : ∀ env reply after, handler _ env operation state = some (reply, after) →
      ¬ (rest reply).Reaches handler moment after) :
    ¬ (perform operation >>= rest).Reaches handler moment state :=
  not_reaches_call hhere hlater

variable {program : Program E α}

theorem not_reaches_bind {rest : α → Program E β} (hfirst : ¬ program.Reaches handler moment state)
    (hrest : program.Ensures handler
      (fun value middle => ¬ (rest value).Reaches handler moment middle) state) :
    ¬ (program >>= rest).Reaches handler moment state := by
  induction program generalizing state with
  | done value => exact hrest
  | call operation next ih =>
    refine not_reaches_call (fun h => hfirst (.here h)) fun env reply after hcall => ?_
    exact ih reply (fun h => hfirst (.later env hcall h)) (hrest env reply after hcall)

theorem reaches_perform {after : S} {reply : β} (env : Env)
    (hcall : handler _ env operation state = some (reply, after))
    (hrest : (rest reply).Reaches handler moment after) :
    (perform operation >>= rest).Reaches handler moment state :=
  .later env hcall hrest

theorem Reaches.bind (h : program.Reaches handler moment state) (rest : α → Program E β) :
    (program >>= rest).Reaches handler moment state := by
  induction h with
  | here h => exact .here h
  | later env hcall _ ih => exact .later env hcall ih

theorem not_reaches_of_only {kind : ∀ β : Type, E β → Prop} (honly : program.Only kind)
    (hkind : ∀ β operation state, kind β operation → ¬ moment β operation state) :
    ¬ program.Reaches handler moment state := by
  induction program generalizing state with
  | done value => exact not_reaches_done value state
  | call operation next ih =>
    exact not_reaches_call (hkind _ _ _ honly.1) fun env reply after _ => ih reply (honly.2 reply)

end Program

end FsServer.Lib
