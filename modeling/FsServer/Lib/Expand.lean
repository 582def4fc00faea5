import FsServer.Lib.Fault

/-!
# Calls that are programs themselves

A call can stand for a program over finer calls. If each such program ends as the call does when it is
answered, or as it does when it fails if some finer call went wrong, then what holds of a program
whatever its calls do holds of the program in which every call is carried out.
-/

namespace FsServer.Lib

namespace Program

variable {E E' : Type → Type} {Env Env' S S' F F' α β : Type}

def expand (carry : ∀ β : Type, E β → Program E' β) : Program E α → Program E' α
  | .done value => .done value
  | .call operation next => carry _ operation >>= fun reply => (next reply).expand carry

variable {handler : Handler Env E S} {fails : Failure F E S}
  {handler' : Handler Env' E' S'} {fails' : Failure F' E' S'}

variable {post : α → S → Prop} {program : Program E α}

section Carried

variable {carry : ∀ β : Type, E β → Program E' β} {rest : S → S'}
  (hcalm : ∀ {β : Type} (operation : E β) (state : S),
    (carry _ operation).Ensures handler' (fun reply final =>
      ∃ after, final = rest after ∧ ∃ env, handler _ env operation state = some (reply, after))
      (rest state))
  (hfaulty : ∀ {β : Type} (operation : E β) (state : S),
    (carry _ operation).EnsuresFaulty handler' fails' (fun reply final =>
      ∃ after, final = rest after ∧ ∃ fault, fails _ fault operation state reply after) (rest state))

include hcalm hfaulty

theorem EnsuresAmid.expand {state : S} (h : program.EnsuresAmid handler fails post state) :
    (program.expand carry).EnsuresAmid handler' fails'
      (fun value final => ∃ after, final = rest after ∧ post value after) (rest state) := by
  induction program generalizing state with
  | done value => exact ⟨state, rfl, h⟩
  | call operation next ih =>
    refine ensuresAmid_bind.mpr (EnsuresAmid.of_calm ?_ ?_)
    · refine Ensures.mono handler' (hcalm operation state) ?_
      rintro reply final ⟨after, rfl, env, hcall⟩
      exact ih reply (h.1 env reply after hcall)
    · refine EnsuresFaulty.mono (hfaulty operation state) ?_
      rintro reply final ⟨after, rfl, fault, hfails⟩
      exact ih reply (h.2 fault reply after hfails)

theorem EnsuresFaulty.expand {state : S} (h : program.EnsuresFaulty handler fails post state) :
    (program.expand carry).EnsuresFaulty handler' fails'
      (fun value final => ∃ after, final = rest after ∧ post value after) (rest state) := by
  induction program generalizing state with
  | done value => trivial
  | call operation next ih =>
    refine ensuresFaulty_bind ?_ ?_
    · refine EnsuresFaulty.mono (hfaulty operation state) ?_
      rintro reply final ⟨after, rfl, fault, hfails⟩
      exact EnsuresAmid.expand hcalm hfaulty (h.2 fault reply after hfails)
    · refine Ensures.mono handler' (hcalm operation state) ?_
      rintro reply final ⟨after, rfl, env, hcall⟩
      exact ih reply (h.1 env reply after hcall)

end Carried

theorem Total.expand {carry : ∀ β : Type, E β → Program E' β} {rest : S → S'}
    (hcarry : ∀ {β : Type} (operation : E β) (state : S),
      (∀ env, handler _ env operation state ≠ none) →
      (carry _ operation).Total handler' (fun reply final =>
        ∃ after, final = rest after ∧ ∃ env, handler _ env operation state = some (reply, after))
        (rest state)) {state : S} (h : program.Total handler post state) :
    (program.expand carry).Total handler'
      (fun value final => ∃ after, final = rest after ∧ post value after) (rest state) := by
  induction program generalizing state with
  | done value => exact ⟨state, rfl, h⟩
  | call operation next ih =>
    have hanswered : ∀ env, handler _ env operation state ≠ none := by
      intro env
      obtain ⟨reply, after, hcall, -⟩ := h env
      rw [hcall]
      simp
    refine (total_bind handler' _ _ _ _).mpr (Total.mono handler' (hcarry operation state hanswered) ?_)
    rintro reply final ⟨after, rfl, env, hcall⟩
    obtain ⟨answer, middle, hanswer, hnext⟩ := h env
    rw [hcall, Option.some.injEq, Prod.mk.injEq] at hanswer
    obtain ⟨rfl, rfl⟩ := hanswer
    exact ih reply hnext

end Program

end FsServer.Lib
