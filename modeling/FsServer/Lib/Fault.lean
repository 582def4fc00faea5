import FsServer.Lib.Program

/-!
# Runs with faults

A run in which exactly one call goes wrong, and a run in which any number of them do. Besides the
handler, which answers the other calls, there is a relation that says how a call can go wrong: what it
then replies and which state it leaves.
-/

namespace FsServer.Lib

namespace Program

variable {E : Type → Type} {Env S F α β : Type}

/-- How a call goes wrong: its reply and the state it leaves. -/
abbrev Failure (F : Type) (E : Type → Type) (S : Type) :=
  ∀ β : Type, F → E β → S → β → S → Prop

variable (handler : Handler Env E S) (fails : Failure F E S) (fault : F)

inductive RunsOnce : Program E α → S → α → S → Prop
  | here {β : Type} {operation : E β} {next : β → Program E α} {state after final : S} {reply : β}
      {value : α} (hfails : fails _ fault operation state reply after)
      (hrest : Runs handler (next reply) after value final) :
      RunsOnce (.call operation next) state value final
  | later {β : Type} {operation : E β} {next : β → Program E α} {state after final : S} {reply : β}
      {value : α} (env : Env) (hcall : handler _ env operation state = some (reply, after))
      (hrest : RunsOnce (next reply) after value final) :
      RunsOnce (.call operation next) state value final

def EnsuresOnce (post : α → S → Prop) : Program E α → S → Prop
  | .done _, _ => True
  | .call operation next, state =>
    (∀ reply after, fails _ fault operation state reply after →
      (next reply).Ensures handler post after) ∧
    ∀ env reply after, handler _ env operation state = some (reply, after) →
      (next reply).EnsuresOnce post after

variable {handler fails fault}

variable {state final : S} {value : α}

variable {operation : E β}

theorem RunsOnce.of_run (env : Env) {next : β → Program E α} {after : S} {reply : β}
    (hfails : fails _ fault operation state reply after)
    (hrun : (next reply).run handler env after = some (value, final)) :
    RunsOnce handler fails fault (.call operation next) state value final :=
  .here hfails (runs_of_run handler hrun)

variable {program : Program E α}

theorem EnsuresOnce.of_runs {post : α → S → Prop}
    (h : program.EnsuresOnce handler fails fault post state)
    (hruns : RunsOnce handler fails fault program state value final) : post value final := by
  induction hruns with
  | here hfails hrest => exact (h.1 _ _ hfails).of_runs handler hrest
  | later env hcall hrest ih => exact ih (h.2 env _ _ hcall)

variable {weaker : α → S → Prop}

theorem EnsuresOnce.mono {post : α → S → Prop}
    (h : program.EnsuresOnce handler fails fault post state)
    (himp : ∀ value final, post value final → weaker value final) :
    program.EnsuresOnce handler fails fault weaker state := by
  induction program generalizing state with
  | done value => trivial
  | call operation next ih =>
    constructor
    · intro reply after hfails
      exact (h.1 reply after hfails).mono handler himp
    · intro env reply after hcall
      exact ih reply (h.2 env reply after hcall)

variable {rest : α → Program E β}

theorem ensuresOnce_bind {post : β → S → Prop} (hfirst : program.EnsuresOnce handler fails fault
      (fun value middle => (rest value).Ensures handler post middle) state)
    (hrest : program.Ensures handler
      (fun value middle => (rest value).EnsuresOnce handler fails fault post middle) state) :
    (program >>= rest).EnsuresOnce handler fails fault post state := by
  induction program generalizing state with
  | done value => exact hrest
  | call operation next ih =>
    constructor
    · intro reply after hfails
      exact (ensures_bind handler post _ _ _).mpr (hfirst.1 reply after hfails)
    · intro env reply after hcall
      exact ih reply (hfirst.2 env reply after hcall) (hrest env reply after hcall)

/-! ### At most one fault -/

section AtMost

variable (handler fails)

/-- A run with this fault, or one without any. -/
def RunsAtMost (failing : Option F) (program : Program E α) (state : S) (value : α) (final : S) :
    Prop :=
  match failing with
  | none => Runs handler program state value final
  | some fault => RunsOnce handler fails fault program state value final

def EnsuresAtMost (failing : Option F) (post : α → S → Prop) (program : Program E α) (state : S) :
    Prop :=
  match failing with
  | none => program.Ensures handler post state
  | some fault => program.EnsuresOnce handler fails fault post state

variable {handler fails} {failing : Option F} {post : α → S → Prop}

theorem EnsuresAtMost.of_runs (h : program.EnsuresAtMost handler fails failing post state)
    (hruns : program.RunsAtMost handler fails failing state value final) : post value final := by
  cases failing with
  | none => exact Ensures.of_runs handler h hruns
  | some fault => exact EnsuresOnce.of_runs h hruns

theorem ensuresAtMost_done (h : failing = none → post value state) :
    (done value : Program E α).EnsuresAtMost handler fails failing post state := by
  cases failing with
  | none => exact h rfl
  | some fault => trivial

theorem ensuresAtMost_perform {rest : β → Program E α}
    (hfails : ∀ fault reply after, failing = some fault → fails _ fault operation state reply after →
      (rest reply).Ensures handler post after)
    (h : ∀ env reply after, handler _ env operation state = some (reply, after) →
      (rest reply).EnsuresAtMost handler fails failing post after) :
    (perform operation >>= rest).EnsuresAtMost handler fails failing post state := by
  cases failing with
  | none => exact h
  | some fault => exact ⟨fun reply after => hfails fault reply after rfl, h⟩

end AtMost

/-! ### Any number of faults -/

variable (handler fails) in
/-- Each call is answered or goes wrong in one of the ways it can. -/
inductive RunsAmid : Program E α → S → α → S → Prop
  | done (value : α) (state : S) : RunsAmid (.done value) state value state
  | call {β : Type} {operation : E β} {next : β → Program E α} {state after final : S} {reply : β}
      {value : α} (env : Env) (hcall : handler _ env operation state = some (reply, after))
      (hrest : RunsAmid (next reply) after value final) :
      RunsAmid (.call operation next) state value final
  | fails {β : Type} {operation : E β} {next : β → Program E α} {state after final : S} {reply : β}
      {value : α} (fault : F) (hfails : fails _ fault operation state reply after)
      (hrest : RunsAmid (next reply) after value final) :
      RunsAmid (.call operation next) state value final

theorem Runs.amid (h : Runs handler program state value final) :
    RunsAmid handler fails program state value final := by
  induction h with
  | done value state => exact .done value state
  | call env hcall _ ih => exact .call env hcall ih

variable (handler fails) in
/-- Whatever the calls answer and whichever of them go wrong, the program does not return outside
`post`. -/
def EnsuresAmid (post : α → S → Prop) : Program E α → S → Prop
  | .done value, state => post value state
  | .call operation next, state =>
    (∀ env reply after, handler _ env operation state = some (reply, after) →
      (next reply).EnsuresAmid post after) ∧
    ∀ fault reply after, fails _ fault operation state reply after →
      (next reply).EnsuresAmid post after

theorem EnsuresAmid.of_runs {post : α → S → Prop} (h : program.EnsuresAmid handler fails post state)
    (hruns : RunsAmid handler fails program state value final) : post value final := by
  induction hruns with
  | done value state => exact h
  | call env hcall hrest ih => exact ih (h.1 env _ _ hcall)
  | fails fault hfails hrest ih => exact ih (h.2 fault _ _ hfails)

theorem EnsuresAmid.mono {post : α → S → Prop} (h : program.EnsuresAmid handler fails post state)
    (himp : ∀ value final, post value final → weaker value final) :
    program.EnsuresAmid handler fails weaker state := by
  induction program generalizing state with
  | done value => exact himp value state h
  | call operation next ih =>
    constructor
    · intro env reply after hcall
      exact ih reply (h.1 env reply after hcall)
    · intro fault reply after hfails
      exact ih reply (h.2 fault reply after hfails)

theorem ensuresAmid_runs (program : Program E α) (state : S) :
    program.EnsuresAmid handler fails (RunsAmid handler fails program state) state := by
  induction program generalizing state with
  | done value => exact .done value state
  | call operation next ih =>
    exact ⟨fun env reply after hcall => (ih reply after).mono fun _ _ h => .call env hcall h,
      fun fault reply after hfails => (ih reply after).mono fun _ _ h => .fails fault hfails h⟩

variable {first second : α → S → Prop}

theorem EnsuresAmid.and (hfirst : program.EnsuresAmid handler fails first state)
    (hsecond : program.EnsuresAmid handler fails second state) :
    program.EnsuresAmid handler fails
      (fun value final => first value final ∧ second value final) state := by
  induction program generalizing state with
  | done value => exact ⟨hfirst, hsecond⟩
  | call operation next ih =>
    constructor
    · intro env reply after hcall
      exact ih reply (hfirst.1 env reply after hcall) (hsecond.1 env reply after hcall)
    · intro fault reply after hfails
      exact ih reply (hfirst.2 fault reply after hfails) (hsecond.2 fault reply after hfails)

theorem ensuresAmid_bind {post : β → S → Prop} :
    (program >>= rest).EnsuresAmid handler fails post state ↔
      program.EnsuresAmid handler fails
        (fun value middle => (rest value).EnsuresAmid handler fails post middle) state := by
  induction program generalizing state with
  | done value => rfl
  | call operation next ih =>
    refine and_congr ?_ ?_
    · exact forall_congr' fun env => forall_congr' fun reply => forall_congr' fun after =>
        forall_congr' fun _ => ih reply
    · exact forall_congr' fun fault => forall_congr' fun reply => forall_congr' fun after =>
        forall_congr' fun _ => ih reply

theorem Only.ensuresAmid {allowed : ∀ β : Type, E β → Prop} (h : program.Only allowed)
    {holds : S → Prop}
    (hcall : ∀ {β : Type} {env : Env} {operation : E β} {state after : S} {reply : β},
      allowed _ operation → handler _ env operation state = some (reply, after) → holds state →
      holds after)
    (hfails : ∀ {β : Type} {fault : F} {operation : E β} {state after : S} {reply : β},
      allowed _ operation → fails _ fault operation state reply after → holds state → holds after)
    (hstate : holds state) :
    program.EnsuresAmid handler fails (fun _ after => holds after) state := by
  induction program generalizing state with
  | done value => exact hstate
  | call operation next ih =>
    constructor
    · intro env reply after hreply
      exact ih reply (h.2 reply) (hcall h.1 hreply hstate)
    · intro fault reply after hreply
      exact ih reply (h.2 reply) (hfails h.1 hreply hstate)

/-! ### At least one fault -/

variable (handler fails) in
/-- A run in which some call goes wrong. -/
inductive RunsFaulty : Program E α → S → α → S → Prop
  | here {β : Type} {operation : E β} {next : β → Program E α} {state after final : S} {reply : β}
      {value : α} (fault : F) (hfails : fails _ fault operation state reply after)
      (hrest : RunsAmid handler fails (next reply) after value final) :
      RunsFaulty (.call operation next) state value final
  | later {β : Type} {operation : E β} {next : β → Program E α} {state after final : S} {reply : β}
      {value : α} (env : Env) (hcall : handler _ env operation state = some (reply, after))
      (hrest : RunsFaulty (next reply) after value final) :
      RunsFaulty (.call operation next) state value final

variable (handler fails) in
/-- A run in which some call goes wrong does not return outside `post`. -/
def EnsuresFaulty (post : α → S → Prop) : Program E α → S → Prop
  | .done _, _ => True
  | .call operation next, state =>
    (∀ env reply after, handler _ env operation state = some (reply, after) →
      (next reply).EnsuresFaulty post after) ∧
    ∀ fault reply after, fails _ fault operation state reply after →
      (next reply).EnsuresAmid handler fails post after

theorem EnsuresFaulty.of_runs {post : α → S → Prop}
    (h : program.EnsuresFaulty handler fails post state)
    (hruns : RunsFaulty handler fails program state value final) : post value final := by
  induction hruns with
  | here fault hfails hrest => exact EnsuresAmid.of_runs (h.2 fault _ _ hfails) hrest
  | later env hcall _ ih => exact ih (h.1 env _ _ hcall)

theorem EnsuresFaulty.mono {post : α → S → Prop}
    (h : program.EnsuresFaulty handler fails post state)
    (himp : ∀ value final, post value final → weaker value final) :
    program.EnsuresFaulty handler fails weaker state := by
  induction program generalizing state with
  | done value => trivial
  | call operation next ih =>
    constructor
    · intro env reply after hcall
      exact ih reply (h.1 env reply after hcall)
    · intro fault reply after hfails
      exact EnsuresAmid.mono (h.2 fault reply after hfails) himp

theorem EnsuresAmid.of_calm {post : α → S → Prop} (hcalm : program.Ensures handler post state)
    (hfaulty : program.EnsuresFaulty handler fails post state) :
    program.EnsuresAmid handler fails post state := by
  induction program generalizing state with
  | done value => exact hcalm
  | call operation next ih =>
    constructor
    · intro env reply after hcall
      exact ih reply (hcalm env reply after hcall) (hfaulty.1 env reply after hcall)
    · intro fault reply after hfails
      exact hfaulty.2 fault reply after hfails

theorem EnsuresAmid.calm {post : α → S → Prop} (h : program.EnsuresAmid handler fails post state) :
    program.Ensures handler post state := by
  induction program generalizing state with
  | done value => exact h
  | call operation next ih =>
    intro env reply after hcall
    exact ih reply (h.1 env reply after hcall)

theorem EnsuresAmid.faulty {post : α → S → Prop} (h : program.EnsuresAmid handler fails post state) :
    program.EnsuresFaulty handler fails post state := by
  induction program generalizing state with
  | done value => trivial
  | call operation next ih =>
    exact ⟨fun env reply after hcall => ih reply (h.1 env reply after hcall), h.2⟩

theorem EnsuresFaulty.and (hfirst : program.EnsuresFaulty handler fails first state)
    (hsecond : program.EnsuresFaulty handler fails second state) :
    program.EnsuresFaulty handler fails
      (fun value final => first value final ∧ second value final) state := by
  induction program generalizing state with
  | done value => trivial
  | call operation next ih =>
    constructor
    · intro env reply after hcall
      exact ih reply (hfirst.1 env reply after hcall) (hsecond.1 env reply after hcall)
    · intro fault reply after hfails
      exact EnsuresAmid.and (hfirst.2 fault reply after hfails) (hsecond.2 fault reply after hfails)

theorem ensuresFaulty_bind {post : β → S → Prop} (hfaulty : program.EnsuresFaulty handler fails
      (fun value middle => (rest value).EnsuresAmid handler fails post middle) state)
    (hcalm : program.Ensures handler
      (fun value middle => (rest value).EnsuresFaulty handler fails post middle) state) :
    (program >>= rest).EnsuresFaulty handler fails post state := by
  induction program generalizing state with
  | done value => exact hcalm
  | call operation next ih =>
    constructor
    · intro env reply after hcall
      exact ih reply (hfaulty.1 env reply after hcall) (hcalm env reply after hcall)
    · intro fault reply after hfails
      exact ensuresAmid_bind.mpr (hfaulty.2 fault reply after hfails)

end Program

end FsServer.Lib
