import FsServer.Lib.Interleaving

/-!
# Programs among others

Rely and guarantee for any number of tasks that all keep to one relation between the states: every
step of every task is in it, and what a task counts on is not lost by steps in it. A program is judged
alone, with steps of the relation put in before each of its calls, and the judgement then holds of it
in every interleaving.
-/

namespace FsServer.Lib

variable {E : Type → Type} {Env S T C R α β : Type}

namespace Program

variable (handler : Handler Env E S) (rely : S → S → Prop)

/-- Among steps in `rely` every call of the program is a step in `rely`, and the program does not
return outside `post`. -/
def Among (post : α → S → Prop) : Program E α → S → Prop
  | .done value, state => ∀ later, rely state later → post value later
  | .call operation next, state => ∀ later, rely state later → ∀ env reply after,
      handler _ env operation later = some (reply, after) →
        rely later after ∧ (next reply).Among post after

variable {handler} {rely} {post : α → S → Prop} {state : S}

variable {value : α}

theorem among_done (h : ∀ later, rely state later → post value later) :
    (done value : Program E α).Among handler rely post state := h

variable {operation : E β} {next : β → Program E α}

theorem among_call (h : ∀ later, rely state later → ∀ env reply after,
      handler _ env operation later = some (reply, after) →
        rely later after ∧ (next reply).Among handler rely post after) :
    (call operation next).Among handler rely post state := h

theorem Among.of_done (h : (done value : Program E α).Among handler rely post state) :
    ∀ later, rely state later → post value later := h

theorem Among.of_call (h : (call operation next).Among handler rely post state) :
    ∀ later, rely state later → ∀ env reply after,
      handler _ env operation later = some (reply, after) →
        rely later after ∧ (next reply).Among handler rely post after := h

theorem Among.later {program : Program E α} {later : S}
    (h : program.Among handler rely post state) (hlater : rely state later)
    (htrans : ∀ {first second third}, rely first second → rely second third → rely first third) :
    program.Among handler rely post later := by
  cases program with
  | done value => exact fun last hlast => h last (htrans hlater hlast)
  | call operation next => exact fun last hlast => h last (htrans hlater hlast)

theorem Among.mono {weaker : α → S → Prop} {program : Program E α}
    (h : program.Among handler rely post state)
    (himp : ∀ value final, post value final → weaker value final) :
    program.Among handler rely weaker state := by
  induction program generalizing state with
  | done value => exact fun later hlater => himp value later (h later hlater)
  | call operation next ih =>
    intro later hlater env reply after hcall
    obtain ⟨hstep, hrest⟩ := h later hlater env reply after hcall
    exact ⟨hstep, ih reply hrest⟩

theorem Among.tracks {program : Program E α}
    (h : program.Among handler rely post state)
    (htrans : ∀ {first second third}, rely first second → rely second third → rely first third) :
    program.Among handler rely (fun value final => rely state final ∧ post value final) state := by
  induction program generalizing state with
  | done value => exact fun later hlater => ⟨hlater, h later hlater⟩
  | call operation next ih =>
    intro later hlater env reply after hcall
    obtain ⟨hstep, hrest⟩ := h later hlater env reply after hcall
    refine ⟨hstep, (ih reply hrest).mono fun value final hfinal => ⟨?_, hfinal.2⟩⟩
    exact htrans (htrans hlater hstep) hfinal.1

theorem among_bind (hrefl : ∀ state, rely state state) {post : β → S → Prop}
    {program : Program E α} {rest : α → Program E β}
    (h : program.Among handler rely (fun value middle => (rest value).Among handler rely post middle)
      state) : (program >>= rest).Among handler rely post state := by
  induction program generalizing state with
  | done value => exact h state (hrefl state)
  | call operation next ih =>
    intro later hlater env reply after hcall
    obtain ⟨hstep, hrest⟩ := h later hlater env reply after hcall
    exact ⟨hstep, ih reply hrest⟩

end Program

open Program

variable [DecidableEq T] {handler : Handler Env E S} {rely : S → S → Prop}
  {program : C → Program E R} {post : C → R → S → Prop} {config after : Config E S T C R}

/-- Every call in progress keeps to the relation. -/
def Config.Among (handler : Handler Env E S) (rely : S → S → Prop) (post : C → R → S → Prop)
    (config : Config E S T C R) : Prop :=
  config.Each fun call rest state => rest.Among handler rely (post call) state

section Rules

variable (hrefl : ∀ state, rely state state)
  (htrans : ∀ {first second third}, rely first second → rely second third → rely first third)

include hrefl htrans

theorem Config.Among.move (h : config.Among handler rely post) {label : Label T C R}
    (hmove : Move handler program config label after)
    (hstart : ∀ task call, label = .start task call →
      (program call).Among handler rely (post call) config.shared) :
    rely config.shared after.shared ∧ after.Among handler rely post := by
  have hstep : ∀ {task call left}, config.Steps handler task call left after.shared →
      rely config.shared after.shared ∧ left.Among handler rely (post call) after.shared := by
    rintro task call left ⟨β, operation, next, env, reply, hcurrent, hcall, rfl⟩
    exact (h task call _ hcurrent).of_call _ (hrefl _) env reply _ hcall
  constructor
  · rcases hmove.shared with hshared | ⟨task, call, left, -, hsteps⟩
    · rw [hshared]
      exact hrefl _
    · exact (hstep hsteps).1
  · refine Config.Each.move h hmove hstart fun task call left _ hsteps => ?_
    refine ⟨(hstep hsteps).2, fun other call' rest hworking => ?_⟩
    exact (h other call' rest hworking).later (hstep hsteps).1 htrans

/-- In every interleaving whose calls start in states that suit them, all keep to the relation. -/
theorem Trace.among {allowed : Config E S T C R → Label T C R → Prop} {last : Config E S T C R}
    {labels : List (Label T C R)}
    (htrace : Trace (fun config label after => allowed config label ∧
      Move handler program config label after) config labels last)
    (h : config.Among handler rely post)
    (hstart : ∀ {state task call}, rely config.shared state.shared →
      allowed state (.start task call) →
      (program call).Among handler rely (post call) state.shared) :
    rely config.shared last.shared ∧ last.Among handler rely post := by
  induction htrace with
  | nil => exact ⟨hrefl _, h⟩
  | snoc _ hlast ih =>
    obtain ⟨hpast, hamong⟩ := ih
    obtain ⟨hstep, hafter⟩ := hamong.move hrefl htrans hlast.2 fun task call hlabel => by
      rw [hlabel] at hlast
      exact hstart hpast hlast.1
    exact ⟨htrans hpast hstep, hafter⟩

omit htrans in
/-- A call that finishes does so inside its `post`. -/
theorem Config.Among.finish (h : config.Among handler rely post) {task : T} {call : C} {result : R}
    (hmove : Move handler program config (.finish task call result) after) :
    post call result config.shared := by
  cases hmove with
  | finish hworking => exact (h task call _ hworking).of_done _ (hrefl _)

end Rules

end FsServer.Lib
