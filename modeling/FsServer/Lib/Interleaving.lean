import FsServer.Lib.Program
import Mathlib.Data.Set.Finite.Basic

/-!
# Interleaved programs

Any number of tasks work on one state, each of them in a call whose program goes on by one call of the
signature at a time. A trace is a list of labels: a task starts a call, takes a step, or finishes with
a result.
-/

namespace FsServer.Lib

open Program

inductive Trace {Z : Type 1} {L : Type} (step : Z → L → Z → Prop) (start : Z) : List L → Z → Prop
  | nil : Trace step start [] start
  | snoc {labels : List L} {state after : Z} {label : L} (hpast : Trace step start labels state)
      (hstep : step state label after) : Trace step start (labels ++ [label]) after

variable {Z : Type 1} {L : Type} {step : Z → L → Z → Prop} {start : Z}

theorem Trace.invariant {state : Z} {labels : List L} (h : Trace step start labels state)
    (holds : Z → Prop) (hstart : holds start)
    (hstep : ∀ {state label after}, holds state → step state label after → holds after) :
    holds state := by
  induction h with
  | nil => exact hstart
  | snoc _ hlast ih => exact hstep ih hlast

theorem Trace.of_snoc {after : Z} {labels : List L} {label : L}
    (h : Trace step start (labels ++ [label]) after) :
    ∃ state, Trace step start labels state ∧ step state label after := by
  generalize hall : labels ++ [label] = all at h
  cases h with
  | nil => simp at hall
  | snoc hpast hstep =>
    obtain ⟨rfl, rfl⟩ := List.append_singleton_inj.mp hall
    exact ⟨_, hpast, hstep⟩

variable {E : Type → Type} {Env S T C R : Type}

inductive Task (E : Type → Type) (C R : Type) : Type 1 where
  | idle
  | working (call : C) (rest : Program E R)

structure Config (E : Type → Type) (S T C R : Type) : Type 1 where
  shared : S
  task : T → Task E C R

inductive Label (T C R : Type) where
  | start (task : T) (call : C)
  | step (task : T)
  | finish (task : T) (call : C) (result : R)

theorem Config.idle_of_not_working {config : Config E S T C R} {task : T}
    (h : ∀ call rest, config.task task ≠ .working call rest) : config.task task = .idle := by
  cases htask : config.task task with
  | idle => rfl
  | working busy rest => exact absurd htask (h busy rest)

variable [DecidableEq T]

namespace Config

def next (config : Config E S T C R) (task : T) (state : Task E C R) (shared : S) :
    Config E S T C R where
  shared := shared
  task := Function.update config.task task state

variable (config : Config E S T C R) (task : T) (state : Task E C R) (shared : S)

@[simp]
theorem next_shared : (config.next task state shared).shared = shared := rfl

@[simp]
theorem next_task_self : (config.next task state shared).task task = state :=
  Function.update_self ..

theorem next_next (state' : Task E C R) (shared' : S) :
    (config.next task state shared).next task state' shared' = config.next task state' shared' := by
  unfold next
  rw [Function.update_idem]

theorem next_self {config : Config E S T C R} {task : T} {state : Task E C R}
    (h : config.task task = state) : config.next task state config.shared = config := by
  subst h
  unfold next
  rw [Function.update_eq_self]

theorem next_task_of_ne {other : T} (h : other ≠ task) :
    (config.next task state shared).task other = config.task other := Function.update_of_ne h ..

variable {config task state shared} in
theorem of_next_working {other : T} {call : C} {rest : Program E R}
    (h : (config.next task state shared).task other = .working call rest) :
    (other = task ∧ state = .working call rest) ∨
      (other ≠ task ∧ config.task other = .working call rest) := by
  by_cases heq : other = task
  · rw [heq, next_task_self] at h
    exact .inl ⟨heq, h⟩
  · rw [next_task_of_ne _ _ _ _ heq] at h
    exact .inr ⟨heq, h⟩

end Config

/-- One step of one task. -/
inductive Move (handler : Handler Env E S) (program : C → Program E R) :
    Config E S T C R → Label T C R → Config E S T C R → Prop
  | start {config : Config E S T C R} {task : T} {call : C} (hidle : config.task task = .idle) :
      Move handler program config (.start task call)
        (config.next task (.working call (program call)) config.shared)
  | step {config : Config E S T C R} {task : T} {call : C} {β : Type} {operation : E β}
      {next : β → Program E R} {reply : β} {after : S} (env : Env)
      (hworking : config.task task = .working call (.call operation next))
      (hcall : handler _ env operation config.shared = some (reply, after)) :
      Move handler program config (.step task) (config.next task (.working call (next reply)) after)
  | finish {config : Config E S T C R} {task : T} {call : C} {result : R}
      (hworking : config.task task = .working call (.done result)) :
      Move handler program config (.finish task call result) (config.next task .idle config.shared)

variable {label : Label T C R}

def Label.task : Label T C R → T
  | .start task _ | .step task | .finish task _ _ => task

section Cases

variable {handler : Handler Env E S} {program : C → Program E R} {config after : Config E S T C R}
  {task : T} {call : C} {rest : Program E R}

variable (handler) in
def Config.Steps (config : Config E S T C R) (task : T) (call : C) (left : Program E R) (after : S) :
    Prop :=
  ∃ (β : Type) (operation : E β) (next : β → Program E R) (env : Env) (reply : β),
    config.task task = .working call (.call operation next) ∧
    handler _ env operation config.shared = some (reply, after) ∧ left = next reply

theorem Move.working (h : Move handler program config label after)
    (hworking : after.task task = .working call rest) :
    (label = .start task call ∧ rest = program call ∧ after.shared = config.shared) ∨
    (label = .step task ∧ config.Steps handler task call rest after.shared) ∨
    (label.task ≠ task ∧ config.task task = .working call rest) := by
  cases h with
  | start hidle =>
    rcases Config.of_next_working hworking with ⟨rfl, hstate⟩ | ⟨hne, hbefore⟩
    · cases hstate
      exact .inl ⟨rfl, rfl, rfl⟩
    · exact .inr (.inr ⟨hne.symm, hbefore⟩)
  | step env hcurrent hcall =>
    rcases Config.of_next_working hworking with ⟨rfl, hstate⟩ | ⟨hne, hbefore⟩
    · cases hstate
      exact .inr (.inl ⟨rfl, _, _, _, env, _, hcurrent, hcall, rfl⟩)
    · exact .inr (.inr ⟨hne.symm, hbefore⟩)
  | finish hcurrent =>
    rcases Config.of_next_working hworking with ⟨rfl, hstate⟩ | ⟨hne, hbefore⟩
    · cases hstate
    · exact .inr (.inr ⟨hne.symm, hbefore⟩)

theorem Move.onward (h : Move handler program config label after)
    (hworking : config.task task = .working call rest) :
    (label.task ≠ task ∧ after.task task = .working call rest) ∨
    (label = .step task ∧ ∃ left, config.Steps handler task call left after.shared ∧
      after.task task = .working call left) ∨
    ∃ result, label = .finish task call result ∧ rest = .done result := by
  cases h with
  | @start starter started hidle =>
    have hne : task ≠ starter := by
      rintro rfl
      rw [hworking] at hidle
      cases hidle
    exact .inl ⟨hne.symm, (Config.next_task_of_ne _ _ _ _ hne).trans hworking⟩
  | @step stepper current β operation next reply final env hcurrent hcall =>
    by_cases heq : task = stepper
    · subst heq
      rw [hworking] at hcurrent
      cases hcurrent
      exact .inr (.inl ⟨rfl, next reply, ⟨_, _, next, env, reply, hworking, hcall, rfl⟩,
        Config.next_task_self ..⟩)
    · exact .inl ⟨Ne.symm heq, (Config.next_task_of_ne _ _ _ _ heq).trans hworking⟩
  | @finish finisher finished result hcurrent =>
    by_cases heq : task = finisher
    · subst heq
      rw [hworking] at hcurrent
      cases hcurrent
      exact .inr (.inr ⟨result, rfl, rfl⟩)
    · exact .inl ⟨Ne.symm heq, (Config.next_task_of_ne _ _ _ _ heq).trans hworking⟩

theorem Move.shared (h : Move handler program config label after) :
    after.shared = config.shared ∨ ∃ task call left, label = .step task ∧
      config.Steps handler task call left after.shared := by
  cases h with
  | start hidle => exact .inl rfl
  | step env hcurrent hcall =>
    exact .inr ⟨_, _, _, rfl, _, _, _, env, _, hcurrent, hcall, rfl⟩
  | finish hcurrent => exact .inl rfl

end Cases

theorem Move.others {handler : Handler Env E S} {program : C → Program E R}
    {config after : Config E S T C R} (h : Move handler program config label after) :
    ∃ task, ∀ other, other ≠ task → after.task other = config.task other := by
  cases h with
  | @start task => exact ⟨task, fun other hne => Config.next_task_of_ne _ _ _ _ hne⟩
  | @step task => exact ⟨task, fun other hne => Config.next_task_of_ne _ _ _ _ hne⟩
  | @finish task => exact ⟨task, fun other hne => Config.next_task_of_ne _ _ _ _ hne⟩

variable {labels : List (Label T C R)}

theorem Trace.finite_working {handler : Handler Env E S} {program : C → Program E R}
    {start last : Config E S T C R} (htrace : Trace (Move handler program) start labels last)
    (hidle : ∀ task, start.task task = .idle) : {task | last.task task ≠ .idle}.Finite := by
  induction htrace with
  | nil =>
    refine Set.finite_empty.subset fun task hbusy => ?_
    exact hbusy (hidle task)
  | snoc _ hmove ih =>
    obtain ⟨task, hothers⟩ := hmove.others
    refine (ih.insert task).subset fun other hbusy => ?_
    by_cases heq : other = task
    · exact .inl heq
    · refine .inr ?_
      rw [Set.mem_ofPred_eq, hothers other heq] at hbusy
      exact hbusy

theorem Trace.mono {wider : Z → L → Z → Prop} {last : Z} {labels : List L}
    (h : Trace step start labels last)
    (himp : ∀ {state label after}, step state label after → wider state label after) :
    Trace wider start labels last := by
  induction h with
  | nil => exact .nil
  | snoc _ hstep ih => exact ih.snoc (himp hstep)

theorem Trace.append {middle last : Z} {first second : List L}
    (hfirst : Trace step start first middle) (hsecond : Trace step middle second last) :
    Trace step start (first ++ second) last := by
  induction hsecond with
  | nil =>
    rw [List.append_nil]
    exact hfirst
  | snoc _ hstep ih =>
    rw [← List.append_assoc]
    exact ih.snoc hstep

theorem Trace.of_forall_mem {holds : L → Prop} {last : Z} {labels : List L}
    (h : Trace step start labels last) (hlabels : ∀ label ∈ labels, holds label) :
    Trace (fun state label after => holds label ∧ step state label after) start labels last := by
  induction h with
  | nil => exact .nil
  | snoc _ hstep ih =>
    refine (ih fun label hmem => hlabels label (List.mem_append_left _ hmem)).snoc ⟨?_, hstep⟩
    exact hlabels _ (List.mem_append_right _ (List.mem_singleton_self _))

variable {rest : Program E R}

theorem Trace.start_mem {handler : Handler Env E S} {program : C → Program E R}
    {allowed : Config E S T C R → Label T C R → Prop} {start config : Config E S T C R} {task : T}
    {call : C} (htrace : Trace (fun config label after => allowed config label ∧
      Move handler program config label after) start labels config)
    (hidle : ∀ task, start.task task = .idle) (hworking : config.task task = .working call rest) :
    .start task call ∈ labels := by
  induction htrace generalizing rest with
  | nil =>
    rw [hidle task] at hworking
    cases hworking
  | snoc _ hlast ih =>
    rw [List.mem_append, List.mem_singleton]
    rcases hlast.2.working hworking with ⟨hlabel, -⟩ | ⟨-, _, _, _, _, _, hcurrent, -⟩ | ⟨-, hbefore⟩
    · exact .inr hlabel.symm
    · exact .inl (ih hcurrent)
    · exact .inl (ih hbefore)

/-- One call of a task, followed up to a moment before it finishes. -/
theorem Trace.follow {handler : Handler Env E S} {program : C → Program E R}
    {holds : Program E R → Prop} {start last : Config E S T C R} {task : T} {call : C}
    (htrace : Trace (Move handler program) start labels last)
    (hlabels : ∀ result, .finish task call result ∉ labels)
    (hworking : start.task task = .working call rest) (hrest : holds rest)
    (hown : ∀ {β : Type} {operation : E β} {next : β → Program E R} (reply : β),
      holds (.call operation next) → holds (next reply)) :
    ∃ rest, last.task task = .working call rest ∧ holds rest := by
  induction htrace with
  | nil => exact ⟨rest, hworking, hrest⟩
  | snoc _ hlast ih =>
    obtain ⟨rest, hworking, hrest⟩ :=
      ih fun result hmem => hlabels result (List.mem_append_left _ hmem)
    rcases hlast.onward hworking with ⟨-, hstill⟩ | ⟨-, left, hsteps, hleft⟩ | ⟨result, rfl, -⟩
    · exact ⟨rest, hstill, hrest⟩
    · obtain ⟨β, operation, next, env, reply, hcurrent, -, rfl⟩ := hsteps
      rw [hworking] at hcurrent
      cases hcurrent
      exact ⟨next reply, hleft, hown reply hrest⟩
    · exact absurd (List.mem_append_right _ (List.mem_singleton_self _)) (hlabels result)

variable {final : S}

section Solo

variable {handler : Handler Env E S} {allowed : Config E S T C R → Label T C R → Prop} {result : R}

variable (allowed) (program : C → Program E R) (config : Config E S T C R) (task : T) (call : C) in
theorem Trace.of_rest {state : S}
    (hstep : ∀ rest state, allowed (config.next task (.working call rest) state) (.step task))
    (hfinish : ∀ rest state,
      allowed (config.next task (.working call rest) state) (.finish task call result))
    (hruns : Runs handler rest state result final) :
    ∃ steps, Trace (fun config label after => allowed config label ∧
        Move handler program config label after) (config.next task (.working call rest) state)
      (List.replicate steps (.step task) ++ [.finish task call result])
      (config.next task .idle final) := by
  induction hruns with
  | done value state =>
    have hmove : Move handler program (config.next task (.working call (.done value)) state)
        (.finish task call value) _ := .finish (config.next_task_self ..)
    rw [Config.next_next] at hmove
    exact ⟨0, Trace.nil.snoc ⟨hfinish _ _, hmove⟩⟩
  | @call β operation next state after final reply value env hcall hrest ih =>
    obtain ⟨steps, hlabels⟩ := ih hfinish
    have hmove : Move handler program
        (config.next task (.working call (.call operation next)) state) (.step task) _ :=
      .step env (config.next_task_self ..) hcall
    rw [Config.next_next] at hmove
    exact ⟨steps + 1, (Trace.nil.snoc ⟨hstep _ _, hmove⟩).append hlabels⟩

variable (allowed) in
theorem Trace.of_call {program : C → Program E R} {config : Config E S T C R} {task : T} {call : C}
    (hidle : config.task task = .idle) (hstart : allowed config (.start task call))
    (hstep : ∀ rest state, allowed (config.next task (.working call rest) state) (.step task))
    (hfinish : ∀ rest state,
      allowed (config.next task (.working call rest) state) (.finish task call result))
    (hruns : Runs handler (program call) config.shared result final) :
    ∃ steps, Trace (fun config label after => allowed config label ∧
        Move handler program config label after) config
      (.start task call :: (List.replicate steps (.step task) ++ [.finish task call result]))
      (config.next task .idle final) := by
  obtain ⟨steps, htrace⟩ := Trace.of_rest allowed program config task call hstep hfinish hruns
  exact ⟨steps, (Trace.nil.snoc ⟨hstart, Move.start hidle⟩).append htrace⟩

theorem Trace.of_call_move {program : C → Program E R} {config : Config E S T C R} {task : T}
    {call : C} (hidle : config.task task = .idle)
    (hruns : Runs handler (program call) config.shared result final) :
    ∃ steps, Trace (Move handler program) config
      (.start task call :: (List.replicate steps (.step task) ++ [.finish task call result]))
      (config.next task .idle final) := by
  obtain ⟨steps, htrace⟩ := Trace.of_call (fun _ _ => True) hidle trivial (fun _ _ => trivial)
    (fun _ _ => trivial) hruns
  exact ⟨steps, htrace.mono And.right⟩

end Solo

/-! ### What holds of every call in progress -/

/-- Every call in progress meets `holds`, with what is left of it and the state. -/
def Config.Each (holds : C → Program E R → S → Prop) (config : Config E S T C R) : Prop :=
  ∀ task call rest, config.task task = .working call rest → holds call rest config.shared

variable {holds : C → Program E R → S → Prop}

omit [DecidableEq T] in
theorem Config.Each.of_idle {config : Config E S T C R} (h : ∀ task, config.task task = .idle) :
    config.Each holds := by
  intro task call rest hworking
  rw [h task] at hworking
  cases hworking

/-- A call that starts has to meet it, and a step of one call has to keep it for all. -/
theorem Config.Each.move {handler : Handler Env E S} {program : C → Program E R}
    {config after : Config E S T C R} (h : config.Each holds)
    (hmove : Move handler program config label after)
    (hstart : ∀ task call, label = .start task call → holds call (program call) config.shared)
    (hstep : ∀ task call left, label = .step task →
      config.Steps handler task call left after.shared →
      holds call left after.shared ∧ ∀ other call' rest, config.task other = .working call' rest →
        holds call' rest after.shared) : after.Each holds := by
  intro task call rest hworking
  rcases hmove.working hworking with ⟨hlabel, rfl, hshared⟩ | ⟨hlabel, hsteps⟩ | ⟨-, hbefore⟩
  · rw [hshared]
    exact hstart task call hlabel
  · exact (hstep task call rest hlabel hsteps).1
  · rcases hmove.shared with hshared | ⟨stepper, current, left, hlabel, hsteps⟩
    · rw [hshared]
      exact h task call rest hbefore
    · exact (hstep stepper current left hlabel hsteps).2 task call rest hbefore

/-! ### Calls that work alone -/

/-- A call with `ends` starts in a state that meets `pre` and while no call is in progress, and none
starts while it is in progress. -/
def Alone (ends : C → Prop) (pre : C → S → Prop) (config : Config E S T C R) : Label T C R → Prop
  | .start _ started =>
    (∀ task other rest, config.task task = .working other rest →
      ¬ ends other ∧ ¬ ends started) ∧ (ends started → pre started config.shared)
  | _ => True

section Alone

variable {handler : Handler Env E S} {program : C → Program E R} {ends : C → Prop}
  {pre : C → S → Prop} {post : C → R → S → Prop} {config after : Config E S T C R}

/-- What holds while a call with `ends` is in progress: the others are idle, and what is left of it
leads to `post`. -/
def Config.Exclusive (handler : Handler Env E S) (ends : C → Prop) (post : C → R → S → Prop)
    (config : Config E S T C R) : Prop :=
  ∀ task call rest, config.task task = .working call rest → ends call →
    (∀ other, other ≠ task → config.task other = .idle) ∧
      rest.Ensures handler (post call) config.shared

omit [DecidableEq T] in
theorem Config.Exclusive.of_idle (h : ∀ task, config.task task = .idle) :
    config.Exclusive handler ends post := by
  intro task call rest hworking
  rw [h task] at hworking
  cases hworking

theorem Config.Exclusive.move (h : config.Exclusive handler ends post)
    (hspec : ∀ call state, ends call → pre call state →
      (program call).Ensures handler (post call) state) (halone : Alone ends pre config label)
    (hmove : Move handler program config label after) : after.Exclusive handler ends post := by
  intro task call rest hworking hends
  cases hmove with
  | start hidle =>
    rcases Config.of_next_working hworking with ⟨rfl, hstate⟩ | ⟨-, hbefore⟩
    · cases hstate
      refine ⟨fun other hother => ?_, hspec _ _ hends (halone.2 hends)⟩
      rw [Config.next_task_of_ne _ _ _ _ hother]
      exact idle_of_not_working fun busy left hbusy =>
        (halone.1 other busy left hbusy).2 hends
    · exact absurd hends (halone.1 task call rest hbefore).1
  | step env hcurrent hcall =>
    rcases Config.of_next_working hworking with ⟨rfl, hstate⟩ | ⟨hne, hbefore⟩
    · cases hstate
      obtain ⟨hothers, hrest⟩ := h task _ _ hcurrent hends
      refine ⟨fun other hother => ?_, hrest env _ _ hcall⟩
      rw [Config.next_task_of_ne _ _ _ _ hother]
      exact hothers other hother
    · have hidle := (h task call rest hbefore hends).1 _ hne.symm
      rw [hcurrent] at hidle
      cases hidle
  | finish hcurrent =>
    rcases Config.of_next_working hworking with ⟨rfl, hstate⟩ | ⟨hne, hbefore⟩
    · cases hstate
    · have hidle := (h task call rest hbefore hends).1 _ hne.symm
      rw [hcurrent] at hidle
      cases hidle

/-- A call that works alone comes to the end it comes to when it is run alone. -/
theorem Trace.alone {start : Config E S T C R} {task : T} {call : C} {result : R}
    (htrace : Trace (fun config label after => Alone ends pre config label ∧
      Move handler program config label after) start (labels ++ [.finish task call result]) after)
    (hidle : ∀ task, start.task task = .idle) (hspec : ∀ call state, ends call → pre call state →
      (program call).Ensures handler (post call) state) (hends : ends call) :
    (∀ task, after.task task = .idle) ∧ post call result after.shared := by
  obtain ⟨config, hpast, -, hmove⟩ := htrace.of_snoc
  have hexclusive : config.Exclusive handler ends post :=
    hpast.invariant _ (Config.Exclusive.of_idle hidle) fun h hstep => h.move hspec hstep.1 hstep.2
  cases hmove with
  | finish hworking =>
    obtain ⟨hothers, hpost⟩ := hexclusive task call _ hworking hends
    refine ⟨fun other => ?_, hpost⟩
    by_cases heq : other = task
    · rw [heq, Config.next_task_self]
    · rw [Config.next_task_of_ne _ _ _ _ heq]
      exact hothers other heq

variable {task : T} {call : C} {result : R}

theorem Trace.of_runs (hidle : config.task task = .idle)
    (halone : Alone ends pre config (.start task call))
    (hruns : Runs handler (program call) config.shared result final) :
    ∃ labels, Trace (fun config label after => Alone ends pre config label ∧
        Move handler program config label after) config (labels ++ [.finish task call result])
      (config.next task .idle final) := by
  obtain ⟨steps, htrace⟩ := Trace.of_call (Alone ends pre) hidle halone (fun _ _ => trivial)
    (fun _ _ => trivial) hruns
  exact ⟨.start task call :: List.replicate steps (.step task), htrace⟩

end Alone

/-! ### Calls that change nothing -/

namespace Program

variable (handler : Handler Env E S)

/-- The program changes nothing and does not return outside `post`. -/
def Still (post : R → Prop) (state : S) : Program E R → Prop
  | .done value => post value
  | .call operation next =>
    ∀ env reply after, handler _ env operation state = some (reply, after) →
      after = state ∧ (next reply).Still post state

end Program

section Still

variable {handler : Handler Env E S} {program : C → Program E R} {post : R → Prop}
  {config last : Config E S T C R} {state : S}

/-- The state is this one and every call in progress is still. -/
structure Config.Settled (handler : Handler Env E S) (post : R → Prop) (state : S)
    (config : Config E S T C R) : Prop where
  shared : config.shared = state
  still : ∀ task call rest, config.task task = .working call rest → rest.Still handler post state

theorem Config.Settled.move (h : config.Settled handler post state)
    (hstill : ∀ call, (program call).Still handler post state)
    (hmove : Move handler program config label last) :
    last.Settled handler post state ∧
      ∀ task call result, label = .finish task call result → post result := by
  have hstep : ∀ {task call left}, config.Steps handler task call left last.shared →
      last.shared = state ∧ left.Still handler post state := by
    rintro task call left ⟨β, operation, next, env, reply, hcurrent, hcall, rfl⟩
    rw [h.shared] at hcall
    exact h.still task call _ hcurrent env reply _ hcall
  refine ⟨⟨?_, fun task call rest hworking => ?_⟩, ?_⟩
  · rcases hmove.shared with hshared | ⟨task, call, left, -, hsteps⟩
    · exact hshared.trans h.shared
    · exact (hstep hsteps).1
  · rcases hmove.working hworking with ⟨-, rfl, -⟩ | ⟨-, hsteps⟩ | ⟨-, hbefore⟩
    · exact hstill call
    · exact (hstep hsteps).2
    · exact h.still task call rest hbefore
  · rintro task call result rfl
    cases hmove with
    | finish hcurrent => exact h.still task call _ hcurrent

/-- Where every call is still, no interleaving of calls changes the state. -/
theorem Trace.still (htrace : Trace (Move handler program) config labels last)
    (hidle : ∀ task, config.task task = .idle)
    (hstill : ∀ call, (program call).Still handler post config.shared) :
    last.shared = config.shared ∧
      ∀ task call result, .finish task call result ∈ labels → post result := by
  have hsettled : last.Settled handler post config.shared ∧
      ∀ task call result, .finish task call result ∈ labels → post result := by
    induction htrace with
    | nil =>
      refine ⟨⟨rfl, fun task call rest hworking => ?_⟩, fun _ _ _ hmem => by cases hmem⟩
      rw [hidle task] at hworking
      cases hworking
    | snoc _ hlast ih =>
      obtain ⟨hnext, hresult⟩ := ih.1.move hstill hlast
      refine ⟨hnext, fun task call result hmem => ?_⟩
      rcases List.mem_append.mp hmem with hpast | hnow
      · exact ih.2 task call result hpast
      · exact hresult task call result (List.mem_singleton.mp hnow).symm
  exact ⟨hsettled.1.shared, hsettled.2⟩

end Still

end FsServer.Lib
