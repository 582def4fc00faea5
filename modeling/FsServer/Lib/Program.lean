import Mathlib.Logic.Function.Basic
import Mathlib.Data.List.Basic

/-!
# Programs over a signature of calls

A program either returns or performs one call and continues with its reply. The same program is run
alone (`run`), or step by step among others (`Interleaving`), so that a function is translated once
and its sequential and its concurrent behaviour are read off the same text. A call that cannot go
ahead in a state, such as taking a lock that is held, has no outcome there.
-/

namespace FsServer.Lib

variable {E : Type → Type} {Env S α β γ : Type}

/-- A program whose calls have signature `E`: a value of `E β` is a call with a reply in `β`. -/
inductive Program (E : Type → Type) (α : Type) : Type 1 where
  | done (value : α)
  | call {β : Type} (operation : E β) (next : β → Program E α)

namespace Program

def bind : Program E α → (α → Program E β) → Program E β
  | .done value, rest => rest value
  | .call operation next, rest => .call operation fun reply => (next reply).bind rest

instance : Monad (Program E) where
  pure := .done
  bind := .bind

def perform (operation : E α) : Program E α := .call operation .done

@[simp]
theorem pure_eq (value : α) : (pure value : Program E α) = .done value := rfl

@[simp]
theorem done_bind (value : α) (rest : α → Program E β) : (.done value >>= rest) = rest value := rfl

@[simp]
theorem call_bind (operation : E γ) (next : γ → Program E α) (rest : α → Program E β) :
    (call operation next >>= rest) = .call operation fun reply => next reply >>= rest := rfl

@[simp]
theorem perform_bind (operation : E α) (rest : α → Program E β) :
    (perform operation >>= rest) = .call operation rest := rfl

theorem bind_bind (program : Program E α) (next : α → Program E β) (rest : β → Program E γ) :
    (program >>= next) >>= rest = program >>= fun value => next value >>= rest := by
  induction program with
  | done value => rfl
  | call operation follow ih =>
    simp only [call_bind, ih]

end Program

/-- What a call does in a state: its reply and the next state, or nothing while it is blocked. -/
abbrev Handler (Env : Type) (E : Type → Type) (S : Type) :=
  ∀ β : Type, Env → E β → S → Option (β × S)

namespace Program

variable (handler : Handler Env E S)

def run (env : Env) : Program E α → S → Option (α × S)
  | .done value, state => some (value, state)
  | .call operation next, state =>
    (handler _ env operation state).bind fun outcome => (next outcome.1).run env outcome.2

@[simp]
theorem run_done (env : Env) (value : α) (state : S) :
    (done value : Program E α).run handler env state = some (value, state) := rfl

theorem run_call (env : Env) (operation : E β) (next : β → Program E α) (state : S) :
    (call operation next).run handler env state =
      (handler _ env operation state).bind
        fun outcome => (next outcome.1).run handler env outcome.2 := rfl

variable {env : Env} {state : S}

theorem run_call_some {operation : E β} {next : β → Program E α} {after : S} {reply : β}
    (hcall : handler _ env operation state = some (reply, after)) :
    (call operation next).run handler env state = (next reply).run handler env after := by
  rw [run_call, hcall]
  rfl

theorem run_bind (env : Env) (program : Program E α) (rest : α → Program E β) (state : S) :
    (program >>= rest).run handler env state =
      (program.run handler env state).bind
        fun outcome => (rest outcome.1).run handler env outcome.2 := by
  induction program generalizing state with
  | done value => rfl
  | call operation next ih =>
    rw [call_bind, run_call, run_call, Option.bind_assoc]
    exact Option.bind_congr fun outcome _ => ih outcome.1 outcome.2

/-- The program run alone, each call with an environment of its own. -/
inductive Runs : Program E α → S → α → S → Prop
  | done (value : α) (state : S) : Runs (.done value) state value state
  | call {β : Type} {operation : E β} {next : β → Program E α} {state after final : S} {reply : β}
      {value : α} (env : Env) (hcall : handler _ env operation state = some (reply, after))
      (hrest : Runs (next reply) after value final) :
      Runs (.call operation next) state value final

variable {program : Program E α}

variable {final : S} {value : α}

theorem runs_of_run (hrun : program.run handler env state = some (value, final)) :
    Runs handler program state value final := by
  induction program generalizing state with
  | done result =>
    rw [run_done, Option.some.injEq, Prod.mk.injEq] at hrun
    obtain ⟨rfl, rfl⟩ := hrun
    exact Runs.done _ _
  | call operation next ih =>
    rw [run_call] at hrun
    obtain ⟨⟨reply, after⟩, hcall, hrest⟩ := Option.bind_eq_some_iff.mp hrun
    exact Runs.call env hcall (ih reply hrest)

/-- Whatever the calls answer, the program does not return outside `post`. -/
def Ensures (post : α → S → Prop) : Program E α → S → Prop
  | .done value, state => post value state
  | .call operation next, state =>
    ∀ env reply after, handler _ env operation state = some (reply, after) →
      (next reply).Ensures post after

@[simp]
theorem ensures_done (post : α → S → Prop) (value : α) (state : S) :
    (done value : Program E α).Ensures handler post state ↔ post value state := Iff.rfl

theorem ensures_call (post : α → S → Prop) (operation : E β) (next : β → Program E α) (state : S) :
    (call operation next).Ensures handler post state ↔
      ∀ env reply after, handler _ env operation state = some (reply, after) →
        (next reply).Ensures handler post after := Iff.rfl

variable {post weaker : α → S → Prop}

theorem Ensures.mono (h : program.Ensures handler post state)
    (himp : ∀ value final, post value final → weaker value final) :
    program.Ensures handler weaker state := by
  induction program generalizing state with
  | done value => exact himp value state h
  | call operation next ih =>
    intro env reply after hcall
    exact ih reply (h env reply after hcall)

theorem Ensures.and {first second : α → S → Prop} (hfirst : program.Ensures handler first state)
    (hsecond : program.Ensures handler second state) :
    program.Ensures handler (fun value final => first value final ∧ second value final) state := by
  induction program generalizing state with
  | done value => exact ⟨hfirst, hsecond⟩
  | call operation next ih =>
    intro env reply after hcall
    exact ih reply (hfirst env reply after hcall) (hsecond env reply after hcall)

theorem Ensures.of_forall (h : ∀ value final, post value final) (program : Program E α) (state : S) :
    program.Ensures handler post state := by
  induction program generalizing state with
  | done value => exact h value state
  | call operation next ih =>
    intro env reply after _
    exact ih reply after

theorem ensures_bind (post : β → S → Prop) (program : Program E α) (rest : α → Program E β)
    (state : S) :
    (program >>= rest).Ensures handler post state ↔
      program.Ensures handler (fun value middle => (rest value).Ensures handler post middle)
        state := by
  induction program generalizing state with
  | done value => rfl
  | call operation next ih =>
    rw [call_bind, ensures_call, ensures_call]
    exact forall_congr' fun env => forall_congr' fun reply => forall_congr' fun after =>
      forall_congr' fun _ => ih reply after

theorem Ensures.of_runs (h : program.Ensures handler post state)
    (hruns : Runs handler program state value final) :
    post value final := by
  induction hruns with
  | done value state => exact h
  | call env hcall hrest ih => exact ih (h env _ _ hcall)

variable {narrower : Handler Env E S}

theorem Ensures.restrict (h : program.Ensures handler post state)
    (hsub : ∀ {β : Type} {env : Env} {operation : E β} {state : S} {outcome : β × S},
      narrower _ env operation state = some outcome →
        ∃ env, handler _ env operation state = some outcome) :
    program.Ensures narrower post state := by
  induction program generalizing state with
  | done value => exact h
  | call operation next ih =>
    intro env reply after hcall
    obtain ⟨env, hwider⟩ := hsub hcall
    exact ih reply (h env reply after hwider)

/-- Run alone in this environment the program does return, inside `post`. -/
def Returns (env : Env) (post : α → S → Prop) : Program E α → S → Prop
  | .done value, state => post value state
  | .call operation next, state =>
    ∃ reply after, handler _ env operation state = some (reply, after) ∧
      (next reply).Returns env post after

theorem returns_iff :
    program.Returns handler env post state ↔
      ∃ value final, program.run handler env state = some (value, final) ∧ post value final := by
  induction program generalizing state with
  | done value => simp [Returns]
  | call operation next ih =>
    rw [Returns]
    constructor
    · rintro ⟨reply, after, hcall, hnext⟩
      rw [run_call_some handler hcall]
      exact (ih reply).mp hnext
    · rintro ⟨value, final, hrun, hpost⟩
      rw [run_call] at hrun
      obtain ⟨⟨reply, after⟩, hcall, hrest⟩ := Option.bind_eq_some_iff.mp hrun
      exact ⟨reply, after, hcall, (ih reply).mpr ⟨value, final, hrest, hpost⟩⟩

@[simp]
theorem returns_done (env : Env) (post : α → S → Prop) (value : α) (state : S) :
    (done value : Program E α).Returns handler env post state ↔ post value state := Iff.rfl

theorem Returns.mono (h : program.Returns handler env post state)
    (himp : ∀ value final, post value final → weaker value final) :
    program.Returns handler env weaker state := by
  rw [returns_iff] at h ⊢
  obtain ⟨value, final, hrun, hpost⟩ := h
  exact ⟨value, final, hrun, himp value final hpost⟩

theorem returns_bind (env : Env) (post : β → S → Prop) (program : Program E α)
    (rest : α → Program E β) (state : S) :
    (program >>= rest).Returns handler env post state ↔
      program.Returns handler env
        (fun value middle => (rest value).Returns handler env post middle) state := by
  induction program generalizing state with
  | done value => rfl
  | call operation next ih =>
    rw [call_bind, Returns, Returns]
    exact exists_congr fun reply => exists_congr fun after => and_congr_right fun _ =>
      ih reply after

theorem Returns.runs (h : program.Returns handler env post state) :
    ∃ value final, Runs handler program state value final ∧ post value final := by
  obtain ⟨value, final, hrun, hpost⟩ := (returns_iff handler).mp h
  exact ⟨value, final, runs_of_run handler hrun, hpost⟩

/-- Whatever the calls answer, the program returns, inside `post`. -/
def Total (post : α → S → Prop) : Program E α → S → Prop
  | .done value, state => post value state
  | .call operation next, state =>
    ∀ env, ∃ reply after, handler _ env operation state = some (reply, after) ∧
      (next reply).Total post after

@[simp]
theorem total_done (post : α → S → Prop) (value : α) (state : S) :
    (done value : Program E α).Total handler post state ↔ post value state := Iff.rfl

theorem Total.mono (h : program.Total handler post state)
    (himp : ∀ value final, post value final → weaker value final) :
    program.Total handler weaker state := by
  induction program generalizing state with
  | done value => exact himp value state h
  | call operation next ih =>
    intro env
    obtain ⟨reply, after, hcall, hnext⟩ := h env
    exact ⟨reply, after, hcall, ih reply hnext⟩

theorem total_bind (post : β → S → Prop) (program : Program E α) (rest : α → Program E β)
    (state : S) :
    (program >>= rest).Total handler post state ↔
      program.Total handler (fun value middle => (rest value).Total handler post middle) state := by
  induction program generalizing state with
  | done value => rfl
  | call operation next ih =>
    rw [call_bind, Total, Total]
    exact forall_congr' fun env => exists_congr fun reply => exists_congr fun after =>
      and_congr_right fun _ => ih reply after

section

variable (h : program.Total handler post state)
include h

theorem Total.ensures : program.Ensures handler post state := by
  induction program generalizing state with
  | done value => exact h
  | call operation next ih =>
    intro env reply after hcall
    obtain ⟨answer, middle, hanswer, hnext⟩ := h env
    rw [hcall, Option.some.injEq, Prod.mk.injEq] at hanswer
    obtain ⟨rfl, rfl⟩ := hanswer
    exact ih _ hnext

theorem Total.and_ensures {more : α → S → Prop} (hmore : program.Ensures handler more state) :
    program.Total handler (fun value final => post value final ∧ more value final) state := by
  induction program generalizing state with
  | done value => exact ⟨h, hmore⟩
  | call operation next ih =>
    intro env
    obtain ⟨reply, after, hcall, hnext⟩ := h env
    exact ⟨reply, after, hcall, ih reply hnext (hmore env reply after hcall)⟩

theorem Total.restrict (hsub : ∀ env, ∃ wider, ∀ {β : Type} (operation : E β) (state : S),
      narrower _ env operation state = handler _ wider operation state) :
    program.Total narrower post state := by
  induction program generalizing state with
  | done value => exact h
  | call operation next ih =>
    intro env
    obtain ⟨wider, hwider⟩ := hsub env
    obtain ⟨reply, after, hcall, hnext⟩ := h wider
    exact ⟨reply, after, (hwider operation state).trans hcall, ih reply hnext⟩

theorem Total.returns (env : Env) : program.Returns handler env post state := by
  induction program generalizing state with
  | done value => exact h
  | call operation next ih =>
    obtain ⟨reply, after, hcall, hnext⟩ := h env
    exact ⟨reply, after, hcall, ih reply hnext⟩

end

/-- Every call the program can make is one of these. -/
def Only (allowed : ∀ β : Type, E β → Prop) : Program E α → Prop
  | .done _ => True
  | .call operation next => allowed _ operation ∧ ∀ reply, (next reply).Only allowed

variable {allowed : ∀ β : Type, E β → Prop}

theorem Only.mono {wider : ∀ β : Type, E β → Prop} (h : program.Only allowed)
    (himp : ∀ {β : Type} {operation : E β}, allowed _ operation → wider _ operation) :
    program.Only wider := by
  induction program with
  | done value => trivial
  | call operation next ih => exact ⟨himp h.1, fun reply => ih reply (h.2 reply)⟩

variable {rest : α → Program E β}

theorem only_bind (hprogram : program.Only allowed) (hrest : ∀ value, (rest value).Only allowed) :
    (program >>= rest).Only allowed := by
  induction program with
  | done value => exact hrest value
  | call operation next ih => exact ⟨hprogram.1, fun reply => ih reply (hprogram.2 reply)⟩

variable {operation : E α}

theorem only_perform (h : allowed _ operation) :
    (perform operation).Only allowed := ⟨h, fun _ => trivial⟩

theorem only_call (h : allowed _ operation) (hrest : ∀ reply, (rest reply).Only allowed) :
    (perform operation >>= rest).Only allowed := ⟨h, hrest⟩

theorem Only.ensures (h : program.Only allowed) {holds : S → Prop}
    (hcall : ∀ {β : Type} {env : Env} {operation : E β} {state after : S} {reply : β},
      allowed _ operation → handler _ env operation state = some (reply, after) → holds state →
      holds after) (hstate : holds state) :
    program.Ensures handler (fun _ after => holds after) state := by
  induction program generalizing state with
  | done value => exact hstate
  | call operation next ih =>
    intro env reply after hreply
    exact ih reply (h.2 reply) (hcall h.1 hreply hstate)

/-- Whatever the calls answer, the program returns a value of this kind. -/
def Yields (kind : α → Prop) : Program E α → Prop
  | .done value => kind value
  | .call _ next => ∀ reply, (next reply).Yields kind

variable {kind : β → Prop}

theorem yields_bind {middle : α → Prop} (h : program.Yields middle)
    (hrest : ∀ value, middle value → (rest value).Yields kind) :
    (program >>= rest).Yields kind := by
  induction program with
  | done value => exact hrest value h
  | call operation next ih => exact fun reply => ih reply (h reply)

theorem yields_skip (hrest : ∀ value, (rest value).Yields kind) :
    (program >>= rest).Yields kind := by
  induction program with
  | done value => exact hrest value
  | call operation next ih => exact fun reply => ih reply

theorem Yields.ensures {kind : α → Prop} (h : program.Yields kind) (state : S) :
    program.Ensures handler (fun value _ => kind value) state := by
  induction program generalizing state with
  | done value => exact h
  | call operation next ih => exact fun _ reply after _ => ih reply (h reply) after

end Program

end FsServer.Lib
