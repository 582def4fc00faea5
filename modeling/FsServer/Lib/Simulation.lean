import Mathlib.Data.List.Induction

/-!
# Sequential histories and simulation

A history is the list of calls a system has answered, each with its reply. An invariant is carried
along a history step by step, and so is a relation to an abstract system, which then has the same
history.
-/

namespace FsServer.Lib

variable {S T A R : Type}

/-- The calls made one after another, each with its reply. -/
inductive History (step : S → A → R → S → Prop) (start : S) : List (A × R) → S → Prop
  | nil : History step start [] start
  | snoc {past : List (A × R)} {state after : S} {call : A} {reply : R}
      (hpast : History step start past state) (hstep : step state call reply after) :
      History step start (past ++ [(call, reply)]) after

variable {step : S → A → R → S → Prop} {start : S} {past : List (A × R)} {state : S}

theorem History.invariant (h : History step start past state) (allowed : A → Prop)
    (holds : S → Prop) (hstart : holds start)
    (hstep : ∀ {state call reply after}, allowed call → holds state →
      step state call reply after → holds after)
    (hallowed : ∀ entry ∈ past, allowed entry.1) : holds state := by
  induction h with
  | nil => exact hstart
  | snoc hpast hlast ih =>
    have hbefore := ih fun entry hentry => hallowed entry (List.mem_append_left _ hentry)
    exact hstep (hallowed _ (List.mem_append_right _ (List.mem_singleton_self _))) hbefore hlast

variable {later : List (A × R)}

theorem History.of_append (h : History step start (past ++ later) state) :
    ∃ middle, History step start past middle ∧ History step middle later state := by
  induction later using List.reverseRecOn generalizing state with
  | nil => exact ⟨state, (List.append_nil past) ▸ h, .nil⟩
  | append_singleton front last ih =>
    rw [← List.append_assoc] at h
    generalize hall : past ++ front ++ [last] = all at h
    cases h with
    | nil => simp at hall
    | snoc hpast hstep =>
      obtain ⟨rfl, rfl⟩ := List.append_singleton_inj.mp hall
      obtain ⟨middle, hfirst, hsecond⟩ := ih hpast
      exact ⟨middle, hfirst, hsecond.snoc hstep⟩

/-- Each step of the system is a step of the abstract one with the same reply. -/
theorem History.simulates {abstract : T → A → R → T → Prop} {origin : T}
    (h : History step start past state) (allowed : A → Prop) (related : S → T → Prop)
    (hstart : related start origin)
    (hstep : ∀ {state model call reply after}, allowed call → related state model →
      step state call reply after → ∃ next, abstract model call reply next ∧ related after next)
    (hallowed : ∀ entry ∈ past, allowed entry.1) :
    ∃ model, History abstract origin past model ∧ related state model := by
  induction h with
  | nil => exact ⟨origin, .nil, hstart⟩
  | snoc hpast hlast ih =>
    obtain ⟨model, hmodel, hrelated⟩ :=
      ih fun entry hentry => hallowed entry (List.mem_append_left _ hentry)
    obtain ⟨next, hnext, hafter⟩ :=
      hstep (hallowed _ (List.mem_append_right _ (List.mem_singleton_self _))) hrelated hlast
    exact ⟨next, hmodel.snoc hnext, hafter⟩

/-! ### Systems that can be run -/

/-- The history of a list of calls, as long as each of them has an answer. -/
def replay (run : S → A → Option (R × S)) : List A → S → Option (List (A × R) × S)
  | [], state => some ([], state)
  | call :: calls, state =>
    match run state call with
    | none => none
    | some (reply, after) =>
      match replay run calls after with
      | none => none
      | some (later, last) => some ((call, reply) :: later, last)

variable {last : S}

theorem History.append {middle : S} (h : History step start past middle)
    (hlater : History step middle later last) : History step start (past ++ later) last := by
  induction hlater with
  | nil =>
    rw [List.append_nil]
    exact h
  | snoc _ hstep ih =>
    rw [← List.append_assoc]
    exact ih.snoc hstep

variable {run : S → A → Option (R × S)} {calls : List A}

theorem history_of_replay (h : replay run calls start = some (past, last)) :
    History (fun state call reply after => run state call = some (reply, after)) start past last := by
  induction calls generalizing start past with
  | nil =>
    cases h
    exact .nil
  | cons call calls ih =>
    unfold replay at h
    split at h
    next => cases h
    next reply after hrun =>
        split at h
        next => cases h
        next later final hreplay =>
            cases h
            exact (History.nil.snoc hrun).append (ih hreplay)

theorem history_of_isSome (h : (replay run calls start).isSome = true) :
    History (fun state call reply after => run state call = some (reply, after)) start
      ((replay run calls start).get h).1 ((replay run calls start).get h).2 :=
  history_of_replay (Option.some_get h).symm

end FsServer.Lib
