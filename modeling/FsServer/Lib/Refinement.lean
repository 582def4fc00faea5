import FsServer.Lib.Program

/-!
# One program followed by another

Two programs over the same signature, run by two handlers on two kinds of state. The second follows
the first if every run of the first has a run of the second that ends in agreement with it. The
environment of the second is chosen to suit, so what the first leaves open the second may settle in
the same way.
-/

namespace FsServer.Lib

namespace Program

variable {E : Type → Type} {Env S T α β γ δ : Type}

variable {state final : S}

variable {value : α}

theorem Runs.of_call {handler : Handler Env E S} {operation : E β} {next : β → Program E α}
    (h : Runs handler (.call operation next) state value final) :
    ∃ env reply after, handler _ env operation state = some (reply, after) ∧
      Runs handler (next reply) after value final := by
  cases h with
  | call env hcall hrest => exact ⟨env, _, _, hcall, hrest⟩

variable {program : Program E α}

variable {rest : α → Program E β}

theorem Runs.of_bind {handler : Handler Env E S} {value : β}
    (h : Runs handler (program >>= rest) state value final) :
    ∃ result middle, Runs handler program state result middle ∧
      Runs handler (rest result) middle value final := by
  induction program generalizing state with
  | done result => exact ⟨result, state, .done _ _, h⟩
  | call operation next ih =>
    obtain ⟨env, reply, after, hcall, hrest⟩ := h.of_call
    obtain ⟨result, middle, hnext, hlast⟩ := ih reply hrest
    exact ⟨result, middle, .call env hcall hnext, hlast⟩

theorem Runs.bind {handler : Handler Env E S} {middle : S} {result : α} {value : β}
    (h : Runs handler program state result middle)
    (hrest : Runs handler (rest result) middle value final) :
    Runs handler (program >>= rest) state value final := by
  induction h with
  | done result state => exact hrest
  | call env hcall _ ih => exact .call env hcall (ih hrest)

/-- Every run of the program has a run of the other that ends in `post` with it. -/
def Refines (handler : Handler Env E S) (reference : Handler Env E T)
    (post : α → S → β → T → Prop) (program : Program E α) (state : S) (other : Program E β)
    (shadow : T) : Prop :=
  ∀ value final, Runs handler program state value final →
    ∃ value' final', Runs reference other shadow value' final' ∧ post value final value' final'

variable {handler : Handler Env E S} {reference : Handler Env E T}

variable {shadow : T}

theorem Refines.done {post : α → S → β → T → Prop} {value' : β} (h : post value state value' shadow) :
    Refines handler reference post (.done value) state (.done value') shadow := by
  intro result final hruns
  cases hruns
  exact ⟨value', shadow, .done _ _, h⟩

variable {post : γ → S → δ → T → Prop} {rest' : β → Program E δ}

theorem Refines.bind {middle : α → S → β → T → Prop} {other : Program E β} {rest : α → Program E γ}
    (h : Refines handler reference middle program state other shadow)
    (hrest : ∀ value after value' after', middle value after value' after' →
      Refines handler reference post (rest value) after (rest' value') after') :
    Refines handler reference post (program >>= rest) state (other >>= rest') shadow := by
  intro value final hruns
  obtain ⟨result, after, hfirst, hlast⟩ := hruns.of_bind
  obtain ⟨result', after', hother, hmiddle⟩ := h result after hfirst
  obtain ⟨value', final', hother', hpost⟩ :=
    hrest result after result' after' hmiddle value final hlast
  exact ⟨value', final', hother.bind hother', hpost⟩

theorem Refines.call {operation : E α} {operation' : E β} {rest : α → Program E γ}
    (h : ∀ env reply after, handler _ env operation state = some (reply, after) →
      ∃ env' reply' after', reference _ env' operation' shadow = some (reply', after') ∧
        Refines handler reference post (rest reply) after (rest' reply') after') :
    Refines handler reference post (perform operation >>= rest) state
      (perform operation' >>= rest') shadow := by
  intro value final hruns
  obtain ⟨env, reply, after, hcall, hlast⟩ := Runs.of_call hruns
  obtain ⟨env', reply', after', hcall', hrefines⟩ := h env reply after hcall
  obtain ⟨value', final', hother, hpost⟩ := hrefines value final hlast
  exact ⟨value', final', .call env' hcall' hother, hpost⟩

end Program

end FsServer.Lib
