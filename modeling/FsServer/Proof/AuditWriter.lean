import FsServer.AuditWriter
import FsServer.Lib.Simulation

/-!
# The audit writer keeps what it has accepted

The entries that have been written, the rest of the batch that is being written, the pending ones,
the one that the loop has in hand and the channel are together, in this order, the entries that were
accepted. When the loop has drained the channel, all that was accepted before `Close` was called
first is written or pending, and a call of `Close` that returns without an error has written what was
pending.
-/

namespace FsServer

open Lib AuditLoop AuditWriter

variable {T A : Type}

namespace AuditLoop

def holds : AuditLoop A → Bool
  | appending _ => true
  | checking _ => true
  | writing _ => true
  | unlocking => true
  | draining => true
  | drained _ => true
  | leaving => true
  | _ => false

def taken : AuditLoop A → List A
  | received entry => [entry]
  | appending entry => [entry]
  | drained entry => [entry]
  | _ => []

def batch : AuditLoop A → List A
  | writing batch => batch
  | _ => []

def left : AuditLoop A → Bool
  | leaving => true
  | closing => true
  | exited => true
  | _ => false

def running : AuditLoop A → Bool
  | select => true
  | received _ => true
  | ticked => true
  | appending _ => true
  | checking _ => true
  | writing _ => true
  | unlocking => true
  | _ => false

theorem batch_of_not_holds {loop : AuditLoop A} (h : loop.holds = false) : loop.batch = [] := by
  cases loop with
  | writing batch => cases h
  | _ => rfl

end AuditLoop

namespace AuditClose

def holds : AuditClose A → Bool
  | checking => true
  | writing _ => true
  | unlocking => true
  | _ => false

def joined : AuditClose A → Bool
  | locking => true
  | checking => true
  | writing _ => true
  | unlocking => true
  | _ => false

def batch : AuditClose A → List A
  | writing batch => batch
  | _ => []

def finished : AuditClose A → Bool
  | unlocking => true
  | returning ok => ok
  | _ => false

theorem joined_of_holds {call : AuditClose A} (h : call.holds = true) : call.joined = true := by
  cases call with
  | checking => rfl
  | writing batch => rfl
  | unlocking => rfl
  | _ => cases h

end AuditClose

def AuditWriter.unwritten (writer : AuditWriter T A) : List A :=
  match writer.mu with
  | none => []
  | some .loop => writer.loop.batch
  | some (.closer task) => (writer.closer task).batch

/-- The writer has accepted these entries, the early ones before the loop drained the channel, and a
call of `Close` may have returned without an error. -/
structure Accounted (early accepted : List A) (returned : Prop) (writer : AuditWriter T A) :
    Prop where
  off : writer.db = false → accepted = []
  within : early <+: accepted
  loop_holds : writer.loop.holds = true ↔ writer.mu = some .loop
  closer_holds : ∀ task, (writer.closer task).holds = true ↔ writer.mu = some (.closer task)
  joined : ∀ task, (writer.closer task).joined = true → writer.done = true
  exited : writer.done = true → writer.loop = .exited
  flow : accepted =
    writer.created ++ writer.unwritten ++ writer.pending ++ writer.loop.taken ++ writer.ch
  drained : writer.loop.left = true → early <+: writer.created ++ writer.unwritten ++ writer.pending
  emptied : ∀ task batch, writer.closer task = .writing batch → writer.pending = []
  complete : ∀ task, (writer.closer task).finished = true → early <+: writer.created
  settled : returned → early <+: writer.created

variable {choice : AuditCase} {reply : AuditReply}

section Accounted

variable {early accepted : List A} {returned : Prop} {writer after : AuditWriter T A}

/-! ### The loop -/

theorem Accounted.mu_eq (h : Accounted early accepted returned writer)
    (hdone : writer.done = false) :
    writer.mu = if writer.loop.holds then some .loop else none := by
  cases hmu : writer.mu with
  | none =>
    have hholds : writer.loop.holds = false := by
      rw [Bool.eq_false_iff]
      intro hholds
      rw [h.loop_holds, hmu] at hholds
      cases hholds
    rw [if_neg (Bool.eq_false_iff.mp hholds)]
  | some holder =>
    cases holder with
    | loop => rw [if_pos (h.loop_holds.mpr hmu)]
    | closer task =>
      have hjoined := AuditClose.joined_of_holds ((h.closer_holds task).mpr hmu)
      rw [h.joined task hjoined] at hdone
      cases hdone

theorem unwritten_of_mu (hmu : writer.mu = if writer.loop.holds then some .loop else none) :
    writer.unwritten = writer.loop.batch := by
  unfold unwritten
  cases hholds : writer.loop.holds with
  | false =>
    rw [hholds, if_neg Bool.false_ne_true] at hmu
    rw [hmu, batch_of_not_holds hholds]
  | true =>
    rw [hholds, if_pos rfl] at hmu
    rw [hmu]

structure LoopMove (writer after : AuditWriter T A) : Prop where
  closer : after.closer = writer.closer
  db : after.db = writer.db
  cancelled : after.cancelled = writer.cancelled
  running : writer.cancelled = false → writer.loop.running = true → after.loop.running = true
  mu : writer.mu = (if writer.loop.holds then some .loop else none) →
    after.mu = if after.loop.holds then some .loop else none
  exited : writer.done = false → after.done = false ∨ after.loop = .exited
  created : writer.created <+: after.created
  flow : writer.created ++ writer.loop.batch ++ writer.pending ++ writer.loop.taken ++ writer.ch =
    after.created ++ after.loop.batch ++ after.pending ++ after.loop.taken ++ after.ch
  left : after.loop.left = true → after.loop.taken ++ after.ch = [] ∨
    writer.loop.left = true ∧ after.created ++ after.loop.batch ++ after.pending =
      writer.created ++ writer.loop.batch ++ writer.pending

theorem LoopMove.lockLoop {next : AuditLoop A} (hstep : writer.lockLoop next = some after)
    (hrunning : writer.loop.running = true → next.running = true) (hnext : next.holds = true)
    (hleft : next.left = false) (hbatch : writer.loop.batch = next.batch)
    (htaken : writer.loop.taken = next.taken) : LoopMove writer after := by
  unfold AuditWriter.lockLoop at hstep
  split at hstep
  · cases hstep
    refine ⟨rfl, rfl, rfl, fun _ => hrunning, fun _ => ?_, .inl, List.prefix_refl _, ?_,
      fun hafter => ?_⟩
    · dsimp only
      rw [hnext, if_pos rfl]
    · rw [hbatch, htaken]
    · rw [hleft] at hafter
      cases hafter
  · cases hstep

theorem loopStep_move (hstep : writer.loopStep choice = some after) : LoopMove writer after := by
  obtain ⟨db, batchSize, ch, pending, mu, cancelled, done, created, loop, closer⟩ := writer
  cases loop with
  | select =>
    cases choice with
    | entry =>
      cases ch with
      | nil => cases hstep
      | cons entry rest =>
        cases hstep
        refine ⟨rfl, rfl, rfl, fun _ _ => rfl, id, .inl, List.prefix_refl _, ?_, nofun⟩
        simp [taken, batch]
    | tick =>
      cases hstep
      exact ⟨rfl, rfl, rfl, fun _ _ => rfl, id, .inl, List.prefix_refl _, rfl, nofun⟩
    | cancelled =>
      cases cancelled with
      | false => cases hstep
      | true =>
        cases hstep
        exact ⟨rfl, rfl, rfl, nofun, id, .inl, List.prefix_refl _, rfl, nofun⟩
  | received entry => exact .lockLoop hstep id rfl rfl rfl rfl
  | ticked => exact .lockLoop hstep id rfl rfl rfl rfl
  | stopping => exact .lockLoop hstep id rfl rfl rfl rfl
  | appending entry =>
    cases hstep
    refine ⟨rfl, rfl, rfl, fun _ _ => rfl, id, .inl, List.prefix_refl _, ?_, nofun⟩
    simp [taken, batch]
  | checking least =>
    simp only [AuditWriter.loopStep] at hstep
    split_ifs at hstep with hready
    · cases hstep
      refine ⟨rfl, rfl, rfl, fun _ _ => rfl, id, .inl, List.prefix_refl _, ?_, nofun⟩
      simp [taken, batch]
    · cases hstep
      exact ⟨rfl, rfl, rfl, fun _ _ => rfl, id, .inl, List.prefix_refl _, rfl, nofun⟩
  | writing batch =>
    cases batch with
    | nil =>
      cases hstep
      exact ⟨rfl, rfl, rfl, fun _ _ => rfl, id, .inl, List.prefix_refl _, rfl, nofun⟩
    | cons entry rest =>
      cases hstep
      refine ⟨rfl, rfl, rfl, fun _ _ => rfl, id, .inl, List.prefix_append .., ?_, nofun⟩
      simp [taken, batch]
  | unlocking =>
    cases hstep
    exact ⟨rfl, rfl, rfl, fun _ _ => rfl, fun _ => rfl, .inl, List.prefix_refl _, rfl, nofun⟩
  | draining =>
    cases ch with
    | nil =>
      cases hstep
      exact ⟨rfl, rfl, rfl, nofun, id, .inl, List.prefix_refl _, rfl, fun _ => .inl rfl⟩
    | cons entry rest =>
      cases hstep
      refine ⟨rfl, rfl, rfl, nofun, id, .inl, List.prefix_refl _, ?_, nofun⟩
      simp [taken, batch]
  | drained entry =>
    cases hstep
    refine ⟨rfl, rfl, rfl, nofun, id, .inl, List.prefix_refl _, ?_, nofun⟩
    simp [taken, batch]
  | leaving =>
    cases hstep
    exact ⟨rfl, rfl, rfl, nofun, fun _ => rfl, .inl, List.prefix_refl _, rfl,
      fun _ => .inr ⟨rfl, rfl⟩⟩
  | closing =>
    cases hstep
    exact ⟨rfl, rfl, rfl, nofun, id, fun _ => .inr rfl, List.prefix_refl _, rfl,
      fun _ => .inr ⟨rfl, rfl⟩⟩
  | exited => cases hstep

/-- No call of `Close` goes past its wait before the loop has ended. -/
theorem Accounted.loopStep (h : Accounted early accepted returned writer)
    (hstep : writer.loopStep choice = some after) : Accounted early accepted returned after := by
  have hmove := loopStep_move hstep
  have hdone : writer.done = false := by
    rw [Bool.eq_false_iff]
    intro hdone
    rw [AuditWriter.loopStep, h.exited hdone] at hstep
    cases hstep
  have hwriter := h.mu_eq hdone
  have hmu := hmove.mu hwriter
  have hjoined : ∀ task, (after.closer task).joined = false := by
    intro task
    rw [hmove.closer, Bool.eq_false_iff]
    intro hjoined
    rw [h.joined task hjoined] at hdone
    cases hdone
  have hflow := h.flow
  rw [unwritten_of_mu hwriter, hmove.flow] at hflow
  refine ⟨fun hoff => h.off (hmove.db ▸ hoff), h.within, ?_, fun task => ?_, fun task hcall => ?_,
    ?_, unwritten_of_mu hmu ▸ hflow, fun hafter => ?_, fun task batch hcall => ?_,
    fun task hcall => ?_, fun hreturned => (h.settled hreturned).trans hmove.created⟩
  · rw [hmu]
    cases after.loop.holds with
    | false => simp
    | true => simp
  · have hholds : (after.closer task).holds = false := by
      rw [Bool.eq_false_iff]
      intro hholds
      have hcall := AuditClose.joined_of_holds hholds
      rw [hjoined task] at hcall
      cases hcall
    rw [hmu, hholds]
    cases after.loop.holds with
    | false => simp
    | true => simp
  · rw [hjoined task] at hcall
    cases hcall
  · intro hafter
    exact (hmove.exited hdone).resolve_left fun hdone => by rw [hdone] at hafter; cases hafter
  · rw [unwritten_of_mu hmu]
    rcases hmove.left hafter with hempty | ⟨hleft, hsame⟩
    · rw [List.append_assoc _ after.loop.taken, hempty, List.append_nil] at hflow
      rw [← hflow]
      exact h.within
    · rw [hsame, ← unwritten_of_mu hwriter]
      exact h.drained hleft
  · have := hjoined task
    rw [hcall] at this
    cases this
  · rw [hmove.closer] at hcall
    exact (h.complete task hcall).trans hmove.created

/-! ### Calls of `Close` -/

variable [DecidableEq T] {task : T} {next : AuditClose A}
  (h : Accounted early accepted returned writer)

include h

theorem Accounted.goOn (hcloser : after.closer = Function.update writer.closer task next)
    (hdb : after.db = writer.db) (hloop : after.loop = writer.loop)
    (hdone : after.done = writer.done) (hch : after.ch = writer.ch)
    (hjoined : next.joined = true → writer.done = true)
    (hholds : next.holds = true ↔ after.mu = some (.closer task))
    (hothers : ∀ holder, holder ≠ .closer task → (after.mu = some holder ↔ writer.mu = some holder))
    (hcreated : writer.created <+: after.created)
    (hsum : after.created ++ after.unwritten ++ after.pending =
      writer.created ++ writer.unwritten ++ writer.pending)
    (hpending : writer.pending = [] → after.pending = [])
    (hemptied : ∀ batch, next = .writing batch → after.pending = [])
    (hfinished : next.finished = true → early <+: after.created) :
    Accounted early accepted returned after := by
  have hself : after.closer task = next := by rw [hcloser, Function.update_self]
  have hother : ∀ other, other ≠ task → after.closer other = writer.closer other := by
    intro other hne
    rw [hcloser, Function.update_of_ne hne]
  refine ⟨fun hoff => h.off (hdb ▸ hoff), h.within, ?_, fun other => ?_, fun other hcall => ?_,
    fun hafter => ?_, ?_, fun hleft => ?_, fun other batch hcall => ?_, fun other hcall => ?_,
    fun hreturned => (h.settled hreturned).trans hcreated⟩
  · rw [hloop, h.loop_holds, hothers .loop nofun]
  · by_cases heq : other = task
    · rw [heq, hself]
      exact hholds
    · rw [hother other heq, h.closer_holds other, hothers (.closer other)]
      exact fun hsame => heq (AuditHolder.closer.inj hsame)
  · rw [hdone]
    by_cases heq : other = task
    · rw [heq, hself] at hcall
      exact hjoined hcall
    · rw [hother other heq] at hcall
      exact h.joined other hcall
  · rw [hloop]
    exact h.exited (hdone ▸ hafter)
  · rw [hsum, hloop, hch]
    exact h.flow
  · rw [hsum]
    exact h.drained (hloop ▸ hleft)
  · by_cases heq : other = task
    · rw [heq, hself] at hcall
      exact hemptied batch hcall
    · rw [hother other heq] at hcall
      exact hpending (h.emptied other batch hcall)
  · by_cases heq : other = task
    · rw [heq, hself] at hcall
      exact hfinished hcall
    · rw [hother other heq] at hcall
      exact (h.complete other hcall).trans hcreated

omit [DecidableEq T] in
theorem Accounted.cancel :
    Accounted early accepted returned { writer with cancelled := true } :=
  ⟨h.off, h.within, h.loop_holds, h.closer_holds, h.joined, h.exited, h.flow, h.drained, h.emptied,
    h.complete, h.settled⟩

theorem Accounted.goOn_free (hplace : (writer.closer task).holds = false)
    (hnext : next.holds = false)
    (hjoined : next.joined = true → writer.done = true)
    (hfinished : next.finished = true → early <+: writer.created) :
    Accounted early accepted returned (writer.goOn task next) := by
  have hmu : writer.mu ≠ some (.closer task) := by
    intro hmu
    rw [(h.closer_holds task).mpr hmu] at hplace
    cases hplace
  have hunwritten : (writer.goOn task next).unwritten = writer.unwritten := by
    simp only [unwritten, AuditWriter.goOn]
    cases hholder : writer.mu with
    | none => rfl
    | some holder =>
      cases holder with
      | loop => rfl
      | closer other =>
        have hne : other ≠ task := by
          rintro rfl
          exact hmu hholder
        dsimp only
        rw [Function.update_of_ne hne]
  refine h.goOn rfl rfl rfl rfl rfl hjoined ?_ (fun _ _ => Iff.rfl) (List.prefix_refl _) ?_ id
    (fun batch hwriting => ?_) hfinished
  · rw [hnext]
    exact ⟨nofun, fun hholder => absurd hholder hmu⟩
  · rw [hunwritten]
    rfl
  · rw [hwriting] at hnext
    cases hnext

theorem Accounted.goOn_held (hplace : (writer.closer task).holds = true) (hnext : next.holds = true)
    {pending created : List A}
    (hcreated : writer.created <+: created)
    (hsum : created ++ next.batch ++ pending =
      writer.created ++ (writer.closer task).batch ++ writer.pending)
    (hpending : writer.pending = [] → pending = [])
    (hemptied : ∀ batch, next = .writing batch → pending = [])
    (hfinished : next.finished = true → early <+: created) :
    Accounted early accepted returned
      ({ writer with pending := pending, created := created }.goOn task next) := by
  have hmu : writer.mu = some (.closer task) := (h.closer_holds task).mp hplace
  have hdone := h.joined task (AuditClose.joined_of_holds hplace)
  refine h.goOn rfl rfl rfl rfl rfl (fun _ => hdone) ?_ (fun _ _ => Iff.rfl) hcreated ?_ hpending
    hemptied hfinished
  · rw [hnext]
    exact ⟨fun _ => hmu, fun _ => rfl⟩
  · simp only [unwritten, AuditWriter.goOn, hmu, Function.update_self]
    exact hsum

omit [DecidableEq T] in
/-- All that was accepted early is written or pending while a call of `Close` holds the mutex. -/
theorem Accounted.early_of_holds (hplace : (writer.closer task).holds = true) :
    early <+: writer.created ++ (writer.closer task).batch ++ writer.pending := by
  have hdone := h.joined task (AuditClose.joined_of_holds hplace)
  have hleft : writer.loop.left = true := by
    rw [h.exited hdone]
    rfl
  have hearly := h.drained hleft
  simp only [unwritten, (h.closer_holds task).mp hplace] at hearly
  exact hearly

theorem Accounted.closeStep {expired : Bool}
    (hstep : writer.closeStep task expired = some (reply, after)) :
    Accounted early accepted returned after ∧
      (reply = .returned true → early <+: after.created) := by
  cases hcall : writer.closer task with
  | idle =>
    simp only [AuditWriter.closeStep, hcall] at hstep
    cases hstep
  | cancelling =>
    simp only [AuditWriter.closeStep, hcall] at hstep
    cases hstep
    refine ⟨h.cancel.goOn_free ?_ rfl nofun nofun, nofun⟩
    dsimp only
    rw [hcall]
    rfl
  | waiting =>
    simp only [AuditWriter.closeStep, hcall] at hstep
    split_ifs at hstep with hexpired hdone
    · cases hstep
      exact ⟨h.goOn_free (by rw [hcall]; rfl) rfl nofun nofun, nofun⟩
    · cases hstep
      exact ⟨h.goOn_free (by rw [hcall]; rfl) rfl (fun _ => hdone) nofun, nofun⟩
  | locking =>
    have hdone := h.joined task (by rw [hcall]; rfl)
    cases hmu : writer.mu with
    | some holder =>
      simp only [AuditWriter.closeStep, hcall, hmu] at hstep
      cases hstep
    | none =>
      simp only [AuditWriter.closeStep, hcall, hmu] at hstep
      cases hstep
      refine ⟨h.goOn rfl rfl rfl rfl rfl (fun _ => hdone) ⟨fun _ => rfl, fun _ => rfl⟩ ?_
        (List.prefix_refl _) ?_ id nofun nofun, nofun⟩
      · intro holder hne
        rw [hmu]
        refine ⟨fun hsame => absurd (Option.some.inj hsame).symm hne, nofun⟩
      · simp [unwritten, AuditWriter.goOn, hmu, AuditClose.batch]
  | checking =>
    have hplace : (writer.closer task).holds = true := by rw [hcall]; rfl
    have hearly := h.early_of_holds hplace
    simp only [AuditWriter.closeStep, hcall] at hstep
    split_ifs at hstep with hpending
    · cases hstep
      refine ⟨h.goOn_held hplace rfl (List.prefix_refl _) ?_ (fun _ => rfl) (fun _ _ => rfl)
        nofun, nofun⟩
      rw [hcall]
      simp [AuditClose.batch]
    · cases hstep
      have hnil : writer.pending = [] :=
        List.length_eq_zero_iff.mp (Nat.eq_zero_of_not_pos hpending)
      simp only [hcall, hnil, AuditClose.batch, List.append_nil] at hearly
      refine ⟨h.goOn_held hplace rfl (List.prefix_refl _) ?_ id nofun fun _ => hearly, nofun⟩
      rw [hcall]
      rfl
  | writing batch =>
    have hplace : (writer.closer task).holds = true := by rw [hcall]; rfl
    have hnil := h.emptied task batch hcall
    cases batch with
    | nil =>
      have hearly := h.early_of_holds hplace
      simp only [AuditWriter.closeStep, hcall] at hstep
      cases hstep
      simp only [hcall, hnil, AuditClose.batch, List.append_nil] at hearly
      refine ⟨h.goOn_held hplace rfl (List.prefix_refl _) ?_ id nofun fun _ => hearly, nofun⟩
      rw [hcall]
      rfl
    | cons entry rest =>
      simp only [AuditWriter.closeStep, hcall] at hstep
      cases hstep
      refine ⟨h.goOn_held hplace rfl (List.prefix_append ..) ?_ id (fun _ _ => hnil) nofun, nofun⟩
      rw [hcall]
      simp [AuditClose.batch]
  | unlocking =>
    have hplace : (writer.closer task).holds = true := by rw [hcall]; rfl
    have hmu : writer.mu = some (.closer task) := (h.closer_holds task).mp hplace
    have hcreated := h.complete task (by rw [hcall]; rfl)
    simp only [AuditWriter.closeStep, hcall] at hstep
    cases hstep
    refine ⟨h.goOn rfl rfl rfl rfl rfl nofun ⟨nofun, nofun⟩ ?_ (List.prefix_refl _) ?_ id nofun
      fun _ => hcreated, nofun⟩
    · intro holder hne
      rw [hmu]
      exact ⟨nofun, fun hsame => absurd (Option.some.inj hsame).symm hne⟩
    · simp [unwritten, AuditWriter.goOn, hmu, hcall, AuditClose.batch]
  | returning ok =>
    have hcreated := h.complete task
    rw [hcall] at hcreated
    simp only [AuditWriter.closeStep, hcall] at hstep
    cases hstep
    refine ⟨h.goOn_free (by rw [hcall]; rfl) rfl nofun nofun, fun hreply => hcreated ?_⟩
    cases hreply
    rfl

theorem Accounted.close (hstep : writer.close task = some after) :
    Accounted early accepted returned after := by
  cases hcall : writer.closer task with
  | idle =>
    simp only [AuditWriter.close, hcall] at hstep
    cases hstep
    cases hdb : writer.db with
    | false =>
      have hearly : early = [] := by
        have hwithin := h.within
        rw [h.off hdb] at hwithin
        exact List.prefix_nil.mp hwithin
      rw [hearly] at h ⊢
      exact h.goOn_free (by rw [hcall]; rfl) rfl nofun fun _ => List.nil_prefix
    | true => exact h.goOn_free (by rw [hcall]; rfl) rfl nofun nofun
  | _ =>
    simp only [AuditWriter.close, hcall] at hstep
    cases hstep

end Accounted

/-! ### Runs -/

abbrev AuditMove [DecidableEq T] (writer : AuditWriter T A) (event : AuditEvent T A)
    (reply : AuditReply) (after : AuditWriter T A) : Prop :=
  writer.step event = some (reply, after)

def acceptedOf : AuditEvent T A × AuditReply → Option A
  | (.submit entry, .accepted) => some entry
  | _ => none

def accepted (past : List (AuditEvent T A × AuditReply)) : List A := past.filterMap acceptedOf

theorem accepted_append (past later : List (AuditEvent T A × AuditReply)) :
    accepted (past ++ later) = accepted past ++ accepted later := List.filterMap_append

section Runs

variable [DecidableEq T] {early : List A} {returned : Prop}
  {past : List (AuditEvent T A × AuditReply)}
  {writer after : AuditWriter T A}

variable {entries : List A}

omit [DecidableEq T] in
theorem Accounted.push (h : Accounted early entries returned writer) (hdb : writer.db = true)
    (entry : A) :
    Accounted early (entries ++ [entry]) returned { writer with ch := writer.ch ++ [entry] } := by
  refine ⟨fun hoff => ?_, h.within.trans (List.prefix_append ..), h.loop_holds, h.closer_holds,
    h.joined, h.exited, ?_, h.drained, h.emptied, h.complete, h.settled⟩
  · rw [hdb] at hoff
    cases hoff
  · rw [h.flow]
    exact List.append_assoc ..

omit [DecidableEq T] in
theorem Accounted.settle {more : Prop} (h : Accounted early entries returned writer)
    (hmore : more → early <+: writer.created) :
    Accounted early entries (returned ∨ more) writer :=
  { h with settled := fun hreturned => hreturned.elim h.settled hmore }

variable {event : AuditEvent T A}

theorem Accounted.step (h : Accounted early entries returned writer)
    (hstep : AuditMove writer event reply after) :
    Accounted early (entries ++ accepted [(event, reply)]) (returned ∨ reply = .returned true)
      after := by
  cases event with
  | submit entry =>
    simp only [AuditMove, step, submit, Option.some.injEq] at hstep
    split_ifs at hstep with hdb hroom
    · cases hstep
      exact (List.append_nil entries).symm ▸ h.settle nofun
    · cases hstep
      exact (h.push (by simpa using hdb) entry).settle nofun
    · cases hstep
      exact (List.append_nil entries).symm ▸ h.settle nofun
  | loop choice =>
    obtain ⟨_, hloop, heq⟩ := Option.map_eq_some_iff.mp hstep
    cases heq
    exact (List.append_nil entries).symm ▸ (h.loopStep hloop).settle nofun
  | close task =>
    obtain ⟨_, hclose, heq⟩ := Option.map_eq_some_iff.mp hstep
    cases heq
    exact (List.append_nil entries).symm ▸ (h.close hclose).settle nofun
  | closer task expired =>
    obtain ⟨hafter, hreturned⟩ := h.closeStep hstep
    exact (List.append_nil entries).symm ▸ hafter.settle hreturned

theorem Accounted.history {start : AuditWriter T A} (h : Accounted early entries returned start)
    (hpast : History AuditMove start past writer) :
    Accounted early (entries ++ accepted past)
      (returned ∨ ∃ event, (event, AuditReply.returned true) ∈ past) writer := by
  induction hpast with
  | nil =>
    have hnil : entries ++ accepted (T := T) [] = entries := List.append_nil entries
    rw [hnil]
    exact h.settle nofun
  | snoc _ hstep ih =>
    rw [accepted_append, ← List.append_assoc]
    have hnext := ih.step hstep
    refine { hnext with settled := fun hreturned => hnext.settled ?_ }
    rcases hreturned with hreturned | ⟨event, hmem⟩
    · exact .inl (.inl hreturned)
    · rw [List.mem_append, List.mem_singleton] at hmem
      rcases hmem with hearlier | hlast
      · exact .inl (.inr ⟨event, hearlier⟩)
      · exact .inr (congrArg Prod.snd hlast).symm

omit [DecidableEq T] in
theorem accounted_new (db : Bool) (batchSize : Int) :
    Accounted [] [] False (newAuditWriter db batchSize : AuditWriter T A) where
  off _ := rfl
  within := List.nil_prefix
  loop_holds := by cases db <;> exact ⟨nofun, nofun⟩
  closer_holds _ := ⟨nofun, nofun⟩
  joined _ := nofun
  exited hdone := by
    cases db with
    | false => rfl
    | true => cases hdone
  flow := by cases db <;> rfl
  drained _ := List.nil_prefix
  emptied _ _ := nofun
  complete _ := nofun
  settled := nofun

/-- `Close` has not been called, and the loop is running if there is a database. -/
structure Unclosed (writer : AuditWriter T A) : Prop where
  cancelled : writer.cancelled = false
  idle : ∀ task, writer.closer task = .idle
  running : writer.db = true → writer.loop.running = true

omit [DecidableEq T] in
theorem unclosed_new (db : Bool) (batchSize : Int) :
    Unclosed (newAuditWriter db batchSize : AuditWriter T A) where
  cancelled := rfl
  idle _ := rfl
  running hdb := by
    cases hdb
    rfl

omit [DecidableEq T] in
theorem Unclosed.loopStep (h : Unclosed writer) (hstep : writer.loopStep choice = some after) :
    Unclosed after := by
  have hmove := loopStep_move hstep
  refine ⟨hmove.cancelled.trans h.cancelled, fun task => ?_, fun hdb => ?_⟩
  · rw [hmove.closer]
    exact h.idle task
  · exact hmove.running h.cancelled (h.running (hmove.db ▸ hdb))

theorem Unclosed.step (h : Unclosed writer) (hevent : ∀ task, event ≠ .close task)
    (hstep : AuditMove writer event reply after) :
    Unclosed after := by
  cases event with
  | submit entry =>
    simp only [AuditMove, step, submit, Option.some.injEq] at hstep
    split_ifs at hstep with hdb hroom
    · cases hstep
      exact h
    · cases hstep
      exact ⟨h.cancelled, h.idle, h.running⟩
    · cases hstep
      exact h
  | loop choice =>
    obtain ⟨_, hloop, heq⟩ := Option.map_eq_some_iff.mp hstep
    cases heq
    exact h.loopStep hloop
  | close task => exact absurd rfl (hevent task)
  | closer task expired =>
    simp only [AuditMove, step, AuditWriter.closeStep, h.idle task] at hstep
    cases hstep

omit [DecidableEq T] in
theorem Accounted.first (h : Accounted [] entries returned writer) (hopen : Unclosed writer) :
    Accounted entries entries False writer := by
  refine ⟨h.off, List.prefix_refl _, h.loop_holds, h.closer_holds, h.joined, h.exited, h.flow,
    fun hleft => ?_, h.emptied, fun task hcall => ?_, nofun⟩
  · cases hdb : writer.db with
    | false =>
      rw [h.off hdb]
      exact List.nil_prefix
    | true =>
      have hrunning := hopen.running hdb
      cases hloop : writer.loop with
      | leaving =>
        rw [hloop] at hrunning
        cases hrunning
      | closing =>
        rw [hloop] at hrunning
        cases hrunning
      | exited =>
        rw [hloop] at hrunning
        cases hrunning
      | _ =>
        rw [hloop] at hleft
        cases hleft
  · rw [hopen.idle task] at hcall
    cases hcall

end Runs

def auditRun : List (AuditEvent Unit Nat) :=
  [.submit 5, .close (), .loop .entry, .loop .tick, .closer () false, .loop .tick, .loop .tick,
    .loop .tick, .loop .cancelled] ++ List.replicate 4 (.loop .tick) ++
    List.replicate 7 (.closer () false)

/-- What `Create` has been given is what was accepted, in order and each entry once; when `Close`
has returned without an error, with all that was accepted before its first call. -/
theorem auditWriter_exactly_once [DecidableEq T] {db : Bool} {batchSize : Int}
    {past : List (AuditEvent T A × AuditReply)} {writer : AuditWriter T A}
    (hpast : History AuditMove (newAuditWriter db batchSize) past writer) :
    writer.created <+: accepted past ∧
    ∀ before task reply later, past = before ++ (.close task, reply) :: later →
      (∀ other result, (.close other, result) ∉ before) →
      (∃ other expired, (.closer other expired, .returned true) ∈ later) →
        accepted before <+: writer.created := by
  refine ⟨?_, ?_⟩
  · have h := (accounted_new db batchSize).history hpast
    rw [List.nil_append] at h
    rw [h.flow, List.append_assoc, List.append_assoc, List.append_assoc]
    exact List.prefix_append ..
  · rintro before task reply later rfl hfirst ⟨other, expired, hreturned⟩
    obtain ⟨opened, hbefore, hlater⟩ := hpast.of_append
    have hopen : Unclosed opened := by
      refine hbefore.invariant (fun event => ∀ task, event ≠ .close task) _
        (unclosed_new db batchSize) (fun hevent h hstep => h.step hevent hstep) ?_
      rintro ⟨event, result⟩ hmem other rfl
      exact hfirst other result hmem
    have hclosed := (accounted_new db batchSize).history hbefore
    rw [List.nil_append] at hclosed
    exact ((hclosed.first hopen).history hlater).settled
      (.inr ⟨_, List.mem_cons_of_mem _ hreturned⟩)

theorem auditWriter_exactly_once_closed :
    ∃ (past : List (AuditEvent Unit Nat × AuditReply)) (writer : AuditWriter Unit Nat),
      History AuditMove (newAuditWriter true 1) past writer ∧
      [5] <+: writer.created := by
  have hrun : (replay step auditRun
      (newAuditWriter true 1 : AuditWriter Unit Nat)).isSome = true := by decide
  have hpast := history_of_isSome hrun
  refine ⟨_, _, hpast, ?_⟩
  exact (auditWriter_exactly_once hpast).2 [(.submit 5, .accepted)] () .moved _ rfl (by simp)
    ⟨(), false, by simp⟩

end FsServer
