import FsServer.Proof.SlotRuns
import FsServer.Proof.Faults
import FsServer.Lib.Interleaving

/-!
# Finished sessions on several instances

Instances share the session store, the locks and the temporary files, but each has its own copy of a
session. The call that ends a session drops the copy of its own instance and the stored record. A copy
that another instance has restored before stays open, and chunks go on being accepted there. If no
other instance has a copy and no other call comes between, the session is gone, and every later call
on it fails at its first steps.
-/

namespace FsServer

open Lib Program World FileTransferService Sessions

/-- Neither an instance nor the store has the session. -/
structure World.Gone (sessionID : String) (world : World) : Prop where
  held : ∀ inst, (world.sessions.instances inst).uploadSessions.lookup sessionID = none
  stored : world.sessions.uploadStore.lookup sessionID = none

/-- At most this instance has a copy of the session. -/
def World.HeldOnlyBy (inst : Nat) (sessionID : String) (world : World) : Prop :=
  ∀ other, other ≠ inst → (world.sessions.instances other).uploadSessions.lookup sessionID = none

section Ending

variable {α β : Type} {inst : Nat} {sessionID : String} {world after : World}
  {post : α → World → Prop}

theorem lookup_eq_none_of_slots {sessions changed : Sessions}
    (hslots : changed.slots inst = sessions.slots inst)
    (h : (sessions.instances inst).uploadSessions.lookup sessionID = none) :
    (changed.instances inst).uploadSessions.lookup sessionID = none := by
  have hkeys : (changed.instances inst).uploadSessions.keys =
      (sessions.instances inst).uploadSessions.keys := congrArg Slots.uploads hslots
  rw [AList.lookup_eq_none, AList.mem_keys] at h ⊢
  rw [hkeys]
  exact h

/-! ### Rules -/

variable {rest : β → Service α}

theorem calm_lock {call : LockCall β} (h : ∀ reply after, after.sessions = world.sessions →
      (rest reply).Ensures calm post after) :
    (perform (Call.lock call) >>= rest).Ensures calm post world := by
  intro env reply after hcall
  simp only [calm, handle] at hcall
  exact h reply after (sessions_lockExec hcall)

variable {program : Service β}

theorem calm_free {free : Nat → Prop} (hquiet : program.Only Quiet) (hfree : ∀ other, free other →
      (world.sessions.instances other).uploadSessions.lookup sessionID = none)
    (h : ∀ value after, (∀ other, free other →
        (after.sessions.instances other).uploadSessions.lookup sessionID = none) →
      (rest value).Ensures calm post after) :
    (program >>= rest).Ensures calm post world := by
  rw [ensures_bind]
  have hkeeps : program.Ensures handle (fun _ after => ∀ other, free other →
      (after.sessions.instances other).uploadSessions.lookup sessionID = none) world :=
    hquiet.ensures handle (fun hcall hstep hbefore other hother =>
      lookup_eq_none_of_slots (handle_quiet hcall hstep other) (hbefore other hother)) hfree
  exact (Program.Ensures.calm hkeeps).mono _ fun value after hafter => h value after hafter

theorem calm_quiet (hquiet : program.Only Quiet) (honly : world.HeldOnlyBy inst sessionID)
    (h : ∀ value after, World.HeldOnlyBy inst sessionID after →
      (rest value).Ensures calm post after) :
    (program >>= rest).Ensures calm post world := calm_free hquiet honly h

/-! ### The calls that end a session -/

def Ended (sessionID : String) {ε : Type} (result : Except ε α) (world : World) : Prop :=
  result.isOk = true → world.Gone sessionID

variable {ε : Type}

theorem Ended.error (cause : ε) : Ended sessionID (.error cause : Except ε α) world :=
  fun h => by cases h

theorem ended_discard {temp : TempName} {value : α} (honly : world.HeldOnlyBy inst sessionID) :
    (do discardUpload inst sessionID
        Service.session (.removeTemp temp)
        Service.session (.deleteUploadRecord sessionID)
        return (.ok value : Except ε α) : Service (Except ε α)).Ensures calm
      (Ended sessionID) world := by
  unfold discardUpload releaseSessionSlot
  refine calm_session fun _ _ => calm_session fun _ _ => ?_
  refine calm_session fun removing hremoving => calm_session fun deleting hdeleting => fun _ => ?_
  simp only [exec, hremoving, hdeleting, Option.isSome_none, Bool.false_eq_true, if_false]
  refine ⟨fun other => ?_, AList.lookup_erase _ _⟩
  by_cases heq : other = inst
  · subst heq
    simp [setInstance]
  · simpa [setInstance, Function.update_of_ne heq] using honly other heq

theorem ended_abortUpload (ctx : Context) (honly : world.HeldOnlyBy ctx.inst sessionID) :
    (abortUpload ctx sessionID).Ensures calm (Ended sessionID) world := by
  unfold abortUpload
  refine calm_quiet (only_perform trivial) honly fun found after honly => ?_
  cases found with
  | none => exact .error _
  | some address =>
    refine calm_quiet (only_perform trivial) honly fun _ _ honly => ?_
    refine calm_quiet (only_perform trivial) honly fun _ _ honly => ?_
    refine calm_quiet (only_perform trivial) honly fun _ _ honly => ?_
    exact ended_discard honly

section Complete

variable (sha256 : Bytes → String) (crypto : Option CryptoService)

theorem ended_storeUpload (ctx : Context) (address : Address) (current : UploadSession)
    (hashVerified : Bool) (temp : TempName) (hash : String)
    (honly : world.HeldOnlyBy ctx.inst sessionID) :
    (storeUpload ctx address current sessionID hashVerified temp hash).Ensures calm
      (Ended sessionID) world := by
  unfold storeUpload
  refine calm_quiet (only_perform trivial) honly fun moved _ honly => ?_
  cases moved with
  | error cause => exact calm_skip fun _ _ => calm_skip fun _ _ => .error _
  | ok _ =>
    refine calm_quiet (quiet_recordUpload ..) honly fun recorded _ honly => ?_
    cases recorded with
    | error cause => exact calm_skip fun _ _ => .error _
    | ok metadata =>
      refine calm_quiet (only_perform trivial) honly fun _ _ honly => ?_
      exact ended_discard honly

theorem ended_finishUpload (ctx : Context) (address : Address) (current : UploadSession)
    (honly : world.HeldOnlyBy ctx.inst sessionID) :
    (finishUpload sha256 crypto ctx address current sessionID).Ensures calm
      (Ended sessionID) world := by
  unfold finishUpload
  refine calm_quiet (only_perform trivial) honly fun outcome _ honly => ?_
  cases outcome with
  | syncFailed => exact calm_skip fun _ _ => calm_skip fun _ _ => .error _
  | closeFailed => exact calm_skip fun _ _ => .error _
  | closed =>
    refine calm_quiet (quiet_verifyHash sha256 ..) honly fun verified _ honly => ?_
    cases verified with
    | error cause => exact calm_skip fun _ _ => calm_skip fun _ _ => .error _
    | ok hashVerified =>
      refine calm_quiet (quiet_encryptTempFile sha256 crypto ..) honly fun encrypted _ honly => ?_
      cases encrypted with
      | error cause => exact calm_skip fun _ _ => .error _
      | ok sealed =>
        refine calm_quiet (only_perform trivial) honly fun taken after honly => ?_
        cases taken with
        | false => exact calm_skip fun _ _ => calm_skip fun _ _ => .error _
        | true =>
          refine (ensures_bind _ _ _ _ _).mpr ?_
          refine (ended_storeUpload ctx address current hashVerified sealed.1 sealed.2
            honly).mono _ fun result final hended => ?_
          refine calm_lock fun _ unlocked hsessions => fun hok => ?_
          obtain ⟨hheld, hstored⟩ := hended hok
          exact ⟨by rw [hsessions]; exact hheld, by rw [hsessions]; exact hstored⟩

theorem heldOnlyBy_uploadSession (honly : world.HeldOnlyBy inst sessionID) :
    (uploadSession inst sessionID).Ensures calm
      (fun _ after => after.HeldOnlyBy inst sessionID) world := by
  unfold uploadSession
  refine calm_quiet (only_perform trivial) honly fun found _ honly => ?_
  cases found with
  | some address => exact honly
  | none =>
    refine calm_quiet (only_perform trivial) honly fun record _ honly => ?_
    cases record with
    | none => exact honly
    | some record =>
      refine calm_quiet (only_perform trivial) honly fun file after honly => ?_
      refine calm_session fun env _ => fun other hother => ?_
      simp only [exec]
      cases (after.sessions.instances inst).uploadSessions.lookup sessionID with
      | some address => exact honly other hother
      | none =>
        simpa [setInstance, setUpload, Function.update_of_ne hother]
          using honly other hother

theorem ended_completeUpload (ctx : Context) (honly : world.HeldOnlyBy ctx.inst sessionID) :
    (completeUpload sha256 crypto ctx sessionID).Ensures calm (Ended sessionID) world := by
  unfold completeUpload
  rw [ensures_bind]
  refine (heldOnlyBy_uploadSession honly).mono _ fun found _ honly => ?_
  cases found with
  | none => exact .error _
  | some address =>
    refine calm_quiet (only_perform trivial) honly fun current _ honly => ?_
    split_ifs
    · exact calm_skip fun _ _ => .error _
    · refine calm_quiet (only_perform trivial) honly fun _ _ honly => ?_
      exact ended_finishUpload sha256 crypto ctx address current honly

end Complete

end Ending

/-! ### Calls on a session that is gone -/

section Later

variable {sha256 : Bytes → String} {crypto : Option CryptoService} {sessionID : String}
  {world : World}

theorem still_session {α β : Type} {post : α → Prop} {call : SessionCall β} {rest : β → Service α}
    (reply : β) (hcall : ∀ env : Env, env.fault = none →
      world.sessions.exec env call = (reply, world.sessions))
    (hrest : (rest reply).Still calm post world) :
    (Service.session call >>= rest).Still calm post world := by
  intro env answer after hanswer
  have houtcome := hcall { env with fault := none } rfl
  simp only [calm, handle, houtcome] at hanswer
  cases hanswer
  exact ⟨rfl, hrest⟩

theorem still_uploadSession {α : Type} {post : α → Prop} {rest : Option Address → Service α}
    (hgone : world.Gone sessionID) (inst : Nat) (hrest : (rest none).Still calm post world) :
    (uploadSession inst sessionID >>= rest).Still calm post world := by
  unfold uploadSession
  rw [bind_bind]
  refine still_session none (fun env _ => by rw [exec, hgone.held inst]) ?_
  rw [bind_bind]
  refine still_session none (fun env hcalm => ?_) hrest
  simp only [exec, hcalm, hgone.stored, Option.isSome_none, Bool.false_eq_true, if_false]

theorem SessionRequest.still_of_gone (hgone : world.Gone sessionID) (request : SessionRequest) :
    (request.service sha256 crypto sessionID).Still calm (· = false) world := by
  obtain ⟨ctx, action⟩ := request
  cases action with
  | uploadChunk data offset =>
    change (uploadChunk ctx sessionID data offset >>= _).Still _ _ _
    unfold uploadChunk
    rw [bind_bind]
    exact still_uploadSession hgone ctx.inst rfl
  | completeUpload =>
    change (completeUpload sha256 crypto ctx sessionID >>= _).Still _ _ _
    unfold completeUpload
    rw [bind_bind]
    exact still_uploadSession hgone ctx.inst rfl
  | abortUpload =>
    change (abortUpload ctx sessionID >>= _).Still _ _ _
    unfold abortUpload
    rw [bind_bind]
    exact still_session none (fun env _ => by rw [exec, hgone.held ctx.inst]) rfl

end Later

/-! ### Any interleaving -/

namespace SessionRequest

def Ends (request : SessionRequest) : Prop :=
  request.action = .completeUpload ∨ request.action = .abortUpload

theorem ensures_gone (sha256 : Bytes → String) (crypto : Option CryptoService) {sessionID : String}
    {world : World} (request : SessionRequest) (hends : request.Ends)
    (honly : world.HeldOnlyBy request.ctx.inst sessionID) :
    (request.service sha256 crypto sessionID).Ensures calm
      (fun ok after => ok = true → after.Gone sessionID) world := by
  obtain ⟨ctx, action⟩ := request
  rcases hends with rfl | rfl
  · exact (ensures_bind _ _ _ _ _).mpr (ended_completeUpload sha256 crypto ctx honly)
  · exact (ensures_bind _ _ _ _ _).mpr (ended_abortUpload ctx honly)

/-- No call is in progress besides one that ends the session, and when it starts no other instance
has a copy of it. -/
def EndsAlone {T : Type} (sessionID : String) :
    Config Call World T SessionRequest Bool → Label T SessionRequest Bool → Prop :=
  Alone Ends fun request world => world.HeldOnlyBy request.ctx.inst sessionID

/-- **Once the session has ended, every later call on it fails and changes nothing.** -/
theorem ended_everywhere {T : Type} [DecidableEq T] (sha256 : Bytes → String)
    (crypto : Option CryptoService) (sessionID : String)
    {start ended last : Config Call World T SessionRequest Bool}
    {before later : List (Label T SessionRequest Bool)} {task : T} {request : SessionRequest}
    (hidle : ∀ task, start.task task = .idle)
    (hbefore : Trace (fun config label after => EndsAlone sessionID config label ∧
        Move calm (service sha256 crypto sessionID) config label after)
      start (before ++ [.finish task request true]) ended)
    (hends : request.Ends)
    (hlater : Trace (Move calm (service sha256 crypto sessionID)) ended later
      last) :
    (∀ task request ok, .finish task request ok ∈ later → ok = false) ∧
      last.shared = ended.shared := by
  obtain ⟨hidleEnded, hgone⟩ := Trace.alone hbefore hidle
    (fun request world hends honly => request.ensures_gone sha256 crypto hends honly) hends
  obtain ⟨hsame, hfailed⟩ := hlater.still hidleEnded (still_of_gone (hgone rfl))
  exact ⟨hfailed, hsame⟩

def resting (world : World) : Config Call World Nat SessionRequest Bool := ⟨world, fun _ => .idle⟩

theorem next_resting (world final : World) (task : Nat) :
    (resting world).next task .idle final = resting final := by
  unfold resting Config.next
  rw [Function.update_eq_self_iff.mpr rfl]

section Sequential

variable {sha256 : Bytes → String} {crypto : Option CryptoService} {sessionID : String}
  {world final : World} {request : SessionRequest} {ok : Bool}

theorem trace_of_run (task : Nat)
    (hrun : (request.service sha256 crypto sessionID).run calm .textual world =
      some (ok, final)) :
    ∃ labels, Trace (Move calm (service sha256 crypto sessionID))
      (resting world) (labels ++ [.finish task request ok]) (resting final) := by
  have halone : Alone (fun _ => False) (fun _ _ => True) (resting world) (.start task request) :=
    ⟨fun _ _ _ _ => ⟨id, id⟩, False.elim⟩
  obtain ⟨labels, hlabels⟩ := Trace.of_runs rfl halone (runs_of_run calm hrun)
  rw [next_resting] at hlabels
  exact ⟨labels, hlabels.mono And.right⟩

theorem endsAlone_of_run (task : Nat)
    (honly : request.Ends → world.HeldOnlyBy request.ctx.inst sessionID)
    (hrun : (request.service sha256 crypto sessionID).run calm .textual world =
      some (ok, final)) :
    ∃ labels, Trace (fun config label after => EndsAlone sessionID config label ∧
        Move calm (service sha256 crypto sessionID) config label after)
      (resting world) (labels ++ [.finish task request ok]) (resting final) := by
  have halone : EndsAlone sessionID (resting world) (.start task request) :=
    ⟨fun _ _ _ hbusy => (nomatch hbusy), honly⟩
  obtain ⟨labels, hlabels⟩ := Trace.of_runs rfl halone (runs_of_run calm hrun)
  rw [next_resting] at hlabels
  exact ⟨labels, hlabels⟩

end Sequential

/-! ### Two instances -/

def onFirst (action : SessionAction) : SessionRequest := ⟨Context.sample 1 "s", action⟩

def onSecond (action : SessionAction) : SessionRequest :=
  ⟨{ Context.sample 2 "t" with inst := 1 }, action⟩

def openedOnFirst (world : World) : Prop :=
  (createUploadSession (Context.sample 1 "s") ['f'] ['f'] 1 "client" "").run calm .textual
    (initial .postgresql [['r']]) = some (.ok "s", world)

/-- The client has sent the only chunk to both instances and has completed the session on the first.
The second accepts one more chunk. -/
theorem ended_still_accepted : ∃ start ended last before later,
    openedOnFirst start ∧
    Trace (Move calm (service (fun _ => "") none "s")) (resting start)
      (before ++ [.finish 0 (onFirst .completeUpload) true]) (resting ended) ∧
    Trace (Move calm (service (fun _ => "") none "s")) (resting ended)
      (later ++ [.finish 1 (onSecond (.uploadChunk [8] 0)) true]) (resting last) ∧
    ended.sessions.inodes 0 = [7] ∧ last.sessions.inodes 0 = [8] := by
  obtain ⟨start, sent, again, ended, last, hstart, hsent, hagain, hended, hlast, hseven, height⟩ :
      ∃ start sent again ended last, openedOnFirst start ∧
        ((onSecond (.uploadChunk [7] 0)).service (fun _ => "") none "s").run calm .textual
          start = some (true, sent) ∧
        ((onFirst (.uploadChunk [7] 0)).service (fun _ => "") none "s").run calm .textual
          sent = some (true, again) ∧
        ((onFirst .completeUpload).service (fun _ => "") none "s").run calm .textual
          again = some (true, ended) ∧
        ((onSecond (.uploadChunk [8] 0)).service (fun _ => "") none "s").run calm .textual
          ended = some (true, last) ∧
        ended.sessions.inodes 0 = [7] ∧ last.sessions.inodes 0 = [8] :=
    ⟨_, _, _, _, _, rfl, rfl, rfl, rfl, rfl, rfl, rfl⟩
  obtain ⟨first, hfirst⟩ := trace_of_run 1 hsent
  obtain ⟨second, hsecond⟩ := trace_of_run 0 hagain
  obtain ⟨third, hthird⟩ := trace_of_run 0 hended
  obtain ⟨later, hlater⟩ := trace_of_run 1 hlast
  have hbefore := (hfirst.append hsecond).append hthird
  rw [← List.append_assoc] at hbefore
  exact ⟨start, ended, last, _, later, hstart, hbefore, hlater, hseven, height⟩

/-- The same session aborted by the first instance before the second has seen it. -/
theorem ended_everywhere_aborted : ∃ start ended last before later,
    openedOnFirst start ∧
    Trace (fun config label after => EndsAlone "s" config label ∧
        Move calm (service (fun _ => "") none "s") config label after)
      (resting start) (before ++ [.finish 0 (onFirst .abortUpload) true]) (resting ended) ∧
    Trace (Move calm (service (fun _ => "") none "s")) (resting ended)
      (later ++ [.finish 1 (onSecond (.uploadChunk [8] 0)) false]) (resting last) ∧
    (∀ task request ok,
      .finish task request ok ∈ later ++ [.finish 1 (onSecond (.uploadChunk [8] 0)) false] →
        ok = false) ∧
    last = ended := by
  obtain ⟨start, ended, last, hstart, honly, hended, hlast⟩ :
      ∃ start ended last, openedOnFirst start ∧ start.HeldOnlyBy 0 "s" ∧
        ((onFirst .abortUpload).service (fun _ => "") none "s").run calm .textual
          start = some (true, ended) ∧
        ((onSecond (.uploadChunk [8] 0)).service (fun _ => "") none "s").run calm .textual
          ended = some (false, last) := by
    refine ⟨_, _, _, rfl, ?_, rfl, rfl⟩
    intro other hother
    change (Function.update (Function.update (fun _ => Instance.empty) 0 _) 0 _
      other).uploadSessions.lookup "s" = none
    rw [Function.update_of_ne hother, Function.update_of_ne hother]
    rfl
  obtain ⟨before, hbefore⟩ := endsAlone_of_run 0 (fun _ => honly) hended
  obtain ⟨later, hlater⟩ := trace_of_run 1 hlast
  obtain ⟨hfailed, hsame⟩ := ended_everywhere (fun _ => "") none "s" (fun _ => rfl) hbefore
    (Or.inr rfl) hlater
  exact ⟨start, ended, last, before, later, hstart, hbefore, hlater, hfailed, hsame⟩

end SessionRequest

end FsServer
