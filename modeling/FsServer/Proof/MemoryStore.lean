import FsServer.MemoryStore
import Mathlib.Algebra.Order.Ring.Int

/-!
# What a read of the session store finds

A value stays as `Set` has written it until it expires, if nothing is left over from before: no
deadline, when `Set` writes none, and no call that has found the entry expired and is going to delete
it. From then on only a `Set` or `Delete` with the same store key can change what a read finds.
-/

namespace FsServer

open Lib Program StoreRequest

variable {V T : Type} [DecidableEq T] {codec : StoreCodec V}

abbrev StoreConfig (T V : Type) :=
  Config StoreCall MemorySessionStore T (StoreRequest V) (StoreReply V)

abbrev StoreLabel (T V : Type) := Label T (StoreRequest V) (StoreReply V)

def newStore (T V : Type) : StoreConfig T V :=
  ⟨MemorySessionStore.newMemorySessionStore, fun _ => .idle⟩

abbrev StoreMove (codec : StoreCodec V) :
    StoreConfig T V → StoreLabel T V → StoreConfig T V → Prop :=
  Move MemorySessionStore.handle (program codec)

namespace StoreRequest

def isDelete : StoreRequest V → Bool
  | delete _ _ => true
  | _ => false

/-- What is left of a call: all of it, a deletion, or nothing. -/
inductive Residue (codec : StoreCodec V) (call : StoreRequest V) :
    Program StoreCall (StoreReply V) → Prop
  | start : Residue codec call (call.program codec)
  | erase (storeKey : String) (reply : StoreReply V) :
      Residue codec call (.call (.erase storeKey) fun _ => .done reply)
  | done (reply : StoreReply V) : Residue codec call (.done reply)

variable {call : StoreRequest V} {β : Type} {operation : StoreCall β}
  {next : β → Program StoreCall (StoreReply V)}

theorem Residue.section (h : Residue codec call (.call operation next)) :
    (∃ storeKey data ttl reply, Program.call operation next =
      .call (.write storeKey data ttl) fun _ => .done reply) ∨
    (∃ storeKey reply, Program.call operation next = lookup storeKey reply) ∨
    ∃ storeKey reply, Program.call operation next = .call (.erase storeKey) fun _ => .done reply := by
  generalize hrest : Program.call operation next = rest at h
  cases h with
  | start =>
    cases call with
    | set scope key value ttl =>
      cases hdata : codec.marshal value with
      | none =>
        rw [program, hdata] at hrest
        cases hrest
      | some data => exact .inl ⟨_, data, ttl, _, by rw [program, hdata]; rfl⟩
    | get scope key => exact .inr (.inl ⟨_, _, rfl⟩)
    | delete scope key => exact .inr (.inr ⟨_, _, rfl⟩)
    | «exists» scope key =>
      exact .inr (.inl ⟨storeKey scope key, fun found => .exists found.isSome, rfl⟩)
  | erase storeKey reply => exact .inr (.inr ⟨storeKey, reply, rfl⟩)
  | done reply => cases hrest

theorem Residue.after (h : Residue codec call (.call operation next)) (reply : β) :
    Residue codec call (next reply) := by
  rcases h.section with ⟨_, _, _, _, hrest⟩ | ⟨_, _, hrest⟩ | ⟨_, _, hrest⟩
  · cases hrest
    exact .done _
  · rw [lookup, perform_bind] at hrest
    cases hrest
    cases reply with
    | absent => exact .done _
    | expired => exact .erase _ _
    | found data => exact .done _
  · cases hrest
    exact .done _

def erases : Program StoreCall (StoreReply V) → Bool
  | .call (.erase _) _ => true
  | _ => false

theorem isDelete_of_erases (h : erases (call.program codec) = true) : call.isDelete = true := by
  cases call with
  | set scope key value ttl =>
    cases hdata : codec.marshal value with
    | none =>
      rw [program, hdata] at h
      cases h
    | some data =>
      rw [program, hdata] at h
      cases h
  | get scope key => cases h
  | delete scope key => rfl
  | «exists» scope key => cases h

end StoreRequest

/-! ### The entry of one store key -/

/-- What was written at the one time can be found at the other. -/
def Live (ttl : Duration) (written now : Time) : Prop := ttl ≤ 0 ∨ now ≤ written + ttl

instance (ttl : Duration) (written now : Time) : Decidable (Live ttl written now) :=
  inferInstanceAs (Decidable (_ ∨ _))

theorem not_live_mono {ttl : Duration} {written now later : Time} (h : ¬ Live ttl written now)
    (hle : now ≤ later) : ¬ Live ttl written later := by
  rintro (hforever | hbefore)
  · exact h (.inl hforever)
  · exact h (.inr (le_trans (Int.ofNat_le.mpr hle) hbefore))

def Untouched (storeKey : String) (config : StoreConfig T V) : StoreLabel T V → Prop
  | .step task => ∀ call,
      (∀ data ttl next, config.task task ≠ .working call (.call (.write storeKey data ttl) next)) ∧
      ∀ next, config.task task = .working call (.call (.erase storeKey) next) → call.isDelete = false
  | _ => True

/-- The entry is as it was written, or it has expired and is gone, and it is deleted by no call that
only looks it up before it has expired. -/
structure Kept (codec : StoreCodec V) (storeKey : String) (data : List UInt8) (ttl : Duration)
    (written : Time) (config : StoreConfig T V) : Prop where
  residues : config.Each fun call rest _ => call.Residue codec rest
  waiting : ∀ task call next, config.task task = .working call (.call (.erase storeKey) next) →
    call.isDelete = true ∨ ¬ Live ttl written config.shared.clock
  entry : (config.shared.data storeKey = some data ∧
      config.shared.ttls storeKey = if 0 < ttl then some (written + ttl) else none) ∨
    (¬ Live ttl written config.shared.clock ∧ config.shared.data storeKey = none)

namespace MemorySessionStore

variable {store after : MemorySessionStore} {key : String} {now : Time}

theorem of_handle_write {data : List UInt8} {ttl : Duration} {reply : Unit}
    (h : handle _ now (.write key data ttl) store = some (reply, after)) :
    store.clock ≤ now ∧ after = store.write now key data ttl := by
  unfold handle at h
  dsimp only at h
  split_ifs at h with hclock
  cases h
  exact ⟨hclock, rfl⟩

theorem of_handle_read {result : ReadResult}
    (h : handle _ now (.read key) store = some (result, after)) :
    store.clock ≤ now ∧ result = store.read now key ∧ after = { store with clock := now } := by
  unfold handle at h
  dsimp only at h
  split_ifs at h with hclock
  cases h
  exact ⟨hclock, rfl, rfl⟩

end MemorySessionStore

variable {scope name : String}

section Kept

variable {key : String} {data : List UInt8} {ttl : Duration} {written : Time}
  {config after : StoreConfig T V} {label : StoreLabel T V}

open MemorySessionStore

omit [DecidableEq T] in
theorem Kept.read_eq (h : Kept codec key data ttl written config) {now : Time}
    (hclock : config.shared.clock ≤ now) :
    config.shared.read now key = .found data ∧ Live ttl written now ∨
      (config.shared.read now key = .absent ∨ config.shared.read now key = .expired) ∧
        ¬ Live ttl written now := by
  unfold MemorySessionStore.read
  rcases h.entry with ⟨hdata, hdeadline⟩ | ⟨hover, hnone⟩
  · rw [hdata, hdeadline]
    by_cases hpos : 0 < ttl
    · rw [if_pos hpos]
      dsimp only
      by_cases hpassed : written + ttl < now
      · rw [if_pos hpassed]
        refine .inr ⟨.inr rfl, ?_⟩
        rintro (hforever | hbefore)
        · exact absurd hpos hforever.not_gt
        · exact absurd hpassed hbefore.not_gt
      · rw [if_neg hpassed]
        exact .inl ⟨rfl, .inr (not_lt.mp hpassed)⟩
    · rw [if_neg hpos]
      exact .inl ⟨rfl, .inl (not_lt.mp hpos)⟩
  · rw [hnone]
    exact .inr ⟨.inl rfl, not_live_mono hover hclock⟩

theorem Kept.next {task : T} {state : Task StoreCall (StoreRequest V) (StoreReply V)}
    {store : MemorySessionStore} (h : Kept codec key data ttl written config)
    (hclock : config.shared.clock ≤ store.clock)
    (hresidue : ∀ call rest, state = .working call rest → call.Residue codec rest)
    (howner : ∀ call next, state = .working call (.call (.erase key) next) →
      call.isDelete = true ∨ ¬ Live ttl written store.clock)
    (hentry : (store.data key = some data ∧
        store.ttls key = if 0 < ttl then some (written + ttl) else none) ∨
      (¬ Live ttl written store.clock ∧ store.data key = none)) :
    Kept codec key data ttl written (config.next task state store) := by
  refine ⟨fun other call rest hworking => ?_, fun other call next hworking => ?_, hentry⟩
  · rcases Config.of_next_working hworking with ⟨-, hstate⟩ | ⟨-, hbefore⟩
    · exact hresidue call rest hstate
    · exact h.residues other call rest hbefore
  · rcases Config.of_next_working hworking with ⟨-, hstate⟩ | ⟨-, hbefore⟩
    · exact howner call next hstate
    · exact (h.waiting other call next hbefore).imp_right fun hover => not_live_mono hover hclock

omit [DecidableEq T] in
theorem Kept.entry_of_same (h : Kept codec key data ttl written config) {store : MemorySessionStore}
    (hclock : config.shared.clock ≤ store.clock)
    (hdata : store.data key = config.shared.data key)
    (httls : store.ttls key = config.shared.ttls key) :
    (store.data key = some data ∧ store.ttls key = if 0 < ttl then some (written + ttl) else none) ∨
      (¬ Live ttl written store.clock ∧ store.data key = none) := by
  rw [hdata, httls]
  exact h.entry.imp_right fun hgone => ⟨not_live_mono hgone.1 hclock, hgone.2⟩

theorem Kept.move (h : Kept codec key data ttl written config)
    (huntouched : Untouched key config label) (hmove : StoreMove codec config label after) :
    Kept codec key data ttl written after := by
  cases hmove with
  | @start starter started hidle =>
    refine h.next le_rfl (fun call rest hstate => ?_) (fun call next hstate => .inl ?_) h.entry
    · cases hstate
      exact .start
    · injection hstate with hcall hrest
      subst hcall
      exact isDelete_of_erases (congrArg erases hrest)
  | @step stepper current β operation next reply store now hcurrent hcall =>
    have hresidue := h.residues stepper current _ hcurrent
    obtain ⟨hwrites, herases⟩ := huntouched current
    have hafter : ∀ call rest, Task.working current (next reply) = .working call rest →
        call.Residue codec rest := by
      rintro call rest ⟨⟩
      exact hresidue.after reply
    rcases hresidue.section with ⟨other, bytes, time, result, hrest⟩ | ⟨other, answer, hrest⟩ |
      ⟨other, result, hrest⟩
    · cases hrest
      obtain ⟨hclock, rfl⟩ := of_handle_write hcall
      have hne : key ≠ other := by
        rintro rfl
        exact hwrites _ _ _ hcurrent
      refine h.next hclock hafter (fun _ _ hstate => nomatch hstate) (h.entry_of_same hclock ?_ ?_)
      · exact Function.update_of_ne hne ..
      · unfold MemorySessionStore.write
        split_ifs
        · exact Function.update_of_ne hne ..
        · rfl
    · rw [lookup, perform_bind] at hrest
      cases hrest
      obtain ⟨hclock, rfl, rfl⟩ := of_handle_read hcall
      refine h.next hclock hafter (fun call next hstate => .inr ?_) (h.entry_of_same hclock rfl rfl)
      cases hresult : config.shared.read now other with
      | absent =>
        rw [hresult] at hstate
        cases hstate
      | found bytes =>
        rw [hresult] at hstate
        cases hstate
      | expired =>
        rw [hresult] at hstate
        cases hstate
        rcases h.read_eq hclock with ⟨hfound, -⟩ | ⟨-, hover⟩
        · rw [hresult] at hfound
          cases hfound
        · exact hover
    · cases hrest
      cases hcall
      refine h.next le_rfl hafter (fun _ _ hstate => nomatch hstate) ?_
      by_cases heq : key = other
      · subst heq
        have hover := (h.waiting stepper current _ hcurrent).resolve_left
          (by rw [herases _ hcurrent]; exact Bool.false_ne_true)
        exact .inr ⟨hover, Function.update_self ..⟩
      · exact h.entry_of_same le_rfl (Function.update_of_ne heq ..) (Function.update_of_ne heq ..)
  | @finish finisher finished result hcurrent =>
    exact h.next le_rfl (fun _ _ hstate => nomatch hstate) (fun _ _ hstate => nomatch hstate) h.entry

theorem residues_of_trace {past : List (StoreLabel T V)}
    (htrace : Trace (StoreMove codec) (newStore T V) past config) :
    config.Each fun call rest _ => call.Residue codec rest := by
  refine htrace.invariant _ (Config.Each.of_idle fun _ => rfl) fun {config label after} h hmove => ?_
  refine Config.Each.move h hmove (fun _ _ _ => .start) ?_
  rintro task call left - ⟨β, operation, next, env, reply, hworking, -, rfl⟩
  exact ⟨(h task call _ hworking).after reply, h⟩

/-- `Set` leaves the entry as it writes it if no deadline and no deletion is left over. -/
theorem kept_of_write {value : V} {setter : T}
    (hresidues : config.Each fun call rest _ => call.Residue codec rest)
    (hset : config.task setter = .working (.set scope name value ttl)
      ((set scope name value ttl).program codec))
    (hdata : codec.marshal value = some data)
    (hfresh : ttl ≤ 0 → config.shared.ttls (storeKey scope name) = none)
    (hwaiting : ∀ task call next,
      config.task task = .working call (.call (.erase (storeKey scope name)) next) →
        call.isDelete = true) (hmove : StoreMove codec config (.step setter) after) :
    Kept codec (storeKey scope name) data ttl after.shared.clock after := by
  rw [program, hdata] at hset
  cases hmove with
  | @step _ current β operation next reply store now hcurrent hcall =>
    rw [hset] at hcurrent
    cases hcurrent
    obtain ⟨hclock, rfl⟩ := of_handle_write hcall
    refine ⟨fun other call rest hworking => ?_, fun other call next hworking => .inl ?_,
      .inl ⟨Function.update_self .., ?_⟩⟩
    · rcases Config.of_next_working hworking with ⟨-, hstate⟩ | ⟨-, hbefore⟩
      · cases hstate
        exact .done _
      · exact hresidues other call rest hbefore
    · rcases Config.of_next_working hworking with ⟨-, hstate⟩ | ⟨-, hbefore⟩
      · cases hstate
      · exact hwaiting other call next hbefore
    · rw [Config.next_shared, MemorySessionStore.write]
      dsimp only
      split_ifs with hpos
      · exact Function.update_self ..
      · exact hfresh (not_lt.mp hpos)

end Kept

/-! ### Reads -/

namespace StoreRequest

/-- What a call that looks an entry up answers for what it finds. -/
def answer (codec : StoreCodec V) : StoreRequest V → Option (List UInt8) → StoreReply V
  | get _ key, found => getReply codec key found
  | «exists» _ _, found => .exists found.isSome
  | set _ _ _ _, _ => .set (.ok ())
  | delete _ _, _ => .delete

/-- All that is left of the call leads to this reply. -/
def Settles (reply : StoreReply V) (rest : Program StoreCall (StoreReply V)) : Prop :=
  rest = .done reply ∨ ∃ key, rest = .call (.erase key) fun _ => .done reply

theorem program_of_lookup {call : StoreRequest V} {key : String}
    (h : call = .get scope key ∨ call = .exists scope key) :
    call.program codec = lookup (storeKey scope key) (call.answer codec) := by
  rcases h with rfl | rfl
  · rfl
  · rfl

theorem Settles.next {reply : StoreReply V} {β : Type} {operation : StoreCall β}
    {next : β → Program StoreCall (StoreReply V)} (result : β)
    (h : Settles reply (.call operation next)) : Settles reply (next result) := by
  rcases h with hdone | ⟨key, herase⟩
  · cases hdone
  · cases herase
    exact .inl rfl

end StoreRequest

theorem Kept.settles {data : List UInt8} {ttl : Duration} {written : Time}
    {config after : StoreConfig T V} {reader : T} {call : StoreRequest V}
    (h : Kept codec (storeKey scope name) data ttl written config)
    (hcall : call = .get scope name ∨ call = .exists scope name)
    (hreader : config.task reader = .working call (call.program codec))
    (hmove : StoreMove codec config (.step reader) after) :
    ∃ rest, after.task reader = .working call rest ∧
      Settles (call.answer codec
        (if Live ttl written after.shared.clock then some data else none)) rest := by
  rw [program_of_lookup hcall, lookup, perform_bind] at hreader
  cases hmove with
  | @step _ current β operation next reply store now hcurrent hread =>
    rw [hreader] at hcurrent
    cases hcurrent
    obtain ⟨hclock, rfl, rfl⟩ := MemorySessionStore.of_handle_read hread
    refine ⟨_, Config.next_task_self .., ?_⟩
    rw [Config.next_shared]
    rcases h.read_eq hclock with ⟨hfound, hlive⟩ | ⟨hmissing, hover⟩
    · rw [if_pos hlive, hfound]
      exact .inl rfl
    · rw [if_neg hover]
      rcases hmissing with habsent | hexpired
      · rw [habsent]
        exact .inl rfl
      · rw [hexpired]
        exact .inr ⟨_, rfl⟩

/-! ### A store with one user -/

def plainCodec : StoreCodec (List UInt8) := ⟨some, some⟩

def atWork (call : StoreRequest (List UInt8)) (rest : Program StoreCall (StoreReply (List UInt8)))
    (store : MemorySessionStore) : StoreConfig Unit (List UInt8) :=
  (newStore Unit (List UInt8)).next () (.working call rest) store

def atRest (store : MemorySessionStore) : StoreConfig Unit (List UInt8) :=
  (newStore Unit (List UInt8)).next () .idle store

theorem move_start (call : StoreRequest (List UInt8)) (store : MemorySessionStore) :
    StoreMove plainCodec (atRest store) (.start () call)
      (atWork call (call.program plainCodec) store) := by
  have hmove : StoreMove plainCodec (atRest store) (.start () call) _ :=
    .start (Config.next_task_self ..)
  rwa [atRest, Config.next_next] at hmove

theorem move_step {call : StoreRequest (List UInt8)} {β : Type} {operation : StoreCall β}
    {next : β → Program StoreCall (StoreReply (List UInt8))} {reply : β}
    {store after : MemorySessionStore} (now : Time)
    (hcall : MemorySessionStore.handle _ now operation store = some (reply, after)) :
    StoreMove plainCodec (atWork call (.call operation next) store) (.step ())
      (atWork call (next reply) after) := by
  have hmove : StoreMove plainCodec (atWork call (.call operation next) store) (.step ()) _ :=
    .step now (Config.next_task_self ..) hcall
  rwa [atWork, Config.next_next] at hmove

theorem move_finish (call : StoreRequest (List UInt8)) (reply : StoreReply (List UInt8))
    (store : MemorySessionStore) :
    StoreMove plainCodec (atWork call (.done reply) store) (.finish () call reply)
      (atRest store) := by
  have hmove : StoreMove plainCodec (atWork call (.done reply) store) (.finish () call reply) _ :=
    .finish (Config.next_task_self ..)
  rwa [atWork, Config.next_next] at hmove

/-- A `Get` or `Exists` finds what the last `Set` wrote, until it expires, if that `Set` took its
section while no deadline was left over and no call was about to delete an earlier entry. -/
theorem memoryStore_reads_last_set {scope key : String} {value : V} {data : List UInt8}
    {ttl : Duration} {past between during : List (StoreLabel T V)} {setter reader : T}
    {call : StoreRequest V} {reply : StoreReply V}
    {before written reading read last : StoreConfig T V}
    (hpast : Trace (StoreMove codec) (newStore T V) past before)
    (hset : before.task setter = .working (.set scope key value ttl)
      ((StoreRequest.set scope key value ttl).program codec))
    (hdata : codec.marshal value = some data)
    (hfresh : ttl ≤ 0 → before.shared.ttls (storeKey scope key) = none)
    (hwaiting : ∀ task call next,
      before.task task = .working call (.call (.erase (storeKey scope key)) next) →
        call.isDelete = true)
    (hwrite : StoreMove codec before (.step setter) written)
    (hbetween : Trace (fun config label after => Untouched (storeKey scope key) config label ∧
      StoreMove codec config label after) written between reading)
    (hcall : call = .get scope key ∨ call = .exists scope key)
    (hreader : reading.task reader = .working call (call.program codec))
    (hread : StoreMove codec reading (.step reader) read)
    (hend : Trace (StoreMove codec) read (during ++ [.finish reader call reply]) last)
    (hduring : ∀ result, .finish reader call result ∉ during) :
    reply = call.answer codec
      (if Live ttl written.shared.clock read.shared.clock then some data else none) := by
  have hwritten := kept_of_write (residues_of_trace hpast) hset hdata hfresh hwaiting hwrite
  have hkept : Kept codec (storeKey scope key) data ttl written.shared.clock reading :=
    hbetween.invariant _ hwritten fun h hstep => h.move hstep.1 hstep.2
  obtain ⟨rest, hworking, hsettles⟩ := hkept.settles hcall hreader hread
  obtain ⟨final, hsteps, hfinish⟩ := hend.of_snoc
  obtain ⟨rest', hdone, hlast⟩ := hsteps.follow hduring hworking hsettles
    fun result h => h.next result
  cases hfinish with
  | finish hcurrent =>
    rw [hdone] at hcurrent
    cases hcurrent
    rcases hlast with hreply | ⟨_, herase⟩
    · cases hreply
      rfl
    · cases herase

theorem memoryStore_reads_last_set_plain :
    ∃ (labels : List (StoreLabel Unit (List UInt8))) (reply : StoreReply (List UInt8))
      (last : StoreConfig Unit (List UInt8)),
      Trace (StoreMove plainCodec) (newStore Unit (List UInt8))
        (labels ++ [.finish () (.get "upload" "s") reply]) last ∧ reply = .get (.ok [1]) := by
  let empty := MemorySessionStore.newMemorySessionStore
  let full := empty.write 0 (storeKey "upload" "s") [1] 0
  let set : StoreRequest (List UInt8) := .set "upload" "s" [1] 0
  let get : StoreRequest (List UInt8) := .get "upload" "s"
  have hpast : Trace (StoreMove plainCodec) (newStore Unit (List UInt8)) [.start () set]
      (atWork set (set.program plainCodec) empty) := Trace.nil.snoc (.start rfl)
  have hwrite : StoreMove plainCodec (atWork set (set.program plainCodec) empty) (.step ())
      (atWork set (.done (.set (.ok ()))) full) := move_step 0 rfl
  have hbetween : Trace (fun config label after => Untouched (storeKey "upload" "s") config label ∧
      StoreMove plainCodec config label after) (atWork set (.done (.set (.ok ()))) full)
      [.finish () set (.set (.ok ())), .start () get] (atWork get (get.program plainCodec) full) :=
    (Trace.nil.snoc ⟨trivial, move_finish set _ full⟩).snoc ⟨trivial, move_start get full⟩
  have hfound : full.read 0 (storeKey "upload" "s") = .found [1] := by
    simp [full, empty, MemorySessionStore.read, MemorySessionStore.write,
      MemorySessionStore.newMemorySessionStore]
  have hsection : MemorySessionStore.handle _ 0 (.read (storeKey "upload" "s")) full =
      some (.found [1], full) := by
    rw [← hfound]
    rfl
  have hread : StoreMove plainCodec (atWork get (get.program plainCodec) full) (.step ())
      (atWork get (.done (.get (.ok [1]))) full) := move_step 0 hsection
  have hend : Trace (StoreMove plainCodec) (atWork get (.done (.get (.ok [1]))) full)
      ([] ++ [.finish () get (.get (.ok [1]))]) (atRest full) :=
    Trace.nil.snoc (move_finish get _ full)
  have hlabels := ((hpast.snoc hwrite).append (hbetween.mono And.right)).snoc hread |>.append hend
  refine ⟨_, _, _, hlabels, ?_⟩
  refine memoryStore_reads_last_set hpast (Config.next_task_self ..) rfl (fun _ => rfl) ?_ hwrite
    hbetween (.inl rfl) (Config.next_task_self ..) hread hend fun _ => List.not_mem_nil
  intro task call next hworking
  rw [atWork, Config.next_task_self] at hworking
  injection hworking with _ hrest
  exact absurd (congrArg erases hrest) Bool.false_ne_true

/-- A value is stored with a deadline and then again without one. The first deadline stays, and a
later `Get` does not find the value. -/
theorem memoryStore_loses_set :
    ∃ (past between : List (StoreLabel Unit (List UInt8)))
      (before written reading read last : StoreConfig Unit (List UInt8)),
      Trace (StoreMove plainCodec) (newStore Unit (List UInt8)) past before ∧
      before.task () = .working (.set "upload" "s" [1] 0)
        ((StoreRequest.set "upload" "s" [1] 0).program plainCodec) ∧
      StoreMove plainCodec before (.step ()) written ∧
      Trace (fun config label after => Untouched (storeKey "upload" "s") config label ∧
        StoreMove plainCodec config label after) written between reading ∧
      .finish () (.set "upload" "s" [1] 0) (.set (.ok ())) ∈ between ∧
      reading.task () = .working (.get "upload" "s")
        ((StoreRequest.get "upload" "s").program plainCodec) ∧
      StoreMove plainCodec reading (.step ()) read ∧
      Trace (StoreMove plainCodec) read
        [.step (), .finish () (.get "upload" "s") (.get (.error (.notFound "s")))] last := by
  let empty := MemorySessionStore.newMemorySessionStore
  let first := empty.write 0 (storeKey "upload" "s") [0] 1
  let full := first.write 0 (storeKey "upload" "s") [1] 0
  let late : MemorySessionStore := { full with clock := 2 }
  let once : StoreRequest (List UInt8) := .set "upload" "s" [0] 1
  let again : StoreRequest (List UInt8) := .set "upload" "s" [1] 0
  let get : StoreRequest (List UInt8) := .get "upload" "s"
  let missing : StoreReply (List UInt8) := .get (.error (.notFound "s"))
  have hstart : StoreMove plainCodec (newStore Unit (List UInt8)) (.start () once)
      (atWork once (once.program plainCodec) empty) := .start rfl
  have hfirst : StoreMove plainCodec (atWork once (once.program plainCodec) empty) (.step ())
      (atWork once (.done (.set (.ok ()))) first) := move_step 0 rfl
  have hpast := (((Trace.nil.snoc hstart).snoc hfirst).snoc (move_finish once _ first)).snoc
    (move_start again first)
  have hwrite : StoreMove plainCodec (atWork again (again.program plainCodec) first) (.step ())
      (atWork again (.done (.set (.ok ()))) full) := move_step 0 rfl
  have hbetween : Trace (fun config label after => Untouched (storeKey "upload" "s") config label ∧
      StoreMove plainCodec config label after) (atWork again (.done (.set (.ok ()))) full)
      [.finish () again (.set (.ok ())), .start () get] (atWork get (get.program plainCodec) full) :=
    (Trace.nil.snoc ⟨trivial, move_finish again _ full⟩).snoc ⟨trivial, move_start get full⟩
  have hexpired : full.read 2 (storeKey "upload" "s") = .expired := by
    simp [full, first, empty, MemorySessionStore.read, MemorySessionStore.write,
      MemorySessionStore.newMemorySessionStore]
  have hsection : MemorySessionStore.handle _ 2 (.read (storeKey "upload" "s")) full =
      some (.expired, late) := by
    rw [← hexpired]
    rfl
  have hread : StoreMove plainCodec (atWork get (get.program plainCodec) full) (.step ())
      (atWork get (.call (.erase (storeKey "upload" "s")) fun _ => .done missing) late) :=
    move_step 2 hsection
  have herase : StoreMove plainCodec
      (atWork get (.call (.erase (storeKey "upload" "s")) fun _ => .done missing) late) (.step ())
      (atWork get (.done missing) (late.erase (storeKey "upload" "s"))) := move_step 2 rfl
  exact ⟨_, _, _, _, _, _, _, hpast, Config.next_task_self .., hwrite, hbetween, .head _,
    Config.next_task_self .., hread, (Trace.nil.snoc herase).snoc (move_finish get missing _)⟩

end FsServer
