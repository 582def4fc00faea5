import Mathlib.Logic.Function.Basic
import Mathlib.Data.List.Basic

/-!
# The audit writer

`database/audit_writer.go`. `Submit` puts entries into a buffered channel, one background loop moves
them to a pending batch and writes batches, and `Close` stops the loop and writes what it has left. The
loop and every call of `Close` are automata whose states are the places in the source where another
goroutine can come in between. What the scheduler, the ticker and the contexts of the callers decide
comes with the event.
-/

namespace FsServer

/-- Who holds `mu`. -/
inductive AuditHolder (T : Type) where
  | loop
  | closer (task : T)
  deriving DecidableEq

inductive AuditLoop (A : Type) where
  | select
  | received (entry : A)
  | ticked
  | stopping
  | appending (entry : A)
  | checking (least : Nat)
  | writing (batch : List A)
  | unlocking
  | draining
  | drained (entry : A)
  | leaving
  | closing
  | exited

inductive AuditClose (A : Type) where
  | idle
  | cancelling
  | waiting
  | locking
  | checking
  | writing (batch : List A)
  | unlocking
  | returning (ok : Bool)

structure AuditWriter (T A : Type) where
  db : Bool
  batchSize : Nat
  ch : List A
  pending : List A
  mu : Option (AuditHolder T)
  cancelled : Bool
  done : Bool
  /-- The entries that `AuditLogService.Create` has been given. -/
  created : List A
  loop : AuditLoop A
  closer : T → AuditClose A

inductive AuditCase where
  | entry
  | tick
  | cancelled

/-- `Submit` is called, the loop goes on, `Close` is called, or a call of it goes on. -/
inductive AuditEvent (T A : Type) where
  | submit (entry : A)
  | loop (choice : AuditCase)
  | close (task : T)
  | closer (task : T) (expired : Bool)

inductive AuditReply where
  | accepted
  | dropped
  | moved
  | returned (ok : Bool)
  deriving DecidableEq

namespace AuditWriter

variable {T A : Type}

def newAuditWriter (db : Bool) (batchSize : Int) : AuditWriter T A where
  db := db
  batchSize := if batchSize ≤ 0 then 100 else batchSize.toNat
  ch := []
  pending := []
  mu := none
  cancelled := false
  done := !db
  created := []
  loop := if db then .select else .exited
  closer := fun _ => .idle

/-- An entry is dropped when the buffer of the channel is full. -/
def submit (writer : AuditWriter T A) (entry : A) : AuditReply × AuditWriter T A :=
  if !writer.db then (.dropped, writer)
  else if writer.ch.length < writer.batchSize * 4 then
    (.accepted, { writer with ch := writer.ch ++ [entry] })
  else (.dropped, writer)

/-- `select` takes any case that is ready. -/
def select (writer : AuditWriter T A) : AuditCase → Option (AuditWriter T A)
  | .entry =>
    match writer.ch with
    | [] => none
    | entry :: rest => some { writer with ch := rest, loop := .received entry }
  | .tick => some { writer with loop := .ticked }
  | .cancelled => if writer.cancelled then some { writer with loop := .stopping } else none

def lockLoop (writer : AuditWriter T A) (next : AuditLoop A) : Option (AuditWriter T A) :=
  match writer.mu with
  | none => some { writer with mu := some .loop, loop := next }
  | some _ => none

def loopStep (writer : AuditWriter T A) (choice : AuditCase) : Option (AuditWriter T A) :=
  match writer.loop with
  | .select => writer.select choice
  | .received entry => writer.lockLoop (.appending entry)
  | .appending entry =>
    some { writer with
      pending := writer.pending ++ [entry]
      loop := .checking writer.batchSize }
  | .ticked => writer.lockLoop (.checking 1)
  -- The batch is written unless the loop's own context has been cancelled.
  | .checking least =>
    if least ≤ writer.pending.length ∧ writer.cancelled = false then
      some { writer with pending := [], loop := .writing writer.pending }
    else some { writer with loop := .unlocking }
  | .writing [] => some { writer with loop := .unlocking }
  | .writing (entry :: rest) =>
    some { writer with created := writer.created ++ [entry], loop := .writing rest }
  | .unlocking => some { writer with mu := none, loop := .select }
  | .stopping => writer.lockLoop .draining
  | .draining =>
    match writer.ch with
    | [] => some { writer with loop := .leaving }
    | entry :: rest => some { writer with ch := rest, loop := .drained entry }
  | .drained entry =>
    some { writer with pending := writer.pending ++ [entry], loop := .draining }
  | .leaving => some { writer with mu := none, loop := .closing }
  | .closing => some { writer with done := true, loop := .exited }
  | .exited => none

variable [DecidableEq T]

def goOn (writer : AuditWriter T A) (task : T) (next : AuditClose A) : AuditWriter T A :=
  { writer with closer := Function.update writer.closer task next }

def close (writer : AuditWriter T A) (task : T) : Option (AuditWriter T A) :=
  match writer.closer task with
  | .idle => some (writer.goOn task (if writer.db then .cancelling else .returning true))
  | _ => none

def closeStep (writer : AuditWriter T A) (task : T) (expired : Bool) :
    Option (AuditReply × AuditWriter T A) :=
  match writer.closer task with
  | .idle => none
  | .cancelling => some (.moved, { writer with cancelled := true }.goOn task .waiting)
  | .waiting =>
    if expired then some (.moved, writer.goOn task (.returning false))
    else if writer.done then some (.moved, writer.goOn task .locking)
    else none
  | .locking =>
    match writer.mu with
    | none => some (.moved, { writer with mu := some (.closer task) }.goOn task .checking)
    | some _ => none
  | .checking =>
    if 0 < writer.pending.length then
      some (.moved, { writer with pending := [] }.goOn task (.writing writer.pending))
    else some (.moved, writer.goOn task .unlocking)
  | .writing [] => some (.moved, writer.goOn task .unlocking)
  | .writing (entry :: rest) =>
    some (.moved, { writer with created := writer.created ++ [entry] }.goOn task (.writing rest))
  | .unlocking => some (.moved, { writer with mu := none }.goOn task (.returning true))
  | .returning ok => some (.returned ok, writer.goOn task .idle)

def step (writer : AuditWriter T A) : AuditEvent T A → Option (AuditReply × AuditWriter T A)
  | .submit entry => some (writer.submit entry)
  | .loop choice => (writer.loopStep choice).map (AuditReply.moved, ·)
  | .close task => (writer.close task).map (AuditReply.moved, ·)
  | .closer task expired => writer.closeStep task expired

end AuditWriter

end FsServer
