import FsServer.LockService

/-!
# Locks with renewal

`AcquireLockWithRenewal` and `lockDirectory` as steps in time. A context is the list of its own cell
and of the cells of the contexts it is derived from; it is done once any of these is cancelled or has
passed its deadline. The renewal goroutine extends the lock once per interval while its context is not
done. Between the steps other clients use the lock service under tokens of their own.
-/

namespace FsServer

abbrev CancelContext := List Nat

structure Contexts where
  next : Nat
  cancelled : Nat → Bool
  deadline : Nat → Option Time

namespace Contexts

def empty : Contexts := ⟨0, fun _ => false, fun _ => none⟩

def background : CancelContext := []

variable (contexts : Contexts)

def done (context : CancelContext) (now : Time) : Bool :=
  context.any fun cell =>
    contexts.cancelled cell || (contexts.deadline cell).any fun deadline => deadline ≤ now

def withCancel (parent : CancelContext) : CancelContext × Contexts :=
  (contexts.next :: parent, { contexts with next := contexts.next + 1 })

def withTimeout (parent : CancelContext) (now : Time) (timeout : Duration) :
    CancelContext × Contexts :=
  (contexts.next :: parent, { contexts with
    next := contexts.next + 1
    deadline := Function.update contexts.deadline contexts.next (some (now + timeout.toNat)) })

def cancel : CancelContext → Contexts
  | cell :: _ => { contexts with cancelled := Function.update contexts.cancelled cell true }
  | [] => contexts

end Contexts

structure Renewal where
  context : CancelContext
  key : String
  token : String
  ttl : Duration
  tick : Time

namespace Renewal

def interval (ttl : Duration) : Duration :=
  if ttl / 3 < 2 * second then 2 * second else ttl / 3

def running (renewal : Renewal) (contexts : Contexts) (now : Time) : Bool :=
  !contexts.done renewal.context now

end Renewal

inductive LockStage where
  | acquiring (ctx : CancelContext) (attempt : Nat)
  | acquired (ctx renewCtx : CancelContext) (token : String)
  | critical (renewCtx : CancelContext) (token : String)
  | released
  | failed

structure LockCaller where
  now : Time
  service : LocalDistributedLock
  contexts : Contexts
  renewal : Option Renewal
  stage : LockStage

namespace LockDirectory

def ttl : Duration := 10 * second

def retryCount : Nat := 30

def key (path : Path) : String := "dir:" ++ String.ofList path

def start (now : Time) (service : LocalDistributedLock) : LockCaller :=
  let (ctx, contexts) := Contexts.empty.withTimeout Contexts.background now (30 * second)
  ⟨now, service, contexts, none, .acquiring ctx 0⟩

/-- `AcquireLockWithRenewal` once the lock is granted. -/
def withRenewal (caller : LockCaller) (ctx : CancelContext) (path : Path) (token : String) :
    LockCaller :=
  let (renewCtx, contexts) := caller.contexts.withCancel ctx
  { caller with
    contexts := contexts
    renewal := some ⟨renewCtx, key path, token, ttl, caller.now + (Renewal.interval ttl).toNat⟩
    stage := .acquired ctx renewCtx token }

inductive Event where
  | pass (duration : Nat)
  | attempt (token : String)
  | returns
  | renew
  | release
  | other (request : LockRequest)

inductive Step (path : Path) : LockCaller → Event → LockReply → LockCaller → Prop
  | pass {caller : LockCaller} (duration : Nat)
      (hticks : ∀ renewal, caller.renewal = some renewal →
        renewal.running caller.contexts caller.now = true → caller.now + duration ≤ renewal.tick) :
      Step path caller (.pass duration) .done { caller with now := caller.now + duration }
  | granted {caller : LockCaller} {ctx : CancelContext} {attempt : Nat} {token : String}
      {service : LocalDistributedLock} (hstage : caller.stage = .acquiring ctx attempt)
      (hlock : caller.service.lock (key path) ttl token caller.now caller.now
        = (.granted token, service)) :
      Step path caller (.attempt token) (.granted token)
        (withRenewal { caller with service := service } ctx path token)
  | conflict {caller : LockCaller} {ctx : CancelContext} {attempt : Nat} {token : String}
      {service : LocalDistributedLock} (hstage : caller.stage = .acquiring ctx attempt)
      (hlock : caller.service.lock (key path) ttl token caller.now caller.now
        = (.conflict, service)) :
      Step path caller (.attempt token) .conflict { caller with
        service := service
        stage := if attempt + 1 < retryCount then .acquiring ctx (attempt + 1) else .failed }
  -- the deferred cancel of the acquisition context runs when `lockDirectory` returns
  | returns {caller : LockCaller} {ctx renewCtx : CancelContext} {token : String}
      (hstage : caller.stage = .acquired ctx renewCtx token) :
      Step path caller .returns .done { caller with
        contexts := caller.contexts.cancel ctx
        stage := .critical renewCtx token }
  | renewed {caller : LockCaller} {renewal : Renewal} {service : LocalDistributedLock}
      (hrenewal : caller.renewal = some renewal)
      (hrunning : renewal.running caller.contexts caller.now = true)
      (htick : caller.now = renewal.tick)
      (hextend : caller.service.extend renewal.key renewal.token renewal.ttl caller.now caller.now
        = (.done, service)) :
      Step path caller .renew .done { caller with
        service := service
        renewal := some { renewal with
          tick := renewal.tick + (Renewal.interval renewal.ttl).toNat } }
  | stopped {caller : LockCaller} {renewal : Renewal} {service : LocalDistributedLock}
      (hrenewal : caller.renewal = some renewal)
      (hrunning : renewal.running caller.contexts caller.now = true)
      (htick : caller.now = renewal.tick)
      (hextend : caller.service.extend renewal.key renewal.token renewal.ttl caller.now caller.now
        = (.notHeld, service)) :
      Step path caller .renew .notHeld { caller with service := service, renewal := none }
  | release {caller : LockCaller} {renewCtx : CancelContext} {token : String} {reply : LockReply}
      {service : LocalDistributedLock} (hstage : caller.stage = .critical renewCtx token)
      (hunlock : caller.service.unlock (key path) token caller.now = (reply, service)) :
      Step path caller .release reply { caller with
        service := service
        contexts := caller.contexts.cancel renewCtx
        stage := .released }
  | other {caller : LockCaller} {request : LockRequest} {reply : LockReply}
      {service : LocalDistributedLock}
      (hexec : caller.service.exec caller.now caller.now request = (reply, service)) :
      Step path caller (.other request) reply { caller with service := service }

end LockDirectory

end FsServer
