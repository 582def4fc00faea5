import FsServer.LockService
import FsServer.Lib.Interleaving

/-!
# The session store in memory

`distributed/session.go`, `MemorySessionStore`. The values and their deadlines are two maps under one
lock. Every locked section is one step, and the clock is read inside it. `Get` and `Exists` let go of
the lock before they take it again to delete an entry that they found expired. How values are written
as JSON is left open.
-/

namespace FsServer

open Lib Program

/-- `json.Marshal` and `json.Unmarshal` into the caller's destination. -/
structure StoreCodec (V : Type) where
  marshal : V → Option (List UInt8)
  unmarshal : List UInt8 → Option V

/-- `fmt.Sprintf("%s:%s", prefix, key)`. -/
def storeKey (scope key : String) : String := scope ++ ":" ++ key

structure MemorySessionStore where
  data : String → Option (List UInt8)
  ttls : String → Option Int
  clock : Time

inductive ReadResult where
  | absent
  | expired
  | found (data : List UInt8)

/-- The locked sections: of `Set`, of a read, and of a deletion. -/
inductive StoreCall : Type → Type where
  | write (storeKey : String) (data : List UInt8) (ttl : Duration) : StoreCall Unit
  | read (storeKey : String) : StoreCall ReadResult
  | erase (storeKey : String) : StoreCall Unit

namespace MemorySessionStore

def newMemorySessionStore : MemorySessionStore := ⟨fun _ => none, fun _ => none, 0⟩

def write (store : MemorySessionStore) (now : Time) (storeKey : String) (data : List UInt8)
    (ttl : Duration) : MemorySessionStore where
  data := Function.update store.data storeKey (some data)
  ttls := if 0 < ttl then Function.update store.ttls storeKey (some (now + ttl)) else store.ttls
  clock := now

def read (store : MemorySessionStore) (now : Time) (storeKey : String) : ReadResult :=
  match store.data storeKey with
  | none => .absent
  | some data =>
    match store.ttls storeKey with
    | none => .found data
    | some ttl => if ttl < now then .expired else .found data

def erase (store : MemorySessionStore) (storeKey : String) : MemorySessionStore :=
  { store with
    data := Function.update store.data storeKey none
    ttls := Function.update store.ttls storeKey none }

/-- The environment is the time that the clock shows. It does not go back. -/
def handle : Handler Time StoreCall MemorySessionStore := fun _ now call store =>
  match call with
  | .write storeKey data ttl =>
    if store.clock ≤ now then some ((), store.write now storeKey data ttl) else none
  | .read storeKey =>
    if store.clock ≤ now then some (store.read now storeKey, { store with clock := now }) else none
  | .erase storeKey => some ((), store.erase storeKey)

end MemorySessionStore

inductive StoreError where
  | marshal
  | notFound (key : String)
  | unmarshal
  deriving DecidableEq

inductive StoreRequest (V : Type) where
  | set (scope key : String) (value : V) (ttl : Duration)
  | get (scope key : String)
  | delete (scope key : String)
  | exists (scope key : String)

inductive StoreReply (V : Type) where
  | set (result : Except StoreError Unit)
  | get (result : Except StoreError V)
  | delete
  | exists (present : Bool)

namespace StoreRequest

variable {V : Type} (codec : StoreCodec V)

/-- The locked read of `Get` and `Exists`, and the deletion of an entry that has expired. -/
def lookup (storeKey : String) (reply : Option (List UInt8) → StoreReply V) :
    Program StoreCall (StoreReply V) := do
  match ← perform (.read storeKey) with
  | .absent => return reply none
  | .expired =>
    perform (.erase storeKey)
    return reply none
  | .found data => return reply (some data)

def getReply (key : String) : Option (List UInt8) → StoreReply V
  | none => .get (.error (.notFound key))
  | some data =>
    match codec.unmarshal data with
    | some value => .get (.ok value)
    | none => .get (.error .unmarshal)

def program : StoreRequest V → Program StoreCall (StoreReply V)
  | set scope key value ttl =>
    match codec.marshal value with
    | none => return .set (.error .marshal)
    | some data => do
      perform (.write (storeKey scope key) data ttl)
      return .set (.ok ())
  | get scope key => lookup (storeKey scope key) (getReply codec key)
  | delete scope key => do
    perform (.erase (storeKey scope key))
    return .delete
  | «exists» scope key => lookup (storeKey scope key) fun found => .exists found.isSome

end StoreRequest

end FsServer
