import FsServer.LockService
import FsServer.Lib.Int64
import FsServer.Lib.Simulation
import Mathlib.Data.Finmap

/-!
# The in-memory cache

`cache/cache.go`. The map holds the entries and the list holds their elements, most recently used
first. An element is known by its identity, which the entry in the map points to, and by the key of
the entry it holds. Every operation runs under the lock, so a run is a list of calls, each at the time
it reads from the clock. In which order `Cleanup` meets the entries of the map is left open.
-/

namespace FsServer

open Lib

/-- `list.Element`, with the key of the entry that is its value. -/
structure Element where
  id : Nat
  key : String
  deriving DecidableEq

structure CacheEntry (V : Type) where
  key : String
  value : V
  expiresAt : Int
  elem : Nat

structure Cache (V : Type) where
  items : Finmap fun _ : String => CacheEntry V
  lru : List Element
  ttl : Int
  maxSize : Int
  fresh : Nat

/-- `time.Time` without a value, the first second of the year 1. -/
def zeroTime : Int := -62135596800 * second

/-- `List.MoveToFront`. -/
def moveToFront (elem : Nat) (lru : List Element) : List Element :=
  lru.filter (fun element => element.id = elem) ++ lru.filter fun element => element.id ≠ elem

namespace Cache

variable {V : Type}

def newCache (ttl maxSize : Int) : Cache V := ⟨∅, [], ttl, maxSize, 0⟩

variable (cache : Cache V)

def size : Int := cache.items.keys.card

def removeElement (elem : Nat) (key : String) : Cache V :=
  { cache with
    lru := cache.lru.filter fun element => element.id ≠ elem
    items := cache.items.erase key }

def expired (now : Time) (item : CacheEntry V) : Bool := 0 < cache.ttl ∧ item.expiresAt < now

def get (now : Time) (key : String) : Option V × Cache V :=
  match cache.items.lookup key with
  | none => (none, cache)
  | some item =>
    if cache.expired now item then (none, cache.removeElement item.elem item.key)
    else (some item.value, { cache with lru := moveToFront item.elem cache.lru })

def expiresAt (now : Time) : Int :=
  if 0 < cache.ttl then now + int64 (cache.ttl * second) else zeroTime

def evict : Cache V :=
  if 0 < cache.maxSize ∧ cache.maxSize ≤ cache.size then
    match cache.lru.getLast? with
    | some back => cache.removeElement back.id back.key
    | none => cache
  else cache

def pushFront (now : Time) (key : String) (value : V) : Cache V :=
  { cache with
    lru := ⟨cache.fresh, key⟩ :: cache.lru
    items := cache.items.insert key ⟨key, value, cache.expiresAt now, cache.fresh⟩
    fresh := cache.fresh + 1 }

def set (now : Time) (key : String) (value : V) : Cache V :=
  match cache.items.lookup key with
  | some existing =>
    { cache with
      items := cache.items.insert key
        { existing with value := value, expiresAt := cache.expiresAt now }
      lru := moveToFront existing.elem cache.lru }
  | none => cache.evict.pushFront now key value

def delete (key : String) : Cache V :=
  match cache.items.lookup key with
  | some e => cache.removeElement e.elem e.key
  | none => cache

def clear : Cache V := { cache with items := ∅, lru := [] }

def cleanupItem (now : Time) (key : String) : Cache V :=
  match cache.items.lookup key with
  | some item =>
    if cache.expired now item then cache.removeElement item.elem item.key else cache
  | none => cache

/-- `scan` is the order in which the entries of the map are met. -/
def cleanup (now : Time) (scan : List String) : Cache V :=
  scan.foldl (fun cache key => cache.cleanupItem now key) cache

def has (now : Time) (key : String) : Bool :=
  match cache.items.lookup key with
  | none => false
  | some item => !cache.expired now item

def evicted (key : String) : Option String :=
  if key ∉ cache.items ∧ 0 < cache.maxSize ∧ cache.maxSize ≤ cache.size then
    cache.lru.getLast?.map Element.key
  else none

end Cache

/-! ### Runs -/

inductive CacheOp (V : Type) where
  | get (key : String)
  | set (key : String) (value : V)
  | delete (key : String)
  | clear
  | cleanup
  | has (key : String)

structure CacheCall (V : Type) where
  op : CacheOp V
  time : Time

/-- What a call returns. `Set` returns nothing; the key it evicts is recorded. -/
inductive CacheReply (V : Type) where
  | got (value : Option V)
  | evicted (key : Option String)
  | found (present : Bool)
  | done

structure CacheState (V : Type) where
  cache : Cache V
  clock : Time

namespace CacheState

variable {V : Type}

inductive Step : CacheState V → CacheCall V → CacheReply V → CacheState V → Prop
  | get {state : CacheState V} {now : Time} (key : String) (hclock : state.clock ≤ now) :
      Step state ⟨.get key, now⟩ (.got (state.cache.get now key).1) ⟨(state.cache.get now key).2, now⟩
  | set {state : CacheState V} {now : Time} (key : String) (value : V)
      (hclock : state.clock ≤ now) :
      Step state ⟨.set key value, now⟩ (.evicted (state.cache.evicted key))
        ⟨state.cache.set now key value, now⟩
  | delete {state : CacheState V} {now : Time} (key : String) (hclock : state.clock ≤ now) :
      Step state ⟨.delete key, now⟩ .done ⟨state.cache.delete key, now⟩
  | clear {state : CacheState V} {now : Time} (hclock : state.clock ≤ now) :
      Step state ⟨.clear, now⟩ .done ⟨state.cache.clear, now⟩
  | cleanup {state : CacheState V} {now : Time} {scan : List String} (hclock : state.clock ≤ now)
      (hscan : ∀ key, key ∈ scan ↔ key ∈ state.cache.items) (hnodup : scan.Nodup) :
      Step state ⟨.cleanup, now⟩ .done ⟨state.cache.cleanup now scan, now⟩
  | has {state : CacheState V} {now : Time} (key : String) (hclock : state.clock ≤ now) :
      Step state ⟨.has key, now⟩ (.found (state.cache.has now key)) ⟨state.cache, now⟩

def Reached (ttl maxSize : Int) : List (CacheCall V × CacheReply V) → CacheState V → Prop :=
  History Step ⟨Cache.newCache ttl maxSize, 0⟩

end CacheState

end FsServer
