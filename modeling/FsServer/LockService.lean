import FsServer.GoPath
import Mathlib.Logic.Function.Basic

/-!
# The lock service

`distributed/lock.go`: the lock of one process, which keeps an entry until some call finds that it
has expired, and the lock on Redis, where an entry is gone as soon as its time is over. Durations and
the clock are in nanoseconds, the clock of Redis in milliseconds. A token is an argument of the call
that generates it. Keys and tokens are only compared.
-/

namespace FsServer

abbrev Duration := Int

abbrev Time := Nat

inductive LockReply where
  | granted (token : String)
  | conflict
  | notHeld
  | done
  | failed
  deriving DecidableEq

inductive LockRequest where
  | lock (key : String) (ttl : Duration) (token : String)
  | unlock (key token : String)
  | extend (key token : String) (ttl : Duration)
  deriving DecidableEq

structure LocalLockEntry where
  token : String
  expiry : Option Time
  deriving DecidableEq

def LocalLockEntry.expired (entry : LocalLockEntry) (now : Time) : Bool :=
  match entry.expiry with
  | some expiry => expiry < now
  | none => false

/-- `time.Now().Add(ttl)` for a positive ttl. -/
def expiryAfter (now : Time) (ttl : Duration) : Option Time :=
  if ttl > 0 then some (now + ttl.toNat) else none

structure LocalDistributedLock where
  locks : String → Option LocalLockEntry

namespace LocalDistributedLock

def empty : LocalDistributedLock := ⟨fun _ => none⟩

variable (service : LocalDistributedLock)

def put (key : String) (entry : Option LocalLockEntry) : LocalDistributedLock :=
  ⟨Function.update service.locks key entry⟩

/-- The clock is read for the entry that is there and again for the new one. -/
def lock (key : String) (ttl : Duration) (token : String) (now later : Time) :
    LockReply × LocalDistributedLock :=
  let grant : LockReply × LocalDistributedLock :=
    (.granted token, service.put key (some ⟨token, expiryAfter later ttl⟩))
  match service.locks key with
  | some entry => if entry.expired now then grant else (.conflict, service)
  | none => grant

def unlock (key token : String) (now : Time) : LockReply × LocalDistributedLock :=
  match service.locks key with
  | none => (.notHeld, service)
  | some entry =>
    if entry.expired now then (.notHeld, service.put key none)
    else if entry.token ≠ token then (.notHeld, service)
    else (.done, service.put key none)

def extend (key token : String) (ttl : Duration) (now later : Time) :
    LockReply × LocalDistributedLock :=
  match service.locks key with
  | none => (.notHeld, service)
  | some entry =>
    if entry.expired now then (.notHeld, service.put key none)
    else if entry.token ≠ token then (.notHeld, service)
    else if ttl > 0 then
      (.done, service.put key (some { entry with expiry := expiryAfter later ttl }))
    else (.done, service)

def exec (now later : Time) : LockRequest → LockReply × LocalDistributedLock
  | .lock key ttl token => service.lock key ttl token now later
  | .unlock key token => service.unlock key token now
  | .extend key token ttl => service.extend key token ttl now later

end LocalDistributedLock

/-! ### Redis -/

def millisecond : Duration := 1000000

def second : Duration := 1000 * millisecond

structure RedisValue where
  value : String
  deadline : Option Time
  deriving DecidableEq

/-- The keys of a Redis server, its clock in milliseconds. -/
structure RedisDistributedLock where
  keys : String → Option RedisValue

namespace RedisDistributedLock

def empty : RedisDistributedLock := ⟨fun _ => none⟩

variable (server : RedisDistributedLock)

/-- A key is absent exactly when the clock is past its deadline. -/
def entry (now : Time) (key : String) : Option RedisValue :=
  (server.keys key).filter fun found => found.deadline.all fun deadline => now ≤ deadline

def get (now : Time) (key : String) : Option String := (server.entry now key).map RedisValue.value

def put (key : String) (value : Option RedisValue) : RedisDistributedLock :=
  ⟨Function.update server.keys key value⟩

/-- `SET key value NX PX ttl` as the client library sends it: no expiry for 0 and -1, at least one
millisecond otherwise, and an error from the server for any other negative time. -/
def setNX (now : Time) (key value : String) (ttl : Duration) : Option Bool × RedisDistributedLock :=
  if ttl < -1 then (none, server)
  else if (server.entry now key).isSome then (some false, server)
  else if ttl ≤ 0 then (some true, server.put key (some ⟨value, none⟩))
  else
    let px := if ttl < millisecond then 1 else ttl.tdiv millisecond
    (some true, server.put key (some ⟨value, some (now + px.toNat)⟩))

def del (now : Time) (key : String) : Int × RedisDistributedLock :=
  if (server.entry now key).isSome then (1, server.put key none) else (0, server)

/-- A time that is not positive deletes the key. -/
def pexpire (now : Time) (key : String) (milliseconds : Int) : Int × RedisDistributedLock :=
  match server.entry now key with
  | none => (0, server)
  | some found =>
    if milliseconds ≤ 0 then (1, server.put key none)
    else (1, server.put key (some { found with deadline := some (now + milliseconds.toNat) }))

def lockKey (key : String) : String := "fsserver:lock:" ++ key

def lock (key : String) (ttl : Duration) (token : String) (now : Time) :
    LockReply × RedisDistributedLock :=
  match server.setNX now (lockKey key) token ttl with
  | (none, after) => (.failed, after)
  | (some false, after) => (.conflict, after)
  | (some true, after) => (.granted token, after)

/-- The scripts run as one step each. -/
def unlockScript (now : Time) (key token : String) : Int × RedisDistributedLock :=
  if server.get now key = some token then server.del now key else (0, server)

def extendScript (now : Time) (key token : String) (milliseconds : Int) :
    Int × RedisDistributedLock :=
  if server.get now key = some token then server.pexpire now key milliseconds else (0, server)

def replyOf (result : Int × RedisDistributedLock) : LockReply × RedisDistributedLock :=
  if result.1 = 0 then (.notHeld, result.2) else (.done, result.2)

def unlock (key token : String) (now : Time) : LockReply × RedisDistributedLock :=
  replyOf (server.unlockScript now (lockKey key) token)

def extend (key token : String) (ttl : Duration) (now : Time) : LockReply × RedisDistributedLock :=
  replyOf (server.extendScript now (lockKey key) token (ttl.tdiv millisecond))

def exec (now : Time) : LockRequest → LockReply × RedisDistributedLock
  | .lock key ttl token => server.lock key ttl token now
  | .unlock key token => server.unlock key token now
  | .extend key token ttl => server.extend key token ttl now

end RedisDistributedLock

end FsServer
