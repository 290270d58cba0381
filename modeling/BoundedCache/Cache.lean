import BoundedCache.Config.Basic
import BoundedCache.Engine.Basic
import BoundedCache.Error

/-! # A cache: an engine that can be closed

What reads whether a key is tracked looks at the table only. Once closed, a cache refuses all that
would change or read an entry; its entries are discarded in a step of its own.
-/
namespace BoundedCache

structure Cache (K V : Type) where
  engine : Engine K V
  closed : Bool

namespace Cache
variable {K V : Type}

def new (policy : Policy) (capacity : Nat) : Cache K V :=
  { engine := .new policy capacity, closed := false }

def policy (c : Cache K V) : Policy := c.engine.policy

def capacity (c : Cache K V) : Nat := c.engine.capacity

/-- How many keys are tracked. -/
def size (c : Cache K V) : Nat := c.engine.table.size

def isEmpty (c : Cache K V) : Bool := c.engine.table.isEmpty

/-- Does something with the engine unless the cache is closed. -/
def whenOpen {α : Type} (c : Cache K V) (act : Engine K V → Except CacheError α × Engine K V) :
    Except CacheError α × Cache K V :=
  if c.closed then (.error .closed, c)
  else
    let (result, engine) := act c.engine
    (result, { c with engine })

/-- Removes every entry. -/
def clear (c : Cache K V) : Except CacheError Unit × Cache K V :=
  c.whenOpen fun e => (.ok (), e.clear)

/-- Refuses from now on all that would change or read an entry. -/
def refuse (c : Cache K V) : Cache K V := { c with closed := true }

/-- Discards all entries, also those of a cache that refuses to be cleared. -/
def discard (c : Cache K V) : Cache K V := { c with engine := c.engine.clear }

variable [DecidableEq K]

/-- Whether a key is tracked; its entry may have expired. -/
def contains (c : Cache K V) (key : K) : Bool := c.engine.table.contains key

def get (c : Cache K V) (key : K) (now : Instant) : Except CacheError V × Cache K V :=
  c.whenOpen fun e =>
    let (result, e) := e.get key now
    (result.mapError .notFound, e)

def put (c : Cache K V) (key : K) (value : V) (ttl : Duration) (now : Instant) :
    Except CacheError Unit × Cache K V :=
  c.whenOpen fun e => (.ok (), e.put key value ttl now)

def remove (c : Cache K V) (key : K) : Except CacheError (Option V) × Cache K V :=
  c.whenOpen fun e =>
    let (value?, e) := e.remove key
    (.ok value?, e)

/-- Removes the expired entries in batches of a number of slots, unless the cache is closed. -/
def sweepAll (c : Cache K V) (batch : Nat) (now : Instant) : Cache K V :=
  if c.closed then c else { c with engine := (c.engine.sweepAll batch now).2 }

def check (c : Cache K V) : Except Engine.Fault Unit := c.engine.check

end Cache
end BoundedCache
