import BoundedCache.Dict
import BoundedCache.Sweep
import BoundedCache.Lru.Queue

/-! # The engine that evicts the least recently used entry -/
namespace BoundedCache

/-- Entries in a recency queue, with a table from keys to their slots. -/
structure Lru (K V : Type) where
  queue : Lru.Queue K V
  table : Dict K Nat
  capacity : Nat

namespace Lru
variable {K V : Type}

def new (capacity : Nat) : Lru K V := { queue := Queue.empty, table := Dict.empty, capacity }

/-- How many entries are tracked, expired ones included. -/
def size (e : Lru K V) : Nat := e.queue.length

def keys? (e : Lru K V) : Option (List K) := e.queue.keys?

def clear (e : Lru K V) : Lru K V := new e.capacity

/-- A short description with the sizes. -/
def describe (e : Lru K V) : String :=
  s!"LruEngine \x7b len: {e.size}, capacity: {e.capacity} \x7d"

variable [DecidableEq K]

def contains (e : Lru K V) (key : K) : Bool := e.table.contains key

/-- Takes a node out of the queue, frees its slot and drops its key from the table. Every removal
goes this way; the sentinels stay. -/
def detach (e : Lru K V) (i : Nat) : Option (Entry K V) × Lru K V :=
  if i < sentinels then (none, e)
  else
    let (node?, queue) := (e.queue.unlink i).remove i
    match node?.bind Node.content with
    | some entry => (some entry, { e with queue, table := e.table.erase entry.key })
    | none => (none, { e with queue })

/-- Drops the least recently used entry, if there is one. -/
def evict (e : Lru K V) : Lru K V :=
  match e.queue.prev? tail with
  | some last => if last = head then e else (e.detach last).2
  | none => e

/-- Reads a value and makes it the most recently used; an expired entry is removed instead. -/
def get (e : Lru K V) (key : K) (now : Instant) : Except MissReason V × Lru K V :=
  match e.table.get? key with
  | none => (.error .absent, e)
  | some i =>
    match e.queue.entryAt? i with
    | none => (.error .absent, e)
    | some entry =>
      if entry.isExpired now then (.error .expired, (e.detach i).2)
      else
        let queue := e.queue.moveToFront i
        match queue.entryAt? i with
        | some entry => (.ok entry.value, { e with queue })
        | none => (.error .absent, { e with queue })

/-- Stores a new entry, after making room for it, or only changes the value under a tracked key;
either way the key becomes the most recently used. Capacity zero stores nothing. -/
def put (e : Lru K V) (key : K) (value : V) (ttl : Duration) (now : Instant) : Lru K V :=
  if e.capacity = 0 then e
  else match e.table.get? key with
    | some i => { e with queue := (e.queue.setValue i value).moveToFront i }
    | none =>
      let e := if e.capacity ≤ e.size then e.evict else e
      let entry : Entry K V := { key, value, createdAt := now, ttl }
      let (i, queue) := e.queue.insert ⟨some entry, head, tail⟩
      { e with queue := Queue.attachFront queue i, table := e.table.insert key i }

def remove (e : Lru K V) (key : K) : Option V × Lru K V :=
  match e.table.get? key with
  | none => (none, e)
  | some i =>
    let (gone, e) := e.detach i
    (gone.map Entry.value, e)

/-- Removes the entry in a slot if it has expired, and tells whether it did. -/
def reclaim (now : Instant) (i : Nat) (e : Lru K V) : Bool × Lru K V :=
  match e.queue.entryAt? i with
  | some entry =>
    if entry.isExpired now then
      let (gone, e) := e.detach i
      (gone.isSome, e)
    else (false, e)
  | none => (false, e)

/-- Removes the expired entries from a budget of slots, the sentinels left out. -/
def sweep (e : Lru K V) (cursor budget : Nat) (now : Instant) : SweepProgress × Lru K V :=
  let count := e.queue.slotCount
  let stop := Sweep.stop cursor budget count
  let (removed, e) := Sweep.visit (reclaim now) (Sweep.slots (max cursor sentinels) stop) e
  ({ removed, next? := if stop < count then some stop else none }, e)

/-- A whole pass of sweeps with the same budget each. -/
def sweepAll (e : Lru K V) (budget : Nat) (now : Instant) : Nat × Lru K V :=
  Sweep.pass (fun cursor e => e.sweep cursor budget now) (e.queue.slotCount + 1) 0 e

/-- Removes every expired entry. -/
def purge (e : Lru K V) (now : Instant) : Nat × Lru K V := e.sweepAll Word.max now

end Lru
end BoundedCache
