import BoundedCache.Sweep
import BoundedCache.Lfu.Ranking

/-! # The engine that evicts the least frequently used entry -/
namespace BoundedCache

/-- Entries in a frequency ranking, with a table from keys to their slots. -/
structure Lfu (K V : Type) where
  ranking : Lfu.Ranking K V
  table : Dict K Nat
  capacity : Nat

namespace Lfu
variable {K V : Type}

def new (capacity : Nat) : Lfu K V := { ranking := Ranking.empty, table := Dict.empty, capacity }

/-- How many entries are tracked, expired ones included. -/
def size (e : Lfu K V) : Nat := e.ranking.nodes.size

def isEmpty (e : Lfu K V) : Bool := e.size == 0

/-- The lowest frequency of an entry. -/
def minFreq? (e : Lfu K V) : Option Nat := if e.isEmpty then none else some e.ranking.minFreq

def clear (e : Lfu K V) : Lfu K V := new e.capacity

/-- A short description with the sizes. -/
def describe (e : Lfu K V) : String :=
  s!"LfuEngine \x7b len: {e.size}, capacity: {e.capacity}, min_freq: {e.ranking.minFreq}, " ++
    s!"buckets: {e.ranking.buckets.size} \x7d"

variable [DecidableEq K]

def contains (e : Lfu K V) (key : K) : Bool := e.table.contains key

/-- How often a key has been used. -/
def freq? (e : Lfu K V) (key : K) : Option Nat :=
  (e.table.get? key).bind fun i => (e.ranking.nodes.get? i).map Node.freq

/-- Takes a node out of the ranking, frees its slot and drops its key from the table. Every removal
goes this way. -/
def detach (e : Lfu K V) (i : Nat) : Option (Entry K V) × Lfu K V :=
  match e.ranking.remove i with
  | (some entry, ranking) => (some entry, { e with ranking, table := e.table.erase entry.key })
  | (none, ranking) => (none, { e with ranking })

/-- Drops the entry that reached the lowest frequency first, if there is one. -/
def evict (e : Lfu K V) : Lfu K V :=
  match e.ranking.first? with
  | some i => (e.detach i).2
  | none => e

/-- Reads a value and counts the use; an expired entry is removed instead. -/
def get (e : Lfu K V) (key : K) (now : Instant) : Except MissReason V × Lfu K V :=
  match e.table.get? key with
  | none => (.error .absent, e)
  | some i =>
    match e.ranking.entryAt? i with
    | none => (.error .absent, e)
    | some entry =>
      if entry.isExpired now then (.error .expired, (e.detach i).2)
      else
        let ranking := e.ranking.touch i
        match ranking.entryAt? i with
        | some entry => (.ok entry.value, { e with ranking })
        | none => (.error .absent, { e with ranking })

/-- Stores a new entry, after making room for it, or changes the value under a tracked key and
counts the use. Capacity zero stores nothing. -/
def put (e : Lfu K V) (key : K) (value : V) (ttl : Duration) (now : Instant) : Lfu K V :=
  if e.capacity = 0 then e
  else match e.table.get? key with
    | some i => { e with ranking := (e.ranking.setValue i value).touch i }
    | none =>
      let e := if e.capacity ≤ e.size then e.evict else e
      let (i, ranking) := e.ranking.insert { key, value, createdAt := now, ttl }
      { e with ranking, table := e.table.insert key i }

def remove (e : Lfu K V) (key : K) : Option V × Lfu K V :=
  match e.table.get? key with
  | none => (none, e)
  | some i =>
    let (gone, e) := e.detach i
    (gone.map Entry.value, e)

/-- Removes the entry in a slot if it has expired, and tells whether it did. -/
def reclaim (now : Instant) (i : Nat) (e : Lfu K V) : Bool × Lfu K V :=
  match e.ranking.entryAt? i with
  | some entry =>
    if entry.isExpired now then
      let (gone, e) := e.detach i
      (gone.isSome, e)
    else (false, e)
  | none => (false, e)

/-- Removes the expired entries from a budget of slots. -/
def sweep (e : Lfu K V) (cursor budget : Nat) (now : Instant) : SweepProgress × Lfu K V :=
  let count := e.ranking.nodes.slotCount
  let stop := Sweep.stop cursor budget count
  let (removed, e) := Sweep.visit (reclaim now) (Sweep.slots cursor stop) e
  ({ removed, next? := if stop < count then some stop else none }, e)

/-- A whole pass of sweeps with the same budget each. -/
def sweepAll (e : Lfu K V) (budget : Nat) (now : Instant) : Nat × Lfu K V :=
  Sweep.pass (fun cursor e => e.sweep cursor budget now) (e.ranking.nodes.slotCount + 1) 0 e

/-- Removes every expired entry. -/
def purge (e : Lfu K V) (now : Instant) : Nat × Lfu K V := e.sweepAll Word.max now

end Lfu
end BoundedCache
