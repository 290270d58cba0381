import BoundedCache.Policy
import BoundedCache.Lfu.Check
import BoundedCache.Lru.Check

/-! # Engines of either policy -/
namespace BoundedCache

inductive Engine (K V : Type)
  | lru (e : Lru K V)
  | lfu (e : Lfu K V)

namespace Engine
variable {K V : Type}

def new (policy : Policy) (capacity : Nat) : Engine K V :=
  match policy with
  | .lru => .lru (.new capacity)
  | .lfu => .lfu (.new capacity)

def policy : Engine K V → Policy
  | lru _ => .lru
  | lfu _ => .lfu

def capacity : Engine K V → Nat
  | lru e => e.capacity
  | lfu e => e.capacity

/-- The slots of the tracked keys. -/
def table : Engine K V → Dict K Nat
  | lru e => e.table
  | lfu e => e.table

/-- Replaces the table and leaves all else as it is. -/
def setTable (e : Engine K V) (table : Dict K Nat) : Engine K V :=
  match e with
  | lru e => lru { e with table }
  | lfu e => lfu { e with table }

/-- How many entries are tracked, expired ones included. -/
def size : Engine K V → Nat
  | lru e => e.size
  | lfu e => e.size

def isEmpty (e : Engine K V) : Bool := e.size == 0

/-- The entry in a slot. -/
def entryAt? : Engine K V → Nat → Option (Entry K V)
  | lru e, i => e.queue.entryAt? i
  | lfu e, i => e.ranking.entryAt? i

def slotCount : Engine K V → Nat
  | lru e => e.queue.slotCount
  | lfu e => e.ranking.nodes.slotCount

def describe : Engine K V → String
  | lru e => e.describe
  | lfu e => e.describe

def clear : Engine K V → Engine K V
  | lru e => lru e.clear
  | lfu e => lfu e.clear

variable [DecidableEq K]

/-- Whether a key is tracked; its entry may have expired. -/
def contains : Engine K V → K → Bool
  | lru e, key => e.contains key
  | lfu e, key => e.contains key

theorem contains_eq_isSome (e : Engine K V) (key : K) :
    e.contains key = (e.table.get? key).isSome := by
  cases e <;> rfl

def get (e : Engine K V) (key : K) (now : Instant) : Except MissReason V × Engine K V :=
  match e with
  | lru e => (e.get key now).map id lru
  | lfu e => (e.get key now).map id lfu

def put (e : Engine K V) (key : K) (value : V) (ttl : Duration) (now : Instant) : Engine K V :=
  match e with
  | lru e => lru (e.put key value ttl now)
  | lfu e => lfu (e.put key value ttl now)

def remove (e : Engine K V) (key : K) : Option V × Engine K V :=
  match e with
  | lru e => (e.remove key).map id lru
  | lfu e => (e.remove key).map id lfu

def sweep (e : Engine K V) (cursor budget : Nat) (now : Instant) : SweepProgress × Engine K V :=
  match e with
  | lru e => (e.sweep cursor budget now).map id lru
  | lfu e => (e.sweep cursor budget now).map id lfu

def sweepAll (e : Engine K V) (budget : Nat) (now : Instant) : Nat × Engine K V :=
  match e with
  | lru e => (e.sweepAll budget now).map id lru
  | lfu e => (e.sweepAll budget now).map id lfu

def purge (e : Engine K V) (now : Instant) : Nat × Engine K V :=
  match e with
  | lru e => (e.purge now).map id lru
  | lfu e => (e.purge now).map id lfu

inductive Fault
  | lru (fault : Lru.Fault)
  | lfu (fault : Lfu.Fault)
deriving DecidableEq

def Fault.message : Fault → String
  | lru fault => fault.message
  | lfu fault => fault.message

def check : Engine K V → Except Fault Unit
  | lru e => e.check.mapError Fault.lru
  | lfu e => e.check.mapError Fault.lfu

end Engine
end BoundedCache
