import BoundedCache.Proofs.Reference
import BoundedCache.Proofs.Tracking
import BoundedCache.Proofs.Visits

/-! # A plain tally of uses -/
namespace BoundedCache

/-- An entry, how often it was used, and which use brought it there. -/
structure Use (K V : Type) where
  entry : Entry K V
  freq : Nat
  seq : Nat

/-- Whether one goes no later than another. -/
def Use.precedes {K V : Type} (u w : Use K V) : Bool :=
  decide (u.freq < w.freq) || decide (u.freq = w.freq) && decide (u.seq ≤ w.seq)

/-- A plain tally of the uses of each key, with the number of the next use and room for so many
keys. -/
structure Frequency (K V : Type) where
  uses : Dict K (Use K V) := Dict.empty
  clock : Nat := 0
  capacity : Nat

namespace Frequency
variable {K V : Type}

/-- The key with the lowest frequency, and of these the one that reached it first. -/
def first? (m : Frequency K V) : Option K :=
  (m.uses.entries.find? fun u => m.uses.entries.all fun w => u.2.precedes w.2).map Prod.fst

variable [DecidableEq K]

/-- Notes that an entry has reached a frequency. -/
def enter (m : Frequency K V) (entry : Entry K V) (freq : Nat) : Frequency K V :=
  { m with
    uses := m.uses.insert entry.key { entry, freq, seq := m.clock }
    clock := m.clock + 1 }

def drop (m : Frequency K V) (k : K) : Frequency K V := { m with uses := m.uses.erase k }

/-- Drops the first key if there are as many as there is room for. -/
def roomy (m : Frequency K V) : Frequency K V :=
  if m.capacity ≤ m.uses.size then
    match m.first? with
    | some k => m.drop k
    | none => m
  else m

def get (m : Frequency K V) (k : K) (now : Instant) : Except MissReason V × Frequency K V :=
  match m.uses.get? k with
  | none => (.error .absent, m)
  | some u =>
    if u.entry.isExpired now then (.error .expired, m.drop k)
    else (.ok u.entry.value, m.enter u.entry (u.freq + 1))

def put (m : Frequency K V) (k : K) (v : V) (ttl : Duration) (now : Instant) : Frequency K V :=
  if m.capacity = 0 then m
  else match m.uses.get? k with
    | some u => m.enter { u.entry with value := v } (u.freq + 1)
    | none => m.roomy.enter { key := k, value := v, createdAt := now, ttl } 1

def remove (m : Frequency K V) (k : K) : Option V × Frequency K V :=
  ((m.uses.get? k).map fun u => u.entry.value, m.drop k)

/-- Drops the expired keys among those visited and counts them. -/
def expire (m : Frequency K V) (now : Instant) (visited : K → Bool) : Nat × Frequency K V :=
  (m.uses.entries.countP fun u => visited u.1 && u.2.entry.isExpired now,
    { m with uses := m.uses.filter fun k u => !(visited k && u.entry.isExpired now) })

/-- The answer to a request; a sweep visits the keys that the table leads to covered slots. -/
def step (m : Frequency K V) (table : Dict K Nat) : Request K V → Answer V × Frequency K V
  | .get key now => (m.get key now).map .read id
  | .put key value ttl now => (.done, m.put key value ttl now)
  | .remove key => (m.remove key).map .removed id
  | .contains key => (.found (m.uses.contains key), m)
  | .size => (.count m.uses.size, m)
  | .clear => (.done, { m with uses := Dict.empty })
  | .sweep cursor budget now =>
    (m.expire now fun k => (table.get? k).any (Sweep.covers cursor budget)).map .count id
  | .purge now => (m.expire now fun _ => true).map .count id

end Frequency

end BoundedCache
