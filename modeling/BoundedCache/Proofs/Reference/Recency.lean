import BoundedCache.Proofs.Reference
import BoundedCache.Proofs.Visits

/-! # A plain recency list -/
namespace BoundedCache

/-- A plain list of entries, the most recently used first, with room for so many. -/
structure Recency (K V : Type) where
  entries : List (Entry K V) := []
  capacity : Nat

namespace Recency
variable {K V : Type} [DecidableEq K]

def find? (m : Recency K V) (k : K) : Option (Entry K V) :=
  m.entries.find? fun a => decide (a.key = k)

/-- The entries under other keys, in the same order. -/
def others (m : Recency K V) (k : K) : List (Entry K V) :=
  m.entries.filter fun a => decide (a.key ≠ k)

theorem others_of_find?_eq_none {m : Recency K V} {k : K} (hk : m.find? k = none) :
    m.others k = m.entries := by
  rw [others, List.filter_eq_self]
  simpa using List.find?_eq_none.1 hk

def get (m : Recency K V) (k : K) (now : Instant) : Except MissReason V × Recency K V :=
  match m.find? k with
  | none => (.error .absent, m)
  | some a =>
    if a.isExpired now then (.error .expired, { m with entries := m.others k })
    else (.ok a.value, { m with entries := a :: m.others k })

def put (m : Recency K V) (k : K) (v : V) (ttl : Duration) (now : Instant) : Recency K V :=
  if m.capacity = 0 then m
  else match m.find? k with
    | some a => { m with entries := { a with value := v } :: m.others k }
    | none =>
      let kept := if m.capacity ≤ m.entries.length then m.entries.dropLast else m.entries
      { m with entries := { key := k, value := v, createdAt := now, ttl } :: kept }

def remove (m : Recency K V) (k : K) : Option V × Recency K V :=
  ((m.find? k).map Entry.value, { m with entries := m.others k })

/-- Drops the expired entries among those visited and counts them. -/
def expire (m : Recency K V) (now : Instant) (visited : K → Bool) : Nat × Recency K V :=
  (m.entries.countP fun a => visited a.key && a.isExpired now,
    { m with entries := m.entries.filter fun a => !(visited a.key && a.isExpired now) })

/-- The answer to a request; a sweep visits the keys that the table leads to covered slots. -/
def step (m : Recency K V) (table : Dict K Nat) : Request K V → Answer V × Recency K V
  | .get key now => (m.get key now).map .read id
  | .put key value ttl now => (.done, m.put key value ttl now)
  | .remove key => (m.remove key).map .removed id
  | .contains key => (.found (m.find? key).isSome, m)
  | .size => (.count m.entries.length, m)
  | .clear => (.done, { m with entries := [] })
  | .sweep cursor budget now =>
    (m.expire now fun k => (table.get? k).any (Sweep.covers cursor budget)).map .count id
  | .purge now => (m.expire now fun _ => true).map .count id

end Recency

end BoundedCache
