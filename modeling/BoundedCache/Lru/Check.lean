import BoundedCache.Require
import BoundedCache.Lru.Basic

/-! # Checking the recency queue against the table

The check walks the queue from the head to the tail and back again, and stops at the first fault.
-/
namespace BoundedCache.Lru

/-- What can be wrong with an engine's links, table or sizes. -/
inductive Fault
  | headMissing
  | tailMissing
  | cycle (slot : Nat)
  | danglingLink (slot : Nat)
  | brokenBackLink (slot : Nat)
  | sentinelInside (slot : Nat)
  | tableDisagrees (slot : Nat)
  | tailMismatch
  | linkedCount (linked held : Nat)
  | tableCount (keys held : Nat)
  | danglingBackLink
  | directionsDiffer
  | overCapacity (held capacity : Nat)
deriving DecidableEq

def Fault.message : Fault → String
  | headMissing => "missing head sentinel"
  | tailMissing => "missing tail sentinel"
  | cycle slot => s!"cycle at slot {slot}"
  | danglingLink slot => s!"dangling link to slot {slot}"
  | brokenBackLink slot => s!"broken back link at slot {slot}"
  | sentinelInside slot => s!"sentinel inside list at slot {slot}"
  | tableDisagrees slot => s!"table disagrees for slot {slot}"
  | tailMismatch => "tail back link does not match last node"
  | linkedCount linked held => s!"list holds {linked} nodes, arena {held}"
  | tableCount keys held => s!"table holds {keys} keys, list {held}"
  | danglingBackLink => "dangling back link"
  | directionsDiffer => "backward traversal differs from forward traversal"
  | overCapacity held capacity => s!"{held} entries exceed capacity {capacity}"

variable {K V : Type} [DecidableEq K]

/-- The slots from one on to the tail, and the last of them, given the slots seen before; a walk
longer than the slots are many has met a cycle. -/
def forward (e : Lru K V) : Nat → List Nat → Nat → Nat → Except Fault (List Nat × Nat)
  | 0, _, last, i => if i = tail then .ok ([], last) else .error (.cycle i)
  | fuel + 1, seen, last, i =>
    if i = tail then .ok ([], last)
    else do
      require (i ∉ seen) (.cycle i)
      let some node := e.queue.get? i | .error (.danglingLink i)
      require (node.prev = last) (.brokenBackLink i)
      let some entry := node.content | .error (.sentinelInside i)
      require (e.table.get? entry.key = some i) (.tableDisagrees i)
      let (slots, final) ← forward e fuel (i :: seen) i node.next
      return (i :: slots, final)

/-- The slots from one back to the head, at most as many as the limit. -/
def backward (e : Lru K V) : Nat → Nat → Except Fault (List Nat)
  | 0, _ => .ok []
  | limit + 1, i =>
    if i = head then .ok []
    else match e.queue.get? i with
      | some node => (backward e limit node.prev).map (i :: ·)
      | none => .error .danglingBackLink

/-- The first fault in the links, the table or the sizes, if there is one. -/
def check (e : Lru K V) : Except Fault Unit := do
  let some first := e.queue.next? head | .error .headMissing
  let (slots, last) ← e.forward (e.queue.slotCount + 1) [] head first
  let some final := e.queue.prev? tail | .error .tailMissing
  require (final = last) .tailMismatch
  require (slots.length = e.size) (.linkedCount slots.length e.size)
  require (e.table.size = e.size) (.tableCount e.table.size e.size)
  let back ← e.backward (e.size + 1) final
  require (back.reverse = slots) .directionsDiffer
  require (e.size ≤ e.capacity) (.overCapacity e.size e.capacity)

end BoundedCache.Lru
