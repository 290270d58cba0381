import BoundedCache.Entry
import BoundedCache.Slab

/-! # The recency queue: linked slots between a head and a tail sentinel

The node after the head was used last, the node before the tail least recently. Every operation
leaves vacant slots alone, so it is defined whatever the links say.
-/
namespace BoundedCache.Lru

/-- A link of the queue; only the sentinels hold no entry. -/
structure Node (K V : Type) where
  content : Option (Entry K V)
  prev : Nat
  next : Nat

abbrev Queue (K V : Type) := Slab (Node K V)

def head : Nat := 0

def tail : Nat := 1

/-- How many slots at the start hold sentinels. -/
def sentinels : Nat := 2

namespace Queue
variable {K V : Type}

/-- The two sentinels, linked to each other. -/
def empty : Queue K V :=
  ((Slab.empty.insert ⟨none, head, tail⟩).2.insert ⟨none, head, tail⟩).2

/-- How many entries the queue holds. -/
def length (q : Queue K V) : Nat := q.size - sentinels

def entryAt? (q : Queue K V) (i : Nat) : Option (Entry K V) := (q.get? i).bind Node.content

def next? (q : Queue K V) (i : Nat) : Option Nat := (q.get? i).map Node.next

def prev? (q : Queue K V) (i : Nat) : Option Nat := (q.get? i).map Node.prev

def setNext (q : Queue K V) (i next : Nat) : Queue K V := q.modify i fun node => { node with next }

def setPrev (q : Queue K V) (i prev : Nat) : Queue K V := q.modify i fun node => { node with prev }

def setValue (q : Queue K V) (i : Nat) (value : V) : Queue K V :=
  q.modify i fun node => { node with content := node.content.map fun entry => { entry with value } }

/-- Links the neighbours of a node to each other. -/
def unlink (q : Queue K V) (i : Nat) : Queue K V :=
  match q.get? i with
  | some node => (setNext q node.prev node.next).setPrev node.next node.prev
  | none => q

/-- Links a node in right after the head. -/
def attachFront (q : Queue K V) (i : Nat) : Queue K V :=
  let first := (next? q head).getD tail
  let q := q.modify i fun node => { node with prev := head, next := first }
  (setPrev q first i).setNext head i

/-- Makes a node the most recently used. -/
def moveToFront (q : Queue K V) (i : Nat) : Queue K V :=
  if next? q head = some i then q else (unlink q i).attachFront i

/-- The keys from a slot on to the tail, a vacant slot, or the point where as many as there is room
for are taken; none if the fuel ends first. -/
def keysFrom (q : Queue K V) : Nat → Nat → Nat → Option (List K)
  | 0, _, _ => none
  | fuel + 1, room, i =>
    if i = tail then some []
    else match q.get? i with
      | none => some []
      | some ⟨none, _, next⟩ => keysFrom q fuel room next
      | some ⟨some entry, _, next⟩ =>
        if room ≤ 1 then some [entry.key]
        else (keysFrom q fuel (room - 1) next).map (entry.key :: ·)

/-- The keys from the most to the least recently used. The walk takes at most one key more than the
queue holds, and it has an end unless it runs around a cycle without entries. -/
def keys? (q : Queue K V) : Option (List K) :=
  match next? q head with
  | some first => keysFrom q ((length q + 2) * (q.slotCount + 1)) (length q + 1) first
  | none => some []

end Queue
end BoundedCache.Lru
