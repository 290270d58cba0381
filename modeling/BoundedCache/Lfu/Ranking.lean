import BoundedCache.Dict
import BoundedCache.Entry
import BoundedCache.Slab

/-! # The frequency ranking: buckets of linked slots, chained from the lowest frequency upwards

The nodes of a bucket stand in the order in which they reached its frequency. Every operation leaves
vacant slots and missing buckets alone, so it is defined whatever the links say.
-/
namespace BoundedCache.Lfu

/-- A link of a bucket, with the number of uses of its entry. -/
structure Node (K V : Type) where
  entry : Entry K V
  freq : Nat
  prev? : Option Nat := none
  next? : Option Nat := none

/-- The first and last slot of one frequency, and the frequencies next to it in the chain. -/
structure Bucket where
  head? : Option Nat := none
  tail? : Option Nat := none
  lower? : Option Nat
  higher? : Option Nat
deriving DecidableEq

/-- The lowest frequency is where the chain of buckets starts; it is 0 while there is none. -/
structure Ranking (K V : Type) where
  nodes : Slab (Node K V)
  buckets : Dict Nat Bucket
  minFreq : Nat

namespace Ranking
variable {K V : Type}

def empty : Ranking K V := { nodes := Slab.empty, buckets := Dict.empty, minFreq := 0 }

def entryAt? (r : Ranking K V) (i : Nat) : Option (Entry K V) := (r.nodes.get? i).map Node.entry

def modifyNode (r : Ranking K V) (i : Nat) (f : Node K V → Node K V) : Ranking K V :=
  { r with nodes := r.nodes.modify i f }

def modifyBucket (r : Ranking K V) (freq : Nat) (f : Bucket → Bucket) : Ranking K V :=
  { r with buckets := r.buckets.modify freq f }

def setValue (r : Ranking K V) (i : Nat) (value : V) : Ranking K V :=
  r.modifyNode i fun node => { node with entry := { node.entry with value } }

/-- Where the chain starts, if there are buckets. -/
def lowest? (r : Ranking K V) : Option Nat := if r.buckets.isEmpty then none else some r.minFreq

/-- Changes what follows a frequency in the chain, or where the chain starts. -/
def setHigher (r : Ranking K V) (freq? higher? : Option Nat) : Ranking K V :=
  match freq? with
  | some freq => r.modifyBucket freq fun bucket => { bucket with higher? }
  | none => { r with minFreq := higher?.getD 0 }

/-- Changes what comes before a frequency in the chain. -/
def setLower (r : Ranking K V) (freq? lower? : Option Nat) : Ranking K V :=
  match freq? with
  | some freq => r.modifyBucket freq fun bucket => { bucket with lower? }
  | none => r

/-- Adds an empty bucket to the chain right above a frequency, or at its start, unless the bucket
is already there. -/
def linkBucket (r : Ranking K V) (freq : Nat) (lower? : Option Nat) : Ranking K V :=
  if r.buckets.contains freq then r
  else
    let higher? := match lower? with
      | some lower => (r.buckets.get? lower).bind Bucket.higher?
      | none => r.lowest?
    let r := { r with buckets := r.buckets.insert freq { lower?, higher? } }
    (r.setHigher lower? (some freq)).setLower higher? (some freq)

/-- Takes a bucket out of the chain. -/
def unlinkBucket (r : Ranking K V) (freq : Nat) : Ranking K V :=
  match r.buckets.get? freq with
  | some bucket =>
    let r := { r with buckets := r.buckets.erase freq }
    (r.setHigher bucket.lower? bucket.higher?).setLower bucket.higher? bucket.lower?
  | none => r

/-- Changes what follows a node in its bucket, or the head of the bucket. -/
def setNext (r : Ranking K V) (freq : Nat) (i? next? : Option Nat) : Ranking K V :=
  match i? with
  | some i => r.modifyNode i fun node => { node with next? }
  | none => r.modifyBucket freq fun bucket => { bucket with head? := next? }

/-- Changes what comes before a node in its bucket, or the tail of the bucket. -/
def setPrev (r : Ranking K V) (freq : Nat) (i? prev? : Option Nat) : Ranking K V :=
  match i? with
  | some i => r.modifyNode i fun node => { node with prev? }
  | none => r.modifyBucket freq fun bucket => { bucket with tail? := prev? }

/-- Appends a node to a bucket that is in the chain. -/
def pushBack (r : Ranking K V) (i freq : Nat) : Ranking K V :=
  match r.buckets.get? freq with
  | some bucket =>
    let last? := bucket.tail?
    ((r.setPrev freq none (some i)).setNext freq last? (some i)).modifyNode i fun node =>
      { node with freq, prev? := last?, next? := none }
  | none => r

/-- Takes a node out of its bucket, and then the bucket out of the chain if nothing is left in it. -/
def unlink (r : Ranking K V) (i : Nat) : Ranking K V :=
  match r.nodes.get? i with
  | some node =>
    let r := (r.setNext node.freq node.prev? node.next?).setPrev node.freq node.next? node.prev?
    let r := r.modifyNode i fun node => { node with prev? := none, next? := none }
    match r.buckets.get? node.freq with
    | some bucket => if bucket.head?.isNone then r.unlinkBucket node.freq else r
    | none => r
  | none => r

/-- Counts one more use of a node. The higher bucket is linked first, so that it finds its place in
the chain even if the lower one is emptied. -/
def touch (r : Ranking K V) (i : Nat) : Ranking K V :=
  match r.nodes.get? i with
  | some node => ((r.linkBucket (node.freq + 1) (some node.freq)).unlink i).pushBack i (node.freq + 1)
  | none => r

/-- The slot that goes first: the earliest one of the lowest frequency. -/
def first? (r : Ranking K V) : Option Nat := (r.buckets.get? r.minFreq).bind Bucket.head?

/-- Stores an entry that was used once. -/
def insert (r : Ranking K V) (entry : Entry K V) : Nat × Ranking K V :=
  let (i, nodes) := r.nodes.insert { entry, freq := 1 }
  (i, ({ r with nodes }.linkBucket 1 none).pushBack i 1)

/-- Takes a node out of its bucket and frees its slot. -/
def remove (r : Ranking K V) (i : Nat) : Option (Entry K V) × Ranking K V :=
  let r := r.unlink i
  let (node?, nodes) := r.nodes.remove i
  (node?.map Node.entry, { r with nodes })

end Ranking
end BoundedCache.Lfu
