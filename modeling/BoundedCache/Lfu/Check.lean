import BoundedCache.Require
import BoundedCache.Lfu.Basic

/-! # Checking the frequency ranking against the table

The check walks every bucket, then the chain of buckets, and stops at the first fault.
-/
namespace BoundedCache.Lfu

/-- What can be wrong with an engine's links, table or sizes. -/
inductive Fault
  | emptyBucket (freq : Nat)
  | linkedTwice (slot : Nat)
  | danglingLink (slot : Nat)
  | wrongFrequency (slot found bucket : Nat)
  | brokenBackLink (slot : Nat)
  | tableDisagrees (slot : Nat)
  | tailMismatch (freq : Nat)
  | linkedCount (linked held : Nat)
  | tableCount (keys held : Nat)
  | lowestMismatch (minFreq : Nat) (lowest? : Option Nat)
  | missingBucket (freq : Nat)
  | brokenLowerLink (freq : Nat)
  | notAscending (freq : Nat)
  | chainCycle
  | chainCount (reached buckets : Nat)
  | overCapacity (held capacity : Nat)
deriving DecidableEq

def Fault.message : Fault → String
  | emptyBucket freq => s!"empty bucket kept for frequency {freq}"
  | linkedTwice slot => s!"slot {slot} linked twice"
  | danglingLink slot => s!"dangling link to slot {slot}"
  | wrongFrequency slot found bucket => s!"slot {slot} has frequency {found} inside bucket {bucket}"
  | brokenBackLink slot => s!"broken back link at slot {slot}"
  | tableDisagrees slot => s!"table disagrees for slot {slot}"
  | tailMismatch freq => s!"bucket {freq} tail does not match last node"
  | linkedCount linked held => s!"buckets hold {linked} nodes, arena {held}"
  | tableCount keys held => s!"table holds {keys} keys, arena {held}"
  | lowestMismatch minFreq (some lowest) =>
    s!"min_freq {minFreq} but lowest bucket is Some({lowest})"
  | lowestMismatch minFreq none => s!"min_freq {minFreq} but lowest bucket is None"
  | missingBucket freq => s!"chain links to missing bucket {freq}"
  | brokenLowerLink freq => s!"broken lower link at bucket {freq}"
  | notAscending freq => s!"bucket chain not ascending at {freq}"
  | chainCycle => "cycle in bucket chain"
  | chainCount reached buckets => s!"chain reaches {reached} of {buckets} buckets"
  | overCapacity held capacity => s!"{held} entries exceed capacity {capacity}"

variable {K V : Type} [DecidableEq K]

/-- The slots of a bucket from one on, and the last of them, given the slots seen before in any
bucket; a walk longer than the slots are many has met one twice. -/
def bucketFrom (e : Lfu K V) (freq : Nat) :
    Nat → List Nat → Option Nat → Option Nat → Except Fault (List Nat × Option Nat)
  | _, _, last?, none => .ok ([], last?)
  | 0, _, _, some i => .error (.linkedTwice i)
  | fuel + 1, seen, last?, some i => do
    require (i ∉ seen) (.linkedTwice i)
    let some node := e.ranking.nodes.get? i | .error (.danglingLink i)
    require (node.freq = freq) (.wrongFrequency i node.freq freq)
    require (node.prev? = last?) (.brokenBackLink i)
    require (e.table.get? node.entry.key = some i) (.tableDisagrees i)
    let (slots, final?) ← bucketFrom e freq fuel (i :: seen) (some i) node.next?
    return (i :: slots, final?)

/-- The slots of all buckets in the order given, after those seen before. -/
def bucketSlots (e : Lfu K V) : List Nat → List (Nat × Bucket) → Except Fault (List Nat)
  | seen, [] => .ok seen
  | seen, (freq, bucket) :: rest => do
    require (bucket.head? ≠ none) (.emptyBucket freq)
    let (slots, last?) ←
      e.bucketFrom freq (e.ranking.nodes.slotCount + 1) seen none bucket.head?
    require (bucket.tail? = last?) (.tailMismatch freq)
    bucketSlots e (seen ++ slots) rest

/-- How many buckets the chain has from a frequency on, if they are no more than there is room
for. -/
def chainFrom (r : Ranking K V) (room : Nat) (lower? : Option Nat) :
    Option Nat → Except Fault Nat
  | none => .ok 0
  | some freq => do
    let some bucket := r.buckets.get? freq | .error (.missingBucket freq)
    require (bucket.lower? = lower?) (.brokenLowerLink freq)
    require (∀ lower ∈ lower?, lower < freq) (.notAscending freq)
    match room with
    | 0 => .error .chainCycle
    | room + 1 =>
      let count ← chainFrom r room (some freq) bucket.higher?
      return count + 1

/-- The first fault in the links, the table or the sizes, if there is one. -/
def check (e : Lfu K V) : Except Fault Unit := do
  let buckets := e.ranking.buckets
  let slots ← e.bucketSlots [] buckets.entries
  require (slots.length = e.size) (.linkedCount slots.length e.size)
  require (e.table.size = e.size) (.tableCount e.table.size e.size)
  require (0 < e.size → buckets.keys.min? = some e.ranking.minFreq)
    (.lowestMismatch e.ranking.minFreq buckets.keys.min?)
  let count ← chainFrom e.ranking buckets.size none e.ranking.lowest?
  require (count = buckets.size) (.chainCount count buckets.size)
  require (e.size ≤ e.capacity) (.overCapacity e.size e.capacity)

end BoundedCache.Lfu
