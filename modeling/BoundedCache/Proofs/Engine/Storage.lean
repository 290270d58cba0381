import BoundedCache.Proofs.Engine.Batches
import BoundedCache.Proofs.Engine.Invariant

/-! # What the operations do to the slots of an engine

Every operation changes one slot at the most. What it does to the slots and to those that are free
does not depend on the policy, unless it has to make room.
-/
namespace BoundedCache

namespace Lru
open Queue
variable {K V : Type} [DecidableEq K] {e : Lru K V} {i : Nat} {a : Entry K V}

theorem free_without (hi : entryAt? e.queue i = some a) :
    (e.without i a).queue.free = i :: e.queue.free := by
  have hsame := SameContents.unlink e.queue i
  have hsome : (e.queue.get? i).isSome := by
    obtain ⟨node, hnode, -⟩ := Option.bind_eq_some_iff.1 hi
    exact Option.isSome_iff_exists.2 ⟨node, hnode⟩
  rw [without, Slab.free_remove, hsame.isSome_get?, if_pos hsome, hsame.free]

theorem free_withNew (e : Lru K V) (a : Entry K V) :
    (e.withNew a).queue.free = e.queue.free.tail := by
  rw [withNew, (SameContents.attachFront ..).free, Slab.free_insert]

end Lru

namespace Lfu
open Ranking
variable {K V : Type} [DecidableEq K] {e : Lfu K V} {i : Nat} {a : Entry K V}

theorem free_without (hi : e.ranking.entryAt? i = some a) :
    (e.without i a).ranking.nodes.free = i :: e.ranking.nodes.free := by
  have hsame := alike_unlink linkless_entry e.ranking i
  have hsome : (e.ranking.nodes.get? i).isSome := by
    obtain ⟨node, hnode, -⟩ := Option.map_eq_some_iff.1 hi
    exact Option.isSome_iff_exists.2 ⟨node, hnode⟩
  rw [without, Ranking.remove]
  simp only [Slab.free_remove, hsame.isSome_get?, if_pos hsome, hsame.free]

theorem free_withNew (e : Lfu K V) (a : Entry K V) :
    (e.withNew a).ranking.nodes.free = e.ranking.nodes.free.tail := by
  rw [withNew, (alike_insert e.ranking a).free, Slab.free_insert]

end Lfu

namespace Engine
variable {K V : Type}

/-- The free slots in the order of reuse. -/
def free : Engine K V → List Nat
  | lru e => e.queue.free
  | lfu e => e.ranking.nodes.free

/-- The slot for the next entry. -/
def nextSlot (e : Engine K V) : Nat := e.free.headD e.slotCount

/-- The first slot that can hold an entry. -/
def firstSlot : Engine K V → Nat
  | lru _ => Lru.sentinels
  | lfu _ => 0

/-- The engine with another value in a slot, which counts as a use. -/
def overwritten (e : Engine K V) (i : Nat) (v : V) : Engine K V :=
  match e with
  | lru e => lru { e with queue := (e.queue.setValue i v).moveToFront i }
  | lfu e => lfu { e with ranking := (e.ranking.setValue i v).touch i }

variable [DecidableEq K] {e : Engine K V} {i : Nat} {a : Entry K V} {k : K}

/-- The engine with one more entry. -/
def withNew (e : Engine K V) (a : Entry K V) : Engine K V :=
  match e with
  | lru e => lru (e.withNew a)
  | lfu e => lfu (e.withNew a)

/-- The engine after making room for one more entry. -/
def withRoom : Engine K V → Engine K V
  | lru e => lru (Lru.Inv.roomy e)
  | lfu e => lfu (Lfu.roomy e)

/-- Removes the entry in a slot if it has expired, and tells whether it did. -/
def reclaim (now : Instant) (i : Nat) (e : Engine K V) : Bool × Engine K V :=
  match e with
  | lru e => (e.reclaim now i).map id lru
  | lfu e => (e.reclaim now i).map id lfu

/-! ## Operations and passes -/

theorem put_zero (h : e.capacity = 0) (k : K) (v : V) (ttl : Duration) (now : Instant) :
    e.put k v ttl now = e := by
  cases e with
  | lru e => exact congrArg lru (Lru.Inv.put_zero h k v ttl now)
  | lfu e => exact congrArg lfu (Lfu.put_zero h k v ttl now)

theorem put_of_slot (hk : e.table.get? k = some i) (hc : e.capacity ≠ 0) (v : V) (ttl : Duration)
    (now : Instant) : e.put k v ttl now = e.overwritten i v := by
  cases e with
  | lru e => exact congrArg lru (Lru.Inv.put_tracked hk hc v ttl now)
  | lfu e => exact congrArg lfu (Lfu.put_tracked hk hc v ttl now)

theorem put_of_absent (hk : e.table.get? k = none) (hc : e.capacity ≠ 0) (v : V) (ttl : Duration)
    (now : Instant) :
    e.put k v ttl now =
      e.withRoom.withNew { key := k, value := v, createdAt := now, ttl := ttl } := by
  cases e with
  | lru e => exact congrArg lru (Lru.Inv.put_new hk hc v ttl now)
  | lfu e => exact congrArg lfu (Lfu.put_new hk hc v ttl now)

theorem put_new (hk : e.table.get? k = none) (room : e.size < e.capacity) (v : V) (ttl : Duration)
    (now : Instant) :
    e.put k v ttl now = e.withNew { key := k, value := v, createdAt := now, ttl := ttl } := by
  have hroomy : e.withRoom = e := by
    cases e with
    | lru e => exact congrArg lru (if_neg (Nat.not_le.2 room))
    | lfu e => exact congrArg lfu (if_neg (Nat.not_le.2 room))
  rw [put_of_absent hk (Nat.ne_of_gt (Nat.zero_lt_of_lt room)), hroomy]

theorem reclaim_live {now : Instant}
    (hi : ∀ a, e.entryAt? i = some a → a.isExpired now = false) :
    e.reclaim now i = (false, e) := by
  cases e with
  | lru e => exact congrArg (Prod.map id lru) (Lru.Inv.reclaim_live hi)
  | lfu e => exact congrArg (Prod.map id lfu) (Lfu.reclaim_live hi)

theorem Sound.reclaim_expired (h : e.Sound) {now : Instant} (hi : e.entryAt? i = some a)
    (hx : a.isExpired now = true) : e.reclaim now i = (true, e.without i a) := by
  cases e with
  | lru e =>
    obtain ⟨is, h⟩ := h
    exact congrArg (Prod.map id lru) (h.reclaim_expired hi hx)
  | lfu e => exact congrArg (Prod.map id lfu) (Lfu.reclaim_expired hi hx)

theorem purge_eq_visit (e : Engine K V) (now : Instant) (fits : e.slotCount ≤ Word.max) :
    e.purge now = Sweep.visit (reclaim now) (Sweep.slots e.firstSlot e.slotCount) e := by
  cases e with
  | lru e =>
    rw [purge, Lru.purge, e.sweepAll_eq_visit now fits one_le_max]
    exact (Sweep.visit_map lru (fun _ _ => rfl) _ e).symm
  | lfu e =>
    rw [purge, Lfu.purge, e.sweepAll_eq_visit now fits one_le_max]
    exact (Sweep.visit_map lfu (fun _ _ => rfl) _ e).symm

/-! ## What no operation changes -/

theorem kind_withNew (e : Engine K V) (a : Entry K V) : (e.withNew a).kind = e.kind := by
  cases e <;> rfl

theorem firstSlot_withNew (e : Engine K V) (a : Entry K V) :
    (e.withNew a).firstSlot = e.firstSlot := by
  cases e <;> rfl

omit [DecidableEq K] in
theorem kind_overwritten (e : Engine K V) (i : Nat) (v : V) :
    (e.overwritten i v).kind = e.kind := by
  cases e <;> rfl

/-! ## The free slots -/

theorem free_without (hi : e.entryAt? i = some a) : (e.without i a).free = i :: e.free := by
  cases e with
  | lru e => exact Lru.free_without hi
  | lfu e => exact Lfu.free_without hi

theorem free_withNew (e : Engine K V) (a : Entry K V) : (e.withNew a).free = e.free.tail := by
  cases e with
  | lru e => exact e.free_withNew a
  | lfu e => exact e.free_withNew a

omit [DecidableEq K] in
theorem free_used (e : Engine K V) (i : Nat) : (e.used i).free = e.free := by
  cases e with
  | lru e => exact (Lru.Queue.SameContents.moveToFront e.queue i).free
  | lfu e => exact (Lfu.Ranking.alike_touch e.ranking i).free

omit [DecidableEq K] in
theorem free_overwritten (e : Engine K V) (i : Nat) (v : V) : (e.overwritten i v).free = e.free := by
  cases e with
  | lru e =>
    have hmoved := (Lru.Queue.SameContents.moveToFront (e.queue.setValue i v) i).free
    exact hmoved.trans (Slab.free_modify ..)
  | lfu e =>
    have htouched := (Lfu.Ranking.alike_touch (e.ranking.setValue i v) i).free
    exact htouched.trans (Slab.free_modify ..)

/-! ## How many slots there are -/

omit [DecidableEq K] in
theorem slotCount_new (policy : Policy) (capacity : Nat) :
    (new policy capacity : Engine K V).slotCount = (new policy capacity : Engine K V).firstSlot := by
  cases policy <;> rfl

omit [DecidableEq K] in
theorem firstSlot_new (e : Engine K V) :
    (new e.policy e.capacity : Engine K V).firstSlot = e.firstSlot := by
  cases e <;> rfl

theorem slotCount_without (e : Engine K V) (i : Nat) (a : Entry K V) :
    (e.without i a).slotCount = e.slotCount := by
  cases e with
  | lru e => exact e.slotCount_without i a
  | lfu e => exact e.ranking.slotCount_remove i

omit [DecidableEq K] in
theorem slotCount_used (e : Engine K V) (i : Nat) : (e.used i).slotCount = e.slotCount := by
  cases e with
  | lru e => exact (Lru.Queue.SameContents.moveToFront e.queue i).slotCount
  | lfu e => exact (Lfu.Ranking.alike_touch e.ranking i).slotCount

omit [DecidableEq K] in
theorem slotCount_overwritten (e : Engine K V) (i : Nat) (v : V) :
    (e.overwritten i v).slotCount = e.slotCount := by
  cases e with
  | lru e =>
    have hmoved := (Lru.Queue.SameContents.moveToFront (e.queue.setValue i v) i).slotCount
    exact hmoved.trans (Slab.slotCount_modify ..)
  | lfu e =>
    have htouched := (Lfu.Ranking.alike_touch (e.ranking.setValue i v) i).slotCount
    exact htouched.trans (Slab.slotCount_modify ..)

theorem Sound.slotCount_withNew (h : e.Sound) (a : Entry K V) :
    (e.withNew a).slotCount = max e.slotCount (e.nextSlot + 1) := by
  cases e with
  | lru e =>
    obtain ⟨is, h⟩ := h
    exact Lru.slotCount_withNew h.guarded.wellFormed a
  | lfu e =>
    obtain ⟨slots, h⟩ := h
    have hsame := (Lfu.Ranking.alike_insert e.ranking a).slotCount
    exact hsame.trans (h.wellFormed.slotCount_insert _)

/-- No slot is the place of two entries. -/
theorem Sound.firstSlot_add_size_le (h : e.Sound) : e.firstSlot + e.size ≤ e.slotCount := by
  cases e with
  | lru e =>
    obtain ⟨is, h⟩ := h
    have hguards := h.guarded.sentinels_le_size
    have hfree := h.guarded.wellFormed.size_add_length_free
    simp only [firstSlot, size, slotCount, Lru.size, Lru.Queue.length]
    omega
  | lfu e =>
    obtain ⟨slots, h⟩ := h
    have hfree := h.wellFormed.size_add_length_free
    simp only [firstSlot, size, slotCount, Lfu.size]
    omega

theorem Sound.nextSlot_le (h : e.Sound) : e.nextSlot ≤ e.slotCount := by
  cases e with
  | lru e =>
    obtain ⟨is, h⟩ := h
    exact h.guarded.wellFormed.nextSlot_le
  | lfu e =>
    obtain ⟨slots, h⟩ := h
    exact h.wellFormed.nextSlot_le

/-- The slots only grow while all of them are taken. -/
theorem Sound.slotCount_withNew_le (h : e.Sound) {bound : Nat}
    (hcount : e.slotCount ≤ bound + e.firstSlot) (room : e.size < bound) (a : Entry K V) :
    (e.withNew a).slotCount ≤ bound + e.firstSlot := by
  cases e with
  | lru e =>
    obtain ⟨is, h⟩ := h
    have hroom : e.queue.size < bound + Lru.sentinels := by
      simp only [size, Lru.size, Lru.Queue.length] at room
      omega
    have hsame := (Lru.Queue.SameContents.attachFront
      (e.queue.insert ⟨some a, Lru.head, Lru.tail⟩).2 e.queue.nextSlot).slotCount
    have hinsert := h.guarded.wellFormed.slotCount_insert_le hcount hroom ⟨some a, Lru.head, Lru.tail⟩
    exact Nat.le_trans (Nat.le_of_eq hsame) hinsert
  | lfu e =>
    obtain ⟨slots, h⟩ := h
    have hsame := (Lfu.Ranking.alike_insert e.ranking a).slotCount
    exact Nat.le_trans (Nat.le_of_eq hsame) (h.wellFormed.slotCount_insert_le hcount room _)

/-! ## The entries -/

omit [DecidableEq K] in
theorem entryAt?_overwritten (e : Engine K V) (i : Nat) (v : V) (j : Nat) :
    (e.overwritten i v).entryAt? j =
      if i = j then (e.entryAt? j).map fun a => { a with value := v } else e.entryAt? j := by
  cases e with
  | lru e =>
    have hmoved := (Lru.Queue.SameContents.moveToFront (e.queue.setValue i v) i).entryAt? j
    exact hmoved.trans (Lru.Queue.entryAt?_setValue e.queue i v j)
  | lfu e =>
    have htouched := (e.ranking.setValue i v).entryAt?_touch i j
    exact htouched.trans (Lfu.Ranking.entryAt?_setValue e.ranking i v j)

theorem Sound.entryAt?_withNew (h : e.Sound) (a : Entry K V) (j : Nat) :
    (e.withNew a).entryAt? j = if e.nextSlot = j then some a else e.entryAt? j := by
  cases e with
  | lru e =>
    obtain ⟨is, h⟩ := h
    exact Lru.entryAt?_withNew h.guarded.wellFormed a j
  | lfu e =>
    obtain ⟨slots, h⟩ := h
    exact Lfu.Ranking.entryAt?_insert h.wellFormed a j

namespace Sound

theorem entryAt?_of_lt (h : e.Sound) (hi : i < e.firstSlot) : e.entryAt? i = none := by
  cases e with
  | lru e =>
    obtain ⟨is, h⟩ := h
    exact h.guarded.entryAt?_eq_none hi
  | lfu e => exact absurd hi (Nat.not_lt_zero i)

/-! ## What stays sound -/

theorem size_withRoom_lt (h : e.Sound) (hc : e.capacity ≠ 0) : e.withRoom.size < e.capacity := by
  cases e with
  | lru e =>
    obtain ⟨is, h⟩ := h
    have hroomy := (h.roomy_spec hc).1
    exact Nat.lt_of_le_of_lt (Nat.le_of_eq hroomy.size_eq) (Lru.Inv.length_kept_lt hc h.length_le)
  | lfu e =>
    obtain ⟨slots, h⟩ := h
    exact (h.roomy_spec hc).2.2.1

theorem without (h : e.Sound) (hi : e.entryAt? i = some a) : (e.without i a).Sound := by
  cases e with
  | lru e =>
    obtain ⟨is, h⟩ := h
    exact ⟨_, h.without hi⟩
  | lfu e =>
    obtain ⟨slots, h⟩ := h
    exact ⟨_, h.without hi⟩

theorem swept_without (h : e.Sound) (hi : e.entryAt? i = some a) :
    Swept e (fun j => decide (i = j)) (e.without i a) := by
  refine ⟨h.without hi, fun j => ?_, ?_, slotCount_without e i a⟩
  · simp only [decide_eq_true_eq]
    exact entryAt?_without e i a j
  · exact congrArg Prod.snd (kind_without e i a)

/-- Making room takes entries away and does nothing else. -/
theorem exists_swept_withRoom (h : e.Sound) (hc : e.capacity ≠ 0) :
    ∃ gone, Swept e gone e.withRoom := by
  cases e with
  | lru e =>
    obtain ⟨is, h⟩ := h
    obtain ⟨hroomy, hcapacity, hcount, hentry⟩ := h.roomy_spec hc
    refine ⟨fun j => !decide (j ∈ Lru.Inv.kept e.capacity is), ⟨_, hroomy⟩,
      fun j => (hentry j).trans ?_, hcapacity, hcount⟩
    by_cases hj : j ∈ Lru.Inv.kept e.capacity is <;> simp [hj, entryAt?]
  | lfu e =>
    obtain ⟨slots, h⟩ := h
    rcases h.roomy_cases hc with ⟨-, heq⟩ | ⟨-, i, a, -, ha, heq⟩
    · rw [Engine.withRoom, heq]
      exact ⟨_, .refl ⟨slots, h⟩⟩
    · rw [Engine.withRoom, heq]
      exact ⟨_, swept_without ⟨slots, h⟩ ha⟩

theorem used (h : e.Sound) (hi : e.entryAt? i = some a) : (e.used i).Sound := by
  cases e with
  | lru e =>
    obtain ⟨is, h⟩ := h
    exact ⟨_, h.moveToFront (h.mem_of_entryAt? hi)⟩
  | lfu e =>
    obtain ⟨slots, h⟩ := h
    obtain ⟨f, hf⟩ := h.exists_freq hi
    exact ⟨_, h.touch hf⟩

theorem overwritten (h : e.Sound) (hi : e.entryAt? i = some a) (v : V) :
    (e.overwritten i v).Sound := by
  cases e with
  | lru e =>
    obtain ⟨is, h⟩ := h
    exact ⟨_, (h.setValue i v).moveToFront (h.mem_of_entryAt? hi)⟩
  | lfu e =>
    obtain ⟨slots, h⟩ := h
    obtain ⟨f, hf⟩ := h.exists_freq hi
    exact ⟨_, (h.setValue i v).touch hf⟩

theorem withNew (h : e.Sound) (hk : e.table.get? a.key = none) (room : e.size < e.capacity) :
    (e.withNew a).Sound := by
  cases e with
  | lru e =>
    obtain ⟨is, h⟩ := h
    exact ⟨_, h.withNew hk (h.size_eq ▸ room)⟩
  | lfu e =>
    obtain ⟨slots, h⟩ := h
    exact ⟨_, h.withNew hk room⟩

end Sound
end Engine
end BoundedCache
