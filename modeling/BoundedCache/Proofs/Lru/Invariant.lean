import BoundedCache.Lru.Basic
import BoundedCache.Proofs.Lru.Linked
import BoundedCache.Proofs.Tracking

/-! # What every operation on a least recently used engine keeps -/
namespace BoundedCache.Lru
open Queue Links
variable {K V : Type} [DecidableEq K] {e : Lru K V} {i : Nat} {is : List Nat} {a : Entry K V} {k : K}

/-- The queue runs through exactly the slots with an entry, the table leads to them, and there are
not too many. -/
structure Inv (e : Lru K V) (is : List Nat) : Prop where
  guarded : Guarded e.queue
  linked : Linked e.queue is
  mem_iff : ∀ i, i ∈ is ↔ (entryAt? e.queue i).isSome
  tracks : Tracks e.table (entryAt? e.queue)
  length_le : is.length ≤ e.capacity
  slotCount_le : e.queue.slotCount ≤ e.capacity + sentinels

/-! ## The engine with an entry more or less -/

/-- The engine without the entry in a slot. -/
def without (e : Lru K V) (i : Nat) (a : Entry K V) : Lru K V :=
  { e with queue := ((unlink e.queue i).remove i).2, table := e.table.erase a.key }

/-- The engine with a new entry in front. -/
def withNew (e : Lru K V) (a : Entry K V) : Lru K V :=
  { e with
    queue := attachFront (e.queue.insert ⟨some a, head, tail⟩).2 e.queue.nextSlot
    table := e.table.insert a.key e.queue.nextSlot }

theorem entryAt?_without (e : Lru K V) (i : Nat) (a : Entry K V) (j : Nat) :
    entryAt? (e.without i a).queue j = if i = j then none else entryAt? e.queue j := by
  have hsame := (SameContents.unlink e.queue i).entryAt? j
  simp only [without, entryAt?, Slab.get?_remove] at hsame ⊢
  split
  · rfl
  · exact hsame

theorem entryAt?_withNew (h : e.queue.WellFormed) (a : Entry K V) (j : Nat) :
    entryAt? (e.withNew a).queue j =
      if e.queue.nextSlot = j then some a else entryAt? e.queue j := by
  rw [withNew, (SameContents.attachFront ..).entryAt?]
  simp only [entryAt?, h.get?_insert]
  split <;> rfl

theorem slotCount_without (e : Lru K V) (i : Nat) (a : Entry K V) :
    (e.without i a).queue.slotCount = e.queue.slotCount := by
  rw [without, Slab.slotCount_remove, (SameContents.unlink e.queue i).slotCount]

theorem slotCount_withNew (h : e.queue.WellFormed) (a : Entry K V) :
    (e.withNew a).queue.slotCount = max e.queue.slotCount (e.queue.nextSlot + 1) := by
  rw [withNew, (SameContents.attachFront ..).slotCount, h.slotCount_insert]

namespace Inv

theorem size_eq (h : Inv e is) : e.size = is.length := h.guarded.length_eq h.linked.nodup h.mem_iff

theorem table_size_eq (h : Inv e is) : e.table.size = is.length :=
  h.tracks.size_eq_length h.linked.nodup h.mem_iff

theorem mem_of_entryAt? (h : Inv e is) (hi : entryAt? e.queue i = some a) : i ∈ is :=
  (h.mem_iff i).2 (by simp [hi])

theorem exists_entry (h : Inv e is) (hi : i ∈ is) : ∃ a, entryAt? e.queue i = some a :=
  Option.isSome_iff_exists.1 ((h.mem_iff i).1 hi)

theorem new (capacity : Nat) : Inv (new capacity : Lru K V) [] where
  guarded := guarded_empty
  linked := linked_empty
  mem_iff i := by
    match i with
    | 0 => simp [Lru.new, entryAt?, Queue.empty, Slab.get?, Slab.insert, Slab.empty]
    | 1 => simp [Lru.new, entryAt?, Queue.empty, Slab.get?, Slab.insert, Slab.empty]
    | i + 2 => simp [Lru.new, entryAt?, Queue.empty, Slab.get?, Slab.insert, Slab.empty]
  tracks k i := by
    match i with
    | 0 => simp [Lru.new, entryAt?, Queue.empty, Slab.get?, Slab.insert, Slab.empty]
    | 1 => simp [Lru.new, entryAt?, Queue.empty, Slab.get?, Slab.insert, Slab.empty]
    | i + 2 => simp [Lru.new, entryAt?, Queue.empty, Slab.get?, Slab.insert, Slab.empty]
  length_le := Nat.zero_le _
  slotCount_le := Nat.le_add_left ..

theorem without (h : Inv e is) (hi : entryAt? e.queue i = some a) :
    Inv (e.without i a) (is.filter (· ≠ i)) := by
  have hmem := h.mem_of_entryAt? hi
  obtain ⟨xs, ys, rfl⟩ := List.append_of_mem hmem
  have hentry := entryAt?_without e i a
  refine ⟨?_, ?_, ?_, h.tracks.erase hi hentry, ?_, ?_⟩
  · exact (h.guarded.congr (SameContents.unlink ..)).remove (h.linked.inner i hmem)
  · rw [filter_ne xs ys h.linked.nodup]
    exact h.linked.unlink.remove (h.linked.inner i hmem)
      (List.nodup_cons.1 (List.nodup_middle.1 h.linked.nodup)).1
  · intro j
    rw [List.mem_filter, h.mem_iff, hentry]
    by_cases hij : i = j
    · simp [hij]
    · simp [hij, Ne.symm hij]
  · exact Nat.le_trans (List.length_filter_le ..) h.length_le
  · rw [slotCount_without]
    exact h.slotCount_le

theorem withNew (h : Inv e is) (hk : e.table.get? a.key = none) (room : is.length < e.capacity) :
    Inv (e.withNew a) (e.queue.nextSlot :: is) := by
  have hentry := entryAt?_withNew h.guarded.wellFormed a
  have hvacant := h.guarded.wellFormed.get?_nextSlot
  have hnone : entryAt? e.queue e.queue.nextSlot = none := by
    simp [entryAt?, hvacant]
  have hnew : e.queue.nextSlot ∉ is := by
    rw [h.mem_iff, hnone]
    simp
  refine ⟨?_, ?_, ?_, h.tracks.insert hnone hk hentry, room, ?_⟩
  · exact (h.guarded.insert a head tail).congr (SameContents.attachFront ..)
  · refine (h.linked.insert h.guarded.wellFormed _).attachFront hnew
      h.guarded.sentinels_le_nextSlot ?_
    rw [h.guarded.wellFormed.get?_insert, if_pos rfl]
    rfl
  · intro j
    rw [List.mem_cons, h.mem_iff, hentry]
    by_cases hj : e.queue.nextSlot = j
    · simp [hj]
    · simp [hj, Ne.symm hj]
  · have hsize := h.size_eq
    simp only [Lru.size, Queue.length] at hsize
    have hroom : e.queue.size < e.capacity + sentinels := by omega
    rw [Lru.withNew, (SameContents.attachFront ..).slotCount]
    exact h.guarded.wellFormed.slotCount_insert_le h.slotCount_le hroom _

/-- Using an entry makes its slot the first. -/
theorem moveToFront (h : Inv e is) (hi : i ∈ is) :
    Inv { e with queue := moveToFront e.queue i } (i :: is.filter (· ≠ i)) := by
  have hsame := SameContents.moveToFront e.queue i
  obtain ⟨xs, ys, rfl⟩ := List.append_of_mem hi
  rw [filter_ne xs ys h.linked.nodup]
  refine ⟨h.guarded.congr hsame, h.linked.moveToFront, ?_, ?_, ?_, ?_⟩
  · intro j
    rw [hsame.entryAt?, ← h.mem_iff]
    simp [or_left_comm]
  · exact h.tracks.congr fun j => by rw [hsame.entryAt?]
  · simpa [Nat.add_assoc] using h.length_le
  · rw [hsame.slotCount]
    exact h.slotCount_le

theorem setValue (h : Inv e is) (i : Nat) (v : V) : Inv { e with queue := setValue e.queue i v } is where
  guarded := h.guarded.setValue i v
  linked := h.linked.setValue i v
  mem_iff j := by
    rw [h.mem_iff, entryAt?_setValue]
    split <;> simp
  tracks := h.tracks.congr fun j => by
    rw [entryAt?_setValue]
    split <;> simp [Function.comp_def]
  length_le := h.length_le
  slotCount_le := by
    rw [Queue.setValue, Slab.slotCount_modify]
    exact h.slotCount_le

end Inv
end BoundedCache.Lru
