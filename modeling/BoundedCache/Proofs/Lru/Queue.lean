import BoundedCache.Lru.Queue
import BoundedCache.Proofs.Slots

/-! # The contents of the recency queue -/
namespace BoundedCache.Lru.Queue
variable {K V : Type} {q : Queue K V} {i : Nat} {is xs ys : List Nat}

/-! ## What each write changes -/

theorem next?_setNext (q : Queue K V) (i n j : Nat) :
    next? (setNext q i n) j = if i = j then (next? q j).map fun _ => n else next? q j := by
  simp only [next?, setNext, Slab.get?_modify]
  split <;> simp [Function.comp_def]

theorem next?_setPrev (q : Queue K V) (i n j : Nat) : next? (setPrev q i n) j = next? q j := by
  simp only [next?, setPrev, Slab.get?_modify]
  split <;> simp [Function.comp_def]

theorem prev?_setPrev (q : Queue K V) (i n j : Nat) :
    prev? (setPrev q i n) j = if i = j then (prev? q j).map fun _ => n else prev? q j := by
  simp only [prev?, setPrev, Slab.get?_modify]
  split <;> simp [Function.comp_def]

theorem prev?_setNext (q : Queue K V) (i n j : Nat) : prev? (setNext q i n) j = prev? q j := by
  simp only [prev?, setNext, Slab.get?_modify]
  split <;> simp [Function.comp_def]

theorem next?_setValue (q : Queue K V) (i : Nat) (v : V) (j : Nat) :
    next? (setValue q i v) j = next? q j := by
  simp only [next?, setValue, Slab.get?_modify]
  split <;> simp [Function.comp_def]

theorem prev?_setValue (q : Queue K V) (i : Nat) (v : V) (j : Nat) :
    prev? (setValue q i v) j = prev? q j := by
  simp only [prev?, setValue, Slab.get?_modify]
  split <;> simp [Function.comp_def]

theorem entryAt?_setValue (q : Queue K V) (i : Nat) (v : V) (j : Nat) :
    entryAt? (setValue q i v) j =
      if i = j then (entryAt? q j).map fun a => { a with value := v } else entryAt? q j := by
  simp only [entryAt?, setValue, Slab.get?_modify]
  split
  · cases q.get? j <;> rfl
  · rfl

/-- Writes that leave every content and the set of occupied slots alone. -/
abbrev SameContents (q q' : Queue K V) : Prop := Slab.Alike Node.content q q'

namespace SameContents
variable {q q' : Queue K V}

theorem setNext (q : Queue K V) (i n : Nat) : SameContents q (setNext q i n) :=
  Slab.Alike.modify q i fun _ => rfl

theorem setPrev (q : Queue K V) (i n : Nat) : SameContents q (setPrev q i n) :=
  Slab.Alike.modify q i fun _ => rfl

theorem unlink (q : Queue K V) (i : Nat) : SameContents q (unlink q i) := by
  rw [Queue.unlink]
  split
  · exact (setNext ..).trans (setPrev ..)
  · exact Slab.Alike.refl ..

theorem attachFront (q : Queue K V) (i : Nat) : SameContents q (attachFront q i) := by
  rw [Queue.attachFront]
  refine ((Slab.Alike.modify q i ?_).trans (setPrev _ _ i)).trans (setNext _ head i)
  intro node
  rfl

theorem moveToFront (q : Queue K V) (i : Nat) : SameContents q (moveToFront q i) := by
  rw [Queue.moveToFront]
  split
  · exact Slab.Alike.refl ..
  · exact (unlink q i).trans (attachFront ..)

theorem entryAt? (h : SameContents q q') (j : Nat) : entryAt? q' j = entryAt? q j := by
  have hj := h.view_eq j
  unfold Queue.entryAt?
  revert hj
  cases q'.get? j <;> cases q.get? j <;> simp

end SameContents

/-! ## The sentinels and the other slots -/

/-- Slots 0 and 1 hold the sentinels, and every other occupied slot holds an entry. -/
structure Guarded (q : Queue K V) : Prop where
  wellFormed : q.WellFormed
  sentinel : ∀ i, i < sentinels → (q.get? i).isSome
  content_eq_none_iff : ∀ i node, q.get? i = some node → (node.content = none ↔ i < sentinels)

theorem guarded_empty : Guarded (empty : Queue K V) where
  wellFormed := (Slab.wellFormed_empty.insert _).insert _
  sentinel i hi := by
    match i, hi with
    | 0, _ => rfl
    | 1, _ => rfl
  content_eq_none_iff i node h := by
    match i with
    | 0 => cases h; simp [sentinels]
    | 1 => cases h; simp [sentinels]
    | i + 2 => cases h

namespace Guarded

theorem entryAt?_eq_none (h : Guarded q) (hi : i < sentinels) : entryAt? q i = none := by
  rw [entryAt?]
  cases hnode : q.get? i with
  | none => rfl
  | some node => exact (h.content_eq_none_iff i node hnode).2 hi

theorem isSome_entryAt? (h : Guarded q) (hi : sentinels ≤ i) :
    (entryAt? q i).isSome = (q.get? i).isSome := by
  rw [entryAt?]
  cases hnode : q.get? i with
  | none => rfl
  | some node =>
    have hcontent := mt (h.content_eq_none_iff i node hnode).1 (Nat.not_lt.2 hi)
    simpa [Option.isSome_iff_ne_none] using hcontent

theorem sentinels_le (h : Guarded q) (hi : (entryAt? q i).isSome) : sentinels ≤ i := by
  rcases Nat.lt_or_ge i sentinels with hlt | hge
  · simp [h.entryAt?_eq_none hlt] at hi
  · exact hge

theorem congr {q' : Queue K V} (h : Guarded q) (same : SameContents q q') : Guarded q' where
  wellFormed := same.wellFormed h.wellFormed
  sentinel i hi := by rw [same.isSome_get?]; exact h.sentinel i hi
  content_eq_none_iff i node' hnode' := by
    have hcontent := same.view_eq i
    rw [hnode', Option.map_some, eq_comm, Option.map_eq_some_iff] at hcontent
    obtain ⟨node, hnode, hnn⟩ := hcontent
    rw [← hnn]
    exact h.content_eq_none_iff i node hnode

theorem setValue (h : Guarded q) (i : Nat) (v : V) : Guarded (setValue q i v) where
  wellFormed := h.wellFormed.modify ..
  sentinel j hj := by
    have hold := h.sentinel j hj
    rw [Queue.setValue, Slab.get?_modify]
    split <;> simpa using hold
  content_eq_none_iff j node hnode := by
    rw [Queue.setValue, Slab.get?_modify] at hnode
    split at hnode
    · obtain ⟨old, hold, rfl⟩ := Option.map_eq_some_iff.1 hnode
      simpa using h.content_eq_none_iff j old hold
    · exact h.content_eq_none_iff j node hnode

theorem sentinels_le_nextSlot (h : Guarded q) : sentinels ≤ q.nextSlot := by
  rcases Nat.lt_or_ge q.nextSlot sentinels with hlt | hge
  · have hsome := h.sentinel _ hlt
    rw [h.wellFormed.get?_nextSlot] at hsome
    cases hsome
  · exact hge

theorem insert (h : Guarded q) (a : Entry K V) (p n : Nat) :
    Guarded (q.insert ⟨some a, p, n⟩).2 where
  wellFormed := h.wellFormed.insert _
  sentinel i hi := by
    rw [h.wellFormed.get?_insert]
    split
    · rfl
    · exact h.sentinel i hi
  content_eq_none_iff i node hnode := by
    rw [h.wellFormed.get?_insert] at hnode
    split at hnode
    · rename_i hi
      cases hnode
      have hle := h.sentinels_le_nextSlot
      rw [hi] at hle
      simpa using hle
    · exact h.content_eq_none_iff i node hnode

theorem remove (h : Guarded q) (hi : sentinels ≤ i) : Guarded (q.remove i).2 where
  wellFormed := h.wellFormed.remove i
  sentinel j hj := by
    rw [Slab.get?_remove, if_neg (by omega)]
    exact h.sentinel j hj
  content_eq_none_iff j node hnode := by
    rw [Slab.get?_remove] at hnode
    split at hnode
    · cases hnode
    · exact h.content_eq_none_iff j node hnode

/-- The sentinels are among the slots that the queue counts. -/
theorem sentinels_le_size (h : Guarded q) : sentinels ≤ q.size := by
  have hguards : [head, tail].length ≤ q.occupied := by
    refine Slab.length_le_occupied (by decide) fun i hi => h.sentinel i ?_
    simp only [List.mem_cons, List.not_mem_nil, or_false] at hi
    rcases hi with rfl | rfl <;> decide
  rwa [← h.wellFormed.size_eq] at hguards

/-- The queue counts the slots with an entry. -/
theorem length_eq (h : Guarded q) (nodup : is.Nodup)
    (mem_iff : ∀ i, i ∈ is ↔ (entryAt? q i).isSome) : length q = is.length := by
  have hsize : q.size = (head :: tail :: is).length := by
    apply h.wellFormed.size_eq_length
    · have hle : ∀ i ∈ is, sentinels ≤ i := fun i hi => h.sentinels_le ((mem_iff i).1 hi)
      simp only [List.nodup_cons, List.mem_cons, not_or]
      refine ⟨⟨by decide, fun hmem => ?_⟩, fun hmem => ?_, nodup⟩
      · exact absurd (hle _ hmem) (by decide)
      · exact absurd (hle _ hmem) (by decide)
    · intro i
      rcases Nat.lt_or_ge i sentinels with hlt | hge
      · have hi : i = head ∨ i = tail := by
          simp only [sentinels, head, tail] at hlt ⊢
          omega
        rcases hi with rfl | rfl
        · simp [h.sentinel head hlt]
        · simp [h.sentinel tail hlt]
      · have hne : i ≠ head ∧ i ≠ tail := by
          simp only [sentinels, head, tail] at hge ⊢
          omega
        rw [← h.isSome_entryAt? hge, ← mem_iff]
        simp [hne.1, hne.2]
  rw [length, hsize, List.length_cons, List.length_cons]
  rfl

end Guarded

end BoundedCache.Lru.Queue
