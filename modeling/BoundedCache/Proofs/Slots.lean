import BoundedCache.Slab
import Mathlib.Data.List.Nodup
import Mathlib.Data.List.Perm.Subperm

/-! # Slabs whose free slots are exactly the vacant ones -/
namespace BoundedCache.Slab
variable {α : Type} {s : Slab α} {a : α} {i : Nat}

/-- Every vacant slot is free once, and the occupied ones are counted. -/
structure WellFormed (s : Slab α) : Prop where
  free_nodup : s.free.Nodup
  mem_free_iff : ∀ i, i ∈ s.free ↔ i < s.slotCount ∧ s.get? i = none
  size_eq : s.size = s.occupied

theorem getElem_slots (h : i < s.slots.size) : s.slots[i] = s.get? i := by
  simp [get?, h]

theorem get?_of_le (h : s.slotCount ≤ i) : s.get? i = none := by
  have : ¬ i < s.slots.size := Nat.not_lt.2 h
  simp [get?, this]

theorem remove_of_vacant (hi : s.get? i = none) : s.remove i = (none, s) := by
  rw [remove, hi]

theorem modify_of_vacant (hi : s.get? i = none) (f : α → α) : s.modify i f = s := by
  rw [modify, hi]

theorem occupied_set (h : i < s.slotCount) (x : Option α) :
    (s.slots.setIfInBounds i x).toList.countP Option.isSome =
      s.occupied - (s.get? i).isSome.toNat + x.isSome.toNat := by
  have hi : i < s.slots.toList.length := h
  have toNat_eq (b : Bool) : (if b = true then 1 else 0) = b.toNat := by cases b <;> rfl
  rw [Array.toList_setIfInBounds, List.countP_set hi, occupied, toNat_eq, toNat_eq,
    Array.getElem_toList, getElem_slots]

theorem occupied_pos (h : s.get? i = some a) : 0 < s.occupied := by
  have hi : i < s.slots.size := lt_slotCount_of_get? h
  rw [← getElem_slots hi] at h
  exact List.countP_pos_iff.2 ⟨some a, h ▸ Array.getElem_mem_toList hi, rfl⟩

theorem occupied_modify (s : Slab α) (i : Nat) (f : α → α) :
    (s.modify i f).occupied = s.occupied := by
  rw [modify]
  split
  · rename_i a ha
    have hcount := occupied_set (lt_slotCount_of_get? ha) (some (f a))
    have := occupied_pos ha
    simp only [ha, Option.isSome_some, Bool.toNat_true] at hcount
    rw [occupied, hcount]
    omega
  · rfl

theorem wellFormed_empty : (empty : Slab α).WellFormed :=
  ⟨List.nodup_nil, fun i => by simp [empty, slotCount], rfl⟩

theorem WellFormed.modify (h : s.WellFormed) (i : Nat) (f : α → α) : (s.modify i f).WellFormed where
  free_nodup := by rw [free_modify]; exact h.free_nodup
  mem_free_iff j := by
    rw [free_modify, slotCount_modify, h.mem_free_iff, get?_modify]
    split <;> simp
  size_eq := by rw [size_modify, occupied_modify, h.size_eq]

/-- The slot for the next value: the one freed last, or a new one if none is free. -/
def nextSlot (s : Slab α) : Nat := s.free.headD s.slotCount

@[simp] theorem fst_insert (s : Slab α) (a : α) : (s.insert a).1 = s.nextSlot := by
  unfold insert nextSlot
  split <;> simp_all

@[simp] theorem size_insert (s : Slab α) (a : α) : (s.insert a).2.size = s.size + 1 := by
  rw [insert]
  split <;> rfl

@[simp] theorem free_insert (s : Slab α) (a : α) : (s.insert a).2.free = s.free.tail := by
  rw [insert]
  split <;> simp_all

theorem WellFormed.get?_nextSlot (h : s.WellFormed) : s.get? s.nextSlot = none := by
  rw [nextSlot]
  cases hfree : s.free with
  | nil => exact get?_of_le (Nat.le_refl _)
  | cons i rest => exact ((h.mem_free_iff i).1 (by simp [hfree])).2

theorem WellFormed.nextSlot_le (h : s.WellFormed) : s.nextSlot ≤ s.slotCount := by
  rw [nextSlot]
  cases hfree : s.free with
  | nil => exact Nat.le_refl _
  | cons i rest => exact Nat.le_of_lt ((h.mem_free_iff i).1 (by simp [hfree])).1

theorem WellFormed.get?_insert (h : s.WellFormed) (a : α) (j : Nat) :
    (s.insert a).2.get? j = if s.nextSlot = j then some a else s.get? j := by
  unfold insert nextSlot
  split
  · rename_i i rest hfree
    have hi : i < s.slots.size := ((h.mem_free_iff i).1 (by simp [hfree])).1
    by_cases hij : i = j
    · subst hij
      simp [get?, hfree, hi]
    · simp [get?, hfree, hij]
  · rename_i hfree
    simp only [hfree, List.headD_nil, get?, slotCount, Array.getElem?_push]
    by_cases hj : j = s.slots.size
    · simp [hj]
    · simp [hj, Ne.symm hj]

theorem WellFormed.slotCount_insert (h : s.WellFormed) (a : α) :
    (s.insert a).2.slotCount = max s.slotCount (s.nextSlot + 1) := by
  unfold insert nextSlot
  split
  · rename_i i rest hfree
    have hi : i < s.slotCount := ((h.mem_free_iff i).1 (by simp [hfree])).1
    simp only [slotCount, Array.size_setIfInBounds, hfree, List.headD_cons] at hi ⊢
    omega
  · rename_i hfree
    simp [slotCount, hfree]

theorem WellFormed.occupied_insert (h : s.WellFormed) (a : α) :
    (s.insert a).2.occupied = s.occupied + 1 := by
  rw [insert]
  split
  · rename_i i rest hfree
    obtain ⟨hi, hvacant⟩ := (h.mem_free_iff i).1 (by simp [hfree])
    have hcount := occupied_set hi (some a)
    rwa [hvacant] at hcount
  · simp [occupied]

theorem WellFormed.insert (h : s.WellFormed) (a : α) : (s.insert a).2.WellFormed where
  free_nodup := by
    have hn := h.free_nodup
    rw [Slab.insert]
    split
    · rename_i i rest hfree
      rw [hfree] at hn
      exact hn.tail
    · exact hn
  mem_free_iff j := by
    rw [h.get?_insert, h.slotCount_insert]
    have hj := h.mem_free_iff j
    have hn := h.free_nodup
    unfold Slab.insert nextSlot
    split
    · rename_i i rest hfree
      have hi : i < s.slotCount := ((h.mem_free_iff i).1 (by simp [hfree])).1
      rw [hfree] at hj hn
      simp only [List.nodup_cons] at hn
      by_cases hij : i = j
      · subst hij
        simp [hfree, hn.1]
      · have hji : j ≠ i := Ne.symm hij
        simp only [hfree, List.mem_cons, hji, false_or, List.headD_cons, if_neg hij] at hj ⊢
        rw [hj, Nat.max_eq_left hi]
    · rename_i hfree
      simp only [hfree, List.not_mem_nil, false_iff, not_and, List.headD_nil] at hj ⊢
      intro hlt
      by_cases hij : s.slotCount = j
      · simp [hij]
      · simpa [hij] using hj (by omega)
  size_eq := by rw [size_insert, h.occupied_insert, h.size_eq]

@[simp] theorem free_remove (s : Slab α) (i : Nat) :
    (s.remove i).2.free = if (s.get? i).isSome then i :: s.free else s.free := by
  rw [remove]
  split <;> simp_all

theorem size_remove_le (s : Slab α) (i : Nat) : (s.remove i).2.size ≤ s.size := by
  rw [remove]
  split
  · exact Nat.sub_le ..
  · exact Nat.le_refl _

theorem WellFormed.size_remove (h : s.WellFormed) (hi : s.get? i = some a) :
    (s.remove i).2.size + 1 = s.size := by
  have hpos := occupied_pos hi
  have hsize := h.size_eq
  simp only [remove, hi]
  omega

theorem WellFormed.remove (h : s.WellFormed) (i : Nat) : (s.remove i).2.WellFormed := by
  cases hi : s.get? i with
  | none => simpa [Slab.remove, hi] using h
  | some a =>
    have hlt := lt_slotCount_of_get? hi
    have hfree : i ∉ s.free := fun hmem => by simp [((h.mem_free_iff i).1 hmem).2] at hi
    constructor
    · simpa [hi] using ⟨hfree, h.free_nodup⟩
    · intro j
      rw [slotCount_remove, get?_remove, free_remove, hi]
      simp only [Option.isSome_some, if_true, List.mem_cons, h.mem_free_iff]
      by_cases hij : i = j
      · subst hij
        simp [hlt]
      · simp [hij, Ne.symm hij]
    · have hcount := occupied_set hlt none
      have hsize := h.size_remove hi
      have hpos := occupied_pos hi
      simp only [hi, Option.isSome_some, Option.isSome_none, Bool.toNat_true, Bool.toNat_false]
        at hcount
      have hocc : (s.remove i).2.occupied = s.occupied - 1 := by
        simp only [Slab.remove, hi]
        exact hcount
      rw [hocc]
      have := h.size_eq
      omega

/-- The occupied slots in ascending order. -/
def held (s : Slab α) : List Nat := (List.range s.slotCount).filter fun i => (s.get? i).isSome

theorem nodup_held (s : Slab α) : s.held.Nodup := List.nodup_range.filter _

theorem mem_held : i ∈ s.held ↔ (s.get? i).isSome := by
  rw [held, List.mem_filter, List.mem_range, and_iff_right_iff_imp]
  intro hi
  obtain ⟨a, ha⟩ := Option.isSome_iff_exists.1 hi
  exact lt_slotCount_of_get? ha

/-- Different occupied slots are no more than there are slots. -/
theorem length_le_slotCount {is : List Nat} (nodup : is.Nodup)
    (occupied : ∀ i ∈ is, (s.get? i).isSome) : is.length ≤ s.slotCount := by
  have hsub : is ⊆ List.range s.slotCount := by
    intro i hi
    obtain ⟨a, ha⟩ := Option.isSome_iff_exists.1 (occupied i hi)
    exact List.mem_range.2 (lt_slotCount_of_get? ha)
  simpa using (List.subperm_of_subset nodup hsub).length_le

theorem length_held (s : Slab α) : s.held.length = s.occupied := by
  have hslots : (List.range s.slotCount).map s.get? = s.slots.toList := by
    apply List.ext_getElem
    · simp [slotCount]
    · intro i h₁ h₂
      simp only [List.getElem_map, List.getElem_range, Array.getElem_toList]
      exact (getElem_slots h₂).symm
  rw [occupied, ← hslots, List.countP_map, List.countP_eq_length_filter]
  rfl

theorem WellFormed.length_held (h : s.WellFormed) : s.held.length = s.size := by
  rw [Slab.length_held, h.size_eq]

theorem length_le_occupied {is : List Nat} (nodup : is.Nodup)
    (occupied : ∀ i ∈ is, (s.get? i).isSome) : is.length ≤ s.occupied := by
  have hsub : is ⊆ s.held := fun i hi => mem_held.2 (occupied i hi)
  rw [← length_held]
  exact (List.subperm_of_subset nodup hsub).length_le

/-- Different occupied slots are all there are, if there are as many of them as the slab counts. -/
theorem mem_iff_of_length_eq {is : List Nat} (counted : s.size = s.occupied) (nodup : is.Nodup)
    (occupied : ∀ i ∈ is, (s.get? i).isSome) (length_eq : is.length = s.size) (i : Nat) :
    i ∈ is ↔ (s.get? i).isSome := by
  have hsub : is ⊆ s.held := fun j hj => mem_held.2 (occupied j hj)
  have hle : s.held.length ≤ is.length :=
    Nat.le_of_eq (by rw [length_held, ← counted, length_eq])
  rw [((List.subperm_of_subset nodup hsub).perm_of_length_le hle).mem_iff, mem_held]

/-- A list that names every occupied slot once is as long as there are occupied slots. -/
theorem occupied_eq_length {is : List Nat} (nodup : is.Nodup)
    (mem_iff : ∀ i, i ∈ is ↔ (s.get? i).isSome) : s.occupied = is.length := by
  have hperm : is.Perm s.held :=
    (List.perm_ext_iff_of_nodup nodup s.nodup_held).2 fun i => by rw [mem_iff, mem_held]
  rw [hperm.length_eq, length_held]

theorem WellFormed.size_eq_length (h : s.WellFormed) {is : List Nat} (nodup : is.Nodup)
    (mem_iff : ∀ i, i ∈ is ↔ (s.get? i).isSome) : s.size = is.length := by
  rw [h.size_eq, occupied_eq_length nodup mem_iff]

theorem WellFormed.size_add_length_free (h : s.WellFormed) :
    s.size + s.free.length = s.slotCount := by
  have hfree : s.free.Perm ((List.range s.slotCount).filter fun i => !(s.get? i).isSome) := by
    rw [List.perm_ext_iff_of_nodup h.free_nodup (List.nodup_range.filter _)]
    intro i
    rw [h.mem_free_iff, List.mem_filter, List.mem_range]
    simp
  have hsplit := List.length_eq_length_filter_add (l := List.range s.slotCount)
    fun i => (s.get? i).isSome
  rw [List.length_range] at hsplit
  rw [← h.length_held, hfree.length_eq]
  exact hsplit.symm

/-- A slab only grows while it is full. -/
theorem WellFormed.slotCount_insert_le (h : s.WellFormed) {bound : Nat} (hcount : s.slotCount ≤ bound)
    (room : s.size < bound) (a : α) : (s.insert a).2.slotCount ≤ bound := by
  have hsize := h.size_add_length_free
  rw [h.slotCount_insert, nextSlot]
  cases hfree : s.free with
  | nil =>
    rw [hfree] at hsize
    simp only [List.length_nil, List.headD_nil] at hsize ⊢
    omega
  | cons j rest =>
    have hj := ((h.mem_free_iff j).1 (by simp [hfree])).1
    simp only [List.headD_cons]
    omega

/-! ## Slabs that look alike -/

/-- Slabs with the same slots, occupied and free, and in the occupied ones values that look alike. -/
structure Alike {β : Type} (view : α → β) (s s' : Slab α) : Prop where
  view_eq : ∀ j, (s'.get? j).map view = (s.get? j).map view
  size : s'.size = s.size
  free : s'.free = s.free
  slotCount : s'.slotCount = s.slotCount
  wellFormed : s.WellFormed → s'.WellFormed

namespace Alike
variable {β : Type} {view : α → β} {s' s'' : Slab α}

theorem refl (view : α → β) (s : Slab α) : Alike view s s := ⟨fun _ => rfl, rfl, rfl, rfl, id⟩

theorem trans (h : Alike view s s') (h' : Alike view s' s'') : Alike view s s'' where
  view_eq j := (h'.view_eq j).trans (h.view_eq j)
  size := h'.size.trans h.size
  free := h'.free.trans h.free
  slotCount := h'.slotCount.trans h.slotCount
  wellFormed := h'.wellFormed ∘ h.wellFormed

theorem modify (s : Slab α) (i : Nat) {f : α → α} (hf : ∀ a, view (f a) = view a) :
    Alike view s (s.modify i f) where
  view_eq j := by
    rw [get?_modify]
    split
    · simp [Function.comp_def, hf]
    · rfl
  size := size_modify ..
  free := free_modify ..
  slotCount := slotCount_modify ..
  wellFormed h := h.modify i f

theorem isSome_get? (h : Alike view s s') (j : Nat) : (s'.get? j).isSome = (s.get? j).isSome := by
  have hj := congrArg Option.isSome (h.view_eq j)
  rwa [Option.isSome_map, Option.isSome_map] at hj

end Alike

end BoundedCache.Slab
