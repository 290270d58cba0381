/-! # A slab: storage slots, with the freed ones kept for reuse -/
namespace BoundedCache

/-- Slots that are occupied or vacant, the vacant ones in the order of reuse, and a count of the
occupied ones. -/
structure Slab (α : Type) where
  slots : Array (Option α) := #[]
  free : List Nat := []
  size : Nat := 0

namespace Slab
variable {α : Type}

def empty : Slab α := {}

/-- How many slots there are, occupied or not. -/
def slotCount (s : Slab α) : Nat := s.slots.size

def get? (s : Slab α) (i : Nat) : Option α := (s.slots[i]?).join

def isEmpty (s : Slab α) : Bool := s.size == 0

/-- Stores a value in the slot freed last, or in a new one at the end. -/
def insert (s : Slab α) (a : α) : Nat × Slab α :=
  match s.free with
  | i :: rest => (i, { slots := s.slots.setIfInBounds i (some a), free := rest, size := s.size + 1 })
  | [] => (s.slotCount, { s with slots := s.slots.push (some a), size := s.size + 1 })

/-- Vacates a slot and gives back what it held. -/
def remove (s : Slab α) (i : Nat) : Option α × Slab α :=
  match s.get? i with
  | some a =>
    (some a, { slots := s.slots.setIfInBounds i none, free := i :: s.free, size := s.size - 1 })
  | none => (none, s)

/-- Changes the value in an occupied slot. -/
def modify (s : Slab α) (i : Nat) (f : α → α) : Slab α :=
  match s.get? i with
  | some a => { s with slots := s.slots.setIfInBounds i (some (f a)) }
  | none => s

/-- Every slot from the first to the last. -/
def toList (s : Slab α) : List (Option α) := s.slots.toList

/-- How many slots are occupied, counted. -/
def occupied (s : Slab α) : Nat := s.slots.toList.countP Option.isSome

theorem lt_slotCount_of_get? {s : Slab α} {i : Nat} {a : α} (h : s.get? i = some a) :
    i < s.slotCount := by
  unfold get? at h
  by_cases hi : i < s.slots.size
  · exact hi
  · simp [Array.getElem?_eq_none (Nat.le_of_not_lt hi)] at h

theorem get?_modify (s : Slab α) (i j : Nat) (f : α → α) :
    (s.modify i f).get? j = if i = j then (s.get? j).map f else s.get? j := by
  unfold modify
  split
  · rename_i a ha
    have hi := lt_slotCount_of_get? ha
    by_cases hij : i = j
    · subst hij
      simp only [get?] at ha
      simp_all [get?, slotCount]
    · simp [get?, hij]
  · rename_i ha
    by_cases hij : i = j
    · subst hij; simp [ha]
    · simp [hij]

@[simp] theorem size_modify (s : Slab α) (i : Nat) (f : α → α) : (s.modify i f).size = s.size := by
  unfold modify; split <;> rfl

@[simp] theorem free_modify (s : Slab α) (i : Nat) (f : α → α) : (s.modify i f).free = s.free := by
  unfold modify; split <;> rfl

@[simp] theorem slotCount_modify (s : Slab α) (i : Nat) (f : α → α) :
    (s.modify i f).slotCount = s.slotCount := by
  unfold modify slotCount; split <;> simp

theorem get?_remove (s : Slab α) (i j : Nat) :
    (s.remove i).2.get? j = if i = j then none else s.get? j := by
  unfold remove
  split
  · rename_i a ha
    have hi := lt_slotCount_of_get? ha
    by_cases hij : i = j
    · subst hij
      simp_all [get?, slotCount]
    · simp [get?, hij]
  · rename_i ha
    by_cases hij : i = j
    · subst hij; simp [ha]
    · simp [hij]

@[simp] theorem fst_remove (s : Slab α) (i : Nat) : (s.remove i).1 = s.get? i := by
  unfold remove; split <;> simp_all

@[simp] theorem slotCount_remove (s : Slab α) (i : Nat) :
    (s.remove i).2.slotCount = s.slotCount := by
  unfold remove slotCount; split <;> simp

end Slab
end BoundedCache
