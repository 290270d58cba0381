import BoundedCache.Cache
import BoundedCache.Proofs.Engine.Batches
import BoundedCache.Proofs.Engine.Soundness

/-! # What the table of a cache tells without its engine -/
namespace BoundedCache.Cache
variable {K V : Type} {c : Cache K V} {α : Type}

theorem whenOpen_of_closed (h : c.closed = true)
    (act : Engine K V → Except CacheError α × Engine K V) :
    c.whenOpen act = (.error .closed, c) := by
  rw [whenOpen, if_pos h]

theorem whenOpen_of_open (h : c.closed = false)
    (act : Engine K V → Except CacheError α × Engine K V) :
    c.whenOpen act = ((act c.engine).1, { c with engine := (act c.engine).2 }) := by
  rw [whenOpen, h]
  rfl

variable [DecidableEq K]

theorem sweepAll_of_closed (h : c.closed = true) (batch : Nat) (now : Instant) :
    c.sweepAll batch now = c := by
  rw [sweepAll, if_pos h]

theorem sweepAll_of_open (h : c.closed = false) (batch : Nat) (now : Instant) :
    c.sweepAll batch now = { c with engine := (c.engine.sweepAll batch now).2 } := by
  rw [sweepAll, if_neg (Bool.eq_false_iff.1 h)]

theorem closed_sweepAll (c : Cache K V) (batch : Nat) (now : Instant) :
    (c.sweepAll batch now).closed = c.closed := by
  rw [sweepAll]
  split <;> rfl

/-- A sweep does not depend on how many slots its batches visit. -/
theorem sweepAll_congr (c : Cache K V) (now : Instant) (fits : c.engine.slotCount ≤ Word.max)
    {batch batch' : Nat} (pos : 1 ≤ batch) (pos' : 1 ≤ batch') :
    c.sweepAll batch' now = c.sweepAll batch now := by
  rw [sweepAll, sweepAll, c.engine.sweepAll_eq_purge now fits pos,
    c.engine.sweepAll_eq_purge now fits pos']

/-! ## Reads that look at the table only -/

theorem contains_eq (h : c.engine.Sound) (k : K) : c.contains k = (c.engine.find? k).isSome :=
  (c.engine.contains_eq_isSome k).symm.trans (h.contains_eq k)

theorem get_eq (h : c.engine.Sound) (isOpen : c.closed = false) (k : K) (now : Instant) :
    (c.get k now).1 =
      match c.engine.find? k with
      | none => .error (.notFound .absent)
      | some a => if a.isExpired now then .error (.notFound .expired) else .ok a.value := by
  rw [get, whenOpen_of_open isOpen]
  cases hk : c.engine.find? k with
  | none => exact congrArg (Except.mapError CacheError.notFound) (h.get_untracked hk now)
  | some a =>
    refine (congrArg (Except.mapError CacheError.notFound) (h.get_tracked hk now)).trans ?_
    simp only
    split <;> rfl

theorem remove_eq (h : c.engine.Sound) (isOpen : c.closed = false) (k : K) :
    (c.remove k).1 = .ok ((c.engine.find? k).map Entry.value) := by
  rw [remove, whenOpen_of_open isOpen]
  exact congrArg Except.ok (h.remove_eq k)

/-- What the table tells of the size and of each key is what the engine would answer. -/
structure Coherent (capacity : Nat) (c : Cache K V) : Prop where
  check_eq : c.check = .ok ()
  size_eq : c.size = c.engine.size
  size_le : c.size ≤ capacity
  isEmpty_iff : c.isEmpty = true ↔ c.size = 0
  contains_false_iff : c.closed = false → ∀ k now,
    c.contains k = false ↔ (c.get k now).1 = .error (.notFound .absent)
  contains_true_iff_get : c.closed = false → ∀ k now,
    c.contains k = true ↔
      (∃ v, (c.get k now).1 = .ok v) ∨ (c.get k now).1 = .error (.notFound .expired)
  contains_true_iff_remove : c.closed = false → ∀ k,
    c.contains k = true ↔ ∃ v, (c.remove k).1 = .ok (some v)

theorem coherent (h : c.engine.Sound) : c.Coherent c.engine.capacity where
  check_eq := h.check_eq
  size_eq := h.table_size_eq
  size_le := Nat.le_trans (Nat.le_of_eq h.table_size_eq) h.size_le
  isEmpty_iff := by rw [isEmpty, Dict.isEmpty, List.isEmpty_iff_length_eq_zero, size, Dict.size]
  contains_false_iff isOpen k now := by
    rw [contains_eq h, get_eq h isOpen]
    cases c.engine.find? k with
    | none => simp
    | some a => cases ha : a.isExpired now <;> simp [ha]
  contains_true_iff_get isOpen k now := by
    rw [contains_eq h, get_eq h isOpen]
    cases c.engine.find? k with
    | none => simp
    | some a => cases ha : a.isExpired now <;> simp [ha]
  contains_true_iff_remove isOpen k := by
    rw [contains_eq h, remove_eq h isOpen]
    cases c.engine.find? k <;> simp

end BoundedCache.Cache
