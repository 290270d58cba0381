import BoundedCache.Proofs.Slots

/-! # A slab is a map with a stack of free slots

Whatever is asked of a slab, it answers as a map from slots to values does that hands out the slot freed
last, or a new one. Removing a slot twice, or one that never was, does no harm.
-/
namespace BoundedCache

namespace Slab
variable {α : Type}

/-- What a slab can be asked to do. -/
inductive Op (α : Type)
  | insert (a : α)
  | remove (i : Nat)
  | get (i : Nat)
  | write (i : Nat) (f : α → α)
  | clear

/-- The slot of a new value, or what an operation found in its slot. -/
inductive Result (α : Type)
  | slot (i : Nat)
  | found (a? : Option α)
  | done

def step (s : Slab α) : Op α → Result α × Slab α
  | .insert a => (s.insert a).map .slot id
  | .remove i => (s.remove i).map .found id
  | .get i => (.found (s.get? i), s)
  | .write i f => (.found (s.get? i), s.modify i f)
  | .clear => (.done, empty)

/-- The results of operations one after another, and the slab that they leave. -/
def run (s : Slab α) : List (Op α) → List (Result α) × Slab α
  | [] => ([], s)
  | op :: rest =>
    let (result, s) := s.step op
    let (results, s) := s.run rest
    (result :: results, s)

end Slab

/-- A map from slots to values, the slots to hand out again, and how many slots there are. -/
structure Pool (α : Type) where
  at? : Nat → Option α := fun _ => none
  freed : List Nat := []
  count : Nat := 0

namespace Pool
variable {α : Type}

/-- The map with another value, or none, in a slot. -/
def put (p : Pool α) (i : Nat) (a? : Option α) : Nat → Option α :=
  fun j => if i = j then a? else p.at? j

def step (p : Pool α) : Slab.Op α → Slab.Result α × Pool α
  | .insert a =>
    match p.freed with
    | i :: rest => (.slot i, { p with at? := p.put i (some a), freed := rest })
    | [] => (.slot p.count, { p with at? := p.put p.count (some a), count := p.count + 1 })
  | .remove i =>
    match p.at? i with
    | some a => (.found (some a), { p with at? := p.put i none, freed := i :: p.freed })
    | none => (.found none, p)
  | .get i => (.found (p.at? i), p)
  | .write i f => (.found (p.at? i), { p with at? := p.put i ((p.at? i).map f) })
  | .clear => (.done, {})

def run (p : Pool α) : List (Slab.Op α) → List (Slab.Result α) × Pool α
  | [] => ([], p)
  | op :: rest =>
    let (result, p) := p.step op
    let (results, p) := p.run rest
    (result :: results, p)

end Pool

namespace Slab
variable {α : Type} {s : Slab α} {i : Nat} {a : α}

/-- What a slab is to those who use it. -/
def pool (s : Slab α) : Pool α := { at? := s.get?, freed := s.free, count := s.slotCount }

theorem pool_empty : (empty : Slab α).pool = {} := by
  simp only [pool, Pool.mk.injEq]
  exact ⟨funext fun i => get?_of_le (Nat.zero_le i), rfl, rfl⟩

theorem pool_remove (s : Slab α) (i : Nat) :
    s.pool.step (.remove i) = (.found (s.remove i).1, (s.remove i).2.pool) := by
  cases hi : s.get? i with
  | none => simp only [Pool.step, pool, hi, remove_of_vacant hi]
  | some a =>
    have hpool : (s.remove i).2.pool =
        { at? := s.pool.put i none, freed := i :: s.free, count := s.slotCount } := by
      have hget : (s.remove i).2.get? = s.pool.put i none := funext (s.get?_remove i)
      rw [pool, hget, free_remove, slotCount_remove, hi]
      rfl
    rw [hpool, fst_remove, hi]
    simp only [Pool.step, pool, hi]

theorem pool_write (s : Slab α) (i : Nat) (f : α → α) :
    s.pool.step (.write i f) = (.found (s.get? i), (s.modify i f).pool) := by
  have hpool : (s.modify i f).pool = { s.pool with at? := s.pool.put i ((s.get? i).map f) } := by
    have hget : (s.modify i f).get? = s.pool.put i ((s.get? i).map f) := by
      funext j
      rw [get?_modify, Pool.put]
      split
      · rename_i hij
        rw [hij]
      · rfl
    rw [pool, hget, free_modify, slotCount_modify]
    rfl
  rw [hpool]
  rfl

namespace WellFormed

theorem step (h : s.WellFormed) (op : Op α) : (s.step op).2.WellFormed := by
  cases op with
  | insert a => exact h.insert a
  | remove i => exact h.remove i
  | get i => exact h
  | write i f => exact h.modify i f
  | clear => exact wellFormed_empty

theorem run (h : s.WellFormed) (ops : List (Op α)) : (s.run ops).2.WellFormed := by
  induction ops generalizing s with
  | nil => exact h
  | cons op rest ih => exact ih (h.step op)

theorem pool_insert (h : s.WellFormed) (a : α) :
    s.pool.step (.insert a) = (.slot (s.insert a).1, (s.insert a).2.pool) := by
  have hpool : (s.insert a).2.pool =
      { at? := s.pool.put s.nextSlot (some a), freed := s.free.tail
        count := max s.slotCount (s.nextSlot + 1) } := by
    have hget : (s.insert a).2.get? = s.pool.put s.nextSlot (some a) := funext (h.get?_insert a)
    rw [pool, hget, free_insert, h.slotCount_insert]
  rw [hpool, fst_insert, nextSlot]
  cases hfree : s.free with
  | nil => simp [Pool.step, pool, hfree]
  | cons i rest =>
    have hi := ((h.mem_free_iff i).1 (by simp [hfree])).1
    simp [Pool.step, pool, hfree, Nat.max_eq_left hi]

/-- A step of the slab is a step of the map. -/
theorem pool_step (h : s.WellFormed) (op : Op α) :
    s.pool.step op = ((s.step op).1, (s.step op).2.pool) := by
  cases op with
  | insert a => exact h.pool_insert a
  | remove i => exact s.pool_remove i
  | get i => rfl
  | write i f => exact s.pool_write i f
  | clear => exact congrArg (Prod.mk _) pool_empty.symm

theorem pool_run (h : s.WellFormed) (ops : List (Op α)) :
    s.pool.run ops = ((s.run ops).1, (s.run ops).2.pool) := by
  induction ops generalizing s with
  | nil => rfl
  | cons op rest ih =>
    rw [Pool.run, h.pool_step op]
    simp only [ih (h.step op)]
    rfl

end WellFormed

/-- Whatever was asked of a slab before, it has answered as the map did and holds what the map holds. Its
free slots are the vacant ones, each once, and the others are counted. A new value goes to the slot
freed last, or to one at the end, and nowhere else. A removal vacates its slot, which is then the next
one to use, and no other. Nothing is found or changed in a slot that is vacant or past the end. -/
theorem run_eq_pool (ops : List (Op α)) :
    let s := ((empty : Slab α).run ops).2
    ({} : Pool α).run ops = (((empty : Slab α).run ops).1, s.pool) ∧
      s.free.Nodup ∧ (∀ i, i ∈ s.free ↔ i < s.slotCount ∧ s.get? i = none) ∧
      s.size = s.occupied ∧ s.size + s.free.length = s.slotCount ∧
      (∀ a, (s.insert a).1 = s.free.headD s.slotCount ∧ s.get? (s.insert a).1 = none ∧
        ∀ j, (s.insert a).2.get? j = if (s.insert a).1 = j then some a else s.get? j) ∧
      (∀ i a, s.get? i = some a →
        (s.remove i).1 = some a ∧ (s.remove i).2.free = i :: s.free ∧
          ∀ j, (s.remove i).2.get? j = if i = j then none else s.get? j) ∧
      ∀ i, i ∈ s.free ∨ s.slotCount ≤ i →
        s.step (.remove i) = (.found none, s) ∧ s.step (.get i) = (.found none, s) ∧
          ∀ f, s.step (.write i f) = (.found none, s) := by
  intro s
  have hempty : (empty : Slab α).WellFormed := wellFormed_empty
  have h : s.WellFormed := hempty.run ops
  refine ⟨?_, h.free_nodup, h.mem_free_iff, h.size_eq, h.size_add_length_free, fun a => ?_,
    fun i a hi => ?_, fun i hi => ?_⟩
  · rw [← pool_empty]
    exact hempty.pool_run ops
  · rw [fst_insert]
    exact ⟨rfl, h.get?_nextSlot, h.get?_insert a⟩
  · rw [fst_remove, free_remove, hi]
    exact ⟨rfl, rfl, s.get?_remove i⟩
  · have hvacant : s.get? i = none := hi.elim (fun hfree => ((h.mem_free_iff i).1 hfree).2) get?_of_le
    refine ⟨?_, ?_, fun f => ?_⟩
    · rw [step, remove_of_vacant hvacant]
      rfl
    · rw [step, hvacant]
    · rw [step, hvacant, modify_of_vacant hvacant]

/-- Two slots freed, one of them twice, and a slot that never was. -/
theorem run_eq_pool_reuse :
    let s := ((empty : Slab Nat).run
      [.insert 10, .insert 20, .insert 30, .remove 0, .remove 0, .remove 2, .remove 9]).2
    s.get? 1 = some 20 ∧ (s.remove 1).2.free = [1, 2, 0] ∧ (s.insert 40).1 = 2 ∧
      (0 ∈ s.free ∧ s.step (.remove 0) = (.found none, s)) ∧
      (s.slotCount ≤ 9 ∧ s.step (.get 9) = (.found none, s)) := by
  intro s
  obtain ⟨-, -, -, -, -, hinsert, hremove, hvacant⟩ := run_eq_pool (α := Nat)
    [.insert 10, .insert 20, .insert 30, .remove 0, .remove 0, .remove 2, .remove 9]
  have hheld : s.get? 1 = some 20 := by decide
  have hfree : 0 ∈ s.free := by decide
  have hpast : s.slotCount ≤ 9 := by decide
  exact ⟨hheld, (hremove 1 20 hheld).2.1, (hinsert 40).1, ⟨hfree, (hvacant 0 (.inl hfree)).1⟩,
    hpast, (hvacant 9 (.inr hpast)).2.1⟩

end Slab
end BoundedCache
