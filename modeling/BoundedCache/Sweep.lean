import BoundedCache.Word
import BoundedCache.Slab

/-! # Sweeping storage slots in batches

A batch visits the slots of one range and tells where the next batch goes on; a pass follows
these cursors to the end.
-/
namespace BoundedCache

/-- What a batch did: how many entries it removed, and the slot to go on from, if any is left. -/
structure SweepProgress where
  removed : Nat
  next? : Option Nat
deriving DecidableEq

namespace Sweep
variable {σ : Type}

/-- Where a batch of a budget of slots ends. -/
def stop (cursor budget slotCount : Nat) : Nat := min (Word.saturatingAdd cursor budget) slotCount

/-- The slots from one up to another. -/
def slots (start stop : Nat) : List Nat := List.range' start (stop - start)

/-- Visits slots one after another and counts those that gave up an entry. -/
def visit (reclaim : Nat → σ → Bool × σ) : List Nat → σ → Nat × σ
  | [], state => (0, state)
  | i :: rest, state =>
    let (gone, state) := reclaim i state
    let (count, state) := visit reclaim rest state
    (gone.toNat + count, state)

/-- Batch after batch, each from the cursor that the one before gave, for as many batches as the
fuel allows; the total of the removed entries. -/
def pass (batch : Nat → σ → SweepProgress × σ) : Nat → Nat → σ → Nat × σ
  | 0, _, state => (0, state)
  | fuel + 1, cursor, state =>
    let (progress, state) := batch cursor state
    match progress.next? with
    | some next =>
      let (more, state) := pass batch fuel next state
      (progress.removed + more, state)
    | none => (progress.removed, state)

theorem mem_slots {start stop i : Nat} : i ∈ slots start stop ↔ start ≤ i ∧ i < stop := by
  simp only [slots, List.mem_range'_1]
  omega

theorem slots_append {a b c : Nat} (hab : a ≤ b) (hbc : b ≤ c) :
    slots a b ++ slots b c = slots a c := by
  have hb : b = a + (b - a) := by omega
  have hc : c - a = (b - a) + (c - b) := by omega
  simp only [slots, hc]
  rw [List.range'_append_1.symm]
  simp [← hb]

theorem visit_append (reclaim : Nat → σ → Bool × σ) (xs ys : List Nat) (state : σ) :
    visit reclaim (xs ++ ys) state =
      ((visit reclaim xs state).1 + (visit reclaim ys (visit reclaim xs state).2).1,
        (visit reclaim ys (visit reclaim xs state).2).2) := by
  induction xs generalizing state with
  | nil => simp [visit]
  | cons i rest ih => simp [visit, ih, Nat.add_assoc]

end Sweep
end BoundedCache
