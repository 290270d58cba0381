import BoundedCache.Engine.Run
import BoundedCache.Proofs.Batches
import BoundedCache.Proofs.Lfu.Operations
import BoundedCache.Proofs.Lru.Operations

/-! # A pass of an engine does not depend on its batches -/
namespace BoundedCache

namespace Lru
variable {K V : Type} [DecidableEq K]

theorem slotCount_detach (e : Lru K V) (i : Nat) :
    (e.detach i).2.queue.slotCount = e.queue.slotCount := by
  rw [detach]
  split
  · rfl
  · simp only
    split <;> simp only [Slab.slotCount_remove, (Queue.SameContents.unlink e.queue i).slotCount]

theorem slotCount_reclaim (now : Instant) (i : Nat) (e : Lru K V) :
    (reclaim now i e).2.queue.slotCount = e.queue.slotCount := by
  rw [reclaim]
  split
  · split
    · exact slotCount_detach e i
    · rfl
  · rfl

/-- The sentinels are the slots that no batch visits. -/
theorem sweep_eq_batch (now : Instant) :
    (fun budget cursor (e : Lru K V) => e.sweep cursor budget now) =
      Sweep.batch (reclaim now) sentinels fun e => e.queue.slotCount := rfl

/-- Batches of any budgets end, and visit every slot but the sentinels. -/
theorem chain_sweep (e : Lru K V) (now : Instant) (fits : e.queue.slotCount ≤ Word.max)
    {budgets : List Nat} (pos : ∀ b ∈ budgets, 1 ≤ b)
    (enough : e.queue.slotCount < budgets.length) :
    Sweep.chain (fun budget cursor (e : Lru K V) => e.sweep cursor budget now) 0 e budgets =
      some (Sweep.visit (reclaim now) (Sweep.slots sentinels e.queue.slotCount) e) := by
  rw [sweep_eq_batch]
  exact Sweep.chain_batch (reclaim now) sentinels _ (slotCount_reclaim now) 0 e fits
    (Nat.zero_le _) pos (by omega)

theorem sweepAll_eq_visit (e : Lru K V) (now : Instant) (fits : e.queue.slotCount ≤ Word.max)
    {budget : Nat} (pos : 1 ≤ budget) :
    e.sweepAll budget now =
      Sweep.visit (reclaim now) (Sweep.slots sentinels e.queue.slotCount) e := by
  have hpass := Sweep.pass_batch (reclaim now) sentinels (fun e : Lru K V => e.queue.slotCount)
    (slotCount_reclaim now) e fits pos
  rw [← sweep_eq_batch] at hpass
  exact hpass

end Lru

namespace Lfu
variable {K V : Type} [DecidableEq K]

theorem slotCount_detach (e : Lfu K V) (i : Nat) :
    (e.detach i).2.ranking.nodes.slotCount = e.ranking.nodes.slotCount := by
  have hremove := e.ranking.slotCount_remove i
  rw [detach]
  split <;> simp_all

theorem slotCount_reclaim (now : Instant) (i : Nat) (e : Lfu K V) :
    (reclaim now i e).2.ranking.nodes.slotCount = e.ranking.nodes.slotCount := by
  rw [reclaim]
  split
  · split
    · exact slotCount_detach e i
    · rfl
  · rfl

theorem sweep_eq_batch (now : Instant) :
    (fun budget cursor (e : Lfu K V) => e.sweep cursor budget now) =
      Sweep.batch (reclaim now) 0 fun e => e.ranking.nodes.slotCount := by
  funext budget cursor e
  rw [Sweep.batch, Nat.max_zero]
  rfl

/-- Batches of any budgets end, and visit every slot. -/
theorem chain_sweep (e : Lfu K V) (now : Instant) (fits : e.ranking.nodes.slotCount ≤ Word.max)
    {budgets : List Nat} (pos : ∀ b ∈ budgets, 1 ≤ b)
    (enough : e.ranking.nodes.slotCount < budgets.length) :
    Sweep.chain (fun budget cursor (e : Lfu K V) => e.sweep cursor budget now) 0 e budgets =
      some (Sweep.visit (reclaim now) (Sweep.slots 0 e.ranking.nodes.slotCount) e) := by
  rw [sweep_eq_batch]
  exact Sweep.chain_batch (reclaim now) 0 _ (slotCount_reclaim now) 0 e fits (Nat.zero_le _)
    pos (by omega)

theorem sweepAll_eq_visit (e : Lfu K V) (now : Instant)
    (fits : e.ranking.nodes.slotCount ≤ Word.max) {budget : Nat} (pos : 1 ≤ budget) :
    e.sweepAll budget now =
      Sweep.visit (reclaim now) (Sweep.slots 0 e.ranking.nodes.slotCount) e := by
  have hpass := Sweep.pass_batch (reclaim now) 0 (fun e : Lfu K V => e.ranking.nodes.slotCount)
    (slotCount_reclaim now) e fits pos
  rw [← sweep_eq_batch] at hpass
  exact hpass

end Lfu

namespace Engine
variable {K V : Type} [DecidableEq K]

/-- The batches of an engine at one instant, of any budget and from any cursor on. -/
def sweepAt (now : Instant) (budget cursor : Nat) (e : Engine K V) : SweepProgress × Engine K V :=
  e.sweep cursor budget now

theorem sweepAll_eq_pass (e : Engine K V) (budget : Nat) (now : Instant) :
    e.sweepAll budget now =
      Sweep.pass (fun cursor e => e.sweep cursor budget now) (e.slotCount + 1) 0 e := by
  cases e with
  | lru e =>
    exact (Sweep.pass_map lru (fun cursor e => e.sweep cursor budget now)
      (fun cursor e => e.sweep cursor budget now) (fun _ _ => rfl) (e.queue.slotCount + 1) 0 e).symm
  | lfu e =>
    exact (Sweep.pass_map lfu (fun cursor e => e.sweep cursor budget now)
      (fun cursor e => e.sweep cursor budget now) (fun _ _ => rfl)
      (e.ranking.nodes.slotCount + 1) 0 e).symm

theorem one_le_max : 1 ≤ Word.max := by decide

/-- Passes differ in nothing but where they stop in between. -/
theorem sweepAll_eq_purge (e : Engine K V) (now : Instant) (fits : e.slotCount ≤ Word.max)
    {budget : Nat} (pos : 1 ≤ budget) : e.sweepAll budget now = e.purge now := by
  cases e with
  | lru e =>
    rw [sweepAll, purge, Lru.purge, e.sweepAll_eq_visit now fits pos,
      e.sweepAll_eq_visit now fits one_le_max]
  | lfu e =>
    rw [sweepAll, purge, Lfu.purge, e.sweepAll_eq_visit now fits pos,
      e.sweepAll_eq_visit now fits one_le_max]

/-- Batches of any budgets end, and remove and leave what one pass does. -/
theorem chain_sweepAt (e : Engine K V) (now : Instant) (fits : e.slotCount ≤ Word.max)
    {budgets : List Nat} (pos : ∀ b ∈ budgets, 1 ≤ b) (enough : e.slotCount < budgets.length) :
    Sweep.chain (sweepAt now) 0 e budgets = some (e.purge now) := by
  cases e with
  | lru e =>
    rw [Sweep.chain_map lru (fun budget cursor (e : Lru K V) => e.sweep cursor budget now)
      (fun _ _ _ => rfl), e.chain_sweep now fits pos enough, purge, Lru.purge,
      e.sweepAll_eq_visit now fits one_le_max]
    rfl
  | lfu e =>
    rw [Sweep.chain_map lfu (fun budget cursor (e : Lfu K V) => e.sweep cursor budget now)
      (fun _ _ _ => rfl), e.chain_sweep now fits pos enough, purge, Lfu.purge,
      e.sweepAll_eq_visit now fits one_le_max]
    rfl

end Engine
end BoundedCache
