import BoundedCache.Proofs.Engine.Soundness
import BoundedCache.Proofs.Lru.Recency

/-! # The order in which an engine keeps its entries

A least frequently used engine has an order for every frequency, a least recently used one has one
order only.
-/
namespace BoundedCache

/-- The entries of a frequency, in the order in which the links lead through its bucket. -/
def Lfu.bucket? {K V : Type} [DecidableEq K] (e : Lfu K V) (f : Nat) : Option (List (Entry K V)) :=
  match e.bucketFrom f (e.ranking.nodes.slotCount + 1) [] none
      ((e.ranking.buckets.get? f).bind Bucket.head?) with
  | .ok (slots, _) => some (slots.filterMap e.ranking.entryAt?)
  | .error _ => none

theorem Lfu.Inv.bucket?_eq {K V : Type} [DecidableEq K] {e : Lfu K V} {slots : Nat → List Nat}
    (h : Lfu.Inv e slots) (f : Nat) :
    e.bucket? f = some ((slots f).filterMap e.ranking.entryAt?) := by
  obtain ⟨fs, hchecked⟩ := h.checked
  have hfiled := h.ranked.filed
  have hfuel : (slots f).length ≤ e.ranking.nodes.slotCount + 1 :=
    Nat.le_succ_of_le (Slab.length_le_slotCount (hfiled.nodup f) fun _ => hfiled.isSome_get?)
  have hwalk := hchecked.bucketFrom_eq [] (slots f) rfl [] (fun _ _ => List.not_mem_nil) hfuel
  rw [List.getLast?_nil, ← hfiled.head?_eq] at hwalk
  rw [bucket?, hwalk]

namespace Engine
open Lfu.Ranking
variable {K V : Type} [DecidableEq K] {e : Engine K V} {gone : Nat → Bool} {i f : Nat}
  {slots : Nat → List Nat} {a : Entry K V}

/-- The entries of a frequency in their order, or all entries from the most to the least recently
used. -/
def order? : Engine K V → Nat → Option (List (Entry K V))
  | lru e, _ => e.keys?.map fun ks => ks.filterMap (lru e).find?
  | lfu e, f => e.bucket? f

/-- The engine is sound, with these slots in the order of each frequency. -/
def Ordered : Engine K V → (Nat → List Nat) → Prop
  | lru e, slots => ∀ f, Lru.Inv e (slots f)
  | lfu e, slots => Lfu.Inv e slots

/-- The slots of every frequency but those that are gone. -/
def remaining (gone : Nat → Bool) (slots : Nat → List Nat) (f : Nat) : List Nat :=
  (slots f).filter fun i => !gone i

theorem mem_remaining : i ∈ remaining gone slots f ↔ i ∈ slots f ∧ gone i = false := by
  rw [remaining, List.mem_filter, Bool.not_eq_true']

theorem remaining_none (slots : Nat → List Nat) : remaining (fun _ => false) slots = slots := by
  funext f
  exact List.filter_eq_self.2 fun _ _ => rfl

theorem remaining_remaining (gone gone' : Nat → Bool) (slots : Nat → List Nat) :
    remaining gone' (remaining gone slots) = remaining (fun i => gone i || gone' i) slots := by
  funext f
  simp only [remaining, List.filter_filter, Bool.not_or, Bool.and_comm]

theorem remaining_dropped (gone : Nat → Bool) (slots : Nat → List Nat) (i : Nat) :
    remaining gone (dropped slots i) = dropped (remaining gone slots) i := by
  funext f
  exact List.filter_comm ..

/-- A slot that is gone need not be dropped. -/
theorem remaining_dropped_of_gone (hg : gone i = true) (slots : Nat → List Nat) :
    remaining gone (dropped slots i) = remaining gone slots := by
  rw [remaining_dropped]
  funext f
  apply dropped_of_notMem
  rw [mem_remaining, hg]
  simp

theorem remaining_appended (hg : gone i = false) (slots : Nat → List Nat) (f : Nat) :
    remaining gone (appended slots f i) = appended (remaining gone slots) f i := by
  funext g
  unfold remaining appended
  split
  · rw [List.filter_append, List.filter_cons_of_pos (by simp [hg]), List.filter_nil]
  · rfl

theorem Sound.exists_ordered (h : e.Sound) : ∃ slots, e.Ordered slots := by
  cases e with
  | lru e =>
    obtain ⟨is, h⟩ := h
    exact ⟨fun _ => is, fun _ => h⟩
  | lfu e => exact h

namespace Ordered

theorem sound (h : e.Ordered slots) : e.Sound := by
  cases e with
  | lru e => exact ⟨slots 0, h 0⟩
  | lfu e => exact ⟨slots, h⟩

theorem order?_eq (h : e.Ordered slots) (f : Nat) :
    e.order? f = some ((slots f).filterMap e.entryAt?) := by
  cases e with
  | lru e =>
    have hmirrors : Lru.Mirrors e ⟨(slots f).filterMap (lru e).entryAt?, e.capacity⟩ (slots f) :=
      ⟨h f, rfl, rfl⟩
    rw [order?, hmirrors.keys?_eq, Option.map_some, List.map_filterMap, List.filterMap_filterMap,
      Option.some.injEq]
    apply List.filterMap_congr
    intro i hi
    obtain ⟨a, ha⟩ := (h f).exists_entry hi
    have hkey : (lru e).table.get? a.key = some i := (h f).tracks.get?_key ha
    rw [entryAt?, ha, Option.map_some, Option.bind_some, find?, hkey, Option.bind_some]
    exact ha
  | lfu e => exact h.bucket?_eq f

theorem without (h : e.Ordered slots) (hi : e.entryAt? i = some a) :
    (e.without i a).Ordered (dropped slots i) := by
  cases e with
  | lru e => exact fun f => (h f).without hi
  | lfu e => exact Lfu.Inv.without h hi

/-- A batch leaves the order of the entries that stay alone. -/
theorem sweep (h : e.Ordered slots) (cursor budget : Nat) (now : Instant) :
    (e.sweep cursor budget now).2.Ordered
      (remaining (Sweep.doomed e.entryAt? now (Sweep.covers cursor budget)) slots) := by
  cases e with
  | lru e => exact fun f => ((h f).sweep cursor budget now).inv
  | lfu e => exact (Lfu.Inv.sweep h cursor budget now).inv

end Ordered
end Engine
end BoundedCache
