import BoundedCache.Proofs.Engine.Order

/-! # A batch takes what has expired in its range and nothing else

A batch removes entries from linked slots while it counts through them. What it leaves is told by the
slots that it visits: an entry goes if its slot is among them and it has expired, and all others stay
where they are, in the order in which they were.
-/
namespace BoundedCache.Engine
open Lfu.Ranking
variable {K V : Type} [DecidableEq K] {e e' : Engine K V} {gone : Nat → Bool}
  {slots : Nat → List Nat} {a : Entry K V} {i : Nat}

/-- Whether a batch takes the entry in a slot: the slot lies between the cursor and the slot where the
batch stops, and the entry has expired. -/
def takes (e : Engine K V) (cursor budget : Nat) (now : Instant) (i : Nat) : Bool :=
  let stop := min (Word.saturatingAdd cursor budget) e.slotCount
  decide (cursor ≤ i ∧ i < stop) && (e.entryAt? i).any fun a => a.isExpired now

omit [DecidableEq K] in
/-- Every slot that a batch covers lies before the one where it stops, if it holds an entry. -/
theorem takes_eq_doomed (e : Engine K V) (cursor budget : Nat) (now : Instant) :
    e.takes cursor budget now = Sweep.doomed e.entryAt? now (Sweep.covers cursor budget) := by
  funext i
  cases hi : e.entryAt? i with
  | none => rw [takes, Sweep.doomed_of_eq_none hi, hi, Option.any_none, Bool.and_false]
  | some a =>
    have hlt := lt_slotCount hi
    rw [takes, Sweep.doomed, Sweep.covers, ← Bool.decide_and]
    simp only [Nat.lt_min, hlt, and_true]

namespace Swept

theorem contains_key (hswept : Swept e gone e') (h : e.Sound) (hi : e.entryAt? i = some a) :
    e'.contains a.key = !gone i := by
  rw [contains_eq_isSome, hswept.table_eq h, h.tracks.get?_key hi, Option.filter_some]
  cases gone i <;> rfl

/-- As many keys are gone as the engine has become smaller. -/
theorem countP_add_size (hswept : Swept e gone e') (h : e.Sound) :
    (e.table.entries.countP fun u => gone u.2) + e'.size = e.size := by
  have hsame : ∀ k, (e'.table.get? k).isSome =
      ((e.table.filter fun _ i => !gone i).get? k).isSome := by
    intro k
    congr 1
    apply Option.ext
    intro i
    rw [hswept.table_eq h, Option.filter_eq_some_iff, Dict.get?_filter_eq_some_iff]
  have hsplit := e.table.countP_add_size_filter fun _ i => gone i
  rw [← Dict.size_congr hsame, hswept.sound.table_size_eq, h.table_size_eq] at hsplit
  exact hsplit

/-- The entries that are left stand in the order in which they stood. -/
theorem order?_eq (hswept : Swept e gone e') (h : e.Ordered slots)
    (h' : e'.Ordered (remaining gone slots)) (f : Nat) :
    e'.order? f = (e.order? f).map fun as => as.filter fun a => e'.contains a.key := by
  rw [h.order?_eq, h'.order?_eq, Option.map_some, remaining, List.filter_filterMap,
    List.filterMap_filter]
  congr 1
  apply List.filterMap_congr
  intro i _
  rw [hswept.entryAt?_eq]
  cases hi : e.entryAt? i with
  | none => cases gone i <;> rfl
  | some a =>
    rw [Option.filter_some, hswept.contains_key h.sound hi]
    cases gone i <;> rfl

end Swept

/-- A batch on the engine that a run leaves, from any cursor and with any budget: it removes exactly
the expired entries in its slots and tells how many they are, and where the next batch goes on. All
other entries stay as they are, in their slots and in their order, and the check finds no fault. -/
theorem run_batch (policy : Policy) (capacity : Nat) (requests : List (Request K V))
    (cursor budget : Nat) (now : Instant) :
    let e : Engine K V := ((new policy capacity).run requests).2
    let gone := e.takes cursor budget now
    let stop := min (Word.saturatingAdd cursor budget) e.slotCount
    let progress := (e.sweep cursor budget now).1
    let e' := (e.sweep cursor budget now).2
    progress.removed = (e.table.entries.countP fun u => gone u.2) ∧
      progress.next? = (if stop < e.slotCount then some stop else none) ∧
      (∀ i, e'.entryAt? i = if gone i then none else e.entryAt? i) ∧
      (∀ k, e'.table.get? k = (e.table.get? k).filter fun i => !gone i) ∧
      (∀ f, ∃ as, e.order? f = some as ∧
        e'.order? f = some (as.filter fun a => e'.contains a.key)) ∧
      e'.slotCount = e.slotCount ∧ e'.check = .ok () := by
  intro e gone stop progress e'
  have hgone : gone = Sweep.doomed e.entryAt? now (Sweep.covers cursor budget) :=
    e.takes_eq_doomed cursor budget now
  have h : e.Sound := ((Sound.new policy capacity).steady_run requests).sound
  obtain ⟨slots, hordered⟩ := h.exists_ordered
  have hswept : Swept e gone e' := hgone ▸ h.sweep cursor budget now
  have hleft : e'.Ordered (remaining gone slots) := hgone ▸ hordered.sweep cursor budget now
  refine ⟨?_, e.next?_sweep_stop cursor budget now, hswept.entryAt?_eq, hswept.table_eq h,
    fun f => ?_, hswept.slotCount_eq, hswept.sound.check_eq⟩
  · have hremoved : progress.removed + e'.size = e.size := h.removed_add_size_sweep cursor budget now
    have hcount := hswept.countP_add_size h
    omega
  · refine ⟨_, hordered.order?_eq f, ?_⟩
    rw [hswept.order?_eq hordered hleft, hordered.order?_eq, Option.map_some]

end BoundedCache.Engine
