import BoundedCache.Proofs.Lru.Invariant
import BoundedCache.Proofs.Visits

/-! # What each operation does to a least recently used engine -/
namespace BoundedCache.Lru
open Queue Links
variable {K V : Type} [DecidableEq K] {e : Lru K V} {i : Nat} {is : List Nat} {a : Entry K V} {k : K}
  {now : Instant}

theorem detach_eq (hi : entryAt? e.queue i = some a) (inner : sentinels ≤ i) :
    e.detach i = (some a, e.without i a) := by
  have hcontent : ((unlink e.queue i).remove i).1.bind Node.content = some a := by
    rw [Slab.fst_remove]
    exact ((SameContents.unlink e.queue i).entryAt? i).trans hi
  rw [detach, if_neg (Nat.not_lt.2 inner)]
  simp only [hcontent]
  rfl

namespace Inv

theorem detach (h : Inv e is) (hi : entryAt? e.queue i = some a) :
    e.detach i = (some a, e.without i a) :=
  detach_eq hi (h.linked.inner i (h.mem_of_entryAt? hi))

theorem evict_concat (h : Inv e (is ++ [i])) (hi : entryAt? e.queue i = some a) :
    e.evict = e.without i a := by
  have hne : i ≠ head := by
    have hle := h.linked.inner i (by simp)
    rintro rfl
    exact absurd hle (by decide)
  rw [evict, h.linked.prev?_tail]
  simp [hne, h.detach hi]

/-! ## Reads -/

theorem get_absent (hk : e.table.get? k = none) : e.get k now = (.error .absent, e) := by
  rw [Lru.get, hk]

theorem get_expired (h : Inv e is) (hk : e.table.get? k = some i)
    (hi : entryAt? e.queue i = some a) (hx : a.isExpired now = true) :
    e.get k now = (.error .expired, e.without i a) := by
  rw [Lru.get, hk]
  simp only [hi]
  rw [if_pos hx, h.detach hi]

theorem get_live (hk : e.table.get? k = some i) (hi : entryAt? e.queue i = some a)
    (hx : a.isExpired now = false) :
    e.get k now = (.ok a.value, { e with queue := Queue.moveToFront e.queue i }) := by
  have hmoved := ((SameContents.moveToFront e.queue i).entryAt? i).trans hi
  rw [Lru.get, hk]
  simp only [hi]
  rw [if_neg (by simp [hx])]
  simp only [hmoved]

/-! ## Writes -/

theorem put_zero (h : e.capacity = 0) (k : K) (v : V) (ttl : Duration) (now : Instant) :
    e.put k v ttl now = e := by
  rw [put, if_pos h]

theorem put_tracked (hk : e.table.get? k = some i) (hc : e.capacity ≠ 0) (v : V) (ttl : Duration)
    (now : Instant) :
    e.put k v ttl now =
      { e with queue := Queue.moveToFront (Queue.setValue e.queue i v) i } := by
  rw [put, if_neg hc, hk]

/-- The engine after making room for one more entry. -/
def roomy (e : Lru K V) : Lru K V := if e.capacity ≤ e.size then e.evict else e

theorem put_new (hk : e.table.get? k = none) (hc : e.capacity ≠ 0) (v : V) (ttl : Duration)
    (now : Instant) :
    e.put k v ttl now =
      (roomy e).withNew { key := k, value := v, createdAt := now, ttl := ttl } := by
  rw [put, if_neg hc, hk]
  simp only [Slab.fst_insert]
  rfl

/-- The last slot goes if there are too many. -/
def kept (capacity : Nat) (is : List Nat) : List Nat :=
  if capacity ≤ is.length then is.dropLast else is

theorem length_kept_lt {capacity : Nat} (hc : capacity ≠ 0) (hle : is.length ≤ capacity) :
    (kept capacity is).length < capacity := by
  rw [kept]
  split
  · rw [List.length_dropLast]
    omega
  · omega

theorem roomy_spec (h : Inv e is) (hc : e.capacity ≠ 0) :
    Inv (roomy e) (kept e.capacity is) ∧ (roomy e).capacity = e.capacity ∧
      (roomy e).queue.slotCount = e.queue.slotCount ∧
      ∀ j, entryAt? (roomy e).queue j =
        if j ∈ kept e.capacity is then entryAt? e.queue j else none := by
  unfold roomy kept
  rw [h.size_eq]
  by_cases hfull : e.capacity ≤ is.length
  · rw [if_pos hfull, if_pos hfull]
    rcases List.eq_nil_or_concat is with rfl | ⟨xs, i, rfl⟩
    · exact absurd (Nat.le_zero.1 hfull) hc
    · rw [List.concat_eq_append] at h ⊢
      obtain ⟨a, ha⟩ := h.exists_entry (i := i) (by simp)
      have hxs : (xs ++ [i]).filter (· ≠ i) = xs := by
        simpa using filter_ne xs [] h.linked.nodup
      have hi : i ∉ xs := by simpa using (List.nodup_cons.1 (List.nodup_middle.1 h.linked.nodup)).1
      rw [h.evict_concat ha, List.dropLast_concat]
      refine ⟨hxs ▸ h.without ha, rfl, slotCount_without .., fun j => ?_⟩
      rw [entryAt?_without]
      by_cases hij : i = j
      · subst hij
        simp [hi]
      · rw [if_neg hij]
        split
        · rfl
        · rename_i hj
          have hnot : j ∉ xs ++ [i] := by simp [hj, Ne.symm hij]
          rw [h.mem_iff] at hnot
          simpa using hnot
  · rw [if_neg hfull, if_neg hfull]
    refine ⟨h, rfl, rfl, fun j => ?_⟩
    split
    · rfl
    · rename_i hj
      rw [h.mem_iff] at hj
      simpa using hj

theorem roomy_absent (h : Inv e is) (hc : e.capacity ≠ 0) (hk : e.table.get? k = none) :
    (roomy e).table.get? k = none := by
  obtain ⟨hinv, -, -, hentry⟩ := h.roomy_spec hc
  cases hget : (roomy e).table.get? k with
  | none => rfl
  | some j =>
    obtain ⟨a, ha, hka⟩ := hinv.tracks.exists_entry hget
    rw [hentry] at ha
    split at ha
    · exact absurd hka (h.tracks.eq_none hk ha)
    · cases ha

/-! ## Removals -/

theorem remove_absent (hk : e.table.get? k = none) : e.remove k = (none, e) := by
  rw [Lru.remove, hk]

theorem remove_tracked (h : Inv e is) (hk : e.table.get? k = some i)
    (hi : entryAt? e.queue i = some a) : e.remove k = (some a.value, e.without i a) := by
  rw [Lru.remove, hk]
  simp only [h.detach hi]
  rfl

/-! ## Sweeps -/

theorem size_without (h : Inv e is) (hi : entryAt? e.queue i = some a) :
    (e.without i a).size + 1 = e.size := by
  have hmem := h.mem_of_entryAt? hi
  rw [(h.without hi).size_eq, h.size_eq]
  obtain ⟨xs, ys, rfl⟩ := List.append_of_mem hmem
  rw [filter_ne xs ys h.linked.nodup]
  simp only [List.length_append, List.length_cons]
  omega

theorem reclaim_expired (h : Inv e is) (hi : entryAt? e.queue i = some a)
    (hx : a.isExpired now = true) : e.reclaim now i = (true, e.without i a) := by
  simp only [reclaim, hi]
  rw [if_pos hx, h.detach hi]
  rfl

theorem reclaim_live (hi : ∀ a, entryAt? e.queue i = some a → a.isExpired now = false) :
    e.reclaim now i = (false, e) := by
  rw [reclaim]
  split
  · rename_i a ha
    rw [if_neg (by simp [hi a ha])]
  · rfl

/-- An engine without the entries in some slots, so many of them. -/
structure Purged (e : Lru K V) (is : List Nat) (gone : Nat → Bool) (removed : Nat) (e' : Lru K V) :
    Prop where
  inv : Inv e' (is.filter fun i => !gone i)
  entryAt?_eq : ∀ j, entryAt? e'.queue j = if gone j then none else entryAt? e.queue j
  capacity_eq : e'.capacity = e.capacity
  slotCount_eq : e'.queue.slotCount = e.queue.slotCount
  size_eq : removed + e'.size = e.size

theorem Purged.without {gone : Nat → Bool} {n : Nat} {e' : Lru K V} (h : Purged e is gone n e')
    (hi : entryAt? e'.queue i = some a) :
    Purged e is (fun j => gone j || decide (j = i)) (n + 1) (e'.without i a) := by
  refine ⟨?_, fun j => ?_, h.capacity_eq, (slotCount_without ..).trans h.slotCount_eq, ?_⟩
  · have hinv := h.inv.without hi
    rw [List.filter_filter] at hinv
    simpa only [Bool.not_or, decide_not, Bool.and_comm] using hinv
  · rw [entryAt?_without, h.entryAt?_eq]
    by_cases hj : i = j
    · simp [hj]
    · simp [hj, Ne.symm hj]
  · have hsize := h.inv.size_without hi
    have hold := h.size_eq
    omega

theorem visit (h : Inv e is) (now : Instant) (slots : List Nat) :
    Purged e is (Sweep.doomed (entryAt? e.queue) now (slots.contains ·))
      (Sweep.visit (reclaim now) slots e).1 (Sweep.visit (reclaim now) slots e).2 := by
  refine Sweep.visit_removes (reclaim now) (fun e => entryAt? e.queue) now
    (motive := Purged e is) (fun _ _ _ hgone => hgone.entryAt?_eq) ?_ (fun _ _ => reclaim_live) ?_
    slots
  · intro gone n e' i a hgone hi hx
    rw [hgone.inv.reclaim_expired hi hx]
    exact ⟨rfl, hgone.without hi⟩
  · exact ⟨by simpa using h, fun _ => rfl, rfl, rfl, Nat.zero_add _⟩

omit [DecidableEq K] in
theorem lt_slotCount (hi : entryAt? e.queue i = some a) : i < e.queue.slotCount := by
  rw [entryAt?, Option.bind_eq_some_iff] at hi
  obtain ⟨node, hnode, -⟩ := hi
  exact Slab.lt_slotCount_of_get? hnode

/-- A batch removes the expired entries in the slots from its cursor on that its budget covers. -/
theorem sweep (h : Inv e is) (cursor budget : Nat) (now : Instant) :
    Purged e is (Sweep.doomed (entryAt? e.queue) now (Sweep.covers cursor budget))
      (e.sweep cursor budget now).1.removed (e.sweep cursor budget now).2 := by
  have hslots := Sweep.doomed_slots (entryAt? e.queue) now budget e.queue.slotCount
    (Nat.le_max_left cursor sentinels) fun i a hi => by
      have hinner := h.linked.inner i (h.mem_of_entryAt? hi)
      exact ⟨by omega, lt_slotCount hi⟩
  exact hslots ▸ h.visit now _

/-- The batches of a pass that removes every expired entry. -/
def purgeBatch (now : Instant) (cursor : Nat) (e : Lru K V) : SweepProgress × Lru K V :=
  e.sweep cursor Word.max now

theorem purge_eq (e : Lru K V) (now : Instant) :
    e.purge now = Sweep.pass (purgeBatch now) (e.queue.slotCount + 1) 0 e := rfl

/-- A pass over an arena that words can count removes every expired entry. -/
theorem purge (h : Inv e is) (hcount : e.queue.slotCount ≤ Word.max) (now : Instant) :
    Purged e is (Sweep.doomed (entryAt? e.queue) now fun _ => true)
      (e.purge now).1 (e.purge now).2 := by
  have hnext : (e.sweep 0 Word.max now).1.next? = none := by
    simp only [Lru.sweep, Sweep.stop_max hcount, Nat.lt_irrefl, if_false]
  have hpurge : e.purge now =
      ((e.sweep 0 Word.max now).1.removed, (e.sweep 0 Word.max now).2) := by
    rw [purge_eq]
    exact Sweep.pass_of_next?_eq_none (purgeBatch now) hnext _
  have hgone := Sweep.doomed_covers_max (entryAt? e.queue) now fun i a hi =>
    Nat.lt_of_lt_of_le (lt_slotCount hi) hcount
  rw [hpurge, ← hgone]
  exact h.sweep 0 Word.max now

end Inv

end BoundedCache.Lru
