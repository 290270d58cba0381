import BoundedCache.Proofs.Lfu.Invariant
import BoundedCache.Proofs.Visits

/-! # What each operation does to a least frequently used engine -/
namespace BoundedCache.Lfu
open Ranking
variable {K V : Type} [DecidableEq K] {e : Lfu K V} {i f : Nat} {slots : Nat → List Nat}
  {a : Entry K V} {k : K} {now : Instant}

theorem detach_eq (hi : e.ranking.entryAt? i = some a) : e.detach i = (some a, e.without i a) := by
  have hfst := (e.ranking.fst_remove i).trans hi
  rw [detach]
  split
  · rename_i b r hremove
    rw [hremove] at hfst
    cases hfst
    rw [without, hremove]
  · rename_i r hremove
    rw [hremove] at hfst
    cases hfst

/-! ## Reads -/

theorem get_absent (hk : e.table.get? k = none) : e.get k now = (.error .absent, e) := by
  rw [Lfu.get, hk]

theorem get_expired (hk : e.table.get? k = some i) (hi : e.ranking.entryAt? i = some a)
    (hx : a.isExpired now = true) : e.get k now = (.error .expired, e.without i a) := by
  rw [Lfu.get, hk]
  simp only [hi]
  rw [if_pos hx, detach_eq hi]

theorem get_live (hk : e.table.get? k = some i) (hi : e.ranking.entryAt? i = some a)
    (hx : a.isExpired now = false) :
    e.get k now = (.ok a.value, { e with ranking := e.ranking.touch i }) := by
  have htouched := (e.ranking.entryAt?_touch i i).trans hi
  rw [Lfu.get, hk]
  simp only [hi]
  rw [if_neg (by simp [hx])]
  simp only [htouched]

/-! ## Writes -/

theorem put_zero (h : e.capacity = 0) (k : K) (v : V) (ttl : Duration) (now : Instant) :
    e.put k v ttl now = e := by
  rw [put, if_pos h]

theorem put_tracked (hk : e.table.get? k = some i) (hc : e.capacity ≠ 0) (v : V) (ttl : Duration)
    (now : Instant) :
    e.put k v ttl now = { e with ranking := (e.ranking.setValue i v).touch i } := by
  rw [put, if_neg hc, hk]

/-- The engine after making room for one more entry. -/
def roomy (e : Lfu K V) : Lfu K V := if e.capacity ≤ e.size then e.evict else e

theorem put_new (hk : e.table.get? k = none) (hc : e.capacity ≠ 0) (v : V) (ttl : Duration)
    (now : Instant) :
    e.put k v ttl now =
      (roomy e).withNew { key := k, value := v, createdAt := now, ttl := ttl } := by
  rw [put, if_neg hc, hk]
  have hfst := (roomy e).ranking.fst_insert { key := k, value := v, createdAt := now, ttl := ttl }
  rw [withNew, ← hfst]
  rfl

/-- A full engine drops the first slot of the lowest frequency, and another one nothing, whatever the
table says. -/
theorem Ranking.Intact.roomy_cases (h : Intact e.ranking e.capacity slots) (hc : e.capacity ≠ 0) :
    e.size < e.capacity ∧ roomy e = e ∨
      e.capacity ≤ e.size ∧ ∃ i a, (slots e.ranking.minFreq).head? = some i ∧
        e.ranking.entryAt? i = some a ∧ roomy e = e.without i a := by
  rcases Nat.lt_or_ge e.size e.capacity with hlt | hge
  · exact .inl ⟨hlt, if_neg (Nat.not_le.2 hlt)⟩
  · refine .inr ⟨hge, ?_⟩
    have hpos : e.ranking.nodes.held ≠ [] := by
      intro hnil
      have hsize : e.size = 0 := by rw [size, ← h.wellFormed.length_held, hnil]; rfl
      omega
    obtain ⟨j, hj⟩ := List.exists_mem_of_ne_nil _ hpos
    obtain ⟨g, hg⟩ := (h.mem_iff j).2 (by
      rw [Ranking.entryAt?, Option.isSome_map]
      exact Slab.mem_held.1 hj)
    have hne := h.ranked.slots_minFreq (List.ne_nil_of_mem hg)
    obtain ⟨i, rest, hi⟩ := List.exists_cons_of_ne_nil hne
    obtain ⟨a, ha⟩ := h.exists_entry (i := i) (f := e.ranking.minFreq) (by simp [hi])
    refine ⟨i, a, by rw [hi]; rfl, ha, ?_⟩
    rw [roomy, if_pos hge, evict, h.ranked.first?_eq, hi]
    simp only [List.head?_cons, detach_eq ha]

namespace Inv

theorem roomy_cases (h : Inv e slots) (hc : e.capacity ≠ 0) :
    e.size < e.capacity ∧ roomy e = e ∨
      e.capacity ≤ e.size ∧ ∃ i a, (slots e.ranking.minFreq).head? = some i ∧
        e.ranking.entryAt? i = some a ∧ roomy e = e.without i a :=
  h.intact.roomy_cases hc

/-- Making room drops a part of the entries, and leaves room. -/
theorem roomy_spec (h : Inv e slots) (hc : e.capacity ≠ 0) :
    (∃ slots', Inv (roomy e) slots') ∧ (roomy e).capacity = e.capacity ∧
      (roomy e).size < e.capacity ∧
      (roomy e).ranking.nodes.slotCount = e.ranking.nodes.slotCount ∧
      ∀ j b, (roomy e).ranking.entryAt? j = some b → e.ranking.entryAt? j = some b := by
  rcases h.roomy_cases hc with ⟨hlt, heq⟩ | ⟨-, i, a, -, ha, heq⟩
  · rw [heq]
    exact ⟨⟨slots, h⟩, rfl, hlt, rfl, fun _ _ => id⟩
  · rw [heq]
    have hsize := h.size_without ha
    have hle := h.size_le
    refine ⟨⟨_, h.without ha⟩, rfl, by omega, slotCount_remove .., fun j b hj => ?_⟩
    rw [Lfu.without, entryAt?_remove] at hj
    split at hj
    · cases hj
    · exact hj

theorem roomy_absent (h : Inv e slots) (hc : e.capacity ≠ 0) (hk : e.table.get? k = none) :
    (roomy e).table.get? k = none := by
  obtain ⟨⟨slots', hinv⟩, -, -, -, hentry⟩ := h.roomy_spec hc
  cases hget : (roomy e).table.get? k with
  | none => rfl
  | some j =>
    obtain ⟨a, ha, hka⟩ := hinv.tracks.exists_entry hget
    exact absurd hka (h.tracks.eq_none hk (hentry j a ha))

end Inv

/-! ## Removals -/

theorem remove_absent (hk : e.table.get? k = none) : e.remove k = (none, e) := by
  rw [Lfu.remove, hk]

theorem remove_tracked (hk : e.table.get? k = some i) (hi : e.ranking.entryAt? i = some a) :
    e.remove k = (some a.value, e.without i a) := by
  rw [Lfu.remove, hk]
  simp only [detach_eq hi]
  rfl

/-! ## Sweeps -/

theorem reclaim_expired (hi : e.ranking.entryAt? i = some a) (hx : a.isExpired now = true) :
    e.reclaim now i = (true, e.without i a) := by
  simp only [reclaim, hi]
  rw [if_pos hx, detach_eq hi]
  rfl

theorem reclaim_live (hi : ∀ a, e.ranking.entryAt? i = some a → a.isExpired now = false) :
    e.reclaim now i = (false, e) := by
  rw [reclaim]
  split
  · rename_i a ha
    rw [if_neg (by simp [hi a ha])]
  · rfl

/-- An engine without the entries in some slots, so many of them. -/
structure Purged (e : Lfu K V) (slots : Nat → List Nat) (gone : Nat → Bool) (removed : Nat)
    (e' : Lfu K V) : Prop where
  inv : Inv e' fun f => (slots f).filter fun i => !gone i
  entryAt?_eq : ∀ j, e'.ranking.entryAt? j = if gone j then none else e.ranking.entryAt? j
  capacity_eq : e'.capacity = e.capacity
  slotCount_eq : e'.ranking.nodes.slotCount = e.ranking.nodes.slotCount
  size_eq : removed + e'.size = e.size

theorem Purged.without {gone : Nat → Bool} {n : Nat} {e' : Lfu K V}
    (h : Purged e slots gone n e') (hi : e'.ranking.entryAt? i = some a) :
    Purged e slots (fun j => gone j || decide (j = i)) (n + 1) (e'.without i a) := by
  refine ⟨?_, fun j => ?_, h.capacity_eq, (slotCount_remove ..).trans h.slotCount_eq, ?_⟩
  · have hinv := h.inv.without hi
    unfold dropped at hinv
    simpa only [List.filter_filter, Bool.not_or, decide_not, Bool.and_comm] using hinv
  · rw [Lfu.without, entryAt?_remove, h.entryAt?_eq]
    by_cases hj : i = j
    · simp [hj]
    · simp [hj, Ne.symm hj]
  · have hsize := h.inv.size_without hi
    have hold := h.size_eq
    omega

omit [DecidableEq K] in
theorem lt_slotCount (hi : e.ranking.entryAt? i = some a) : i < e.ranking.nodes.slotCount := by
  rw [Ranking.entryAt?, Option.map_eq_some_iff] at hi
  obtain ⟨node, hnode, -⟩ := hi
  exact Slab.lt_slotCount_of_get? hnode

/-- The batches of a pass that removes every expired entry. -/
def purgeBatch (now : Instant) (cursor : Nat) (e : Lfu K V) : SweepProgress × Lfu K V :=
  e.sweep cursor Word.max now

theorem purge_eq (e : Lfu K V) (now : Instant) :
    e.purge now = Sweep.pass (purgeBatch now) (e.ranking.nodes.slotCount + 1) 0 e := rfl

namespace Inv

theorem visit (h : Inv e slots) (now : Instant) (is : List Nat) :
    Purged e slots (Sweep.doomed e.ranking.entryAt? now (is.contains ·))
      (Sweep.visit (reclaim now) is e).1 (Sweep.visit (reclaim now) is e).2 := by
  refine Sweep.visit_removes (reclaim now) (fun e => e.ranking.entryAt?) now
    (motive := Purged e slots) (fun _ _ _ hgone => hgone.entryAt?_eq) ?_ (fun _ _ => reclaim_live)
    ?_ is
  · intro gone n e' i a hgone hi hx
    rw [reclaim_expired hi hx]
    exact ⟨rfl, hgone.without hi⟩
  · exact ⟨by simpa using h, fun _ => rfl, rfl, rfl, Nat.zero_add _⟩

/-- A batch removes the expired entries in the slots from its cursor on that its budget covers. -/
theorem sweep (h : Inv e slots) (cursor budget : Nat) (now : Instant) :
    Purged e slots (Sweep.doomed e.ranking.entryAt? now (Sweep.covers cursor budget))
      (e.sweep cursor budget now).1.removed (e.sweep cursor budget now).2 := by
  have hslots := Sweep.doomed_slots e.ranking.entryAt? now budget e.ranking.nodes.slotCount
    (Nat.le_refl cursor) fun i a hi => ⟨Nat.le_max_left .., lt_slotCount hi⟩
  exact hslots ▸ h.visit now _

/-- A pass over an arena that words can count removes every expired entry. -/
theorem purge (h : Inv e slots) (hcount : e.ranking.nodes.slotCount ≤ Word.max) (now : Instant) :
    Purged e slots (Sweep.doomed e.ranking.entryAt? now fun _ => true)
      (e.purge now).1 (e.purge now).2 := by
  have hnext : (e.sweep 0 Word.max now).1.next? = none := by
    simp only [Lfu.sweep, Sweep.stop_max hcount, Nat.lt_irrefl, if_false]
  have hpurge : e.purge now =
      ((e.sweep 0 Word.max now).1.removed, (e.sweep 0 Word.max now).2) := by
    rw [purge_eq]
    exact Sweep.pass_of_next?_eq_none (purgeBatch now) hnext _
  have hgone := Sweep.doomed_covers_max e.ranking.entryAt? now fun i a hi =>
    Nat.lt_of_lt_of_le (lt_slotCount hi) hcount
  rw [hpurge, ← hgone]
  exact h.sweep 0 Word.max now

end Inv

end BoundedCache.Lfu
