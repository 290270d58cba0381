import BoundedCache.Lru.Check
import BoundedCache.Proofs.Engine.Changes

/-! # A sound engine passes its check -/
namespace BoundedCache.Lru
open Queue Links
variable {K V : Type} [DecidableEq K] {e : Lru K V} {is : List Nat}

/-- What the check looks for: the queue runs through slots with entries, the table leads to them, and
the sizes agree. -/
structure Checked (e : Lru K V) (is : List Nat) : Prop where
  linked : Linked e.queue is
  tracked : ∀ i ∈ is, ∃ a, entryAt? e.queue i = some a ∧ e.table.get? a.key = some i
  length_eq : is.length = e.size
  table_size_eq : e.table.size = e.size
  size_le : e.size ≤ e.capacity

theorem Inv.checked (h : Inv e is) : Checked e is where
  linked := h.linked
  tracked i hi := by
    obtain ⟨a, ha⟩ := h.exists_entry hi
    exact ⟨a, ha, h.tracks.get?_key ha⟩
  length_eq := h.size_eq.symm
  table_size_eq := by rw [h.table_size_eq, h.size_eq]
  size_le := by rw [h.size_eq]; exact h.length_le

/-- The walk from a slot on to the tail, after those seen before it. -/
theorem forward_eq (xs ys : List Nat) (linked : Linked e.queue (xs ++ ys))
    (tracked : ∀ i ∈ ys, ∃ a, entryAt? e.queue i = some a ∧ e.table.get? a.key = some i)
    {fuel : Nat} (hfuel : ys.length ≤ fuel) :
    e.forward fuel xs.reverse (xs.getLast?.getD head) (ys.head?.getD tail) =
      .ok (ys, (xs ++ ys).getLast?.getD head) := by
  induction ys generalizing xs fuel with
  | nil => cases fuel <;> simp [forward]
  | cons i ys ih =>
    obtain ⟨fuel, rfl⟩ := Nat.exists_eq_succ_of_ne_zero (Nat.ne_of_gt (Nat.lt_of_lt_of_le
      (Nat.succ_pos _) hfuel))
    have hi : i ≠ tail := linked.ne_tail (o := some i) (by simp) i rfl
    have hseen : i ∉ xs.reverse := by
      rw [List.mem_reverse]
      exact fun hmem => (List.nodup_append.1 linked.nodup).2.2 i hmem i (by simp) rfl
    obtain ⟨a, ha, hkey⟩ := tracked i (by simp)
    have hnext := linked.next?_mem
    have hprev := linked.prev?_mem
    rw [entryAt?, Option.bind_eq_some_iff] at ha
    obtain ⟨node, hnode, hcontent⟩ := ha
    rw [next?, hnode, Option.map_some, Option.some.injEq] at hnext
    rw [prev?, hnode, Option.map_some, Option.some.injEq] at hprev
    have hsplit : xs ++ i :: ys = (xs ++ [i]) ++ ys := by simp
    have hrest := ih (xs ++ [i]) (hsplit ▸ linked) (fun j hj => tracked j (List.mem_cons_of_mem _ hj))
      (Nat.le_of_succ_le_succ hfuel)
    rw [List.reverse_append, List.getLast?_append] at hrest
    simp only [List.reverse_cons, List.reverse_nil, List.nil_append, List.cons_append,
      List.getLast?_singleton, Option.some_or, Option.getD_some] at hrest
    rw [List.head?_cons, Option.getD_some, forward, if_neg hi, hsplit]
    simp only [hnode, hcontent, require_of hseen, require_of hprev, require_of hkey, hnext, hrest]
    rfl

omit [DecidableEq K] in
/-- The walk from the last of some slots back to the head. -/
theorem backward_eq (xs ys : List Nat) (linked : Linked e.queue (xs ++ ys)) {limit : Nat}
    (hlimit : xs.length ≤ limit) :
    e.backward limit (xs.getLast?.getD head) = .ok xs.reverse := by
  induction limit generalizing xs ys with
  | zero => simp [backward, List.length_eq_zero_iff.1 (Nat.le_zero.1 hlimit)]
  | succ limit ih =>
    rcases List.eq_nil_or_concat xs with rfl | ⟨xs, i, rfl⟩
    · simp [backward]
    · rw [List.concat_eq_append, List.append_assoc] at linked
      rw [List.concat_eq_append, List.length_append] at hlimit
      have hi : i ≠ head := linked.ne_head (o := some i) (by simp) i rfl
      have hprev := linked.prev?_mem
      rw [prev?, Option.map_eq_some_iff] at hprev
      obtain ⟨node, hnode, hprev⟩ := hprev
      simp only [List.concat_eq_append, List.getLast?_concat, Option.getD_some, backward, if_neg hi,
        hnode, hprev, ih xs (i :: ys) linked (Nat.le_of_succ_le_succ hlimit)]
      simp [Except.map]

theorem Checked.check_eq (h : Checked e is) : e.check = .ok () := by
  have hforward := forward_eq [] is h.linked h.tracked
    (Nat.le_succ_of_le h.linked.length_le_slotCount)
  have hbackward := backward_eq is [] (by simpa using h.linked)
    (Nat.le_succ_of_le (Nat.le_of_eq h.length_eq))
  simp only [List.reverse_nil, List.getLast?_nil, Option.getD_none, List.nil_append] at hforward
  have hreverse : is.reverse.reverse = is := List.reverse_reverse is
  simp only [check, h.linked.next?_head, h.linked.prev?_tail, hforward, hbackward,
    ok_bind, require_of h.length_eq, require_of h.table_size_eq, require_of h.size_le,
    require_of hreverse, require_of trivial]

/-- After every run the check finds no fault: between the sentinels the queue runs there and back
through exactly the slots with an entry, each once, the table leads to them from their keys and to
nothing else, and they are no more than the capacity. -/
theorem run_check_queue (capacity : Nat) (requests : List (Request K V)) :
    ∃ e is, ((Engine.new .lru capacity : Engine K V).run requests).2 = .lru e ∧
      e.check = .ok () ∧ Guarded e.queue ∧ Linked e.queue is ∧
      (∀ i, i ∈ is ↔ (entryAt? e.queue i).isSome) ∧ Tracks e.table (entryAt? e.queue) ∧
      e.size = is.length ∧ e.size ≤ capacity := by
  obtain ⟨e, is, he, hcapacity, h⟩ := run_sound capacity requests
  exact ⟨e, is, he, h.checked.check_eq, h.guarded, h.linked, h.mem_iff, h.tracks, h.size_eq,
    hcapacity ▸ h.checked.size_le⟩

end BoundedCache.Lru
