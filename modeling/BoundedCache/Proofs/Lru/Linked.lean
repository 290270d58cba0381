import BoundedCache.Proofs.Links
import BoundedCache.Proofs.Lru.Queue

/-! # The recency queue is a doubly linked list between its sentinels -/
namespace BoundedCache.Lru.Queue
open Links
variable {K V : Type} {q : Queue K V} {i : Nat} {is xs ys : List Nat}

/-- Where the next link leads from a slot, from the head for `none`. -/
def forwards (q : Queue K V) (o : Option Nat) : Option Nat := next? q (o.getD head)

/-- Where the previous link leads from a slot, from the tail for `none`. -/
def backwards (q : Queue K V) (o : Option Nat) : Option Nat := prev? q (o.getD tail)

/-- The links run through the slots from the head to the tail and back. -/
structure Linked (q : Queue K V) (is : List Nat) : Prop where
  nodup : is.Nodup
  inner : ∀ i ∈ is, sentinels ≤ i
  next : Leads (forwards q) (·.getD tail) is
  prev : Leads (backwards q) (·.getD head) is.reverse

namespace Linked

theorem ne_head (h : Linked q is) {o : Option Nat} (ho : ∀ a ∈ o, a ∈ is) : ∀ a ∈ o, a ≠ head :=
  fun a ha e => absurd (h.inner a (ho a ha)) (by rw [e]; decide)

theorem ne_tail (h : Linked q is) {o : Option Nat} (ho : ∀ a ∈ o, a ∈ is) : ∀ a ∈ o, a ≠ tail :=
  fun a ha e => absurd (h.inner a (ho a ha)) (by rw [e]; decide)

theorem next?_head (h : Linked q is) : next? q head = some (is.head?.getD tail) := h.next.start

theorem prev?_tail (h : Linked q is) : prev? q tail = some (is.getLast?.getD head) := by
  simpa [backwards] using h.prev.start

theorem next?_mem (h : Linked q (xs ++ i :: ys)) : next? q i = some (ys.head?.getD tail) := by
  simpa [forwards, after_middle h.nodup] using h.next (some i) (by simp)

theorem prev?_mem (h : Linked q (xs ++ i :: ys)) : prev? q i = some (xs.getLast?.getD head) := by
  have hprev := h.prev (some i) (by simp)
  rwa [after_reverse_middle h.nodup] at hprev

/-- Two writes close the gap of a slot that leaves the queue. -/
theorem unlink (h : Linked q (xs ++ i :: ys)) : Linked (unlink q i) (xs ++ ys) := by
  have hnext := h.next?_mem
  have hprev := h.prev?_mem
  have hlink : Queue.unlink q i =
      (setNext q (xs.getLast?.getD head) (ys.head?.getD tail)).setPrev
        (ys.head?.getD tail) (xs.getLast?.getD head) := by
    simp only [next?, prev?, Option.map_eq_some_iff] at hnext hprev
    obtain ⟨node, hnode, hn⟩ := hnext
    obtain ⟨node', hnode', hp⟩ := hprev
    cases hnode.symm.trans hnode'
    simp only [Queue.unlink, hnode, hn, hp]
  have hmem : ∀ a ∈ xs ++ ys, a ∈ xs ++ i :: ys := by
    intro a ha
    rcases List.mem_append.1 ha with hx | hy
    · exact List.mem_append_left _ hx
    · exact List.mem_append_right _ (List.mem_cons_of_mem _ hy)
  have hlast : ∀ a ∈ xs.getLast?, a ∈ xs ++ i :: ys := fun a ha =>
    List.mem_append_left _ (List.mem_of_getLast? ha)
  have hfirst : ∀ a ∈ ys.head?, a ∈ xs ++ i :: ys := fun a ha =>
    List.mem_append_right _ (List.mem_cons_of_mem _ (List.mem_of_mem_head? ha))
  rw [hlink]
  refine ⟨(List.nodup_cons.1 (List.nodup_middle.1 h.nodup)).2,
    fun a ha => h.inner a (hmem a ha), ?_, ?_⟩
  · apply h.next.erase h.nodup
    · have hold := h.next xs.getLast? hlast
      simp only [forwards] at hold ⊢
      rw [next?_setPrev, next?_setNext, if_pos rfl, hold]
      rfl
    · intro o ho hne
      simp only [forwards]
      rw [next?_setPrev, next?_setNext, if_neg]
      rw [getD_inj (h.ne_head hlast) (h.ne_head fun a ha => hmem a (ho a ha))]
      exact Ne.symm hne
  · apply h.prev.erase_reverse h.nodup
    · have hold := h.prev ys.head? fun a ha => List.mem_reverse.2 (hfirst a ha)
      simp only [backwards] at hold ⊢
      rw [prev?_setPrev, if_pos rfl, prev?_setNext, hold]
      rfl
    · intro o ho hne
      simp only [backwards]
      rw [prev?_setPrev, if_neg, prev?_setNext]
      rw [getD_inj (h.ne_tail hfirst) (h.ne_tail fun a ha => hmem a (ho a ha))]
      exact Ne.symm hne

theorem isSome_get? (h : Linked q is) (hi : i ∈ is) : (q.get? i).isSome := by
  obtain ⟨xs, ys, rfl⟩ := List.append_of_mem hi
  have hnext := h.next?_mem
  rw [next?, Option.map_eq_some_iff] at hnext
  obtain ⟨node, hnode, -⟩ := hnext
  simp [hnode]

/-- The slots of a queue are no more than there are in its arena. -/
theorem length_le_slotCount (h : Linked q is) : is.length ≤ q.slotCount :=
  Slab.length_le_slotCount h.nodup fun _ => h.isSome_get?

/-- Three writes make room for a slot after the head. -/
theorem attachFront (h : Linked q is) (hi : i ∉ is) (inner : sentinels ≤ i)
    (occupied : (q.get? i).isSome) : Linked (attachFront q i) (i :: is) := by
  obtain ⟨node, hnode⟩ := Option.isSome_iff_exists.1 occupied
  have hhead : head ≠ i := fun e => absurd inner (by rw [← e]; decide)
  have htail : tail ≠ i := fun e => absurd inner (by rw [← e]; decide)
  have hfirst : ∀ a ∈ is.head?, a ∈ is := fun a ha => List.mem_of_mem_head? ha
  have hslot : ∀ o : Option Nat, (∀ a ∈ o, a ∈ is) → ∀ d, d ≠ i → i ≠ o.getD d := by
    intro o ho d hd
    cases o with
    | none => exact hd.symm
    | some a => exact fun e => hi (e ▸ ho a rfl)
  let q' := q.modify i fun node => { node with prev := head, next := is.head?.getD tail }
  have hq' : Queue.attachFront q i = (setPrev q' (is.head?.getD tail) i).setNext head i := by
    simp only [Queue.attachFront, h.next?_head, Option.getD_some, q']
  have hnext : ∀ j, i ≠ j → next? q' j = next? q j := by
    intro j hj
    simp only [q', next?, Slab.get?_modify, if_neg hj]
  have hprev : ∀ j, i ≠ j → prev? q' j = prev? q j := by
    intro j hj
    simp only [q', prev?, Slab.get?_modify, if_neg hj]
  rw [hq']
  refine ⟨List.nodup_cons.2 ⟨hi, h.nodup⟩, ?_, ?_, ?_⟩
  · intro a ha
    rcases List.mem_cons.1 ha with rfl | ha
    · exact inner
    · exact h.inner a ha
  · have hleads : Leads (forwards q) (·.getD tail) ([] ++ is) := h.next
    refine hleads.insert (List.nodup_cons.2 ⟨hi, h.nodup⟩) ?_ ?_ ?_
    · simp only [forwards, List.getLast?_nil, Option.getD_none]
      rw [next?_setNext, if_pos rfl, next?_setPrev, hnext head hhead.symm, h.next?_head]
      rfl
    · simp only [forwards, Option.getD_some]
      rw [next?_setNext, if_neg hhead, next?_setPrev]
      simp [q', next?, Slab.get?_modify, hnode]
    · intro o ho hne
      obtain ⟨a, rfl⟩ := Option.ne_none_iff_exists'.1 hne
      have ha : head ≠ a := (h.ne_head ho a rfl).symm
      have hia : i ≠ a := hslot (some a) ho head hhead
      simp only [forwards, Option.getD_some]
      rw [next?_setNext, if_neg ha, next?_setPrev, hnext a hia]
  · have hleads : Leads (backwards q) (·.getD head) ([] ++ is).reverse := h.prev
    refine hleads.insert_reverse (List.nodup_cons.2 ⟨hi, h.nodup⟩) ?_ ?_ ?_
    · have hold := h.prev is.head? fun a ha => List.mem_reverse.2 (hfirst a ha)
      simp only [backwards] at hold ⊢
      rw [prev?_setNext, prev?_setPrev, if_pos rfl, hprev _ (hslot _ hfirst tail htail), hold]
      rfl
    · simp only [backwards, Option.getD_some]
      rw [prev?_setNext, prev?_setPrev, if_neg (hslot _ hfirst tail htail).symm]
      simp [q', prev?, Slab.get?_modify, hnode]
    · intro o ho hne
      simp only [backwards]
      rw [prev?_setNext, prev?_setPrev, if_neg, hprev _ (hslot o ho tail htail)]
      rw [getD_inj (h.ne_tail hfirst) (h.ne_tail ho)]
      exact Ne.symm hne

theorem moveToFront (h : Linked q (xs ++ i :: ys)) :
    Linked (moveToFront q i) (i :: (xs ++ ys)) := by
  have hi : i ∉ xs ++ ys := (List.nodup_cons.1 (List.nodup_middle.1 h.nodup)).1
  have hmem : i ∈ xs ++ i :: ys := by simp
  rw [Queue.moveToFront]
  split
  · rename_i hfirst
    rw [h.next?_head, Option.some.injEq] at hfirst
    cases xs with
    | nil => exact h
    | cons x xs =>
      simp only [List.cons_append, List.head?_cons, Option.getD_some] at hfirst
      simp [hfirst] at hi
  · apply h.unlink.attachFront hi (h.inner i hmem)
    rw [(SameContents.unlink q i).isSome_get?]
    exact h.isSome_get? hmem

theorem setValue (h : Linked q is) (i : Nat) (v : V) : Linked (setValue q i v) is where
  nodup := h.nodup
  inner := h.inner
  next := h.next.congr fun _ _ => next?_setValue ..
  prev := h.prev.congr fun _ _ => prev?_setValue ..

theorem insert (h : Linked q is) (wellFormed : q.WellFormed) (node : Node K V) :
    Linked (q.insert node).2 is := by
  have hget : ∀ j, (q.get? j).isSome → (q.insert node).2.get? j = q.get? j := by
    intro j hj
    rw [wellFormed.get?_insert, if_neg]
    rintro rfl
    rw [wellFormed.get?_nextSlot] at hj
    cases hj
  refine ⟨h.nodup, h.inner, ?_, ?_⟩
  · intro o ho
    have hold := h.next o ho
    have hsome : (q.get? (o.getD head)).isSome := by
      rw [← Option.isSome_map (f := Node.next)]
      exact Option.isSome_iff_exists.2 ⟨_, hold⟩
    simp only [forwards, next?] at hold ⊢
    rw [hget _ hsome, hold]
  · intro o ho
    have hold := h.prev o ho
    have hsome : (q.get? (o.getD tail)).isSome := by
      rw [← Option.isSome_map (f := Node.prev)]
      exact Option.isSome_iff_exists.2 ⟨_, hold⟩
    simp only [backwards, prev?] at hold ⊢
    rw [hget _ hsome, hold]

theorem remove (h : Linked q is) (inner : sentinels ≤ i) (hi : i ∉ is) :
    Linked (q.remove i).2 is := by
  have hget : ∀ (o : Option Nat) (d : Nat), d < sentinels → (∀ a ∈ o, a ∈ is) →
      (q.remove i).2.get? (o.getD d) = q.get? (o.getD d) := by
    intro o d hd ho
    rw [Slab.get?_remove, if_neg]
    cases o with
    | none => exact Nat.ne_of_gt (Nat.lt_of_lt_of_le hd inner)
    | some a => exact fun e => hi (e ▸ ho a rfl)
  refine ⟨h.nodup, h.inner, h.next.congr fun o ho => ?_, h.prev.congr fun o ho => ?_⟩
  · simp only [forwards, next?, hget o head (by decide) ho]
  · simp only [backwards, prev?,
      hget o tail (by decide) fun a ha => List.mem_reverse.1 (ho a ha)]

end Linked

theorem linked_empty : Linked (empty : Queue K V) [] where
  nodup := List.nodup_nil
  inner _ hi := absurd hi List.not_mem_nil
  next o ho := by
    cases o with
    | none => rfl
    | some a => exact absurd (ho a rfl) List.not_mem_nil
  prev o ho := by
    cases o with
    | none => rfl
    | some a => exact absurd (ho a rfl) List.not_mem_nil

end BoundedCache.Lru.Queue
