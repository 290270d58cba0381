import BoundedCache.Proofs.Lru.Kept

/-! # No change of the table can remove a sentinel

A slot that the table leads to may be a sentinel, be vacant, or hold the entry of another key. The
links can go wrong there, but every removal spares the sentinels, and no other operation takes a slot
from the queue or changes which slots hold entries.
-/
namespace BoundedCache.Lru
open Queue

namespace Queue
variable {K V : Type} {q q' : Queue K V} {m n i : Nat}

/-- A queue with both sentinels and at most so many entries. -/
structure Bounded (n : Nat) (q : Queue K V) : Prop where
  guarded : Guarded q
  size_le : q.size ≤ n + sentinels

namespace Bounded

theorem empty : Bounded 0 (empty : Queue K V) := ⟨guarded_empty, Nat.le_refl _⟩

theorem mono (h : Bounded m q) (hmn : m ≤ n) : Bounded n q :=
  ⟨h.guarded, Nat.le_trans h.size_le (Nat.add_le_add_right hmn _)⟩

theorem congr (h : Bounded n q) (same : SameContents q q') : Bounded n q' :=
  ⟨h.guarded.congr same, Nat.le_trans (Nat.le_of_eq same.size) h.size_le⟩

theorem setValue (h : Bounded n q) (i : Nat) (v : V) : Bounded n (setValue q i v) :=
  ⟨h.guarded.setValue i v, Nat.le_trans (Nat.le_of_eq (Slab.size_modify ..)) h.size_le⟩

theorem insert (h : Bounded n q) (a : Entry K V) (prev next : Nat) :
    Bounded (n + 1) (q.insert ⟨some a, prev, next⟩).2 := by
  refine ⟨h.guarded.insert a prev next, ?_⟩
  have hsize := h.size_le
  rw [Slab.size_insert]
  omega

theorem remove (h : Bounded n q) (inner : sentinels ≤ i) : Bounded n (q.remove i).2 :=
  ⟨h.guarded.remove inner, Nat.le_trans (q.size_remove_le i) h.size_le⟩

end Bounded
end Queue

variable {K V : Type} [DecidableEq K] {e : Lru K V} {n i : Nat}

theorem queue_detach (e : Lru K V) (inner : sentinels ≤ i) :
    (e.detach i).2.queue = ((unlink e.queue i).remove i).2 := by
  rw [detach, if_neg (Nat.not_lt.2 inner)]
  simp only
  split <;> rfl

namespace Queue.Bounded

theorem detach (h : Bounded n e.queue) (i : Nat) : Bounded n (e.detach i).2.queue := by
  rcases Nat.lt_or_ge i sentinels with hlt | hge
  · rw [Lru.detach, if_pos hlt]
    exact h
  · rw [queue_detach e hge]
    exact (h.congr (.unlink ..)).remove hge

/-- A request stores one more entry at the most. -/
theorem kept (n : Nat) :
    Kept (fun e : Lru K V => Bounded n e.queue) fun e => Bounded (n + 1) e.queue where
  detach h i := h.detach i
  use h _ := h.congr (.moveToFront ..)
  setValue h i v := h.setValue i v
  weaken h := h.mono (Nat.le_succ n)
  withNew h a := (h.insert a head tail).congr (.attachFront ..)
  clear _ := empty.mono (Nat.zero_le _)

theorem visit (h : Bounded n e.queue) (now : Instant) (slots : List Nat) :
    Bounded n (Sweep.visit (Lru.reclaim now) slots e).2.queue := (kept n).visit h now slots

/-- Whatever is done to the table between the requests. -/
theorem applyAll (h : Bounded 0 e.queue) (events : List (Event K V)) :
    ∃ e', (Engine.lru e).applyAll events = .lru e' ∧
      Bounded (events.countP Event.isRequest) e'.queue :=
  Kept.applyAll kept (fun h _ => h) h events

end Queue.Bounded
end BoundedCache.Lru
