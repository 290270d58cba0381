import BoundedCache.Proofs.Lfu.Kept

/-! # How often an entry can have been used

A request counts one use at the most, of the entry in any slot that the table leads to. So no frequency
is higher than the number of requests, whatever is done to the table between them.
-/
namespace BoundedCache.Lfu
open Ranking

namespace Ranking
variable {K V : Type} {r r' : Ranking K V} {m n f : Nat}

/-- A ranking of at most so many entries, each used at most so often. -/
structure Bounded (n : Nat) (r : Ranking K V) : Prop where
  wellFormed : r.nodes.WellFormed
  freq_le : ∀ i node, r.nodes.get? i = some node → node.freq ≤ n
  size_le : r.nodes.size ≤ n

namespace Bounded

theorem empty : Bounded 0 (empty : Ranking K V) where
  wellFormed := Slab.wellFormed_empty
  freq_le i node hi := by
    rw [Ranking.empty, Slab.get?_of_le (Nat.zero_le i)] at hi
    cases hi
  size_le := Nat.le_refl _

theorem mono (h : Bounded m r) (hmn : m ≤ n) : Bounded n r where
  wellFormed := h.wellFormed
  freq_le i node hi := Nat.le_trans (h.freq_le i node hi) hmn
  size_le := Nat.le_trans h.size_le hmn

theorem congr (h : Bounded n r) (alike : Slab.Alike Node.freq r.nodes r'.nodes) : Bounded n r' where
  wellFormed := alike.wellFormed h.wellFormed
  freq_le i node hi := by
    have hfreq := alike.view_eq i
    rw [hi, Option.map_some, eq_comm, Option.map_eq_some_iff] at hfreq
    obtain ⟨old, hold, heq⟩ := hfreq
    rw [← heq]
    exact h.freq_le i old hold
  size_le := Nat.le_trans (Nat.le_of_eq alike.size) h.size_le

theorem modifyNode (h : Bounded n r) (i : Nat) {u : Node K V → Node K V}
    (hu : ∀ node, node.freq ≤ n → (u node).freq ≤ n) : Bounded n (r.modifyNode i u) where
  wellFormed := h.wellFormed.modify i u
  freq_le j node hj := by
    rw [Ranking.modifyNode, Slab.get?_modify] at hj
    split at hj
    · obtain ⟨old, hold, rfl⟩ := Option.map_eq_some_iff.1 hj
      exact hu old (h.freq_le j old hold)
    · exact h.freq_le j node hj
  size_le := Nat.le_trans (Nat.le_of_eq (Slab.size_modify ..)) h.size_le

theorem setValue (h : Bounded n r) (i : Nat) (v : V) : Bounded n (r.setValue i v) :=
  h.modifyNode i fun _ => id

theorem unlink (h : Bounded n r) (i : Nat) : Bounded n (r.unlink i) :=
  h.congr (alike_unlink linkless_freq r i)

theorem linkBucket (h : Bounded n r) (f : Nat) (lower? : Option Nat) :
    Bounded n (r.linkBucket f lower?) := by
  refine h.congr ?_
  rw [nodes_linkBucket]
  exact Slab.Alike.refl ..

/-- Only a node that enters a bucket gets another frequency. -/
theorem pushBack (h : Bounded n r) (i : Nat) (hf : f ≤ n) : Bounded n (r.pushBack i f) := by
  rw [Ranking.pushBack]
  split
  · refine modifyNode (h.congr ?_) i fun _ _ => hf
    exact (alike_setPrev linkless_freq ..).trans (alike_setNext linkless_freq ..)
  · exact h

theorem touch (h : Bounded n r) (i : Nat) : Bounded (n + 1) (r.touch i) := by
  rw [Ranking.touch]
  split
  · rename_i node hnode
    have hfreq := h.freq_le i node hnode
    have hunlinked := (h.linkBucket (node.freq + 1) (some node.freq)).unlink i
    exact (hunlinked.mono (Nat.le_succ n)).pushBack i (Nat.succ_le_succ hfreq)
  · exact h.mono (Nat.le_succ n)

theorem remove (h : Bounded n r) (i : Nat) : Bounded n (r.remove i).2 where
  wellFormed := wellFormed_remove h.wellFormed i
  freq_le j node hj := by
    simp only [Ranking.remove, Slab.get?_remove] at hj
    split at hj
    · cases hj
    · exact (h.unlink i).freq_le j node hj
  size_le := Nat.le_trans (Slab.size_remove_le ..) (h.unlink i).size_le

theorem insert (h : Bounded n r) (a : Entry K V) : Bounded (n + 1) (r.insert a).2 := by
  have hone : 1 ≤ n + 1 := Nat.le_add_left 1 n
  have hstored : Bounded (n + 1) { r with nodes := (r.nodes.insert { entry := a, freq := 1 }).2 } := by
    refine ⟨h.wellFormed.insert _, fun i node hi => ?_, ?_⟩
    · rw [h.wellFormed.get?_insert] at hi
      split at hi
      · cases hi
        exact hone
      · exact Nat.le_succ_of_le (h.freq_le i node hi)
    · rw [Slab.size_insert]
      exact Nat.succ_le_succ h.size_le
  exact (hstored.linkBucket 1 none).pushBack _ hone

end Bounded
end Ranking

variable {K V : Type} [DecidableEq K] {e : Lfu K V} {n : Nat}

theorem ranking_detach (e : Lfu K V) (i : Nat) :
    (e.detach i).2.ranking = (e.ranking.remove i).2 := by
  rw [detach]
  split
  · rename_i a r hremove
    rw [hremove]
  · rename_i r hremove
    rw [hremove]

namespace Ranking.Bounded

theorem detach (h : Bounded n e.ranking) (i : Nat) : Bounded n (e.detach i).2.ranking := by
  rw [ranking_detach]
  exact h.remove i

/-- A request counts one more use, or one more entry, at the most. -/
theorem kept (n : Nat) :
    Kept (fun e : Lfu K V => Bounded n e.ranking) fun e => Bounded (n + 1) e.ranking where
  detach h i := h.detach i
  setValue h i v := h.setValue i v
  weaken h := h.mono (Nat.le_succ n)
  touch h i := h.touch i
  store _ hroomy _ a := hroomy.insert a
  clear _ := empty.mono (Nat.zero_le _)

theorem visit (h : Bounded n e.ranking) (now : Instant) (slots : List Nat) :
    Bounded n (Sweep.visit (Lfu.reclaim now) slots e).2.ranking := (kept n).visit h now slots

theorem applyAll (h : Bounded 0 e.ranking) (events : List (Event K V)) :
    ∃ e', (Engine.lfu e).applyAll events = .lfu e' ∧
      Bounded (events.countP Event.isRequest) e'.ranking :=
  Kept.applyAll kept (fun h _ => h) h events

end Ranking.Bounded
end BoundedCache.Lfu
