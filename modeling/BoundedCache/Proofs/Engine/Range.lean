import BoundedCache.Proofs.Lfu.Uses
import BoundedCache.Proofs.Lru.Sentinels

/-! # No count of an engine leaves the range of a word -/
namespace BoundedCache.Engine
variable {K V : Type} [DecidableEq K]

/-- After fewer requests than the largest word, between which the table may be changed at will, and
after any part of a sweep on top of them. A least recently used engine has both sentinels, which hold no
entry, and an entry in every other occupied slot, so the number of its entries can be had by
subtraction. In a least frequently used engine no entry was used more often than there were requests, so
one more use can be counted. In both the storage counts its occupied slots, so a removal can count one
less. -/
theorem applyAll_inRange (capacity : Nat) (events : List (Event K V))
    (short : events.countP Event.isRequest < Word.max) :
    (∃ e : Lru K V, (new .lru capacity).applyAll events = .lru e ∧ ∀ now slots,
      let e := (Sweep.visit (Lru.reclaim now) slots e).2
      (∀ i < Lru.sentinels, ∃ node, e.queue.get? i = some node ∧ node.content = none) ∧
      (∀ i node, Lru.sentinels ≤ i → e.queue.get? i = some node → node.content.isSome) ∧
      e.size + Lru.sentinels = e.queue.size ∧ e.size ≤ events.countP Event.isRequest ∧
      e.queue.size = e.queue.occupied ∧
      ∀ i node, e.queue.get? i = some node → (e.queue.remove i).2.size + 1 = e.queue.size) ∧
    ∃ e : Lfu K V, (new .lfu capacity).applyAll events = .lfu e ∧ ∀ now slots,
      let e := (Sweep.visit (Lfu.reclaim now) slots e).2
      (∀ i node, e.ranking.nodes.get? i = some node →
        node.freq ≤ events.countP Event.isRequest ∧ node.freq + 1 ≤ Word.max) ∧
      e.size ≤ events.countP Event.isRequest ∧
      e.ranking.nodes.size = e.ranking.nodes.occupied ∧
      ∀ i node, e.ranking.nodes.get? i = some node →
        (e.ranking.nodes.remove i).2.size + 1 = e.ranking.nodes.size := by
  constructor
  · obtain ⟨e, he, hbounded⟩ := Lru.Queue.Bounded.empty.applyAll (e := Lru.new capacity) events
    refine ⟨e, he, fun now slots => ?_⟩
    have h := hbounded.visit now slots
    have hwell := h.guarded.wellFormed
    refine ⟨fun i hi => ?_, fun i node hi hnode => ?_,
      Nat.sub_add_cancel h.guarded.sentinels_le_size, Nat.sub_le_of_le_add h.size_le, hwell.size_eq,
      fun i node => hwell.size_remove⟩
    · obtain ⟨node, hnode⟩ := Option.isSome_iff_exists.1 (h.guarded.sentinel i hi)
      exact ⟨node, hnode, (h.guarded.content_eq_none_iff i node hnode).2 hi⟩
    · have hcontent := mt (h.guarded.content_eq_none_iff i node hnode).1 (Nat.not_lt.2 hi)
      exact Option.isSome_iff_ne_none.2 hcontent
  · obtain ⟨e, he, hbounded⟩ := Lfu.Ranking.Bounded.empty.applyAll (e := Lfu.new capacity) events
    refine ⟨e, he, fun now slots => ?_⟩
    have h := hbounded.visit now slots
    refine ⟨fun i node hnode => ?_, h.size_le, h.wellFormed.size_eq,
      fun i node => h.wellFormed.size_remove⟩
    have hfreq := h.freq_le i node hnode
    exact ⟨hfreq, Nat.le_trans (Nat.succ_le_succ hfreq) short⟩

/-- Keys led to the sentinels and to the slot of another key. -/
theorem applyAll_inRange_misled :
    let events : List (Event Nat Nat) :=
      [.request (.put 1 10 (.ofSecs 5) .origin), .bind 2 0, .bind 3 1,
        .request (.put 2 20 (.ofSecs 5) .origin), .request (.get 3 .origin), .request (.remove 3),
        .request (.remove 2)]
    events.countP Event.isRequest < Word.max ∧
      (∃ e : Lru Nat Nat, (new .lru 1).applyAll events = .lru e ∧
        e.size + Lru.sentinels = e.queue.size ∧ e.size ≤ 5) ∧
      ∃ e : Lfu Nat Nat, (new .lfu 1).applyAll events = .lfu e ∧
        (∀ i node, e.ranking.nodes.get? i = some node → node.freq ≤ 5) ∧
        e.ranking.nodes.size = e.ranking.nodes.occupied := by
  intro events
  have hshort : events.countP Event.isRequest < Word.max := by decide
  obtain ⟨⟨e, he, hlru⟩, e', he', hlfu⟩ := applyAll_inRange 1 events hshort
  obtain ⟨-, -, hlength, hsize, -⟩ := hlru .origin []
  obtain ⟨hfreq, -, hcounted, -⟩ := hlfu .origin []
  exact ⟨hshort, ⟨e, he, hlength, hsize⟩, e', he', fun i node hi => (hfreq i node hi).1, hcounted⟩

end BoundedCache.Engine
