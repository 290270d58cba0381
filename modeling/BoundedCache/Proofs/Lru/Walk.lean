import BoundedCache.Proofs.Lru.Sentinels

/-! # When the walk over the keys ends

Every slot with an entry uses up room, and a sentinel does not. So the walk runs for ever exactly if it
meets nothing but the head, and only a key that leads to the head can link the head to itself.
-/
namespace BoundedCache.Lru
open Queue

namespace Queue
variable {K V : Type} {q q' : Queue K V} {a : Entry K V} {keys : List K}
  {i j first next steps room fuel : Nat}

/-! ## The walk with no limit to its length -/

/-- The walk from a slot on that looks at so many nodes and takes these keys, if it ends: at the tail,
at a vacant slot, or when there is no room for another key. -/
inductive Walk (q : Queue K V) : Nat → Nat → Nat → List K → Prop
  | tail (room : Nat) : Walk q 0 room tail []
  | vacant {i : Nat} (room : Nat) (inner : i ≠ tail) (slot : q.get? i = none) : Walk q 0 room i []
  | skip {steps room i prev next : Nat} {keys : List K} (inner : i ≠ tail)
      (slot : q.get? i = some ⟨none, prev, next⟩) (rest : Walk q steps room next keys) :
      Walk q (steps + 1) room i keys
  | last {room i prev next : Nat} {a : Entry K V} (inner : i ≠ tail)
      (slot : q.get? i = some ⟨some a, prev, next⟩) (full : room ≤ 1) : Walk q 1 room i [a.key]
  | take {steps room i prev next : Nat} {a : Entry K V} {keys : List K} (inner : i ≠ tail)
      (slot : q.get? i = some ⟨some a, prev, next⟩) (more : 1 < room)
      (rest : Walk q steps (room - 1) next keys) : Walk q (steps + 1) room i (a.key :: keys)

/-- The whole walk, from the head on, with room for one key more than there are entries. -/
def Walks (q : Queue K V) (steps : Nat) (keys : List K) : Prop :=
  match next? q head with
  | some first => Walk q steps (length q + 1) first keys
  | none => steps = 0 ∧ keys = []

/-- Fuel for one step more than the walk takes does not run out. -/
theorem Walk.keysFrom_eq (h : Walk q steps room i keys) (hfuel : steps < fuel) :
    keysFrom q fuel room i = some keys := by
  induction h generalizing fuel with
  | tail room =>
    obtain ⟨fuel, rfl⟩ := Nat.exists_eq_add_of_lt hfuel
    rw [keysFrom, if_pos rfl]
  | vacant room inner slot =>
    obtain ⟨fuel, rfl⟩ := Nat.exists_eq_add_of_lt hfuel
    rw [keysFrom, if_neg inner, slot]
  | skip inner slot rest ih =>
    obtain ⟨fuel, rfl⟩ := Nat.exists_eq_add_of_lt hfuel
    rw [keysFrom, if_neg inner, slot]
    exact ih (by omega)
  | last inner slot full =>
    obtain ⟨fuel, rfl⟩ := Nat.exists_eq_add_of_lt hfuel
    rw [keysFrom, if_neg inner, slot]
    exact if_pos full
  | take inner slot more rest ih =>
    obtain ⟨fuel, rfl⟩ := Nat.exists_eq_add_of_lt hfuel
    rw [keysFrom, if_neg inner, slot]
    simp only
    rw [if_neg (Nat.not_le.2 more), ih (by omega)]
    rfl

theorem exists_walk_of_keysFrom (h : keysFrom q fuel room i = some keys) :
    ∃ steps, Walk q steps room i keys := by
  induction fuel generalizing room i keys with
  | zero => cases h
  | succ fuel ih =>
    rw [keysFrom] at h
    split at h
    · rename_i htail
      cases h
      exact ⟨0, htail ▸ .tail room⟩
    · rename_i inner
      split at h
      · rename_i slot
        cases h
        exact ⟨0, .vacant room inner slot⟩
      · rename_i prev next slot
        obtain ⟨steps, rest⟩ := ih h
        exact ⟨steps + 1, .skip inner slot rest⟩
      · rename_i a prev next slot
        split at h
        · rename_i full
          cases h
          exact ⟨1, .last inner slot full⟩
        · rename_i more
          obtain ⟨keys, hrest, rfl⟩ := Option.map_eq_some_iff.1 h
          obtain ⟨steps, rest⟩ := ih hrest
          exact ⟨steps + 1, .take inner slot (Nat.not_le.1 more) rest⟩

theorem Walk.unique {steps' : Nat} {keys' : List K} (h : Walk q steps room i keys)
    (h' : Walk q steps' room i keys') : keys = keys' := by
  have hfuel : keysFrom q (steps + steps' + 1) room i = some keys := h.keysFrom_eq (by omega)
  rw [h'.keysFrom_eq (by omega)] at hfuel
  exact (Option.some.inj hfuel).symm

/-! ## Where it ends -/

namespace Guarded

theorem exists_head (h : Guarded q) (hnext : next? q head = some next) :
    ∃ prev, q.get? head = some ⟨none, prev, next⟩ := by
  obtain ⟨⟨content, prev, next⟩, hnode, rfl⟩ := Option.map_eq_some_iff.1 hnext
  obtain rfl : content = none := (h.content_eq_none_iff head _ hnode).2 (by decide)
  exact ⟨prev, hnode⟩

theorem exists_next?_head (h : Guarded q) : ∃ first, next? q head = some first := by
  obtain ⟨node, hnode⟩ := Option.isSome_iff_exists.1 (h.sentinel head (by decide))
  exact ⟨node.next, by rw [next?, hnode]; rfl⟩

theorem exists_entry (h : Guarded q) (hhead : i ≠ head) (htail : i ≠ tail) {node : Node K V}
    (hnode : q.get? i = some node) : ∃ a prev next, node = ⟨some a, prev, next⟩ := by
  obtain ⟨_ | a, prev, next⟩ := node
  · have hlt : i < sentinels := (h.content_eq_none_iff i _ hnode).1 rfl
    simp only [sentinels, head, tail] at hlt hhead htail
    omega
  · exact ⟨a, prev, next, rfl⟩

/-- Between two entries the walk meets the head once at the most. -/
theorem exists_walk (h : Guarded q) (hfirst : next? q head = some first) (apart : first ≠ head)
    (room : Nat) {i : Nat} (hi : i ≠ head) :
    ∃ steps ≤ 2 * room + 1, ∃ keys, Walk q steps (room + 1) i keys := by
  induction room using Nat.strongRecOn generalizing i with
  | _ room ih =>
    by_cases htail : i = tail
    · exact ⟨0, Nat.zero_le _, [], htail ▸ .tail _⟩
    cases hnode : q.get? i with
    | none => exact ⟨0, Nat.zero_le _, [], .vacant _ htail hnode⟩
    | some node =>
      obtain ⟨a, prev, next, rfl⟩ := h.exists_entry hi htail hnode
      cases room with
      | zero => exact ⟨1, Nat.le_refl _, [a.key], .last htail hnode (Nat.le_refl _)⟩
      | succ room =>
        have hmore : 1 < room + 1 + 1 := by omega
        by_cases hnext : next = head
        · -- The head leads on to the first slot, which is another one.
          obtain ⟨before, hhead⟩ := h.exists_head hfirst
          obtain ⟨steps, hle, keys, rest⟩ := ih room (Nat.lt_succ_self room) apart
          have hskip : Walk q (steps + 1) (room + 1) next keys :=
            hnext ▸ .skip (by decide) hhead rest
          exact ⟨steps + 1 + 1, by omega, a.key :: keys, .take htail hnode hmore hskip⟩
        · obtain ⟨steps, hle, keys, rest⟩ := ih room (Nat.lt_succ_self room) hnext
          exact ⟨steps + 1, by omega, a.key :: keys, .take htail hnode hmore rest⟩

/-- A head that is linked to itself is all that the walk ever meets. -/
theorem not_walk (h : Guarded q) (circling : next? q head = some head) :
    ¬ Walk q steps room head keys := by
  obtain ⟨prev, hhead⟩ := h.exists_head circling
  intro hwalk
  generalize hi : head = i at hwalk
  induction hwalk with
  | tail room => exact absurd hi (by decide)
  | vacant room inner slot =>
    rw [← hi, hhead] at slot
    cases slot
  | skip inner slot rest ih =>
    rw [← hi, hhead] at slot
    cases slot
    exact ih rfl
  | last inner slot full =>
    rw [← hi, hhead] at slot
    cases slot
  | take inner slot more rest ih =>
    rw [← hi, hhead] at slot
    cases slot

theorem exists_walks (h : Guarded q) (apart : next? q head ≠ some head) :
    ∃ steps ≤ 2 * length q + 1, ∃ keys, Walks q steps keys := by
  obtain ⟨first, hfirst⟩ := h.exists_next?_head
  have hne : first ≠ head := fun heq => apart (heq ▸ hfirst)
  simp only [Walks, hfirst]
  exact h.exists_walk hfirst hne (length q) hne

theorem not_walks (h : Guarded q) (circling : next? q head = some head) : ¬ Walks q steps keys := by
  simp only [Walks, circling]
  exact h.not_walk circling

/-- The fuel runs out only if the walk has no end. -/
theorem keys?_eq_some_iff (h : Guarded q) :
    keys? q = some keys ↔ ∃ steps, Walks q steps keys := by
  obtain ⟨first, hfirst⟩ := h.exists_next?_head
  obtain ⟨prev, hhead⟩ := h.exists_head hfirst
  simp only [keys?, Walks, hfirst]
  refine ⟨exists_walk_of_keysFrom, fun ⟨steps, hwalk⟩ => ?_⟩
  have apart : first ≠ head := by
    rintro rfl
    exact h.not_walk hfirst hwalk
  obtain ⟨steps', hle, keys', hwalk'⟩ := h.exists_walk hfirst apart (length q) apart
  have hfuel : (length q + 2) * 2 ≤ (length q + 2) * (q.slotCount + 1) :=
    Nat.mul_le_mul_left _ (Nat.succ_le_succ (Slab.lt_slotCount_of_get? hhead))
  rw [hwalk.unique hwalk']
  exact hwalk'.keysFrom_eq (by omega)

end Guarded

/-! ## Links that lead away from the head -/

theorem next?_modify (q : Queue K V) (i p n j : Nat) :
    next? (q.modify i fun node => { node with prev := p, next := n }) j =
      if i = j then (next? q j).map fun _ => n else next? q j := by
  simp only [next?, Slab.get?_modify]
  split <;> simp [Function.comp_def]

/-- A queue with both sentinels in which no link leads back to the head. -/
structure Outward (q : Queue K V) : Prop where
  guarded : Guarded q
  next_ne : ∀ i, next? q i ≠ some head

namespace Outward

theorem empty : Outward (empty : Queue K V) := by
  refine ⟨guarded_empty, fun i => ?_⟩
  match i with
  | 0 | 1 =>
    show some tail ≠ some head
    decide
  | i + 2 => exact (Option.some_ne_none head).symm

theorem congr (h : Outward q) (same : SameContents q q')
    (next_eq : ∀ j, next? q' j = next? q j ∨ ∃ n, n ≠ head ∧ next? q' j = (next? q j).map fun _ => n) :
    Outward q' := by
  refine ⟨h.guarded.congr same, fun j => ?_⟩
  rcases next_eq j with heq | ⟨n, hn, heq⟩
  · rw [heq]
    exact h.next_ne j
  · rw [heq]
    cases next? q j <;> simp [hn]

theorem setNext (h : Outward q) (i : Nat) (hn : next ≠ head) : Outward (setNext q i next) := by
  refine h.congr (.setNext ..) fun j => ?_
  rw [next?_setNext]
  split
  · exact .inr ⟨next, hn, rfl⟩
  · exact .inl rfl

theorem setPrev (h : Outward q) (i prev : Nat) : Outward (setPrev q i prev) :=
  h.congr (.setPrev ..) fun _ => .inl (next?_setPrev ..)

theorem setValue (h : Outward q) (i : Nat) (v : V) : Outward (setValue q i v) := by
  refine ⟨h.guarded.setValue i v, fun j => ?_⟩
  rw [next?_setValue]
  exact h.next_ne j

theorem unlink (h : Outward q) (i : Nat) : Outward (unlink q i) := by
  rw [Queue.unlink]
  split
  · rename_i node hnode
    have hnext : node.next ≠ head := by
      intro heq
      refine h.next_ne i ?_
      rw [next?, hnode, Option.map_some, heq]
    exact (h.setNext _ hnext).setPrev ..
  · exact h

theorem attachFront (h : Outward q) (hi : i ≠ head) : Outward (attachFront q i) := by
  have hfirst : (next? q head).getD tail ≠ head := by
    have hne := h.next_ne head
    cases hnext : next? q head with
    | none => decide
    | some first => exact fun heq => hne (hnext.trans (congrArg some heq))
  have hplaced : Outward (q.modify i fun node =>
      { node with prev := head, next := (next? q head).getD tail }) := by
    refine h.congr (Slab.Alike.modify q i fun _ => rfl) fun j => ?_
    rw [next?_modify]
    split
    · exact .inr ⟨_, hfirst, rfl⟩
    · exact .inl rfl
  exact (hplaced.setPrev _ i).setNext head hi

theorem moveToFront (h : Outward q) (hi : i ≠ head) : Outward (moveToFront q i) := by
  rw [Queue.moveToFront]
  split
  · exact h
  · exact (h.unlink i).attachFront hi

theorem insert (h : Outward q) (a : Entry K V) (prev : Nat) (hn : next ≠ head) :
    Outward (q.insert ⟨some a, prev, next⟩).2 := by
  refine ⟨h.guarded.insert a prev next, fun j => ?_⟩
  rw [next?, h.guarded.wellFormed.get?_insert]
  split
  · simpa using hn
  · exact h.next_ne j

theorem remove (h : Outward q) (inner : sentinels ≤ i) : Outward (q.remove i).2 := by
  refine ⟨h.guarded.remove inner, fun j => ?_⟩
  rw [next?, Slab.get?_remove]
  split
  · exact (Option.some_ne_none head).symm
  · exact h.next_ne j

end Outward

/-- Moved to the front, the head comes after itself. -/
theorem Guarded.next?_moveToFront_head (h : Guarded q) :
    next? (moveToFront q head) head = some head := by
  rw [moveToFront]
  split
  · assumption
  · obtain ⟨first, hfirst⟩ := (h.congr (.unlink q head)).exists_next?_head
    simp only [attachFront]
    rw [next?_setNext, if_pos rfl, next?_setPrev, next?_modify, if_pos rfl, hfirst]
    rfl

end Queue

variable {K V : Type} [DecidableEq K] {e : Lru K V} {k : K} {i : Nat}

/-! ## Engines whose keys lead away from the head -/

/-- An engine in which neither a link nor a key leads to the head. -/
structure Outward (e : Lru K V) : Prop where
  queue : Queue.Outward e.queue
  slot_ne : ∀ k, e.table.get? k ≠ some head

namespace Outward

theorem new (capacity : Nat) : Outward (new capacity : Lru K V) :=
  ⟨.empty, fun _ => (Option.some_ne_none head).symm⟩

theorem erase (h : Outward e) (k : K) : Outward { e with table := e.table.erase k } := by
  refine ⟨h.queue, fun j => ?_⟩
  rw [Dict.get?_erase]
  split
  · exact (Option.some_ne_none head).symm
  · exact h.slot_ne j

theorem insert (h : Outward e) (k : K) (hi : i ≠ head) :
    Outward { e with table := e.table.insert k i } := by
  refine ⟨h.queue, fun j => ?_⟩
  rw [Dict.get?_insert]
  split
  · simpa using hi
  · exact h.slot_ne j

theorem detach (h : Outward e) (i : Nat) : Outward (e.detach i).2 := by
  rcases Nat.lt_or_ge i sentinels with hlt | hge
  · rw [Lru.detach, if_pos hlt]
    exact h
  · have hremoved : Outward { e with queue := ((unlink e.queue i).remove i).2 } :=
      ⟨(h.queue.unlink i).remove hge, h.slot_ne⟩
    rw [Lru.detach, if_neg (Nat.not_lt.2 hge)]
    simp only
    split
    · exact hremoved.erase _
    · exact hremoved

theorem withNew (h : Outward e) (a : Entry K V) : Outward (e.withNew a) := by
  have hslot : e.queue.nextSlot ≠ head :=
    Nat.ne_of_gt (Nat.lt_of_lt_of_le (by decide) h.queue.guarded.sentinels_le_nextSlot)
  have hstored : Outward
      { e with queue := attachFront (e.queue.insert ⟨some a, head, tail⟩).2 e.queue.nextSlot } :=
    ⟨(h.queue.insert a head (by decide)).attachFront hslot, h.slot_ne⟩
  exact hstored.insert a.key hslot

theorem kept : Kept (Outward : Lru K V → Prop) Outward where
  detach h i := h.detach i
  use {_ k i} h hk := by
    have hi : i ≠ head := fun heq => h.slot_ne k (heq ▸ hk)
    exact ⟨h.queue.moveToFront hi, h.slot_ne⟩
  setValue h i v := ⟨h.queue.setValue i v, h.slot_ne⟩
  weaken h := h
  withNew h a := h.withNew a
  clear {e} _ := new e.capacity

theorem apply (h : Outward e) {event : Event K V} (spared : ∀ k, event ≠ .bind k head) :
    ∃ e', (Engine.lru e).apply event = .lru e' ∧ Outward e' := by
  cases event with
  | request r => exact kept.step h r
  | bind k i => exact ⟨_, rfl, h.insert k fun heq => spared k (heq ▸ rfl)⟩
  | unbind k => exact ⟨_, rfl, h.erase k⟩

theorem applyAll (h : Outward e) (events : List (Event K V))
    (spared : ∀ k, Event.bind k head ∉ events) :
    ∃ e', (Engine.lru e).applyAll events = .lru e' ∧ Outward e' := by
  induction events generalizing e with
  | nil => exact ⟨e, rfl, h⟩
  | cons event rest ih =>
    obtain ⟨e', he', h'⟩ := h.apply fun k heq => spared k (heq ▸ List.mem_cons_self)
    have hrest := ih h' fun k hk => spared k (List.mem_cons_of_mem _ hk)
    rwa [← he'] at hrest

end Outward

/-- A new value under a key that leads to the head links the head to itself. -/
theorem next?_put_head (h : Guarded e.queue) (hk : e.table.get? k = some head)
    (hc : e.capacity ≠ 0) (v : V) (ttl : Duration) (now : Instant) :
    next? (e.put k v ttl now).queue head = some head := by
  rw [Inv.put_tracked hk hc]
  exact (h.setValue head v).next?_moveToFront_head

/-- Whatever is done to the table between the requests, the walk over the keys has an end as long as the
head is not linked to itself, and then it looks at no more than twice as many nodes as there are
entries, and one. The head stays apart if no key is ever led to it; once one is, storing under that key
closes the circle. -/
theorem applyAll_walks (capacity : Nat) (events : List (Event K V)) :
    ∃ e : Lru K V, (Engine.new .lru capacity).applyAll events = .lru e ∧
      (∀ keys, e.keys? = some keys ↔ ∃ steps, Walks e.queue steps keys) ∧
      (next? e.queue head ≠ some head →
        ∃ steps ≤ 2 * e.size + 1, ∃ keys, Walks e.queue steps keys) ∧
      (next? e.queue head = some head → ¬ ∃ steps keys, Walks e.queue steps keys) ∧
      ((∀ k, Event.bind k head ∉ events) → next? e.queue head ≠ some head) ∧
      ∀ k v ttl now, e.capacity ≠ 0 → e.table.get? k = some head →
        next? (e.put k v ttl now).queue head = some head := by
  obtain ⟨e, he, hbounded⟩ := Bounded.empty.applyAll (e := Lru.new capacity) events
  have h := hbounded.guarded
  refine ⟨e, he, fun keys => h.keys?_eq_some_iff, h.exists_walks,
    fun circling ⟨steps, keys, hwalks⟩ => h.not_walks circling hwalks, fun spared => ?_,
    fun k v ttl now hc hk => next?_put_head h hk hc v ttl now⟩
  obtain ⟨e', he', houtward⟩ := (Outward.new capacity).applyAll events spared
  obtain rfl : e = e' := Engine.lru.inj (he.symm.trans he')
  exact houtward.queue.next_ne head

/-- Keys led to the tail and to a vacant slot. The vacant slot ends the walk, which takes one key. -/
theorem applyAll_walks_astray :
    let events : List (Event Nat Nat) :=
      [.request (.put 1 10 (.ofSecs 5) .origin), .request (.put 2 20 (.ofSecs 5) .origin),
        .bind 3 tail, .request (.put 3 30 (.ofSecs 5) .origin), .bind 4 7,
        .request (.put 4 40 (.ofSecs 5) .origin), .request (.get 1 .origin)]
    (∀ k, Event.bind k head ∉ events) ∧
      ∃ e : Lru Nat Nat, (Engine.new .lru 2).applyAll events = .lru e ∧
        (∃ steps ≤ 2 * e.size + 1, ∃ keys, Walks e.queue steps keys) ∧
        ∃ steps, Walks e.queue steps [1] := by
  intro events
  have hspared : ∀ k, Event.bind k head ∉ events := by
    intro k
    simp [events, head, tail]
  obtain ⟨e, he, hkeys, hwalks, -, happart, -⟩ := applyAll_walks 2 events
  refine ⟨hspared, e, he, hwalks (happart hspared), (hkeys [1]).1 ?_⟩
  cases he
  rfl

/-- A key led to the head: its new value links the head to itself, and the walk never ends. -/
theorem applyAll_circles :
    let events : List (Event Nat Nat) := [.bind 1 head, .request (.put 1 10 (.ofSecs 5) .origin)]
    ∃ e : Lru Nat Nat, (Engine.new .lru 2).applyAll events = .lru e ∧
      ¬ ∃ steps keys, Walks e.queue steps keys := by
  intro events
  obtain ⟨e, he, hbounded⟩ := Bounded.empty.applyAll (e := Lru.new 2) events
  have circling : next? e.queue head = some head := by
    cases he
    rfl
  exact ⟨e, he, fun ⟨steps, keys, hwalks⟩ => hbounded.guarded.not_walks circling hwalks⟩

end BoundedCache.Lru
