import BoundedCache.Proofs.Engine.Soundness
import BoundedCache.Proofs.Reference.Recency

/-! # The least recently used engine keeps a recency list -/
namespace BoundedCache.Lru
open Queue Links
variable {K V : Type} [DecidableEq K] {e : Lru K V} {m : Recency K V} {i : Nat} {is : List Nat}
  {a : Entry K V} {k : K}

/-- The list holds the entries of the queue in its order. -/
structure Mirrors (e : Lru K V) (m : Recency K V) (is : List Nat) : Prop where
  inv : Inv e is
  capacity_eq : m.capacity = e.capacity
  entries_eq : m.entries = is.filterMap (entryAt? e.queue)

namespace Mirrors

theorem new (capacity : Nat) : Mirrors (new capacity : Lru K V) { capacity } [] :=
  ⟨Inv.new capacity, rfl, rfl⟩

theorem find?_eq (h : Mirrors e m is) (k : K) :
    m.find? k = (e.table.get? k).bind (entryAt? e.queue) := by
  rw [Recency.find?, h.entries_eq, h.inv.tracks.find?_eq h.inv.mem_iff]

theorem find?_none (h : Mirrors e m is) (hk : e.table.get? k = none) : m.find? k = none := by
  rw [h.find?_eq, hk]
  rfl

theorem find?_some (h : Mirrors e m is) (hk : e.table.get? k = some i)
    (hi : entryAt? e.queue i = some a) : m.find? k = some a := by
  rw [h.find?_eq, hk, Option.bind_some, hi]

theorem length_eq (h : Mirrors e m is) : m.entries.length = e.size := by
  rw [h.entries_eq, h.inv.size_eq, List.length_filterMap_eq_countP, List.countP_eq_length]
  exact fun i hi => (h.inv.mem_iff i).1 hi

theorem others_eq (h : Mirrors e m is) (hk : e.table.get? k = some i) :
    m.others k = (is.filter (· ≠ i)).filterMap (entryAt? e.queue) := by
  rw [Recency.others, h.entries_eq, List.filter_filterMap, List.filterMap_filter]
  apply List.filterMap_congr
  intro j hj
  obtain ⟨b, hb⟩ := h.inv.exists_entry hj
  rw [hb, Option.filter_some]
  simp only [ne_eq, h.inv.tracks.key_eq_iff hk hb]

/-! ## Each operation -/

theorem without (h : Mirrors e m is) (hk : e.table.get? k = some i)
    (hi : entryAt? e.queue i = some a) :
    Mirrors (e.without i a) { m with entries := m.others k } (is.filter (· ≠ i)) where
  inv := h.inv.without hi
  capacity_eq := h.capacity_eq
  entries_eq := by
    simp only [h.others_eq hk]
    apply List.filterMap_congr
    intro j hj
    have hji : j ≠ i := by simpa using (List.mem_filter.1 hj).2
    rw [entryAt?_without, if_neg hji.symm]

theorem used (h : Mirrors e m is) (hk : e.table.get? k = some i)
    (hi : entryAt? e.queue i = some a) :
    Mirrors { e with queue := moveToFront e.queue i } { m with entries := a :: m.others k }
      (i :: is.filter (· ≠ i)) where
  inv := h.inv.moveToFront (h.inv.mem_of_entryAt? hi)
  capacity_eq := h.capacity_eq
  entries_eq := by
    have hsame := funext (SameContents.moveToFront e.queue i).entryAt?
    simp only [h.others_eq hk, hsame, List.filterMap_cons, hi]

theorem get (h : Mirrors e m is) (k : K) (now : Instant) :
    (e.get k now).1 = (m.get k now).1 ∧ ∃ is', Mirrors (e.get k now).2 (m.get k now).2 is' := by
  cases hk : e.table.get? k with
  | none =>
    rw [Inv.get_absent hk, Recency.get, h.find?_none hk]
    exact ⟨rfl, is, h⟩
  | some i =>
    obtain ⟨a, ha, -⟩ := h.inv.tracks.exists_entry hk
    rw [Recency.get, h.find?_some hk ha]
    cases hx : a.isExpired now with
    | true =>
      rw [h.inv.get_expired hk ha hx]
      simp only [hx]
      exact ⟨rfl, _, h.without hk ha⟩
    | false =>
      rw [Inv.get_live hk ha hx]
      simp only [hx]
      exact ⟨rfl, _, h.used hk ha⟩

theorem remove (h : Mirrors e m is) (k : K) :
    (e.remove k).1 = (m.remove k).1 ∧ ∃ is', Mirrors (e.remove k).2 (m.remove k).2 is' := by
  cases hk : e.table.get? k with
  | none =>
    have hnone := h.find?_none hk
    rw [Inv.remove_absent hk, Recency.remove, hnone, Recency.others_of_find?_eq_none hnone]
    exact ⟨rfl, is, h⟩
  | some i =>
    obtain ⟨a, ha, -⟩ := h.inv.tracks.exists_entry hk
    rw [h.inv.remove_tracked hk ha, Recency.remove, h.find?_some hk ha]
    exact ⟨rfl, _, h.without hk ha⟩

theorem overwritten (h : Mirrors e m is) (hk : e.table.get? k = some i)
    (hi : entryAt? e.queue i = some a) (v : V) :
    Mirrors { e with queue := moveToFront (setValue e.queue i v) i }
      { m with entries := { a with value := v } :: m.others k } (i :: is.filter (· ≠ i)) where
  inv := (h.inv.setValue i v).moveToFront (h.inv.mem_of_entryAt? hi)
  capacity_eq := h.capacity_eq
  entries_eq := by
    have hsame := funext (SameContents.moveToFront (setValue e.queue i v) i).entryAt?
    have hset : entryAt? (setValue e.queue i v) i = some { a with value := v } := by
      rw [entryAt?_setValue, if_pos rfl, hi]
      rfl
    simp only [h.others_eq hk, hsame, List.filterMap_cons, hset, List.cons.injEq, true_and]
    apply List.filterMap_congr
    intro j hj
    have hji : j ≠ i := by simpa using (List.mem_filter.1 hj).2
    rw [entryAt?_setValue, if_neg hji.symm]

theorem kept_eq (h : Mirrors e m is) :
    (Inv.kept e.capacity is).filterMap (entryAt? e.queue) =
      if m.capacity ≤ m.entries.length then m.entries.dropLast else m.entries := by
  rw [Inv.kept, h.length_eq, h.inv.size_eq, h.entries_eq, h.capacity_eq]
  split
  · rcases List.eq_nil_or_concat is with rfl | ⟨xs, i, rfl⟩
    · rfl
    · obtain ⟨a, ha⟩ := h.inv.exists_entry (i := i) (by simp)
      simp [ha]
  · rfl

theorem added (h : Mirrors e m is) (hc : e.capacity ≠ 0) (hk : e.table.get? a.key = none) :
    Mirrors ((Inv.roomy e).withNew a)
      { m with entries :=
          a :: if m.capacity ≤ m.entries.length then m.entries.dropLast else m.entries }
      ((Inv.roomy e).queue.nextSlot :: Inv.kept e.capacity is) := by
  obtain ⟨hroomy, hcapacity, -, hentry⟩ := h.inv.roomy_spec hc
  have hroom := Inv.length_kept_lt hc h.inv.length_le
  have hinv := hroomy.withNew (h.inv.roomy_absent hc hk) (hcapacity ▸ hroom)
  refine ⟨hinv, h.capacity_eq.trans hcapacity.symm, ?_⟩
  have hnew := entryAt?_withNew hroomy.guarded.wellFormed a
  simp only [List.filterMap_cons, hnew, if_true, ← h.kept_eq, List.cons.injEq, true_and]
  apply List.filterMap_congr
  intro j hj
  have hne : (Inv.roomy e).queue.nextSlot ≠ j := fun heq =>
    (List.nodup_cons.1 hinv.linked.nodup).1 (heq ▸ hj)
  rw [if_neg hne, hentry, if_pos hj]

theorem put (h : Mirrors e m is) (k : K) (v : V) (ttl : Duration) (now : Instant) :
    ∃ is', Mirrors (e.put k v ttl now) (m.put k v ttl now) is' := by
  rw [Recency.put]
  by_cases hc : e.capacity = 0
  · rw [Inv.put_zero hc, if_pos (h.capacity_eq.trans hc)]
    exact ⟨is, h⟩
  rw [if_neg (h.capacity_eq ▸ hc)]
  cases hk : e.table.get? k with
  | some i =>
    obtain ⟨a, ha, -⟩ := h.inv.tracks.exists_entry hk
    rw [Inv.put_tracked hk hc, h.find?_some hk ha]
    exact ⟨_, h.overwritten hk ha v⟩
  | none =>
    rw [Inv.put_new hk hc, h.find?_none hk]
    exact ⟨_, h.added hc hk⟩

/-- Dropping the expired entries in some slots drops those of the same keys from the list. -/
theorem expired (h : Mirrors e m is) (keys : K → Bool) {now : Instant} {slots : Nat → Bool}
    (agree : ∀ i a, entryAt? e.queue i = some a → keys a.key = slots i) {n : Nat} {e' : Lru K V}
    (hpurged : Inv.Purged e is (Sweep.doomed (entryAt? e.queue) now slots) n e') :
    n = (m.expire now keys).1 ∧
      Mirrors e' (m.expire now keys).2
        (is.filter fun i => !Sweep.doomed (entryAt? e.queue) now slots i) := by
  have hmirrors : Mirrors e' (m.expire now keys).2
      (is.filter fun i => !Sweep.doomed (entryAt? e.queue) now slots i) := by
    refine ⟨hpurged.inv, h.capacity_eq.trans hpurged.capacity_eq.symm, ?_⟩
    rw [Recency.expire, h.entries_eq, List.filter_filterMap, List.filterMap_filter]
    apply List.filterMap_congr
    intro j hj
    obtain ⟨a, ha⟩ := h.inv.exists_entry hj
    have hdoomed : Sweep.doomed (entryAt? e.queue) now slots j =
        (keys a.key && a.isExpired now) := by
      rw [Sweep.doomed, ha, agree j a ha]
      rfl
    rw [hpurged.entryAt?_eq, hdoomed, ha, Option.filter_some]
    cases keys a.key && a.isExpired now <;> rfl
  refine ⟨?_, hmirrors⟩
  have hsize := hpurged.size_eq
  rw [← hmirrors.length_eq, ← h.length_eq] at hsize
  have hsplit := List.length_eq_length_filter_add (l := m.entries) fun a =>
    keys a.key && a.isExpired now
  simp only [Recency.expire, List.countP_eq_length_filter] at hsize ⊢
  omega

theorem swept (h : Mirrors e m is) (cursor budget : Nat) (now : Instant) :
    let keys k := (e.table.get? k).any (Sweep.covers cursor budget)
    (e.sweep cursor budget now).1.removed = (m.expire now keys).1 ∧
      ∃ is', Mirrors (e.sweep cursor budget now).2 (m.expire now keys).2 is' := by
  intro keys
  obtain ⟨hcount, hmirrors⟩ := h.expired keys (fun i a hi => h.inv.tracks.any_get?_key hi _)
    (h.inv.sweep cursor budget now)
  exact ⟨hcount, _, hmirrors⟩

theorem purged (h : Mirrors e m is) (hcount : e.queue.slotCount ≤ Word.max) (now : Instant) :
    (e.purge now).1 = (m.expire now fun _ => true).1 ∧
      ∃ is', Mirrors (e.purge now).2 (m.expire now fun _ => true).2 is' := by
  obtain ⟨hremoved, hmirrors⟩ :=
    h.expired (fun _ => true) (fun _ _ _ => rfl) (h.inv.purge hcount now)
  exact ⟨hremoved, _, hmirrors⟩

theorem cleared (h : Mirrors e m is) : Mirrors e.clear { m with entries := [] } [] :=
  ⟨Inv.new e.capacity, h.capacity_eq, rfl⟩

/-- One request: the same answer, and the list goes on mirroring the engine. -/
theorem step (h : Mirrors e m is) (hcount : e.queue.slotCount ≤ Word.max) (r : Request K V) :
    ((Engine.lru e).step r).1.withoutCursor = (m.step e.table r).1 ∧
      ∃ e' is', ((Engine.lru e).step r).2 = .lru e' ∧ Mirrors e' (m.step e.table r).2 is' := by
  cases r with
  | get k now =>
    obtain ⟨hanswer, is', hmirrors⟩ := h.get k now
    exact ⟨congrArg Answer.read hanswer, _, is', rfl, hmirrors⟩
  | put k v ttl now =>
    obtain ⟨is', hmirrors⟩ := h.put k v ttl now
    exact ⟨rfl, _, is', rfl, hmirrors⟩
  | remove k =>
    obtain ⟨hanswer, is', hmirrors⟩ := h.remove k
    exact ⟨congrArg Answer.removed hanswer, _, is', rfl, hmirrors⟩
  | contains k =>
    refine ⟨?_, _, is, rfl, h⟩
    show Answer.found (e.table.get? k).isSome = Answer.found (m.find? k).isSome
    cases hk : e.table.get? k with
    | none =>
      rw [h.find?_none hk]
      rfl
    | some i =>
      obtain ⟨a, ha, -⟩ := h.inv.tracks.exists_entry hk
      rw [h.find?_some hk ha]
      rfl
  | size => exact ⟨congrArg Answer.count h.length_eq.symm, _, is, rfl, h⟩
  | clear => exact ⟨rfl, _, [], rfl, h.cleared⟩
  | sweep cursor budget now =>
    obtain ⟨hanswer, is', hmirrors⟩ := h.swept cursor budget now
    exact ⟨congrArg Answer.count hanswer, _, is', rfl, hmirrors⟩
  | purge now =>
    obtain ⟨hanswer, is', hmirrors⟩ := h.purged hcount now
    exact ⟨congrArg Answer.count hanswer, _, is', rfl, hmirrors⟩

end Mirrors

/-! ## The keys in order -/

omit [DecidableEq K] in
/-- The walk from a slot on collects the keys of the slots that follow, if there is room for one
more. -/
theorem keysFrom_eq {q : Queue K V} (xs ys : List Nat) (linked : Linked q (xs ++ ys))
    (entries : ∀ i ∈ ys, (entryAt? q i).isSome) {fuel room : Nat} (hfuel : ys.length < fuel)
    (hroom : ys.length < room) :
    keysFrom q fuel room (ys.head?.getD tail) =
      some (ys.filterMap fun i => (entryAt? q i).map Entry.key) := by
  induction ys generalizing xs fuel room with
  | nil =>
    obtain ⟨fuel, rfl⟩ := Nat.exists_eq_add_one_of_ne_zero (Nat.ne_of_gt hfuel)
    simp [keysFrom]
  | cons i ys ih =>
    obtain ⟨fuel, rfl⟩ := Nat.exists_eq_add_one_of_ne_zero (Nat.ne_of_gt (Nat.zero_lt_of_lt hfuel))
    rw [List.length_cons] at hfuel hroom
    have hi : i ≠ tail := linked.ne_tail (o := some i) (by simp) i rfl
    obtain ⟨a, ha⟩ := Option.isSome_iff_exists.1 (entries i (by simp))
    have hentry := ha
    have hnext := linked.next?_mem
    rw [entryAt?, Option.bind_eq_some_iff] at ha
    obtain ⟨⟨content, prev, next⟩, hnode, hcontent⟩ := ha
    simp only at hcontent
    subst hcontent
    rw [next?, hnode, Option.map_some, Option.some.injEq] at hnext
    simp only at hnext
    have hsplit : xs ++ i :: ys = (xs ++ [i]) ++ ys := by simp
    have hrest := ih (xs ++ [i]) (hsplit ▸ linked)
      (fun j hj => entries j (List.mem_cons_of_mem _ hj)) (Nat.lt_of_succ_lt_succ hfuel)
      (show ys.length < room - 1 by omega)
    rw [List.head?_cons, Option.getD_some, keysFrom, if_neg hi]
    simp only [hnode, hnext, hrest]
    rw [if_neg (by omega)]
    simp [hentry]

omit [DecidableEq K] in
theorem keys?_eq (linked : Linked e.queue is) (mem_iff : ∀ i, i ∈ is ↔ (entryAt? e.queue i).isSome)
    (hlength : e.size = is.length) :
    e.keys? = some (is.filterMap fun i => (entryAt? e.queue i).map Entry.key) := by
  have hcount := linked.length_le_slotCount
  rw [keys?, Queue.keys?, linked.next?_head]
  refine keysFrom_eq [] is linked (fun i hi => (mem_iff i).1 hi) ?_ ?_
  · calc is.length < e.queue.slotCount + 1 := Nat.lt_succ_of_le hcount
      _ ≤ (Queue.length e.queue + 2) * (e.queue.slotCount + 1) := Nat.le_mul_of_pos_left _ (by omega)
  · rw [← hlength]
    exact Nat.lt_succ_self _

theorem Mirrors.keys?_eq (h : Mirrors e m is) : e.keys? = some (m.entries.map Entry.key) := by
  rw [Lru.keys?_eq h.inv.linked h.inv.mem_iff h.inv.size_eq, h.entries_eq, List.map_filterMap]

/-- The list mirrors the engine, whose slots words can count for so many requests to come. -/
def MirrorsFor (n : Nat) (engine : Engine K V) (m : Recency K V) : Prop :=
  ∃ e is, engine = .lru e ∧ Mirrors e m is ∧
    min (e.capacity + sentinels) (e.queue.slotCount + n) ≤ Word.max

theorem MirrorsFor.step {n : Nat} {engine : Engine K V} (h : MirrorsFor (n + 1) engine m)
    (r : Request K V) :
    (engine.step r).1.withoutCursor = (m.step engine.table r).1 ∧
      MirrorsFor n (engine.step r).2 (m.step engine.table r).2 := by
  obtain ⟨e, is, rfl, hmirrors, hfits⟩ := h
  have hle := hmirrors.inv.slotCount_le
  have hsound : (Engine.lru e).Sound := ⟨is, hmirrors.inv⟩
  obtain ⟨hanswer, e', is', he', hmirrors'⟩ := hmirrors.step (by omega) r
  refine ⟨hanswer, e', is', he', hmirrors', ?_⟩
  have hsteady := hsound.steady_step r
  rw [he'] at hsteady
  have hcapacity : e'.capacity = e.capacity := hsteady.capacity_eq
  have hcount : e'.queue.slotCount ≤ e.queue.slotCount + 1 := hsteady.slotCount_le
  omega

/-- Over every run that words can count, the engine answers as a plain recency list does, and holds
the keys of the list in its order. Only a run of about as many requests as there are words, at a
capacity next to the largest word, could have more slots than words count. -/
theorem run_eq_recency (capacity : Nat) (requests : List (Request K V))
    (fits : min capacity requests.length + sentinels ≤ Word.max) :
    let engine : Engine K V := .new .lru capacity
    let model := Reference.run Recency.step { capacity } (Reference.observed engine requests)
    (engine.run requests).1.map Answer.withoutCursor = model.1 ∧
      ∃ e, (engine.run requests).2 = .lru e ∧ e.keys? = some (model.2.entries.map Entry.key) ∧
        e.size = model.2.entries.length := by
  intro engine model
  have hstart : MirrorsFor requests.length engine { capacity } := by
    refine ⟨_, [], rfl, Mirrors.new capacity, ?_⟩
    have hcount : (new capacity : Lru K V).queue.slotCount = sentinels := rfl
    have hcapacity : (new capacity : Lru K V).capacity = capacity := rfl
    rw [hcount, hcapacity]
    omega
  obtain ⟨hanswers, e, is, he, hmirrors, -⟩ :=
    Reference.run_agrees (fun n _ _ r h => MirrorsFor.step h r) requests hstart
  exact ⟨hanswers, e, he, hmirrors.keys?_eq, hmirrors.length_eq.symm⟩

/-- A full queue of two, with a read between the writes and a pass at the end. -/
theorem run_eq_recency_two :
    let requests : List (Request Nat Nat) :=
      [.put 1 10 (.ofSecs 5) .origin, .put 2 20 (.ofSecs 5) .origin, .get 1 (.ofMillis 3000),
        .put 3 30 (.ofSecs 5) (.ofMillis 4000), .purge (.ofMillis 5000)]
    let engine : Engine Nat Nat := .new .lru 2
    let model := Reference.run Recency.step { capacity := 2 } (Reference.observed engine requests)
    min 2 requests.length + sentinels ≤ Word.max ∧
    (engine.run requests).1.map Answer.withoutCursor = model.1 ∧
      ∃ e, (engine.run requests).2 = .lru e ∧ e.keys? = some (model.2.entries.map Entry.key) ∧
        e.size = model.2.entries.length :=
  ⟨by decide, run_eq_recency 2 _ (by decide)⟩

end BoundedCache.Lru
