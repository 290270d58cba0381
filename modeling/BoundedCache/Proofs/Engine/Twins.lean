import BoundedCache.Proofs.Engine.Storage
import BoundedCache.Proofs.Requests
import Mathlib.Data.List.Dedup

/-! # Without eviction the policy is not seen

Engines of both policies use their slots alike, except that the first slots of the one hold the
sentinels. As long as there is room for every key that is mentioned, neither makes room, so the slots
of the one are those of the other, shifted.
-/
namespace BoundedCache.Engine
variable {K V : Type} [DecidableEq K]

/-- A least recently and a least frequently used engine with the same entries, the one after its
sentinels; each entry and each slot stands for one of the keys. -/
structure Twins (capacity : Nat) (keys : List K) (e f : Engine K V) : Prop where
  kind_eq : e.kind = (.lru, capacity)
  kind_eq' : f.kind = (.lfu, capacity)
  sound : e.Sound
  sound' : f.Sound
  free_eq : e.free = f.free.map (· + Lru.sentinels)
  slotCount_eq : e.slotCount = f.slotCount + Lru.sentinels
  slotCount_le : f.slotCount ≤ keys.length
  entryAt?_eq : ∀ i, e.entryAt? (i + Lru.sentinels) = f.entryAt? i
  known : ∀ i a, f.entryAt? i = some a → a.key ∈ keys

variable {capacity : Nat} {keys : List K} {e f : Engine K V} {i : Nat} {a : Entry K V} {k : K}
  {now : Instant}

namespace Twins

theorem new (capacity : Nat) (keys : List K) :
    Twins capacity keys (new .lru capacity : Engine K V) (new .lfu capacity) where
  kind_eq := rfl
  kind_eq' := rfl
  sound := .new ..
  sound' := .new ..
  free_eq := rfl
  slotCount_eq := rfl
  slotCount_le := Nat.zero_le _
  entryAt?_eq i := by rw [entryAt?_new, entryAt?_new]
  known i a hi := by
    rw [entryAt?_new] at hi
    cases hi

theorem firstSlot_eq (h : Twins capacity keys e f) : e.firstSlot = Lru.sentinels := by
  have hkind := h.kind_eq
  cases e with
  | lru e => rfl
  | lfu e => cases hkind

theorem firstSlot_eq' (h : Twins capacity keys e f) : f.firstSlot = 0 := by
  have hkind := h.kind_eq'
  cases f with
  | lru f => cases hkind
  | lfu f => rfl

/-- The tables lead to the same slots, shifted. -/
theorem table_eq (h : Twins capacity keys e f) (k : K) :
    e.table.get? k = (f.table.get? k).map (· + Lru.sentinels) := by
  apply Option.ext
  intro j
  rw [h.sound.tracks k j, Option.map_eq_some_iff, Option.map_eq_some_iff]
  constructor
  · rintro ⟨a, ha, rfl⟩
    rcases Nat.lt_or_ge j Lru.sentinels with hlt | hge
    · rw [h.sound.entryAt?_of_lt (h.firstSlot_eq ▸ hlt)] at ha
      cases ha
    · obtain ⟨i, rfl⟩ := Nat.exists_eq_add_of_le' hge
      rw [h.entryAt?_eq] at ha
      exact ⟨i, h.sound'.tracks.get?_key ha, rfl⟩
  · rintro ⟨i, hi, rfl⟩
    rw [h.entryAt?_eq]
    exact h.sound'.tracks.exists_entry hi

theorem contains_eq (h : Twins capacity keys e f) (k : K) : e.contains k = f.contains k := by
  rw [contains_eq_isSome, contains_eq_isSome, h.table_eq, Option.isSome_map]

theorem size_eq (h : Twins capacity keys e f) : e.size = f.size := by
  rw [← h.sound.table_size_eq, ← h.sound'.table_size_eq]
  refine Dict.size_congr fun k => ?_
  rw [h.table_eq, Option.isSome_map]

/-- There is room for a key that is not tracked yet. -/
theorem size_lt (h : Twins capacity keys e f) (hk : k ∈ keys) (hnew : f.table.get? k = none) :
    f.size < keys.length := by
  have hnodup : (k :: f.table.keys).Nodup := by
    refine List.nodup_cons.2 ⟨fun hmem => ?_, f.table.nodup⟩
    have hsome := (Dict.mem_keys_iff ..).1 hmem
    rw [hnew] at hsome
    cases hsome
  have hsub : k :: f.table.keys ⊆ keys := by
    refine List.cons_subset.2 ⟨hk, fun j hj => ?_⟩
    obtain ⟨i, hi⟩ := Option.isSome_iff_exists.1 ((Dict.mem_keys_iff ..).1 hj)
    obtain ⟨a, ha, rfl⟩ := h.sound'.tracks.exists_entry hi
    exact h.known i a ha
  have hle := (List.subperm_of_subset hnodup hsub).length_le
  rw [List.length_cons, Dict.keys, List.length_map] at hle
  rw [← h.sound'.table_size_eq]
  exact hle

theorem size_lt_capacity (h : Twins capacity keys e f) (room : keys.length ≤ capacity)
    (hk : k ∈ keys) (hnew : f.table.get? k = none) : e.size < e.capacity ∧ f.size < f.capacity := by
  have hcapacity : e.capacity = capacity := congrArg Prod.snd h.kind_eq
  have hcapacity' : f.capacity = capacity := congrArg Prod.snd h.kind_eq'
  have hlt := h.size_lt hk hnew
  rw [h.size_eq, hcapacity, hcapacity']
  omega

theorem nextSlot_eq (h : Twins capacity keys e f) : e.nextSlot = f.nextSlot + Lru.sentinels := by
  rw [nextSlot, nextSlot, h.free_eq, h.slotCount_eq]
  cases f.free <;> rfl

/-! ## What happens to both -/

theorem without (h : Twins capacity keys e f) (hi : f.entryAt? i = some a) :
    Twins capacity keys (e.without (i + Lru.sentinels) a) (f.without i a) := by
  have hi' := (h.entryAt?_eq i).trans hi
  refine ⟨(kind_without ..).trans h.kind_eq, (kind_without ..).trans h.kind_eq',
    h.sound.without hi', h.sound'.without hi, ?_, ?_, ?_, fun j => ?_, fun j b hb => ?_⟩
  · rw [free_without hi', free_without hi, h.free_eq, List.map_cons]
  · rw [slotCount_without, slotCount_without, h.slotCount_eq]
  · rw [slotCount_without]
    exact h.slotCount_le
  · rw [entryAt?_without, entryAt?_without, h.entryAt?_eq]
    simp only [Nat.add_right_cancel_iff]
  · rw [entryAt?_without] at hb
    split at hb
    · cases hb
    · exact h.known j b hb

theorem used (h : Twins capacity keys e f) (hi : f.entryAt? i = some a) :
    Twins capacity keys (e.used (i + Lru.sentinels)) (f.used i) := by
  have hi' := (h.entryAt?_eq i).trans hi
  refine ⟨(kind_used ..).trans h.kind_eq, (kind_used ..).trans h.kind_eq', h.sound.used hi',
    h.sound'.used hi, ?_, ?_, ?_, fun j => ?_, fun j b hb => ?_⟩
  · rw [free_used, free_used, h.free_eq]
  · rw [slotCount_used, slotCount_used, h.slotCount_eq]
  · rw [slotCount_used]
    exact h.slotCount_le
  · rw [entryAt?_used, entryAt?_used, h.entryAt?_eq]
  · rw [entryAt?_used] at hb
    exact h.known j b hb

theorem overwritten (h : Twins capacity keys e f) (hi : f.entryAt? i = some a) (v : V) :
    Twins capacity keys (e.overwritten (i + Lru.sentinels) v) (f.overwritten i v) := by
  have hi' := (h.entryAt?_eq i).trans hi
  refine ⟨(kind_overwritten ..).trans h.kind_eq, (kind_overwritten ..).trans h.kind_eq',
    h.sound.overwritten hi' v, h.sound'.overwritten hi v, ?_, ?_, ?_, fun j => ?_, fun j b hb => ?_⟩
  · rw [free_overwritten, free_overwritten, h.free_eq]
  · rw [slotCount_overwritten, slotCount_overwritten, h.slotCount_eq]
  · rw [slotCount_overwritten]
    exact h.slotCount_le
  · rw [entryAt?_overwritten, entryAt?_overwritten, h.entryAt?_eq]
    simp only [Nat.add_right_cancel_iff]
  · rw [entryAt?_overwritten] at hb
    split at hb
    · obtain ⟨c, hc, rfl⟩ := Option.map_eq_some_iff.1 hb
      exact h.known j c hc
    · exact h.known j b hb

theorem withNew (h : Twins capacity keys e f) (room : keys.length ≤ capacity) (ha : a.key ∈ keys)
    (hnew : f.table.get? a.key = none) : Twins capacity keys (e.withNew a) (f.withNew a) := by
  obtain ⟨hroom, hroom'⟩ := h.size_lt_capacity room ha hnew
  have hnew' : e.table.get? a.key = none := by rw [h.table_eq, hnew, Option.map_none]
  refine ⟨(kind_withNew ..).trans h.kind_eq, (kind_withNew ..).trans h.kind_eq',
    h.sound.withNew hnew' hroom, h.sound'.withNew hnew hroom', ?_, ?_, ?_, fun j => ?_,
    fun j b hb => ?_⟩
  · rw [free_withNew, free_withNew, h.free_eq, List.map_tail]
  · rw [h.sound.slotCount_withNew, h.sound'.slotCount_withNew, h.slotCount_eq, h.nextSlot_eq]
    omega
  · have hcount : f.slotCount ≤ keys.length + f.firstSlot := by
      rw [h.firstSlot_eq']
      exact h.slotCount_le
    have hle := h.sound'.slotCount_withNew_le hcount (h.size_lt ha hnew) a
    rwa [h.firstSlot_eq'] at hle
  · rw [h.sound.entryAt?_withNew, h.sound'.entryAt?_withNew, h.entryAt?_eq, h.nextSlot_eq]
    simp only [Nat.add_right_cancel_iff]
  · rw [h.sound'.entryAt?_withNew] at hb
    split at hb
    · cases hb
      exact ha
    · exact h.known j b hb

/-! ## Requests -/

theorem get (h : Twins capacity keys e f) (k : K) (now : Instant) :
    (e.get k now).1 = (f.get k now).1 ∧ Twins capacity keys (e.get k now).2 (f.get k now).2 := by
  have hk' := h.table_eq k
  cases hk : f.table.get? k with
  | none =>
    rw [hk, Option.map_none] at hk'
    rw [get_absent hk', get_absent hk]
    exact ⟨rfl, h⟩
  | some i =>
    obtain ⟨a, hi, -⟩ := h.sound'.tracks.exists_entry hk
    rw [hk, Option.map_some] at hk'
    rw [h.sound.get_of_slot hk' ((h.entryAt?_eq i).trans hi), h.sound'.get_of_slot hk hi]
    split
    · exact ⟨rfl, h.without hi⟩
    · exact ⟨rfl, h.used hi⟩

theorem put (h : Twins capacity keys e f) (room : keys.length ≤ capacity) (hmem : k ∈ keys) (v : V)
    (ttl : Duration) (now : Instant) :
    Twins capacity keys (e.put k v ttl now) (f.put k v ttl now) := by
  have hpos := List.length_pos_of_mem hmem
  have hcapacity : e.capacity = capacity := congrArg Prod.snd h.kind_eq
  have hcapacity' : f.capacity = capacity := congrArg Prod.snd h.kind_eq'
  have hk' := h.table_eq k
  cases hk : f.table.get? k with
  | none =>
    obtain ⟨hroom, hroom'⟩ := h.size_lt_capacity room hmem hk
    rw [hk, Option.map_none] at hk'
    rw [put_new hk' hroom, put_new hk hroom']
    exact h.withNew room hmem hk
  | some i =>
    obtain ⟨a, hi, -⟩ := h.sound'.tracks.exists_entry hk
    rw [hk, Option.map_some] at hk'
    rw [put_of_slot hk' (by omega), put_of_slot hk (by omega)]
    exact h.overwritten hi v

theorem remove (h : Twins capacity keys e f) (k : K) :
    (e.remove k).1 = (f.remove k).1 ∧ Twins capacity keys (e.remove k).2 (f.remove k).2 := by
  have hk' := h.table_eq k
  cases hk : f.table.get? k with
  | none =>
    rw [hk, Option.map_none] at hk'
    rw [remove_absent hk', remove_absent hk]
    exact ⟨rfl, h⟩
  | some i =>
    obtain ⟨a, hi, -⟩ := h.sound'.tracks.exists_entry hk
    rw [hk, Option.map_some] at hk'
    rw [h.sound.remove_of_slot hk' ((h.entryAt?_eq i).trans hi), h.sound'.remove_of_slot hk hi]
    exact ⟨rfl, h.without hi⟩

theorem clear (h : Twins capacity keys e f) : Twins capacity keys e.clear f.clear := by
  obtain ⟨hpolicy, hcapacity⟩ := Prod.mk.inj h.kind_eq
  obtain ⟨hpolicy', hcapacity'⟩ := Prod.mk.inj h.kind_eq'
  rw [clear_eq, clear_eq, hpolicy, hcapacity, hpolicy', hcapacity']
  exact new capacity keys

theorem reclaim (h : Twins capacity keys e f) (now : Instant) (i : Nat) :
    (e.reclaim now (i + Lru.sentinels)).1 = (f.reclaim now i).1 ∧
      Twins capacity keys (e.reclaim now (i + Lru.sentinels)).2 (f.reclaim now i).2 := by
  have hentry := h.entryAt?_eq i
  by_cases hx : ∃ a, f.entryAt? i = some a ∧ a.isExpired now = true
  · obtain ⟨a, hi, hx⟩ := hx
    rw [h.sound.reclaim_expired (hentry.trans hi) hx, h.sound'.reclaim_expired hi hx]
    exact ⟨rfl, h.without hi⟩
  · have hlive : ∀ a, f.entryAt? i = some a → a.isExpired now = false := by
      intro a hi
      rw [← Bool.not_eq_true]
      exact fun hexpired => hx ⟨a, hi, hexpired⟩
    rw [reclaim_live (by rwa [hentry]), reclaim_live hlive]
    exact ⟨rfl, h⟩

/-- Visits of the same slots, shifted, go side by side. -/
theorem visit (h : Twins capacity keys e f) (now : Instant) (is : List Nat) :
    (Sweep.visit (Engine.reclaim now) (is.map (· + Lru.sentinels)) e).1 =
        (Sweep.visit (Engine.reclaim now) is f).1 ∧
      Twins capacity keys (Sweep.visit (Engine.reclaim now) (is.map (· + Lru.sentinels)) e).2
        (Sweep.visit (Engine.reclaim now) is f).2 := by
  induction is generalizing e f with
  | nil => exact ⟨rfl, h⟩
  | cons i is ih =>
    obtain ⟨hgone, hnext⟩ := h.reclaim now i
    obtain ⟨hcount, hlast⟩ := ih hnext
    refine ⟨?_, hlast⟩
    rw [List.map_cons, Sweep.visit, Sweep.visit]
    simp only [hgone, hcount]

theorem purge (h : Twins capacity keys e f) (fits : keys.length + Lru.sentinels ≤ Word.max)
    (now : Instant) :
    (e.purge now).1 = (f.purge now).1 ∧ Twins capacity keys (e.purge now).2 (f.purge now).2 := by
  have hle := h.slotCount_le
  have hcount := h.slotCount_eq
  have hslots : Sweep.slots e.firstSlot e.slotCount =
      (Sweep.slots f.firstSlot f.slotCount).map (· + Lru.sentinels) := by
    rw [h.firstSlot_eq, h.firstSlot_eq', hcount, Sweep.slots, Sweep.slots, Nat.add_sub_cancel,
      Nat.sub_zero, List.range'_eq_map_range, ← List.range_eq_range']
    exact List.map_congr_left fun i _ => Nat.add_comm ..
  rw [e.purge_eq_visit now (by omega), f.purge_eq_visit now (by omega), hslots]
  exact h.visit now _

/-- A request of a known key, or of none, has the same answer and leaves the engines alike. -/
theorem step (h : Twins capacity keys e f) (room : keys.length ≤ capacity)
    (fits : keys.length + Lru.sentinels ≤ Word.max) {r : Request K V} (noSweep : r.isSweep = false)
    (hmem : ∀ k ∈ r.key?, k ∈ keys) :
    (e.step r).1 = (f.step r).1 ∧ Twins capacity keys (e.step r).2 (f.step r).2 := by
  cases r with
  | get k now =>
    obtain ⟨hanswer, hnext⟩ := h.get k now
    exact ⟨congrArg Answer.read hanswer, hnext⟩
  | put k v ttl now => exact ⟨rfl, h.put room (hmem k rfl) v ttl now⟩
  | remove k =>
    obtain ⟨hanswer, hnext⟩ := h.remove k
    exact ⟨congrArg Answer.removed hanswer, hnext⟩
  | contains k => exact ⟨congrArg Answer.found (h.contains_eq k), h⟩
  | size => exact ⟨congrArg Answer.count h.size_eq, h⟩
  | clear => exact ⟨rfl, h.clear⟩
  | sweep cursor budget now => cases noSweep
  | purge now =>
    obtain ⟨hanswer, hnext⟩ := h.purge fits now
    exact ⟨congrArg Answer.count hanswer, hnext⟩

theorem run (h : Twins capacity keys e f) (room : keys.length ≤ capacity)
    (fits : keys.length + Lru.sentinels ≤ Word.max) {requests : List (Request K V)}
    (noSweep : ∀ r ∈ requests, r.isSweep = false)
    (hmem : requests.filterMap Request.key? ⊆ keys) :
    (e.run requests).1 = (f.run requests).1 ∧
      Twins capacity keys (e.run requests).2 (f.run requests).2 := by
  induction requests generalizing e f with
  | nil => exact ⟨rfl, h⟩
  | cons r rest ih =>
    obtain ⟨hsweep, hrest⟩ := List.forall_mem_cons.1 noSweep
    have hkey : ∀ k ∈ r.key?, k ∈ keys := fun k hk =>
      hmem (List.mem_filterMap.2 ⟨r, List.mem_cons_self, hk⟩)
    obtain ⟨hanswer, hnext⟩ := h.step room fits hsweep hkey
    obtain ⟨hanswers, hlast⟩ := ih hnext hrest fun k hk => by
      obtain ⟨r', hr', hrk⟩ := List.mem_filterMap.1 hk
      exact hmem (List.mem_filterMap.2 ⟨r', List.mem_cons_of_mem r hr', hrk⟩)
    exact ⟨congrArg₂ List.cons hanswer hanswers, hlast⟩

end Twins

/-- Engines of both policies with room for every key that is mentioned give the same answers, and at
every point their tables lead to the same slots, after the sentinels in the one. Only as many keys as
there are words could have more slots than a pass can count. -/
theorem run_policy_unobservable (capacity : Nat) (requests : List (Request K V))
    (noSweep : ∀ r ∈ requests, r.isSweep = false)
    (room : (requests.filterMap Request.key?).dedup.length ≤ capacity)
    (fits : (requests.filterMap Request.key?).dedup.length + Lru.sentinels ≤ Word.max) :
    let lru : Engine K V := .new .lru capacity
    let lfu : Engine K V := .new .lfu capacity
    (lru.run requests).1 = (lfu.run requests).1 ∧
      ∀ done, done <+: requests → ∀ k,
        (lru.run done).2.table.get? k =
          ((lfu.run done).2.table.get? k).map (· + Lru.sentinels) := by
  intro lru lfu
  have hstart : Twins capacity (requests.filterMap Request.key?).dedup lru lfu := .new ..
  have hmem : requests.filterMap Request.key? ⊆ (requests.filterMap Request.key?).dedup :=
    fun k hk => List.mem_dedup.2 hk
  refine ⟨(hstart.run room fits noSweep hmem).1, fun done hdone k => ?_⟩
  have hdoneMem := List.Subset.trans (hdone.sublist.filterMap Request.key?).subset hmem
  exact (hstart.run room fits (fun r hr => noSweep r (hdone.subset hr)) hdoneMem).2.table_eq k

/-- Two full engines, with an entry that a read finds expired, one that a pass finds expired, and a
slot that is used again. -/
theorem run_policy_unobservable_two :
    let requests : List (Request Nat Nat) :=
      [.put 1 10 (.ofSecs 2) .origin, .put 2 20 (.ofSecs 9) .origin, .get 1 (.ofMillis 5000),
        .get 2 (.ofMillis 1000), .put 1 11 .zero .origin, .purge .origin, .contains 1, .size,
        .remove 2, .clear]
    let lru : Engine Nat Nat := .new .lru 2
    let lfu : Engine Nat Nat := .new .lfu 2
    (∀ r ∈ requests, r.isSweep = false) ∧
      (requests.filterMap Request.key?).dedup.length ≤ 2 ∧
      (requests.filterMap Request.key?).dedup.length + Lru.sentinels ≤ Word.max ∧
      (lru.run requests).1 = (lfu.run requests).1 ∧
      ∀ k, (lru.run (requests.take 8)).2.table.get? k =
        ((lfu.run (requests.take 8)).2.table.get? k).map (· + Lru.sentinels) := by
  intro requests lru lfu
  have hsweep : ∀ r ∈ requests, r.isSweep = false := by decide
  have hroom : (requests.filterMap Request.key?).dedup.length ≤ 2 := by decide
  have hfits : (requests.filterMap Request.key?).dedup.length + Lru.sentinels ≤ Word.max := by decide
  obtain ⟨hanswers, htables⟩ := run_policy_unobservable 2 requests hsweep hroom hfits
  exact ⟨hsweep, hroom, hfits, hanswers, htables _ (List.take_prefix 8 requests)⟩

end BoundedCache.Engine
