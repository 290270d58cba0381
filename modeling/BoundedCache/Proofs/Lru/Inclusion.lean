import BoundedCache.Proofs.Engine.Soundness
import BoundedCache.Proofs.Lru.Recency

/-! # A bigger least recently used engine never loses a hit

The entries of the smaller engine are a part of those of the bigger one, in the same order. They stay
so because the smaller engine never has more room left: when the bigger one is full and drops its
last entry, the smaller one is full as well, and if it still holds that entry, then as its last one.
-/
namespace BoundedCache

namespace Recency
variable {K V : Type} {m m' : Recency K V} {k : K} {a a' : Entry K V} {now : Instant}

/-- What an entry shows of its key and value. -/
def binding (a : Entry K V) : K × V := (a.key, a.value)

/-- A list with one entry for a key at the most, and no more than there is room for. -/
structure Tidy (m : Recency K V) : Prop where
  nodup : (m.entries.map Entry.key).Nodup
  length_le : m.entries.length ≤ m.capacity

/-- One list has a part of the other's keys, with the same values and in the same order, and has no
more room left. -/
structure Included (m m' : Recency K V) : Prop where
  capacity_le : m.capacity ≤ m'.capacity
  sublist : (m.entries.map binding).Sublist (m'.entries.map binding)
  room_le : m.capacity - m.entries.length ≤ m'.capacity - m'.entries.length

theorem sublist_dropLast {α : Type} {xs ys : List α} (h : xs.Sublist ys) :
    xs.dropLast.Sublist ys.dropLast := by
  have htail := h.reverse.tail
  rw [List.tail_reverse, List.tail_reverse] at htail
  exact List.reverse_sublist.1 htail

/-- What a list keeps to make room for a new entry. -/
def kept (m : Recency K V) : List (Entry K V) :=
  if m.capacity ≤ m.entries.length then m.entries.dropLast else m.entries

theorem kept_sublist (m : Recency K V) : m.kept.Sublist m.entries := by
  rw [kept]
  split
  · exact List.dropLast_sublist _
  · exact List.Sublist.refl _

theorem Tidy.length_kept (h : m.Tidy) : m.kept.length = min m.entries.length (m.capacity - 1) := by
  have hlength := h.length_le
  rw [kept]
  split
  · rw [List.length_dropLast]
    omega
  · omega

/-- If the bigger list has to drop its last entry, the smaller one is full too. -/
theorem Included.kept (h : Included m m') :
    (m.kept.map binding).Sublist (m'.kept.map binding) := by
  have hroom := h.room_le
  by_cases hfull : m'.capacity ≤ m'.entries.length
  · rw [Recency.kept, if_pos (by omega), Recency.kept, if_pos hfull, List.map_dropLast,
      List.map_dropLast]
    exact sublist_dropLast h.sublist
  · rw [Recency.kept.eq_1 m', if_neg hfull]
    exact ((kept_sublist m).map binding).trans h.sublist

variable [DecidableEq K]

theorem put_tracked (hc : m.capacity ≠ 0) (hk : m.find? k = some a) (v : V) (ttl : Duration)
    (now : Instant) :
    m.put k v ttl now = { m with entries := { a with value := v } :: m.others k } := by
  rw [put, if_neg hc, hk]

theorem put_new (hc : m.capacity ≠ 0) (hk : m.find? k = none) (v : V) (ttl : Duration)
    (now : Instant) :
    m.put k v ttl now =
      { m with entries := { key := k, value := v, createdAt := now, ttl } :: m.kept } := by
  rw [put, if_neg hc, hk]
  rfl

theorem Tidy.find?_eq_some_iff (h : m.Tidy) : m.find? k = some a ↔ a ∈ m.entries ∧ a.key = k := by
  constructor
  · intro hk
    exact ⟨List.mem_of_find?_eq_some hk, by simpa using List.find?_some hk⟩
  · rintro ⟨ha, rfl⟩
    cases hk : m.find? a.key with
    | none => simpa using List.find?_eq_none.1 hk a ha
    | some b =>
      have hb : b.key = a.key := by simpa using List.find?_some hk
      rw [List.inj_on_of_nodup_map h.nodup (List.mem_of_find?_eq_some hk) ha hb]

/-- Exactly one entry is under a key that is found. -/
theorem Tidy.length_others (h : m.Tidy) (hk : m.find? k = some a) :
    (m.others k).length + 1 = m.entries.length := by
  obtain ⟨ha, hak⟩ := h.find?_eq_some_iff.1 hk
  have hcount : (m.entries.map Entry.key).count k = 1 :=
    List.count_eq_one_of_mem h.nodup (List.mem_map.2 ⟨a, ha, hak⟩)
  rw [List.count, List.countP_map, List.countP_eq_length_filter] at hcount
  have hsplit := List.length_eq_length_filter_add (l := m.entries) fun a => decide (a.key ≠ k)
  have hother : (fun a : Entry K V => !decide (a.key ≠ k)) = (· == k) ∘ Entry.key := by
    funext a
    rw [decide_not, Bool.not_not]
    rfl
  rw [hsplit, hother, hcount, others]

namespace Included

theorem find?_eq_some (h : Included m m') (tidy : m.Tidy) (tidy' : m'.Tidy)
    (hk : m.find? k = some a) : ∃ a', m'.find? k = some a' ∧ a'.value = a.value := by
  obtain ⟨ha, hak⟩ := tidy.find?_eq_some_iff.1 hk
  obtain ⟨a', ha', hbinding⟩ := List.mem_map.1 (h.sublist.subset (List.mem_map_of_mem ha))
  obtain ⟨hkey, hvalue⟩ := Prod.mk.inj hbinding
  exact ⟨a', tidy'.find?_eq_some_iff.2 ⟨ha', hkey.trans hak⟩, hvalue⟩

theorem others (h : Included m m') (k : K) :
    ((m.others k).map binding).Sublist ((m'.others k).map binding) := by
  have hothers (m : Recency K V) :
      (m.others k).map binding = (m.entries.map binding).filter fun b => decide (b.1 ≠ k) := by
    rw [List.filter_map]
    rfl
  rw [hothers, hothers]
  exact h.sublist.filter _

/-- Using a key in both lists, with one value. -/
theorem used (h : Included m m') (tidy : m.Tidy) (tidy' : m'.Tidy) (hk : m.find? k = some a)
    (hk' : m'.find? k = some a') {b b' : Entry K V} (hb : binding b = binding b') :
    Included { m with entries := b :: m.others k } { m' with entries := b' :: m'.others k } where
  capacity_le := h.capacity_le
  sublist := by
    rw [List.map_cons, List.map_cons, hb]
    exact (h.others k).cons_cons _
  room_le := by
    simp only [List.length_cons, tidy.length_others hk, tidy'.length_others hk']
    exact h.room_le

theorem get (h : Included m m') (tidy : m.Tidy) (tidy' : m'.Tidy)
    (live : ∀ a ∈ m.entries, a.isExpired now = false)
    (live' : ∀ a ∈ m'.entries, a.isExpired now = false) (k : K) :
    (∀ v, (m.get k now).1 = .ok v → (m'.get k now).1 = .ok v) ∧
      Included (m.get k now).2 (m'.get k now).2 := by
  have hlive {a} (hk : m.find? k = some a) := live a (List.mem_of_find?_eq_some hk)
  have hlive' {a} (hk : m'.find? k = some a) := live' a (List.mem_of_find?_eq_some hk)
  rw [Recency.get, Recency.get]
  cases hk : m.find? k with
  | some a =>
    obtain ⟨a', hk', hvalue⟩ := h.find?_eq_some tidy tidy' hk
    have hbinding : binding a = binding a' := by
      rw [binding, binding, (tidy.find?_eq_some_iff.1 hk).2, (tidy'.find?_eq_some_iff.1 hk').2,
        hvalue]
    simp only [hk', hlive hk, hlive' hk', Bool.false_eq_true, if_false, hvalue]
    exact ⟨fun _ => id, h.used tidy tidy' hk hk' hbinding⟩
  | none =>
    refine ⟨fun v hv => (by cases hv), ?_⟩
    cases hk' : m'.find? k with
    | none => exact h
    | some a' =>
      -- a hit of the bigger list only: its order changes before a key that the smaller one lacks
      have hothers := h.others k
      rw [others_of_find?_eq_none hk] at hothers
      simp only [hlive' hk', Bool.false_eq_true, if_false]
      refine ⟨h.capacity_le, hothers.cons _, ?_⟩
      simp only [List.length_cons, tidy'.length_others hk']
      exact h.room_le

theorem put (h : Included m m') (tidy : m.Tidy) (tidy' : m'.Tidy) (k : K) (v : V) (ttl : Duration)
    (now : Instant) : Included (m.put k v ttl now) (m'.put k v ttl now) := by
  have hle := h.capacity_le
  have hroom := h.room_le
  have hlength := tidy.length_le
  by_cases hc : m.capacity = 0
  · -- a list without room stays empty
    have hnil : m.entries = [] := List.length_eq_zero_iff.1 (by omega)
    rw [Recency.put, if_pos hc]
    refine ⟨?_, by simp [hnil], by omega⟩
    rw [hc]
    exact Nat.zero_le _
  have hc' : m'.capacity ≠ 0 := by omega
  cases hk : m.find? k with
  | some a =>
    obtain ⟨a', hk', -⟩ := h.find?_eq_some tidy tidy' hk
    have hbinding : binding { a with value := v } = binding { a' with value := v } := by
      rw [binding, binding, (tidy.find?_eq_some_iff.1 hk).2, (tidy'.find?_eq_some_iff.1 hk').2]
    rw [put_tracked hc hk, put_tracked hc' hk']
    exact h.used tidy tidy' hk hk' hbinding
  | none =>
    have hkept := tidy.length_kept
    rw [put_new hc hk]
    cases hk' : m'.find? k with
    | some a' =>
      have hothers := h.others k
      have hone' := tidy'.length_others hk'
      rw [others_of_find?_eq_none hk] at hothers
      rw [put_tracked hc' hk']
      refine ⟨hle, ?_, ?_⟩
      · simp only [List.map_cons, binding, (tidy'.find?_eq_some_iff.1 hk').2]
        exact (((kept_sublist m).map binding).trans hothers).cons_cons _
      · simp only [List.length_cons]
        omega
    | none =>
      have hkept' := tidy'.length_kept
      rw [put_new hc' hk']
      refine ⟨hle, h.kept.cons_cons _, ?_⟩
      simp only [List.length_cons]
      omega

theorem remove (h : Included m m') (tidy : m.Tidy) (tidy' : m'.Tidy) (k : K) :
    Included (m.remove k).2 (m'.remove k).2 := by
  refine ⟨h.capacity_le, h.others k, ?_⟩
  have hroom := h.room_le
  have hlength := tidy.length_le
  have hlength' := tidy'.length_le
  simp only [Recency.remove]
  cases hk : m.find? k with
  | some a =>
    obtain ⟨a', hk', -⟩ := h.find?_eq_some tidy tidy' hk
    have hone := tidy.length_others hk
    have hone' := tidy'.length_others hk'
    omega
  | none =>
    rw [others_of_find?_eq_none hk]
    cases hk' : m'.find? k with
    | some a' =>
      have hone' := tidy'.length_others hk'
      omega
    | none =>
      rw [others_of_find?_eq_none hk']
      exact hroom

end Included
end Recency

namespace Lru
open Queue
variable {K V : Type}

/-- A life that does not end at any time of the requests. -/
def Outlasts (requests : List (Request K V)) (created : Instant) (ttl : Duration) : Prop :=
  ∀ expiry ∈ created.add? ttl, ∀ r ∈ requests, ∀ t ∈ r.instant?, ¬ expiry ≤ t

/-- No entry that the requests store expires at any of their times. -/
def Lasting (requests : List (Request K V)) : Prop :=
  ∀ r ∈ requests, ∀ expiry ∈ r.expiry?, ∀ r' ∈ requests, ∀ t ∈ r'.instant?, ¬ expiry ≤ t

instance (requests : List (Request K V)) : Decidable (Lasting requests) :=
  inferInstanceAs (Decidable (∀ r ∈ requests, ∀ expiry ∈ r.expiry?, ∀ r' ∈ requests,
    ∀ t ∈ r'.instant?, ¬ expiry ≤ t))

variable [DecidableEq K] {e e' : Lru K V} {m m' : Recency K V} {is is' : List Nat}
  {requests : List (Request K V)} {r : Request K V} {now : Instant}

/-! ## Sweeps that find nothing -/

theorem sweep_of_live (live : ∀ i a, entryAt? e.queue i = some a → a.isExpired now = false)
    (cursor budget : Nat) : (e.sweep cursor budget now).2 = e := by
  rw [sweep]
  exact congrArg Prod.snd (Sweep.visit_eq_self _ fun i _ => Inv.reclaim_live (live i))

theorem purge_of_live (live : ∀ i a, entryAt? e.queue i = some a → a.isExpired now = false) :
    (e.purge now).2 = e := by
  rw [Inv.purge_eq]
  refine Sweep.pass_induction (Inv.purgeBatch now) (motive := (· = e)) ?_ _ 0 rfl
  rintro cursor _ rfl
  exact sweep_of_live live cursor Word.max

/-! ## Two engines side by side -/

theorem Mirrors.tidy (h : Mirrors e m is) : m.Tidy where
  nodup := by
    rw [h.entries_eq, List.map_filterMap]
    exact h.inv.tracks.nodup_keys h.inv.linked.nodup
  length_le := by
    rw [h.length_eq, h.inv.size_eq, h.capacity_eq]
    exact h.inv.length_le

theorem Mirrors.live (h : Mirrors e m is)
    (live : ∀ i a, entryAt? e.queue i = some a → a.isExpired now = false) :
    ∀ a ∈ m.entries, a.isExpired now = false := by
  intro a ha
  rw [h.entries_eq, List.mem_filterMap] at ha
  obtain ⟨i, -, hi⟩ := ha
  exact live i a hi

omit [DecidableEq K] in
theorem live_of_outlasts {f : Nat → Option (Entry K V)} (h : Lives (fun _ => Outlasts requests) f)
    (hr : r ∈ requests) (hnow : now ∈ r.instant?) : ∀ i a, f i = some a → a.isExpired now = false := by
  intro i a ha
  rw [← Bool.not_eq_true, Entry.isExpired_iff]
  rintro ⟨expiry, hexpiry, hle⟩
  exact h i a ha expiry hexpiry r hr now hnow hle

/-- Engines of which one holds a part of the other's entries, in the same order and with no more room
left, and no entry expires at any time of the requests. -/
structure Nested (requests : List (Request K V)) (e e' : Lru K V) : Prop where
  included : ∃ m is m' is', Mirrors e m is ∧ Mirrors e' m' is' ∧ m.Included m'
  outlasts : Lives (fun _ => Outlasts requests) (entryAt? e.queue)
  outlasts' : Lives (fun _ => Outlasts requests) (entryAt? e'.queue)

namespace Nested

theorem new {capacity capacity' : Nat} (le : capacity ≤ capacity') :
    Nested requests (Lru.new capacity : Lru K V) (Lru.new capacity') where
  included := ⟨_, _, _, _, Mirrors.new capacity, Mirrors.new capacity', le, List.Sublist.refl _, le⟩
  outlasts i a hi := by cases (Inv.new capacity).mem_of_entryAt? hi
  outlasts' i a hi := by cases (Inv.new capacity').mem_of_entryAt? hi

theorem included_step (h : Nested requests e e') (hr : r ∈ requests) :
    (∀ v, ((Engine.lru e).step r).1 = .read (.ok v) →
      ((Engine.lru e').step r).1 = .read (.ok v)) ∧
    ∃ f f', ((Engine.lru e).step r).2 = .lru f ∧ ((Engine.lru e').step r).2 = .lru f' ∧
      ∃ m is m' is', Mirrors f m is ∧ Mirrors f' m' is' ∧ m.Included m' := by
  obtain ⟨m, is, m', is', hm, hm', hincluded⟩ := h.included
  have tidy := hm.tidy
  have tidy' := hm'.tidy
  have live {now : Instant} : now ∈ r.instant? → _ := live_of_outlasts h.outlasts hr
  have live' {now : Instant} : now ∈ r.instant? → _ := live_of_outlasts h.outlasts' hr
  cases r with
  | get k now =>
    obtain ⟨hanswer, is, hnext⟩ := hm.get k now
    obtain ⟨hanswer', is', hnext'⟩ := hm'.get k now
    obtain ⟨hhit, hget⟩ := hincluded.get tidy tidy' (hm.live (live rfl)) (hm'.live (live' rfl)) k
    refine ⟨fun v hv => congrArg Answer.read ?_, _, _, rfl, rfl, _, _, _, _, hnext, hnext', hget⟩
    have hsmall : (e.get k now).1 = .ok v := Answer.read.inj hv
    exact hanswer'.trans (hhit v (hanswer.symm.trans hsmall))
  | put k v ttl now =>
    obtain ⟨is, hnext⟩ := hm.put k v ttl now
    obtain ⟨is', hnext'⟩ := hm'.put k v ttl now
    exact ⟨fun _ => nofun, _, _, rfl, rfl, _, _, _, _, hnext, hnext',
      hincluded.put tidy tidy' k v ttl now⟩
  | remove k =>
    obtain ⟨-, is, hnext⟩ := hm.remove k
    obtain ⟨-, is', hnext'⟩ := hm'.remove k
    exact ⟨fun _ => nofun, _, _, rfl, rfl, _, _, _, _, hnext, hnext',
      hincluded.remove tidy tidy' k⟩
  | contains k => exact ⟨fun _ => nofun, _, _, rfl, rfl, h.included⟩
  | size => exact ⟨fun _ => nofun, _, _, rfl, rfl, h.included⟩
  | clear =>
    exact ⟨fun _ => nofun, _, _, rfl, rfl, _, _, _, _, hm.cleared, hm'.cleared,
      hincluded.capacity_le, List.Sublist.refl _, hincluded.capacity_le⟩
  | sweep cursor budget now =>
    refine ⟨fun _ => nofun, e, e', ?_, ?_, h.included⟩
    · exact congrArg Engine.lru (sweep_of_live (live rfl) cursor budget)
    · exact congrArg Engine.lru (sweep_of_live (live' rfl) cursor budget)
  | purge now =>
    refine ⟨fun _ => nofun, e, e', ?_, ?_, h.included⟩
    · exact congrArg Engine.lru (purge_of_live (live rfl))
    · exact congrArg Engine.lru (purge_of_live (live' rfl))

/-- A request that both engines get leaves the one nested in the other. -/
theorem step (h : Nested requests e e') (lasting : Lasting requests) (hr : r ∈ requests) :
    ∃ f f', ((Engine.lru e).step r).2 = .lru f ∧ ((Engine.lru e').step r).2 = .lru f' ∧
      Nested requests f f' := by
  obtain ⟨-, f, f', hf, hf', hincluded⟩ := h.included_step hr
  obtain ⟨_, is, _, is', hm, hm', -⟩ := h.included
  have hsound : (Engine.lru e).Sound := ⟨is, hm.inv⟩
  have hsound' : (Engine.lru e').Sound := ⟨is', hm'.inv⟩
  have hlives := hsound.lives_step h.outlasts r
  have hlives' := hsound'.lives_step h.outlasts' r
  rw [hf] at hlives
  rw [hf'] at hlives'
  have hnew : ∀ k v ttl now, r = .put k v ttl now → Nat → Outlasts requests now ttl := by
    rintro k v ttl now rfl -
    exact lasting _ hr
  exact ⟨f, f', hf, hf', hincluded, hlives hnew, hlives' hnew⟩

theorem run (h : Nested requests e e') (lasting : Lasting requests) {script : List (Request K V)}
    (sub : script ⊆ requests) :
    List.Forall₂ (fun answer answer' => ∀ v, answer = .read (.ok v) → answer' = .read (.ok v))
        ((Engine.lru e).run script).1 ((Engine.lru e').run script).1 ∧
      ∃ f f', ((Engine.lru e).run script).2 = .lru f ∧ ((Engine.lru e').run script).2 = .lru f' ∧
        Nested requests f f' := by
  induction script generalizing e e' with
  | nil => exact ⟨.nil, e, e', rfl, rfl, h⟩
  | cons r rest ih =>
    obtain ⟨hr, hrest⟩ := List.cons_subset.1 sub
    obtain ⟨f, f', hf, hf', hnext⟩ := h.step lasting hr
    obtain ⟨hanswers, hlast⟩ := ih hnext hrest
    rw [Engine.run_cons, Engine.run_cons, hf, hf']
    exact ⟨.cons (h.included_step hr).1 hanswers, hlast⟩

theorem sublist_keys (h : Nested requests e e') :
    ∃ ks ks', e.keys? = some ks ∧ e'.keys? = some ks' ∧ ks.Sublist ks' := by
  obtain ⟨m, is, m', is', hm, hm', hincluded⟩ := h.included
  have hkeys := hincluded.sublist.map Prod.fst
  rw [List.map_map, List.map_map] at hkeys
  exact ⟨_, _, hm.keys?_eq, hm'.keys?_eq, hkeys⟩

theorem find?_eq_some (h : Nested requests e e') {k : K} {a : Entry K V}
    (hk : (Engine.lru e).find? k = some a) :
    ∃ a', (Engine.lru e').find? k = some a' ∧ a'.value = a.value := by
  obtain ⟨m, is, m', is', hm, hm', hincluded⟩ := h.included
  obtain ⟨a', hk', hvalue⟩ :=
    hincluded.find?_eq_some hm.tidy hm'.tidy ((hm.find?_eq k).trans hk)
  exact ⟨a', (hm'.find?_eq k).symm.trans hk', hvalue⟩

end Nested

/-- As long as nothing expires, a bigger engine answers every read that a smaller one answers, and
after every part of a script the keys of the smaller one are among those of the bigger one, in the
same order and with the same values. -/
theorem run_inclusion {capacity capacity' : Nat} (le : capacity ≤ capacity')
    (requests : List (Request K V)) (lasting : Lasting requests) :
    let small : Engine K V := .new .lru capacity
    let large : Engine K V := .new .lru capacity'
    List.Forall₂ (fun answer answer' => ∀ v, answer = .read (.ok v) → answer' = .read (.ok v))
        (small.run requests).1 (large.run requests).1 ∧
      ∀ done, done <+: requests →
        ∃ e e', (small.run done).2 = .lru e ∧ (large.run done).2 = .lru e' ∧
          (∃ ks ks', e.keys? = some ks ∧ e'.keys? = some ks' ∧ ks.Sublist ks') ∧
          ∀ k a, (Engine.lru e).find? k = some a →
            ∃ a', (Engine.lru e').find? k = some a' ∧ a'.value = a.value := by
  intro small large
  have hstart : Nested requests (Lru.new capacity : Lru K V) (Lru.new capacity') := .new le
  refine ⟨(hstart.run lasting (List.Subset.refl _)).1, fun done hdone => ?_⟩
  obtain ⟨-, e, e', he, he', hnested⟩ := hstart.run lasting hdone.subset
  exact ⟨e, e', he, he', hnested.sublist_keys, fun k a => hnested.find?_eq_some⟩

/-- A read that only the bigger engine answers, a write that drives out an entry of the smaller one
only, and a read that both answer. -/
theorem run_inclusion_two :
    let requests : List (Request Nat Nat) :=
      [.put 1 10 (.ofSecs 9) .origin, .put 2 20 (.ofSecs 9) .origin, .put 3 30 .max .origin,
        .get 1 (.ofMillis 4000), .put 2 21 .max (.ofMillis 1000), .remove 3, .get 2 (.ofMillis 3000)]
    let small : Engine Nat Nat := .new .lru 2
    let large : Engine Nat Nat := .new .lru 3
    2 ≤ 3 ∧ Lasting requests ∧
      List.Forall₂ (fun answer answer' => ∀ v, answer = .read (.ok v) → answer' = .read (.ok v))
        (small.run requests).1 (large.run requests).1 ∧
      ∀ done, done <+: requests →
        ∃ e e', (small.run done).2 = .lru e ∧ (large.run done).2 = .lru e' ∧
          (∃ ks ks', e.keys? = some ks ∧ e'.keys? = some ks' ∧ ks.Sublist ks') ∧
          ∀ k a, (Engine.lru e).find? k = some a →
            ∃ a', (Engine.lru e').find? k = some a' ∧ a'.value = a.value := by
  intro requests small large
  have hlasting : Lasting requests := by decide
  exact ⟨by decide, hlasting, run_inclusion (by decide) requests hlasting⟩

end Lru
end BoundedCache
