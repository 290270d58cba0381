import BoundedCache.Proofs.Engine.Order
import BoundedCache.Proofs.Requests
import Mathlib.Data.List.DropRight

/-! # A scan leaves the entries that were used again alone

A write under a new key enters the lowest frequency. While an entry of that frequency is there to be
dropped, new entries drop one another in the order in which they came, and no others.
-/
namespace BoundedCache

/-- What is dropped early does not matter to the last few elements. -/
theorem rtake_rtake_append {α : Type} (xs ys : List α) (n : Nat) :
    (xs.rtake n ++ ys).rtake n = (xs ++ ys).rtake n := by
  simp only [List.rtake_eq_reverse_take_reverse, List.reverse_append, List.reverse_reverse,
    List.take_append, List.take_take]
  rw [Nat.min_eq_left (Nat.sub_le ..)]

theorem rtake_of_length_le {α : Type} {xs : List α} {n : Nat} (h : xs.length ≤ n) :
    xs.rtake n = xs := by
  rw [List.rtake, Nat.sub_eq_zero_of_le h, List.drop_zero]

theorem rtake_min_length {α : Type} (xs : List α) (n : Nat) :
    xs.rtake (min n xs.length) = xs.rtake n := by
  rcases Nat.le_total n xs.length with hle | hle
  · rw [Nat.min_eq_left hle]
  · rw [Nat.min_eq_right hle, rtake_of_length_le (Nat.le_refl _), rtake_of_length_le hle]

namespace Lfu
open Ranking
variable {K V : Type} [DecidableEq K] {e e' e'' : Lfu K V} {slots slots' slots'' : Nat → List Nat}
  {a : Entry K V} {i f hot : Nat} {k : K} {scan : List (Entry K V)}

/-- The keys that were used more than once. -/
def hotKeys (e : Lfu K V) : List K :=
  e.table.keys.filter fun k => (e.freq? k).any fun f => decide (2 ≤ f)

/-- The entries that were used once, in their order. -/
def once (e : Lfu K V) (slots : Nat → List Nat) : List (Entry K V) :=
  (slots 1).filterMap e.ranking.entryAt?

namespace Inv

theorem freq?_eq_some_iff (h : Inv e slots) :
    e.freq? k = some f ↔ ∃ i ∈ slots f, (e.ranking.entryAt? i).map Entry.key = some k := by
  constructor
  · intro hk
    obtain ⟨i, hget, hfreq⟩ := Option.bind_eq_some_iff.1 hk
    obtain ⟨node, hnode, rfl⟩ := Option.map_eq_some_iff.1 hfreq
    exact ⟨i, (h.one_le_freq hnode).1, (h.tracks k i).1 hget⟩
  · rintro ⟨i, hi, hkey⟩
    rw [freq?, (h.tracks k i).2 hkey, Option.bind_some]
    exact h.ranked.filed.freq_eq f i hi

theorem mem_hotKeys (h : Inv e slots) :
    k ∈ e.hotKeys ↔ ∃ f, 2 ≤ f ∧ ∃ i ∈ slots f, (e.ranking.entryAt? i).map Entry.key = some k := by
  rw [hotKeys, List.mem_filter, Dict.mem_keys_iff, Option.any_eq_true]
  constructor
  · rintro ⟨-, f, hfreq, hf⟩
    exact ⟨f, of_decide_eq_true hf, h.freq?_eq_some_iff.1 hfreq⟩
  · rintro ⟨f, hf, i, hi, hkey⟩
    refine ⟨?_, f, h.freq?_eq_some_iff.2 ⟨i, hi, hkey⟩, decide_eq_true hf⟩
    rw [(h.tracks k i).2 hkey]
    rfl

theorem length_once (h : Inv e slots) : (once e slots).length = (slots 1).length := by
  rw [once, List.length_filterMap_eq_countP, List.countP_eq_length]
  exact fun i hi => (h.mem_iff i).1 ⟨1, hi⟩

/-- The keys that were used once are the others. -/
theorem perm_once (h : Inv e slots) :
    (e.table.keys.filter fun k => !(e.freq? k).any fun f => decide (2 ≤ f)).Perm
      ((once e slots).map Entry.key) := by
  have hkeys : e.table.keys.Nodup := e.table.nodup
  have honce := h.tracks.nodup_keys (h.ranked.filed.nodup 1)
  rw [once, List.map_filterMap, List.perm_ext_iff_of_nodup (hkeys.filter _) honce]
  intro k
  rw [List.mem_filter, List.mem_filterMap, Dict.mem_keys_iff]
  constructor
  · rintro ⟨hk, hcold⟩
    obtain ⟨i, hget⟩ := Option.isSome_iff_exists.1 hk
    obtain ⟨a, ha, rfl⟩ := h.tracks.exists_entry hget
    obtain ⟨f, hf⟩ := h.exists_freq ha
    have hkey : (e.ranking.entryAt? i).map Entry.key = some a.key := by rw [ha, Option.map_some]
    have hfreq : e.freq? a.key = some f := h.freq?_eq_some_iff.2 ⟨i, hf, hkey⟩
    have hzero : f ≠ 0 := by
      rintro rfl
      rw [h.ranked.positive] at hf
      cases hf
    have hone : f = 1 := by
      rw [hfreq, Option.any_some, Bool.not_eq_true', decide_eq_false_iff_not] at hcold
      omega
    exact ⟨i, hone ▸ hf, hkey⟩
  · rintro ⟨i, hi, hkey⟩
    rw [h.freq?_eq_some_iff.2 ⟨i, hi, hkey⟩, (h.tracks k i).2 hkey]
    exact ⟨rfl, rfl⟩

/-- A key was used once or more often. -/
theorem size_eq_hotKeys (h : Inv e slots) : e.size = e.hotKeys.length + (slots 1).length := by
  have hsplit := List.length_eq_length_filter_add (l := e.table.keys)
    fun k => (e.freq? k).any fun f => decide (2 ≤ f)
  rw [h.perm_once.length_eq, List.length_map, h.length_once, Dict.keys, List.length_map] at hsplit
  rw [← h.table_size_eq]
  exact hsplit

end Inv

/-! ## Writes under new keys -/

/-- Nothing has happened to the entries that were used more than once, so many of them. -/
structure Spared (hot : Nat) (e : Lfu K V) (slots : Nat → List Nat) (e' : Lfu K V)
    (slots' : Nat → List Nat) : Prop where
  inv : Inv e' slots'
  capacity_eq : e'.capacity = e.capacity
  size_eq : e'.size = hot + (slots' 1).length
  slots_eq : ∀ f, 2 ≤ f → slots' f = slots f
  entryAt?_eq : ∀ f, 2 ≤ f → ∀ i ∈ slots f, e'.ranking.entryAt? i = e.ranking.entryAt? i

namespace Spared

theorem refl (h : Inv e slots) (size_eq : e.size = hot + (slots 1).length) :
    Spared hot e slots e slots :=
  ⟨h, rfl, size_eq, fun _ _ => rfl, fun _ _ _ _ => rfl⟩

theorem trans (h : Spared hot e slots e' slots') (h' : Spared hot e' slots' e'' slots'') :
    Spared hot e slots e'' slots'' where
  inv := h'.inv
  capacity_eq := h'.capacity_eq.trans h.capacity_eq
  size_eq := h'.size_eq
  slots_eq f hf := (h'.slots_eq f hf).trans (h.slots_eq f hf)
  entryAt?_eq f hf i hi :=
    (h'.entryAt?_eq f hf i (h.slots_eq f hf ▸ hi)).trans (h.entryAt?_eq f hf i hi)

theorem contains_freq?_find? (hspared : Spared hot e slots e' slots') (h : Inv e slots)
    (hk : k ∈ e.hotKeys) :
    e'.contains k = true ∧ e'.freq? k = e.freq? k ∧
      (Engine.lfu e').find? k = (Engine.lfu e).find? k := by
  obtain ⟨f, hf, i, hi, hkey⟩ := h.mem_hotKeys.1 hk
  have hi' : i ∈ slots' f := by rwa [hspared.slots_eq f hf]
  have hentry := hspared.entryAt?_eq f hf i hi
  have hkey' : (e'.ranking.entryAt? i).map Entry.key = some k := by rwa [hentry]
  have hget : e.table.get? k = some i := (h.tracks k i).2 hkey
  have hget' : e'.table.get? k = some i := (hspared.inv.tracks k i).2 hkey'
  refine ⟨?_, ?_, ?_⟩
  · rw [Lfu.contains, Dict.contains, hget']
    rfl
  · rw [hspared.inv.freq?_eq_some_iff.2 ⟨i, hi', hkey'⟩, h.freq?_eq_some_iff.2 ⟨i, hi, hkey⟩]
  · rw [Engine.find?, Engine.find?, Engine.table, Engine.table, hget, hget']
    exact hentry

end Spared

namespace Inv

theorem minFreq_eq_one (h : Inv e slots) (hne : slots 1 ≠ []) : e.ranking.minFreq = 1 := by
  have hle := h.ranked.minFreq_le hne
  have hzero := mt h.ranked.minFreq_eq_zero_iff.1 fun hnil => hne (hnil 1)
  omega

theorem ne_nextSlot (h : Inv e slots) (hi : i ∈ slots f) : e.ranking.nodes.nextSlot ≠ i := by
  rintro rfl
  have hsome := (h.mem_iff _).1 ⟨f, hi⟩
  rw [Ranking.entryAt?, h.wellFormed.get?_nextSlot] at hsome
  cases hsome

theorem spared_without (h : Inv e slots) (size_eq : e.size = hot + (slots 1).length)
    {is : List Nat} (hfirst : slots 1 = i :: is) (ha : e.ranking.entryAt? i = some a) :
    Spared hot e slots (e.without i a) (dropped slots i) ∧
      once (e.without i a) (dropped slots i) = (once e slots).tail := by
  have hi : i ∈ slots 1 := hfirst ▸ List.mem_cons_self
  have hnodup := h.ranked.filed.nodup 1
  rw [hfirst, List.nodup_cons] at hnodup
  have hdropped : dropped slots i 1 = is := by
    rw [dropped, hfirst, List.filter_cons_of_neg (by simp), Links.filter_ne_of_notMem hnodup.1]
  have hentry : ∀ j, j ≠ i → (e.without i a).ranking.entryAt? j = e.ranking.entryAt? j := by
    intro j hj
    exact (e.ranking.entryAt?_remove i j).trans (if_neg (Ne.symm hj))
  have hapart : ∀ f, 2 ≤ f → i ∉ slots f := by
    intro f hf hmem
    have hsame := h.ranked.filed.unique hmem hi
    omega
  constructor
  · refine ⟨h.without ha, rfl, ?_, fun f hf => dropped_of_notMem (hapart f hf), ?_⟩
    · have hsize := h.size_without ha
      rw [hfirst, List.length_cons] at size_eq
      rw [hdropped]
      omega
    · intro f hf j hj
      exact hentry j fun hji => hapart f hf (hji ▸ hj)
  · rw [once, once, hdropped, hfirst, List.filterMap_cons_some ha, List.tail_cons]
    apply List.filterMap_congr
    intro j hj
    exact hentry j fun hji => hnodup.1 (hji ▸ hj)

theorem spared_withNew (h : Inv e slots) (size_eq : e.size = hot + (slots 1).length)
    (hk : e.table.get? a.key = none) (room : e.size < e.capacity) :
    Spared hot e slots (e.withNew a) (appended slots 1 e.ranking.nodes.nextSlot) ∧
      once (e.withNew a) (appended slots 1 e.ranking.nodes.nextSlot) = once e slots ++ [a] := by
  have happended : appended slots 1 e.ranking.nodes.nextSlot 1 =
      slots 1 ++ [e.ranking.nodes.nextSlot] := if_pos rfl
  have hentry : ∀ f j, j ∈ slots f →
      (e.withNew a).ranking.entryAt? j = e.ranking.entryAt? j := by
    intro f j hj
    exact (entryAt?_insert h.wellFormed a j).trans (if_neg (h.ne_nextSlot hj))
  have hnew : (e.withNew a).ranking.entryAt? e.ranking.nodes.nextSlot = some a :=
    (entryAt?_insert h.wellFormed a _).trans (if_pos rfl)
  constructor
  · refine ⟨h.withNew hk room, rfl, ?_, fun f hf => if_neg (by omega), fun f _ => hentry f⟩
    have hsize : (e.withNew a).size = e.size + 1 :=
      (alike_insert e.ranking a).size.trans (Slab.size_insert ..)
    rw [hsize, happended, List.length_append, size_eq]
    rfl
  · rw [once, once, happended, List.filterMap_append, List.filterMap_congr (hentry 1)]
    simp [hnew]

/-- A full engine drops the entry that was used once the longest ago. -/
theorem spared_roomy (h : Inv e slots) (size_eq : e.size = hot + (slots 1).length)
    (room : hot < e.capacity) :
    ∃ slots', Spared hot e slots (roomy e) slots' ∧ (roomy e).size < e.capacity ∧
      once (roomy e) slots' = (once e slots).rtake (e.capacity - hot - 1) := by
  have hlength := h.length_once
  rcases h.roomy_cases (Nat.ne_of_gt (Nat.zero_lt_of_lt room)) with
    ⟨hlt, heq⟩ | ⟨hfull, i, a, hi, ha, heq⟩
  · rw [heq]
    refine ⟨slots, .refl h size_eq, hlt, (rtake_of_length_le ?_).symm⟩
    omega
  · rw [heq]
    -- a full engine holds more than the hot entries, so the lowest frequency is one
    have hne : slots 1 ≠ [] := by
      intro hnil
      rw [hnil, List.length_nil] at size_eq
      omega
    rw [h.minFreq_eq_one hne] at hi
    obtain ⟨is, hfirst⟩ := List.head?_eq_some_iff.1 hi
    obtain ⟨hspared, honce⟩ := h.spared_without size_eq hfirst ha
    have hsize := h.size_without ha
    have hle := h.size_le
    have hone : (once e slots).length - (e.capacity - hot - 1) = 1 := by omega
    refine ⟨_, hspared, by omega, ?_⟩
    rw [honce, List.rtake, hone, List.drop_one]

theorem spared_put (h : Inv e slots) (size_eq : e.size = hot + (slots 1).length)
    (room : hot < e.capacity) (hk : e.table.get? a.key = none) :
    ∃ slots', Spared hot e slots (e.put a.key a.value a.ttl a.createdAt) slots' ∧
      once (e.put a.key a.value a.ttl a.createdAt) slots' =
        (once e slots ++ [a]).rtake (e.capacity - hot) := by
  have hc : e.capacity ≠ 0 := Nat.ne_of_gt (Nat.zero_lt_of_lt room)
  obtain ⟨slots', hroomy, hlt, honce⟩ := h.spared_roomy size_eq room
  obtain ⟨hnew, hput⟩ := hroomy.inv.spared_withNew hroomy.size_eq (h.roomy_absent hc hk)
    (hroomy.capacity_eq ▸ hlt)
  have hwindow : e.capacity - hot = e.capacity - hot - 1 + 1 := by omega
  rw [put_new hk hc]
  refine ⟨_, hroomy.trans hnew, ?_⟩
  rw [hput, honce, hwindow, List.rtake_concat_succ, Nat.add_sub_cancel]

theorem spared_scan (h : Inv e slots) (size_eq : e.size = hot + (slots 1).length)
    (room : hot < e.capacity)
    (fresh : ∀ n (hn : n < scan.length),
      ((Engine.lfu e).run ((scan.take n).map Entry.store)).2.contains scan[n].key = false) :
    ∃ e' slots', ((Engine.lfu e).run (scan.map Entry.store)).2 = .lfu e' ∧
      Spared hot e slots e' slots' ∧
      once e' slots' = (once e slots ++ scan).rtake (e.capacity - hot) := by
  induction scan generalizing e slots with
  | nil =>
    have hlength := h.length_once
    have hle := h.size_le
    refine ⟨e, slots, rfl, .refl h size_eq, ?_⟩
    rw [List.append_nil, rtake_of_length_le (by omega)]
  | cons a rest ih =>
    have hfirst : (e.table.get? a.key).isSome = false := fresh 0 (Nat.succ_pos _)
    have hk : e.table.get? a.key = none := Option.not_isSome_iff_eq_none.1 (by simp [hfirst])
    obtain ⟨slots₁, hput, honce⟩ := h.spared_put size_eq room hk
    obtain ⟨e', slots', hrun, hrest, honce'⟩ := ih hput.inv hput.size_eq
      (hput.capacity_eq ▸ room) fun n hn => fresh (n + 1) (Nat.succ_lt_succ hn)
    refine ⟨e', slots', hrun, hput.trans hrest, ?_⟩
    rw [honce', honce, hput.capacity_eq, rtake_rtake_append, List.append_assoc]
    rfl

end Inv

/-- Whatever is written under new keys after a run, one at a time: the keys that were used more than
once stay as they are, as long as they are fewer than the capacity. Of the entries that were used once
and those that are written, the last ones are left, in the order in which they were stored. -/
theorem run_scan (capacity : Nat) (requests : List (Request K V))
    (reached : ((Engine.new .lfu capacity).run requests).2 = .lfu e)
    (room : e.hotKeys.length < capacity) (scan : List (Entry K V))
    (fresh : ∀ n (hn : n < scan.length),
      ((Engine.lfu e).run ((scan.take n).map Entry.store)).2.contains scan[n].key = false) :
    ∃ e' old, ((Engine.lfu e).run (scan.map Entry.store)).2 = .lfu e' ∧
      (∀ k ∈ e.hotKeys, e'.contains k = true ∧ e'.freq? k = e.freq? k ∧
        (Engine.lfu e').find? k = (Engine.lfu e).find? k) ∧
      e.bucket? 1 = some old ∧
      e'.bucket? 1 = some ((old ++ scan).rtake
        (min (capacity - e.hotKeys.length) (old ++ scan).length)) := by
  obtain ⟨_, slots, he, hcapacity, h⟩ := run_sound capacity requests
  cases reached.symm.trans he
  subst hcapacity
  obtain ⟨e', slots', hrun, hspared, honce⟩ := h.spared_scan h.size_eq_hotKeys room fresh
  refine ⟨e', once e slots, hrun, fun k => hspared.contains_freq?_find? h, h.bucket?_eq 1, ?_⟩
  rw [hspared.inv.bucket?_eq, ← once, honce, rtake_min_length]

/-- One key that was read in an engine of two: every write drops the only other entry. -/
theorem run_scan_lone :
    let requests : List (Request Nat Nat) :=
      [.put 1 10 (.ofSecs 5) .origin, .get 1 (.ofMillis 1000), .put 2 20 (.ofSecs 5) .origin]
    let scan : List (Entry Nat Nat) :=
      [{ key := 3, value := 30, createdAt := .ofMillis 2000, ttl := .ofSecs 5 },
        { key := 4, value := 40, createdAt := .ofMillis 9000, ttl := .zero }]
    ∃ e : Lfu Nat Nat, ((Engine.new .lfu 2).run requests).2 = .lfu e ∧
      e.hotKeys.length < 2 ∧
      (∀ n (hn : n < scan.length),
        ((Engine.lfu e).run ((scan.take n).map Entry.store)).2.contains scan[n].key = false) ∧
      ∃ e' old, ((Engine.lfu e).run (scan.map Entry.store)).2 = .lfu e' ∧
        (∀ k ∈ e.hotKeys, e'.contains k = true ∧ e'.freq? k = e.freq? k ∧
          (Engine.lfu e').find? k = (Engine.lfu e).find? k) ∧
        e.bucket? 1 = some old ∧
        e'.bucket? 1 = some ((old ++ scan).rtake
          (min (2 - e.hotKeys.length) (old ++ scan).length)) := by
  intro requests scan
  exact ⟨_, rfl, by decide, by decide, run_scan 2 requests rfl (by decide) scan (by decide)⟩

end Lfu
end BoundedCache
