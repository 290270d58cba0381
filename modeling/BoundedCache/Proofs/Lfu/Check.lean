import BoundedCache.Lfu.Check
import BoundedCache.Proofs.Engine.Changes

/-! # A sound engine passes its check -/
namespace BoundedCache.Lfu
open Ranking Links
variable {K V : Type} [DecidableEq K] {e : Lfu K V} {f : Nat} {fs : List Nat}
  {slots : Nat → List Nat}

/-- What the check looks for: the chain runs upwards through the buckets, these file the occupied
slots, the table leads to them, and the sizes agree. -/
structure Checked (e : Lfu K V) (fs : List Nat) (slots : Nat → List Nat) : Prop where
  sorted : fs.Pairwise (· < ·)
  mem_iff : ∀ f, f ∈ fs ↔ (e.ranking.buckets.get? f).isSome
  higher : Leads (higherOf? e.ranking) id fs
  lower : Leads (lowerOf? e.ranking fs.getLast?) id fs.reverse
  filed : Filed e.ranking slots
  nonempty : ∀ f ∈ fs, slots f ≠ []
  cover : ∀ i, (∃ f, i ∈ slots f) ↔ (e.ranking.nodes.get? i).isSome
  tracked : ∀ f, ∀ i ∈ slots f, ∃ a, e.ranking.entryAt? i = some a ∧ e.table.get? a.key = some i
  table_size_eq : e.table.size = e.size
  size_le : e.size ≤ e.capacity

theorem Inv.checked (h : Inv e slots) : ∃ fs, Checked e fs slots := by
  obtain ⟨fs, hchained, hmem⟩ := h.ranked.chained
  refine ⟨fs, hchained.sorted, hchained.mem_iff, hchained.higher, hchained.lower, h.ranked.filed,
    fun f => (hmem f).1, fun i => ?_, fun f i hi => ?_, h.table_size_eq, h.size_le⟩
  · rw [h.mem_iff, Ranking.entryAt?, Option.isSome_map]
  · obtain ⟨a, ha⟩ := h.exists_entry hi
    exact ⟨a, ha, h.tracks.get?_key ha⟩

namespace Checked

/-- The walk through a bucket from one of its slots on, after those seen before. -/
theorem bucketFrom_eq (h : Checked e fs slots) (xs ys : List Nat) (hf : slots f = xs ++ ys)
    (seen : List Nat) (hseen : ∀ i ∈ ys, i ∉ seen) {fuel : Nat} (hfuel : ys.length ≤ fuel) :
    e.bucketFrom f fuel seen xs.getLast? ys.head? = .ok (ys, (xs ++ ys).getLast?) := by
  induction ys generalizing xs seen fuel with
  | nil => cases fuel <;> simp [bucketFrom]
  | cons i ys ih =>
    obtain ⟨fuel, rfl⟩ := Nat.exists_eq_add_one_of_ne_zero
      (Nat.ne_of_gt (Nat.lt_of_lt_of_le (Nat.succ_pos _) hfuel))
    have hmem : i ∈ slots f := by simp [hf]
    obtain ⟨node, hnode⟩ := Option.isSome_iff_exists.1 (h.filed.isSome_get? hmem)
    obtain ⟨hfreq, hnext, hprev⟩ := h.filed.node_eq hf hnode
    obtain ⟨a, ha, hkey⟩ := h.tracked f i hmem
    rw [Ranking.entryAt?, hnode, Option.map_some, Option.some.injEq] at ha
    subst ha
    have hnodup := h.filed.nodup f
    rw [hf] at hnodup
    have hsplit : xs ++ i :: ys = (xs ++ [i]) ++ ys := by simp
    have hseen' : ∀ j ∈ ys, j ∉ i :: seen := by
      intro j hj
      have hij : j ≠ i := by
        rintro rfl
        exact (List.nodup_cons.1 (List.nodup_append.1 hnodup).2.1).1 hj
      rw [List.mem_cons, not_or]
      exact ⟨hij, hseen j (List.mem_cons_of_mem _ hj)⟩
    have hrest := ih (xs ++ [i]) (hf.trans hsplit) (i :: seen) hseen'
      (Nat.le_of_succ_le_succ hfuel)
    rw [List.getLast?_concat] at hrest
    rw [List.head?_cons, bucketFrom, hsplit]
    simp only [hnode, require_of (hseen i List.mem_cons_self), require_of hfreq,
      require_of hprev, require_of hkey, hnext, hrest]
    rfl

/-- The walk through some buckets, after those seen before. -/
theorem bucketSlots_eq (h : Checked e fs slots) (entries : List (Nat × Bucket))
    (nodup : (entries.map Prod.fst).Nodup)
    (buckets : ∀ f b, (f, b) ∈ entries → e.ranking.buckets.get? f = some b) (seen : List Nat)
    (hseen : ∀ f ∈ entries.map Prod.fst, ∀ i ∈ slots f, i ∉ seen) :
    e.bucketSlots seen entries = .ok (seen ++ (entries.map Prod.fst).flatMap slots) := by
  induction entries generalizing seen with
  | nil => simp [bucketSlots]
  | cons entry entries ih =>
    obtain ⟨f, b⟩ := entry
    have hb := buckets f b List.mem_cons_self
    have hf : f ∈ fs := (h.mem_iff f).2 (by simp [hb])
    have hhead := h.filed.head?_eq f
    have htail := h.filed.tail?_eq f
    rw [hb, Option.bind_some] at hhead htail
    have hne : b.head? ≠ none := by
      rw [hhead, Ne, List.head?_eq_none_iff]
      exact h.nonempty f hf
    have hfuel : (slots f).length ≤ e.ranking.nodes.slotCount + 1 :=
      Nat.le_succ_of_le (Slab.length_le_slotCount (h.filed.nodup f) fun _ => h.filed.isSome_get?)
    have hwalk := h.bucketFrom_eq [] (slots f) rfl seen (hseen f (by simp)) hfuel
    have hnodup := List.nodup_cons.1 nodup
    have hseen' : ∀ g ∈ entries.map Prod.fst, ∀ i ∈ slots g, i ∉ seen ++ slots f := by
      intro g hg i hi hmem
      rcases List.mem_append.1 hmem with hmem | hmem
      · exact hseen g (List.mem_cons_of_mem _ hg) i hi hmem
      · exact hnodup.1 (h.filed.unique hi hmem ▸ hg)
    have hrest := ih hnodup.2 (fun g c hc => buckets g c (List.mem_cons_of_mem _ hc))
      (seen ++ slots f) hseen'
    rw [List.getLast?_nil, ← hhead, List.nil_append, ← htail] at hwalk
    rw [bucketSlots]
    simp only [require_of hne, hwalk, ok_bind, require_of trivial, hrest, List.map_cons,
      List.flatMap_cons, List.append_assoc]

/-- The walk up the chain from one of its frequencies on. -/
theorem chainFrom_eq (h : Checked e fs slots) (xs ys : List Nat) (hfs : fs = xs ++ ys) {room : Nat}
    (hroom : ys.length ≤ room) :
    chainFrom e.ranking room xs.getLast? ys.head? = .ok ys.length := by
  induction ys generalizing xs room with
  | nil => cases room <;> simp [chainFrom]
  | cons f ys ih =>
    obtain ⟨room, rfl⟩ := Nat.exists_eq_add_one_of_ne_zero
      (Nat.ne_of_gt (Nat.lt_of_lt_of_le (Nat.succ_pos _) hroom))
    subst hfs
    have hnodup : (xs ++ f :: ys).Nodup := h.sorted.imp Nat.ne_of_lt
    have hhigher := h.higher (some f) (by simp)
    have hlower := h.lower (some f) (by simp)
    rw [after_middle hnodup, higherOf?, Option.map_eq_some_iff] at hhigher
    rw [after_reverse_middle hnodup, lowerOf?, Option.map_eq_some_iff] at hlower
    obtain ⟨b, hb, hbh⟩ := hhigher
    obtain ⟨b', hb', hbl⟩ := hlower
    cases hb.symm.trans hb'
    have hascending : ∀ lower ∈ xs.getLast?, lower < f := fun g hg =>
      (List.pairwise_append.1 h.sorted).2.2 g (List.mem_of_getLast? hg) f List.mem_cons_self
    have hrest := ih (xs ++ [f]) (by simp) (Nat.le_of_succ_le_succ hroom)
    rw [List.getLast?_concat] at hrest
    rw [List.head?_cons, chainFrom]
    simp only [hb, id] at hbl hbh ⊢
    simp only [hbl, require_of hascending, require_of trivial, hbh, hrest]
    rfl

theorem length_flatMap_keys (h : Checked e fs slots)
    (counted : e.ranking.nodes.size = e.ranking.nodes.occupied) :
    (e.ranking.buckets.keys.flatMap slots).length = e.size :=
  (counted.trans (Slab.occupied_eq_length h.filed.nodup_flatMap_keys fun i => by
    rw [h.filed.mem_flatMap_keys, h.cover])).symm

theorem keys_min? (h : Checked e fs slots)
    (counted : e.ranking.nodes.size = e.ranking.nodes.occupied) (hsize : 0 < e.size) :
    e.ranking.buckets.keys.min? = some e.ranking.minFreq := by
  have hlowest : e.ranking.lowest? = fs.head? := Option.some.inj h.higher.start
  have hmem : ∀ f, f ∈ e.ranking.buckets.keys ↔ f ∈ fs := fun f => by
    rw [Dict.mem_keys_iff, h.mem_iff]
  rw [← h.length_flatMap_keys counted] at hsize
  cases hfs : fs with
  | nil =>
    have hkeys : e.ranking.buckets.keys = [] :=
      List.eq_nil_iff_forall_not_mem.2 fun f hf => by simpa [hfs] using (hmem f).1 hf
    simp [hkeys] at hsize
  | cons f rest =>
    have hsorted := h.sorted
    rw [hfs] at hsorted hlowest
    rw [lowest?] at hlowest
    split at hlowest
    · cases hlowest
    · cases hlowest
      rw [List.min?_eq_some_iff]
      refine ⟨(hmem _).2 (by simp [hfs]), fun g hg => ?_⟩
      have hg := (hmem g).1 hg
      rw [hfs] at hg
      rcases List.mem_cons.1 hg with rfl | hg
      · exact Nat.le_refl _
      · exact Nat.le_of_lt ((List.pairwise_cons.1 hsorted).1 g hg)

theorem check_eq_of_counted (h : Checked e fs slots)
    (counted : e.ranking.nodes.size = e.ranking.nodes.occupied) : e.check = .ok () := by
  have hbuckets := h.bucketSlots_eq e.ranking.buckets.entries e.ranking.buckets.nodup
    (fun f b hb => (Dict.get?_eq_some_iff ..).2 hb) [] (by simp)
  have hcount : ((e.ranking.buckets.entries.map Prod.fst).flatMap slots).length = e.size :=
    h.length_flatMap_keys counted
  have hsize : e.ranking.buckets.size = fs.length :=
    Dict.size_eq_length (h.sorted.imp Nat.ne_of_lt) h.mem_iff
  have hlowest : e.ranking.lowest? = fs.head? := Option.some.inj h.higher.start
  have hchain := h.chainFrom_eq [] fs rfl (Nat.le_of_eq hsize.symm)
  rw [List.getLast?_nil, ← hlowest, ← hsize] at hchain
  rw [List.nil_append] at hbuckets
  simp only [check, hbuckets, hchain, ok_bind, require_of hcount,
    require_of h.table_size_eq, require_of (h.keys_min? counted), require_of h.size_le,
    require_of trivial]

theorem check_eq (h : Checked e fs slots) (wellFormed : e.ranking.nodes.WellFormed) :
    e.check = .ok () :=
  h.check_eq_of_counted wellFormed.size_eq

end Checked

/-- A ranking counts from one: no bucket and no node stands lower. -/
theorem Inv.one_le_freq (h : Inv e slots) {i : Nat} {node : Node K V}
    (hi : e.ranking.nodes.get? i = some node) : i ∈ slots node.freq ∧ 1 ≤ node.freq := by
  obtain ⟨f, hf⟩ := (h.mem_iff i).2 (by rw [Ranking.entryAt?, hi]; rfl)
  have hfreq := h.ranked.filed.freq_eq f i hf
  rw [hi, Option.map_some, Option.some.injEq] at hfreq
  subst hfreq
  refine ⟨hf, Nat.one_le_iff_ne_zero.2 fun hzero => ?_⟩
  rw [hzero, h.ranked.positive] at hf
  cases hf

theorem Inv.one_le_bucket (h : Inv e slots) (hf : (e.ranking.buckets.get? f).isSome) : 1 ≤ f := by
  obtain ⟨fs, hchained, hmem⟩ := h.ranked.chained
  have hne := (hmem f).1 ((hchained.mem_iff f).2 hf)
  refine Nat.one_le_iff_ne_zero.2 fun hzero => hne ?_
  rw [hzero, h.ranked.positive]

theorem Inv.minFreq_eq_zero_iff (h : Inv e slots) : e.ranking.minFreq = 0 ↔ e.size = 0 := by
  rw [h.ranked.minFreq_eq_zero_iff, size, ← h.wellFormed.length_held, List.length_eq_zero_iff,
    List.eq_nil_iff_forall_not_mem]
  have hheld : ∀ i, i ∈ e.ranking.nodes.held ↔ ∃ f, i ∈ slots f := fun i => by
    rw [Slab.mem_held, h.mem_iff, Ranking.entryAt?, Option.isSome_map]
  simp only [hheld, List.eq_nil_iff_forall_not_mem, not_exists]
  exact forall_comm

/-- After every run the check finds no fault: the buckets are chained upwards from the lowest
frequency, there and back, each files its slots, none of them twice, the table leads to exactly these
slots, and they are no more than the capacity. No frequency is below one, and the lowest is zero only
while there is none. -/
theorem run_check_ranking (capacity : Nat) (requests : List (Request K V)) :
    ∃ e fs slots, ((Engine.new .lfu capacity : Engine K V).run requests).2 = .lfu e ∧
      e.check = .ok () ∧ Chained e.ranking fs ∧ (∀ f, f ∈ fs ↔ slots f ≠ []) ∧
      Filed e.ranking slots ∧ (∀ f g i, i ∈ slots f → i ∈ slots g → f = g) ∧
      (∀ i, (∃ f, i ∈ slots f) ↔ (e.ranking.entryAt? i).isSome) ∧
      Tracks e.table e.ranking.entryAt? ∧ e.table.size = e.size ∧ e.size ≤ capacity ∧
      (∀ f, (e.ranking.buckets.get? f).isSome → 1 ≤ f) ∧
      (∀ i node, e.ranking.nodes.get? i = some node → 1 ≤ node.freq) ∧
      (e.ranking.minFreq = 0 ↔ e.isEmpty) := by
  obtain ⟨e, slots, he, hcapacity, h⟩ := run_sound capacity requests
  obtain ⟨_, hchecked⟩ := h.checked
  obtain ⟨fs, hchained, hmem⟩ := h.ranked.chained
  have hempty : e.isEmpty = true ↔ e.size = 0 := by simp [isEmpty]
  exact ⟨e, fs, slots, he, hchecked.check_eq h.wellFormed, hchained, hmem, h.ranked.filed,
    fun _ _ _ => h.ranked.filed.unique, h.mem_iff, h.tracks, h.table_size_eq,
    hcapacity ▸ h.size_le, fun _ => h.one_le_bucket, fun _ _ hi => (h.one_le_freq hi).2,
    by rw [hempty, h.minFreq_eq_zero_iff]⟩

end BoundedCache.Lfu
